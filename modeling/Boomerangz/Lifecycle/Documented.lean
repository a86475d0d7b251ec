import Boomerangz.Lifecycle.Coverage
import Boomerangz.Policy.Grid
import Mathlib.Data.Finset.Max

/-! # The documented grid

The plan as the manual describes it, window by window back from the newest owned snapshot.
-/

namespace Boomerangz.Lifecycle

open Machine Zfs Policy

/-! ## Windows -/

structure InWindow (grid : Grid) (pre : List Bucket) (b : Bucket) (i age : Nat) : Prop where
  split : ∃ post, grid.buckets = pre ++ b :: post
  index : i < b.count
  lower : reach pre + i * b.span ≤ age
  upper : age < reach pre + (i + 1) * b.span

def SameWindow (grid : Grid) (x y : Nat) : Prop := ∃ pre b i, InWindow grid pre b i x ∧ InWindow grid pre b i y

def counts (grid : Grid) : Nat := grid.buckets.foldr (fun b n => b.count + n) 0

/-- The loop over the buckets in 64-bit arithmetic. -/
def machineWindow : List Bucket → Nat → Int → Int → Option (Nat × Int)
  | [], _, _, _ => none
  | b :: bs, group, offset, age =>
    let last := wrap (offset + wrap (b.count * b.span))
    if offset ≤ age && age < last then some (group, (wrap (age - offset)).tdiv b.span)
    else machineWindow bs (group + 1) last age

section Windows

variable {grid : Grid} {pre : List Bucket} {b : Bucket} {i age x y : Nat} {w : Nat × Nat}

theorem inWindow_iff : InWindow grid pre b i age ↔
    TierAt grid.buckets pre b age ∧ i = (age - reach pre) / b.span := by
  constructor
  · rintro ⟨hsplit, hi, hlower, hupper⟩
    obtain ⟨post, hpost⟩ := hsplit
    have hspan := (grid.positive b (by simp [hpost])).2
    have hmul : (i + 1) * b.span ≤ b.count * b.span := Nat.mul_le_mul_right _ hi
    have h0 : 0 ≤ i * b.span := Nat.zero_le _
    refine ⟨⟨⟨post, hpost⟩, by omega, by omega⟩, ?_⟩
    symm
    apply Nat.div_eq_of_lt_le
    · omega
    · omega
  · rintro ⟨⟨⟨post, hpost⟩, hlower, hupper⟩, rfl⟩
    have hspan := (grid.positive b (by simp [hpost])).2
    have hdiv := Nat.div_add_mod (age - reach pre) b.span
    have hmod := Nat.mod_lt (age - reach pre) hspan
    refine ⟨⟨post, hpost⟩, ?_, ?_, ?_⟩
    · rw [Nat.div_lt_iff_lt_mul hspan]
      omega
    · rw [Nat.mul_comm]
      omega
    · rw [Nat.add_mul, Nat.mul_comm, Nat.one_mul]
      omega

theorem sameWindow_iff : SameWindow grid x y ↔
    ∃ w, windowOf grid.buckets 0 0 x = some w ∧ windowOf grid.buckets 0 0 y = some w := by
  simp only [windowOf_eq_some, Nat.zero_add]
  constructor
  · rintro ⟨pre, b, i, hx, hy⟩
    obtain ⟨hxt, hxi⟩ := inWindow_iff.mp hx
    obtain ⟨hyt, hyi⟩ := inWindow_iff.mp hy
    exact ⟨(pre.length, i), ⟨pre, b, hxt.split, hxt.lower, hxt.upper, by rw [hxi]⟩,
      pre, b, hyt.split, hyt.lower, hyt.upper, by rw [hyi]⟩
  · rintro ⟨w, ⟨pre, b, hsplit, hlower, hupper, rfl⟩, pre', b', hsplit', hlower', hupper', hw⟩
    obtain ⟨hlength, hindex⟩ := Prod.mk.inj hw
    have hx : TierAt grid.buckets pre b x := ⟨hsplit, hlower, hupper⟩
    have hy : TierAt grid.buckets pre' b' y := ⟨hsplit', hlower', hupper'⟩
    obtain ⟨rfl, rfl⟩ := hx.eq_of_length hy hlength
    exact ⟨pre, b, _, inWindow_iff.mpr ⟨hx, rfl⟩, inWindow_iff.mpr ⟨hy, hindex⟩⟩

theorem windowOf_eq_none {bs : List Bucket} {g o : Nat} (ho : o ≤ age) :
    windowOf bs g o age = none ↔ o + reach bs ≤ age := by
  induction bs generalizing g o with
  | nil => simpa [windowOf] using ho
  | cons c bs ih =>
    unfold windowOf
    dsimp only
    split
    · rename_i hin
      simp only [Bool.and_eq_true, decide_eq_true_eq] at hin
      have hupper : age < o + c.count * c.span := hin.2
      simp only [reach_cons, reduceCtorEq, false_iff]
      omega
    · rename_i hout
      simp only [Bool.and_eq_true, decide_eq_true_eq, not_and, not_lt] at hout
      rw [ih (hout ho), reach_cons]
      omega

theorem machineWindow_eq {bs : List Bucket} {g o : Nat}
    (hfits : ((o + reach bs : Nat) : Int) ≤ maxInt) (hage : (age : Int) ≤ maxInt) :
    machineWindow bs g o age = (windowOf bs g o age).map fun w => (w.1, (w.2 : Int)) := by
  induction bs generalizing g o with
  | nil => rfl
  | cons c bs ih =>
    rw [reach_cons] at hfits
    have hproduct : wrap ((c.count : Int) * c.span) = ((c.count * c.span : Nat) : Int) := by
      rw [Int.natCast_mul]
      apply wrap_of_fits
      · exact Int.mul_nonneg (Int.natCast_nonneg _) (Int.natCast_nonneg _)
      · rw [← Int.natCast_mul]
        omega
    have hlast : wrap ((o : Int) + wrap ((c.count : Int) * c.span)) = ((o + c.count * c.span : Nat) : Int) := by
      rw [hproduct]
      apply wrap_of_fits <;> omega
    unfold machineWindow windowOf
    dsimp only
    rw [hlast]
    have hsame : (decide ((o : Int) ≤ age) && decide ((age : Int) < ((o + c.count * c.span : Nat) : Int))) =
        (decide (o ≤ age) && decide (age < o + c.count * c.span)) := by
      simp only [Int.ofNat_le, Int.ofNat_lt]
    rw [hsame]
    split
    · rename_i hin
      simp only [Bool.and_eq_true, decide_eq_true_eq] at hin
      have hlower : o ≤ age := hin.1
      have hsub : wrap ((age : Int) - o) = ((age - o : Nat) : Int) := by
        rw [wrap_of_fits (by omega) (by omega)]
        omega
      rw [hsub, Option.map_some]
      rfl
    · exact ih (by omega)

theorem windowOf_ageAt (anchor created : Time) :
    windowOf grid.buckets 0 0 (ageAt anchor created) = windowOf grid.buckets 0 0 (anchor - created) := by
  unfold ageAt
  by_cases hage : anchor - created ≤ maxDuration
  · rw [Nat.min_eq_left hage]
  · have hcap := reach_le grid
    have hbeyond : maxDuration ≤ anchor - created := Nat.le_of_not_le hage
    rw [Nat.min_eq_right hbeyond, (windowOf_eq_none (Nat.zero_le _)).mpr (by rwa [Nat.zero_add]),
      (windowOf_eq_none (Nat.zero_le _)).mpr (by rw [Nat.zero_add]; exact Nat.le_trans hcap hbeyond)]

def windows : List Bucket → Nat → List (Nat × Nat)
  | [], _ => []
  | b :: bs, g => (List.range b.count).map (fun i => (g, i)) ++ windows bs (g + 1)

theorem length_windows (bs : List Bucket) (g : Nat) :
    (windows bs g).length = bs.foldr (fun b n => b.count + n) 0 := by
  induction bs generalizing g with
  | nil => rfl
  | cons b bs ih => simp [windows, ih]

theorem mem_windows {bs : List Bucket} {g o : Nat} (h : windowOf bs g o age = some w) : w ∈ windows bs g := by
  induction bs generalizing g o with
  | nil => cases h
  | cons c bs ih =>
    unfold windowOf at h
    unfold windows
    dsimp only at h
    split at h
    · rename_i hin
      simp only [Bool.and_eq_true, decide_eq_true_eq] at hin
      have hupper : age < o + c.count * c.span := hin.2
      cases h
      have hindex : (age - o) / c.span < c.count := by
        apply Nat.div_lt_of_lt_mul
        rw [Nat.mul_comm]
        have hlower : o ≤ age := hin.1
        omega
      simp [hindex]
    · simp [ih h]

end Windows

/-! ## The plan -/

def Newest (lineage : ID) (snapshots : List Snapshot) (n : Snapshot) : Prop :=
  n ∈ snapshots ∧ isOwnedBy lineage n ∧ ∀ t ∈ snapshots, isOwnedBy lineage t → t ≠ n → recordedBefore lineage t n

def ageFrom (lineage : ID) (n s : Snapshot) : Nat := createdAt lineage n - createdAt lineage s

def marked (ds : List Decision) (s : Snapshot) : Bool := ds.any fun dec => dec.snapshot == s.name && dec.destroy

def Free (s : Snapshot) : Prop := s.holds = [] ∧ s.clones = [] ∧ s.resumeRequired = false

/-- The plan as documented. -/
structure Documented (lineage : ID) (grid : Grid) (snapshots : List Snapshot) (ds : List Decision) : Prop where
  about : (ds.map Decision.snapshot).Perm (snapshots.map Snapshot.name)
  destroys : ∀ s ∈ snapshots, marked ds s = true ↔ isOwnedBy lineage s ∧ Free s ∧
    ∃ n, Newest lineage snapshots n ∧ s ≠ n ∧
      (reach grid.buckets ≤ ageFrom lineage n s ∨ ∃ t ∈ snapshots, isOwnedBy lineage t ∧ recordedBefore lineage t s ∧
        SameWindow grid (ageFrom lineage n t) (ageFrom lineage n s))
  keeps : (∀ s ∈ snapshots, Free s) →
    (snapshots.filter fun s => decide (isOwnedBy lineage s) && !marked ds s).length ≤ counts grid + 1
  unwrapped : ∀ anchor created, machineWindow grid.buckets 0 0 (ageAt anchor created : Nat) =
    (windowOf grid.buckets 0 0 (ageAt anchor created)).map fun w => (w.1, (w.2 : Int))

section Plan

variable {d : Dataset} {lineage : ID} {grid : Grid} {snapshots : List Snapshot} {s t n : Snapshot} {ds : List Decision}

theorem recordedBefore_total (h : InScope d snapshots) (hs : s ∈ snapshots) (ht : t ∈ snapshots) (hne : s ≠ t) :
    recordedBefore lineage s t ∨ recordedBefore lineage t s := by
  unfold recordedBefore
  apply lt_or_gt_of_ne
  intro hkey
  obtain ⟨c, hc⟩ := h.1 s hs
  obtain ⟨c', hc'⟩ := h.1 t ht
  exact hne (List.inj_on_of_nodup_map h.2 hs ht (key_inj hc hc' hkey))

theorem exists_newest (h : InScope d snapshots) (hs : s ∈ snapshots) (howned : isOwnedBy lineage s) :
    ∃ n, Newest lineage snapshots n := by
  classical
  obtain ⟨n, hn, hmax⟩ := (snapshots.filter fun s => decide (isOwnedBy lineage s)).toFinset.exists_max_image
    (fun s => (candidate lineage s).key) ⟨s, by simp [hs, howned]⟩
  simp only [List.mem_toFinset, List.mem_filter, decide_eq_true_eq] at hn hmax
  refine ⟨n, hn.1, hn.2, fun t ht htowned hne => ?_⟩
  have htotal : recordedBefore lineage t n ∨ recordedBefore lineage n t := recordedBefore_total h ht hn.1 hne
  rcases htotal with hlt | hlt
  · exact hlt
  · exact absurd (hmax t ⟨ht, htowned⟩) (not_le_of_gt hlt)

theorem createdAt_le (h : recordedBefore lineage s t) : createdAt lineage s ≤ createdAt lineage t := by
  unfold recordedBefore Candidate.key at h
  rw [Prod.Lex.toLex_lt_toLex] at h
  rcases h with hlt | ⟨heq, -⟩
  · exact le_of_lt hlt
  · exact le_of_eq heq

theorem foldl_anchor (items : List Candidate) (a : Time) :
    let last := items.foldl (fun anchor x => if x.owned && anchor < x.created then x.created else anchor) a
    a ≤ last ∧ (∀ x ∈ items, x.owned = true → x.created ≤ last) ∧
      (last = a ∨ ∃ x ∈ items, x.owned = true ∧ x.created = last) := by
  induction items generalizing a with
  | nil => simp
  | cons x items ih =>
    obtain ⟨hle, hall, hsome⟩ := ih (if x.owned && a < x.created then x.created else a)
    rw [List.foldl_cons]
    dsimp only at hle hall hsome ⊢
    by_cases hx : x.owned = true ∧ a < x.created
    · rw [if_pos (by simpa using hx)] at hle hall hsome ⊢
      refine ⟨le_trans (le_of_lt hx.2) hle, ?_, ?_⟩
      · intro y hy howned
        rcases List.mem_cons.mp hy with rfl | hy
        · exact hle
        · exact hall y hy howned
      · rcases hsome with heq | ⟨y, hy, howned, heq⟩
        · exact .inr ⟨x, by simp, hx.1, heq.symm⟩
        · exact .inr ⟨y, by simp [hy], howned, heq⟩
    · rw [if_neg (by simpa using hx)] at hle hall hsome ⊢
      refine ⟨hle, ?_, ?_⟩
      · intro y hy howned
        rcases List.mem_cons.mp hy with rfl | hy
        · exact le_trans (not_lt.mp fun hlt => hx ⟨howned, hlt⟩) hle
        · exact hall y hy howned
      · rcases hsome with heq | ⟨y, hy, howned, heq⟩
        · exact .inl heq
        · exact .inr ⟨y, by simp [hy], howned, heq⟩

theorem Newest.anchor (h : Newest lineage snapshots n) :
    anchorOf (snapshots.map (candidate lineage)) = createdAt lineage n := by
  obtain ⟨hmem, howned, hlast⟩ := h
  obtain ⟨-, hall, hsome⟩ := foldl_anchor (snapshots.map (candidate lineage)) 0
  apply le_antisymm
  · rcases hsome with hzero | ⟨x, hx, hxowned, heq⟩
    · unfold anchorOf
      rw [hzero]
      exact Nat.zero_le _
    · obtain ⟨t, ht, rfl⟩ := List.mem_map.mp hx
      unfold anchorOf
      rw [← heq]
      by_cases hne : t = n
      · rw [hne, createdAt]
      · exact createdAt_le (hlast t ht hxowned hne)
  · exact hall _ (List.mem_map_of_mem hmem) howned

theorem Newest.windowIn (h : Newest lineage snapshots n) (hs : isOwnedBy lineage s) :
    windowIn lineage grid snapshots s = windowOf grid.buckets 0 0 (ageFrom lineage n s) := by
  unfold isOwnedBy at hs
  unfold Lifecycle.windowIn windowAt
  rw [h.anchor, if_pos hs, windowOf_ageAt]
  rfl

theorem owned_of_windowIn {w : Nat × Nat} (h : windowIn lineage grid snapshots s = some w) : isOwnedBy lineage s := by
  unfold windowIn windowAt at h
  split at h
  · assumption
  · cases h

theorem Newest.later_iff (h : Newest lineage snapshots n) (hs : s ∈ snapshots) (howned : isOwnedBy lineage s) :
    (∃ t ∈ snapshots, isOwnedBy lineage t ∧ recordedBefore lineage s t) ↔ s ≠ n := by
  constructor
  · rintro ⟨t, ht, htowned, hlt⟩ rfl
    by_cases hne : t = s
    · subst hne
      exact lt_irrefl _ hlt
    · exact lt_asymm hlt (h.2.2 t ht htowned hne)
  · intro hne
    exact ⟨n, h.1, h.2.1, h.2.2 s hs howned hne⟩

theorem Newest.gone_iff (h : Newest lineage snapshots n) (howned : isOwnedBy lineage s) :
    (∀ k, Lifecycle.windowIn lineage grid snapshots s = some k →
      ∃ t ∈ snapshots, recordedBefore lineage t s ∧ Lifecycle.windowIn lineage grid snapshots t = some k) ↔
    reach grid.buckets ≤ ageFrom lineage n s ∨ ∃ t ∈ snapshots, isOwnedBy lineage t ∧ recordedBefore lineage t s ∧
      SameWindow grid (ageFrom lineage n t) (ageFrom lineage n s) := by
  rw [h.windowIn howned]
  cases hwindow : windowOf grid.buckets 0 0 (ageFrom lineage n s) with
  | none =>
    rw [windowOf_eq_none (Nat.zero_le _), Nat.zero_add] at hwindow
    simp [hwindow]
  | some w =>
    have hyoung : ¬ reach grid.buckets ≤ ageFrom lineage n s := by
      rw [← Nat.zero_add (reach _), ← windowOf_eq_none (g := 0) (Nat.zero_le _), hwindow]
      simp
    constructor
    · intro hall
      obtain ⟨t, ht, hlt, hw⟩ := hall w rfl
      have htowned := owned_of_windowIn hw
      rw [h.windowIn htowned] at hw
      exact .inr ⟨t, ht, htowned, hlt, sameWindow_iff.mpr ⟨w, hw, hwindow⟩⟩
    · rintro (hold | ⟨t, ht, htowned, hlt, hsame⟩) k hk
      · exact absurd hold hyoung
      · obtain ⟨w', hw, hw'⟩ := sameWindow_iff.mp hsame
        rw [hwindow] at hw'
        cases hw'
        cases hk
        exact ⟨t, ht, hlt, by rw [h.windowIn htowned, hw]⟩

theorem marked_iff (h : planPrune d lineage grid snapshots = .ok ds) (hs : s ∈ snapshots) :
    marked ds s = true ↔ isOwnedBy lineage s ∧ Free s ∧ ∃ n, Newest lineage snapshots n ∧ s ≠ n ∧
      (reach grid.buckets ≤ ageFrom lineage n s ∨ ∃ t ∈ snapshots, isOwnedBy lineage t ∧ recordedBefore lineage t s ∧
        SameWindow grid (ageFrom lineage n t) (ageFrom lineage n s)) := by
  have hscope := (planPrune_eq_ok.mp h).2.2.1
  have hpruned := planPrune_destroys_iff h hs
  have hmarked : marked ds s = true ↔ ∃ dec ∈ ds, dec.snapshot = s.name ∧ dec.destroy = true := by
    simp [marked]
  rw [hmarked, hpruned]
  unfold Pruned Candidate.exposed Free
  rw [candidate_snapshot]
  constructor
  · rintro ⟨⟨howned, hfree⟩, hlater, hgone⟩
    obtain ⟨n, hn⟩ := exists_newest hscope hs howned
    exact ⟨howned, hfree, n, hn, (hn.later_iff hs howned).mp hlater, (hn.gone_iff howned).mp hgone⟩
  · rintro ⟨howned, hfree, n, hn, hne, hgone⟩
    exact ⟨⟨howned, hfree⟩, (hn.later_iff hs howned).mpr hne, (hn.gone_iff howned).mpr hgone⟩

theorem Newest.oldest (hn : Newest lineage snapshots n) (h : planPrune d lineage grid snapshots = .ok ds)
    (hs : s ∈ snapshots) (howned : isOwnedBy lineage s) (hfree : Free s) (hkept : marked ds s = false) (hne : s ≠ n) :
    ∃ w, windowOf grid.buckets 0 0 (ageFrom lineage n s) = some w ∧ ∀ t ∈ snapshots, isOwnedBy lineage t →
      recordedBefore lineage t s → windowOf grid.buckets 0 0 (ageFrom lineage n t) ≠ some w := by
  have hstays : ¬ (reach grid.buckets ≤ ageFrom lineage n s ∨ ∃ t ∈ snapshots, isOwnedBy lineage t ∧
      recordedBefore lineage t s ∧ SameWindow grid (ageFrom lineage n t) (ageFrom lineage n s)) := by
    intro hgone
    have hmarked := (marked_iff h hs).mpr ⟨howned, hfree, n, hn, hne, hgone⟩
    rw [hkept] at hmarked
    cases hmarked
  obtain ⟨hyoung, hfirst⟩ := not_or.mp hstays
  cases hw : windowOf grid.buckets 0 0 (ageFrom lineage n s) with
  | none =>
    rw [windowOf_eq_none (Nat.zero_le _), Nat.zero_add] at hw
    exact absurd hw hyoung
  | some w =>
    refine ⟨w, rfl, fun t ht htowned hlt hwt => ?_⟩
    exact hfirst ⟨t, ht, htowned, hlt, sameWindow_iff.mpr ⟨w, hwt, hw⟩⟩

theorem keeps_few (h : planPrune d lineage grid snapshots = .ok ds) (hfree : ∀ s ∈ snapshots, Free s) :
    (snapshots.filter fun s => decide (isOwnedBy lineage s) && !marked ds s).length ≤ counts grid + 1 := by
  have hscope := (planPrune_eq_ok.mp h).2.2.1
  set kept := snapshots.filter fun s => decide (isOwnedBy lineage s) && !marked ds s with hkept
  have hnodup : kept.Nodup := (List.Nodup.of_map _ hscope.2).filter _
  have hmem : ∀ s, s ∈ kept ↔ s ∈ snapshots ∧ isOwnedBy lineage s ∧ marked ds s = false := by
    simp [hkept]
  cases hcase : kept with
  | nil => simp
  | cons a l =>
    obtain ⟨ha, haowned, -⟩ := (hmem a).mp (by simp [hcase])
    obtain ⟨n, hn⟩ := exists_newest hscope ha haowned
    rw [← hcase]
    have holdest : ∀ s ∈ kept.filter (· ≠ n), ∃ w, windowOf grid.buckets 0 0 (ageFrom lineage n s) = some w ∧
        ∀ t ∈ snapshots, isOwnedBy lineage t → recordedBefore lineage t s →
          windowOf grid.buckets 0 0 (ageFrom lineage n t) ≠ some w := by
      intro s hs
      obtain ⟨hs, hne⟩ : s ∈ kept ∧ s ≠ n := by simpa using hs
      obtain ⟨hs, howned, hmarked⟩ := (hmem s).mp hs
      exact hn.oldest h hs howned (hfree s hs) hmarked hne
    -- the others have windows of their own
    have hwindows : ((kept.filter (· ≠ n)).map fun s => windowOf grid.buckets 0 0 (ageFrom lineage n s)).Nodup := by
      refine List.Nodup.map_on (fun s hs t ht heq => ?_) (hnodup.filter _)
      obtain ⟨w, hw, hfirst⟩ := holdest s hs
      obtain ⟨w', hw', hfirst'⟩ := holdest t ht
      obtain ⟨hs, hsowned, -⟩ := (hmem s).mp (List.mem_of_mem_filter hs)
      obtain ⟨ht, htowned, -⟩ := (hmem t).mp (List.mem_of_mem_filter ht)
      by_contra hne
      have htotal : recordedBefore lineage s t ∨ recordedBefore lineage t s := recordedBefore_total hscope hs ht hne
      rcases htotal with hlt | hlt
      · exact hfirst' s hs hsowned hlt (heq.trans hw')
      · exact hfirst t ht htowned hlt (heq.symm.trans hw)
    have hsub : ((kept.filter (· ≠ n)).map fun s => windowOf grid.buckets 0 0 (ageFrom lineage n s)) ⊆
        (windows grid.buckets 0).map some := by
      intro o ho
      obtain ⟨s, hs, rfl⟩ := List.mem_map.mp ho
      obtain ⟨w, hw, -⟩ := holdest s hs
      rw [hw]
      exact List.mem_map_of_mem (mem_windows hw)
    have hfew := (hwindows.subperm hsub).length_le
    rw [List.length_map, List.length_map, length_windows] at hfew
    have hall : kept ⊆ n :: kept.filter (· ≠ n) := by
      intro s hs
      by_cases hsn : s = n
      · simp [hsn]
      · simp [hs, hsn]
    have hlength := (hnodup.subperm hall).length_le
    rw [List.length_cons] at hlength
    exact le_trans hlength (Nat.succ_le_succ hfew)

/-! ## The order of the input -/

theorem anchorOf_le {l l' : List Candidate} (h : l ⊆ l') : anchorOf l ≤ anchorOf l' := by
  obtain ⟨-, -, hsome⟩ := foldl_anchor l 0
  obtain ⟨-, hall, -⟩ := foldl_anchor l' 0
  rcases hsome with hzero | ⟨x, hx, howned, heq⟩
  · unfold anchorOf
    rw [hzero]
    exact Nat.zero_le _
  · unfold anchorOf
    rw [← heq]
    exact hall x (h hx) howned

theorem InScope.perm {snapshots' : List Snapshot} (h : InScope d snapshots) (hperm : snapshots'.Perm snapshots) :
    InScope d snapshots' :=
  ⟨fun s hs => h.1 s (hperm.mem_iff.mp hs), (hperm.map _).nodup_iff.mpr h.2⟩

theorem planPrune_perm {snapshots' : List Snapshot} (h : planPrune d lineage grid snapshots = .ok ds)
    (hperm : snapshots'.Perm snapshots) : planPrune d lineage grid snapshots' = .ok ds := by
  obtain ⟨hd, hgrid, hscope, rfl⟩ := planPrune_eq_ok.mp h
  have hitems := hperm.map (candidate lineage)
  have hanchor : anchorOf (snapshots'.map (candidate lineage)) = anchorOf (snapshots.map (candidate lineage)) :=
    le_antisymm (anchorOf_le hitems.subset) (anchorOf_le hitems.symm.subset)
  have hsorted : (snapshots'.map (candidate lineage)).insertionSort (fun a b => a.key ≤ b.key) =
      (snapshots.map (candidate lineage)).insertionSort (fun a b => a.key ≤ b.key) := by
    have hsame := (List.perm_insertionSort (fun a b : Candidate => a.key ≤ b.key) _).trans
      (hitems.trans (List.perm_insertionSort (fun a b : Candidate => a.key ≤ b.key) _).symm)
    refine hsame.eq_of_pairwise (fun a b ha hb hab hba => ?_) (List.pairwise_insertionSort _ _)
      (List.pairwise_insertionSort _ _)
    have ha' := hitems.mem_iff.mp ((List.mem_insertionSort _).mp ha)
    exact items_inj hscope a ha' b ((List.mem_insertionSort _).mp hb) (le_antisymm hab hba)
  rw [planPrune_eq_ok]
  exact ⟨hd, hgrid, hscope.perm hperm, by rw [hanchor, hsorted]⟩

theorem planPrune_names (h : planPrune d lineage grid snapshots = .ok ds) :
    (ds.map Decision.snapshot).Perm (snapshots.map Snapshot.name) := by
  obtain ⟨-, -, -, rfl⟩ := planPrune_eq_ok.mp h
  refine ((List.perm_insertionSort _ _).map _).trans ?_
  rw [decisions_snapshots]
  refine ((List.perm_insertionSort _ _).map _).trans ?_
  rw [List.map_map]
  simp [Function.comp_def]

/-- The retention plan is the documented one, whatever the order of the snapshots. -/
theorem retention_documented (hd : validDataset d = true) (hgrid : 0 < grid.cadence) (hscope : InScope d snapshots) :
    ∃ ds, (∀ snapshots', snapshots'.Perm snapshots → planPrune d lineage grid snapshots' = .ok ds) ∧
      Documented lineage grid snapshots ds := by
  have hplan : planPrune d lineage grid snapshots = .ok _ := planPrune_eq_ok.mpr ⟨hd, hgrid, hscope, rfl⟩
  refine ⟨_, fun snapshots' hperm => planPrune_perm hplan hperm, planPrune_names hplan,
    fun s hs => marked_iff hplan hs, keeps_few hplan, fun anchor created => ?_⟩
  have hage : ageAt anchor created ≤ maxDuration := Nat.min_le_right _ _
  exact machineWindow_eq (by rw [Nat.zero_add]; exact Int.ofNat_le.mpr (reach_le grid)) (Int.ofNat_le.mpr hage)

end Plan

/-! ### Half-hourly snapshots in a grid of two hours -/

def twoHours : Grid := .windows 2 60

/-- One too old, the oldest of a window, a newer one in it, and the newest, which is in it too. -/
theorem twoHours_documented :
    ∃ ds, planPrune ["tank"] ⟨1, 1⟩ twoHours ([200, 20, 170, 150].map snapshotAt) = .ok ds ∧
      ds.map Decision.destroy = [true, false, true, false] ∧
      Documented ⟨1, 1⟩ twoHours ([200, 20, 170, 150].map snapshotAt) ds := by
  obtain ⟨ds, hplan, hdocumented⟩ := @retention_documented ["tank"] ⟨1, 1⟩ twoHours ([200, 20, 170, 150].map snapshotAt)
    (by decide) (by decide) ⟨by simp [snapshotAt], by decide⟩
  have hds := hplan _ (List.Perm.refl _)
  have hrun : (planPrune ["tank"] ⟨1, 1⟩ twoHours ([200, 20, 170, 150].map snapshotAt)).map
      (List.map Decision.destroy) = .ok [true, false, true, false] := by decide +kernel
  rw [hds] at hrun
  exact ⟨ds, hds, Except.ok.inj hrun, hdocumented⟩

end Boomerangz.Lifecycle
