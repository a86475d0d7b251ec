import Boomerangz.Lib.Run
import Boomerangz.Lifecycle.Retention

/-! # Coverage of the grid

A snapshot dropped as a duplicate of an older one is missed once the older one leaves its window.
-/

namespace Boomerangz.Lifecycle

open Transition Zfs Policy

/-! ## Runs -/

def createdAt (lineage : ID) (s : Snapshot) : Time := (candidate lineage s).created

def applyPrune (d : Dataset) (lineage : ID) (grid : Grid) (snapshots : List Snapshot) : List Snapshot :=
  match planPrune d lineage grid snapshots with
  | .error _ => snapshots
  | .ok ds => snapshots.filter fun s => !ds.any fun dec => dec.snapshot == s.name && dec.destroy

structure Retained where
  taken : List Snapshot
  kept : List Snapshot

def nextSnapshot (d : Dataset) (lineage : ID) (st : Retained) (s : Snapshot) : Bool :=
  s.name.isSnapshot && s.name.base == d && (candidate lineage s).owned && s.holds.isEmpty && s.clones.isEmpty &&
    !s.resumeRequired && st.taken.all fun t => createdAt lineage t < createdAt lineage s

def pruning (d : Dataset) (lineage : ID) (grid : Grid) : System Retained Snapshot where
  init st := st = ⟨[], []⟩
  step st s := if nextSnapshot d lineage st s
    then some ⟨st.taken ++ [s], applyPrune d lineage grid (st.kept ++ [s])⟩ else none

/-- Every window that holds one of `snapshots`, measured back from the newest of them, holds one of
`kept`. -/
def Covers (lineage : ID) (grid : Grid) (snapshots kept : List Snapshot) : Prop :=
  ∀ s ∈ snapshots, ∀ w, windowIn lineage grid snapshots s = some w →
    ∃ t ∈ kept, windowIn lineage grid snapshots t = some w

def onCadence (lineage : ID) (grid : Grid) (st : Retained) (s : Snapshot) : Prop :=
  ∀ t ∈ st.taken.getLast?, createdAt lineage s = createdAt lineage t + grid.cadence

def Nested (grid : Grid) : Prop := (grid.buckets.map Bucket.span).Pairwise (· ∣ ·)

/-! ## One plan -/

theorem applyPrune_sublist (d : Dataset) (lineage : ID) (grid : Grid) (snapshots : List Snapshot) :
    (applyPrune d lineage grid snapshots).Sublist snapshots := by
  unfold applyPrune
  split
  · exact List.Sublist.refl _
  · exact List.filter_sublist

structure Orderly (d : Dataset) (lineage : ID) (snapshots : List Snapshot) : Prop where
  exposed : ∀ s ∈ snapshots, s.name.isSnapshot = true ∧ s.name.base = d ∧ (candidate lineage s).exposed
  sorted : snapshots.Pairwise fun s t => createdAt lineage s < createdAt lineage t

section Plan

variable {d : Dataset} {lineage : ID} {grid : Grid} {snapshots : List Snapshot} {s t : Snapshot}

theorem owned_name (h : (candidate lineage s).owned = true) : ∃ d short, validDataset d = true ∧
    s.name = .snapshot d (.owned (createdAt lineage s) short) ∧ createdAt lineage s ≠ 0 := by
  unfold createdAt candidate at *
  cases hm : ownership s lineage with
  | error e => simp [hm] at h
  | ok m =>
    obtain ⟨⟨d, hvalid, hname⟩, -, hpos, -⟩ := ownership_eq_ok hm
    exact ⟨d, m.snapshot.short, hvalid, hname, hpos⟩

theorem cadence_pos {w : Nat × Nat}
    (h : windowIn lineage grid snapshots s = some w) : 0 < grid.cadence := by
  unfold Grid.cadence
  cases hbuckets : grid.buckets with
  | nil => simp [windowIn, windowAt, hbuckets, windowOf] at h
  | cons b bs => exact (grid.positive b (by simp [hbuckets])).2

namespace Orderly

variable (h : Orderly d lineage snapshots)
include h

theorem eq_of_created (hs : s ∈ snapshots) (ht : t ∈ snapshots) (heq : createdAt lineage s = createdAt lineage t) :
    s = t := by
  have hnodup : (snapshots.map (createdAt lineage)).Nodup := List.pairwise_map.mpr (h.sorted.imp ne_of_lt)
  exact List.inj_on_of_nodup_map hnodup hs ht heq

theorem inScope : InScope d snapshots := by
  refine ⟨fun s hs => ?_, (List.nodup_map_iff_inj_on ?_).mpr ?_⟩
  · obtain ⟨hsnapshot, rfl, -⟩ := h.exposed s hs
    cases hname : s.name with
    | snapshot d c => exact ⟨c, rfl⟩
    | dataset d => simp [hname, Name.isSnapshot] at hsnapshot
    | bookmark d m => simp [hname, Name.isSnapshot] at hsnapshot
  · refine h.sorted.imp fun hlt => ?_
    rintro rfl
    exact lt_irrefl _ hlt
  · intro s hs t ht heq
    obtain ⟨_, _, -, hs', -⟩ := owned_name (h.exposed s hs).2.2.1
    obtain ⟨_, _, -, ht', -⟩ := owned_name (h.exposed t ht).2.2.1
    rw [hs', ht'] at heq
    injection heq with _ heq
    injection heq with heq _
    exact h.eq_of_created hs ht heq

theorem recordedBefore_iff (hs : s ∈ snapshots) (ht : t ∈ snapshots) :
    recordedBefore lineage s t ↔ createdAt lineage s < createdAt lineage t := by
  unfold recordedBefore Candidate.key
  rw [Prod.Lex.toLex_lt_toLex]
  refine ⟨?_, .inl⟩
  rintro (hlt | ⟨heq, hlt⟩)
  · exact hlt
  · obtain rfl := h.eq_of_created hs ht heq
    exact absurd hlt (lt_irrefl _)

theorem plan (hs : s ∈ snapshots) (hgrid : 0 < grid.cadence) :
    ∃ ds, planPrune d lineage grid snapshots = .ok ds := by
  obtain ⟨d', _, hvalid, hname, -⟩ := owned_name (h.exposed s hs).2.2.1
  have hd := (h.exposed s hs).2.1
  rw [hname] at hd
  exact ⟨_, planPrune_eq_ok.mpr ⟨hd ▸ hvalid, hgrid, h.inScope, rfl⟩⟩

theorem mem_applyPrune (hgrid : 0 < grid.cadence) : s ∈ applyPrune d lineage grid snapshots ↔ s ∈ snapshots ∧
    ((∀ t ∈ snapshots, createdAt lineage t ≤ createdAt lineage s) ∨
      ∃ w, windowIn lineage grid snapshots s = some w ∧ ∀ t ∈ snapshots, windowIn lineage grid snapshots t = some w →
        createdAt lineage s ≤ createdAt lineage t) := by
  by_cases hs : s ∈ snapshots
  swap
  · exact ⟨fun hmem => absurd ((applyPrune_sublist d lineage grid _).subset hmem) hs, fun hmem => absurd hmem.1 hs⟩
  obtain ⟨ds, hds⟩ := h.plan hs hgrid
  have hdestroyed := planPrune_destroys_iff hds hs
  have hmem : s ∈ applyPrune d lineage grid snapshots ↔ ¬Pruned lineage grid snapshots s := by
    rw [← hdestroyed]
    simp [applyPrune, hds, hs]
  rw [hmem, Pruned, and_iff_right (h.exposed s hs).2.2, and_iff_right hs, not_and_or]
  refine or_congr ?_ ?_
  · simp only [not_exists, not_and]
    refine forall₂_congr fun t ht => ?_
    rw [h.recordedBefore_iff hs ht, not_lt]
    exact ⟨fun hle => hle (h.exposed t ht).2.2.1, fun hle _ => hle⟩
  · simp only [not_forall, not_exists, not_and]
    refine exists_congr fun w => ?_
    rw [exists_prop]
    refine and_congr_right fun _ => forall₂_congr fun t ht => ?_
    rw [h.recordedBefore_iff ht hs]
    exact ⟨fun hne hw => not_lt.mp fun hlt => hne hlt hw, fun hle hlt hw => absurd (hle hw) (not_le.mpr hlt)⟩

theorem covers : Covers lineage grid snapshots (applyPrune d lineage grid snapshots) := by
  intro s hs w hw
  have hgrid := cadence_pos hw
  -- the first of the window in the order of the list is the oldest
  obtain ⟨t, ht⟩ : ∃ t, snapshots.find? (fun x => windowIn lineage grid snapshots x == some w) = some t :=
    Option.isSome_iff_exists.mp (List.find?_isSome.mpr ⟨s, hs, by simpa using hw⟩)
  obtain ⟨hwt, as, bs, heq, has⟩ := List.find?_eq_some_iff_append.mp ht
  have hwt : windowIn lineage grid snapshots t = some w := by simpa using hwt
  have hmem : t ∈ snapshots := List.mem_of_find?_eq_some ht
  refine ⟨t, (h.mem_applyPrune hgrid).mpr ⟨hmem, .inr ⟨w, hwt, fun x hx hwx => ?_⟩⟩, hwt⟩
  have hsorted := h.sorted
  rw [heq] at hx hsorted
  rcases List.mem_append.mp hx with hx | hx
  · exact absurd (has x hx) (by simp [hwx])
  · rcases List.mem_cons.mp hx with rfl | hx
    · exact le_rfl
    · exact ((List.pairwise_cons.mp (List.pairwise_append.mp hsorted).2.1).1 x hx).le

end Orderly

end Plan

/-! ## Windows -/

def reach (bs : List Bucket) : Nat := bs.foldr (fun b total => b.count * b.span + total) 0

structure TierAt (bs pre : List Bucket) (b : Bucket) (age : Nat) : Prop where
  split : ∃ post, bs = pre ++ b :: post
  lower : reach pre ≤ age
  upper : age < reach pre + b.count * b.span

section Windows

variable {bs pre : List Bucket} {b : Bucket} {g o age : Nat} {w : Nat × Nat}

@[simp] theorem reach_nil : reach [] = 0 := rfl

@[simp] theorem reach_cons (b : Bucket) (bs : List Bucket) : reach (b :: bs) = b.count * b.span + reach bs := rfl

@[simp] theorem reach_append (bs bs' : List Bucket) : reach (bs ++ bs') = reach bs + reach bs' := by
  induction bs with
  | nil => simp
  | cons b bs ih => rw [List.cons_append, reach_cons, reach_cons, ih, Nat.add_assoc]

theorem windowOf_eq_some : windowOf bs g o age = some w ↔ ∃ pre b, (∃ post, bs = pre ++ b :: post) ∧
    o + reach pre ≤ age ∧ age < o + reach pre + b.count * b.span ∧
      w = (g + pre.length, (age - (o + reach pre)) / b.span) := by
  induction bs generalizing g o with
  | nil => simp [windowOf]
  | cons c bs ih =>
    by_cases hc : o ≤ age ∧ age < o + c.count * c.span
    · have hfirst : windowOf (c :: bs) g o age = some (g, (age - o) / c.span) := by simp [windowOf, hc]
      rw [hfirst, Option.some.injEq]
      constructor
      · rintro rfl
        exact ⟨[], c, ⟨bs, rfl⟩, by simpa using hc.1, by simpa using hc.2, by simp⟩
      · rintro ⟨pre, b, ⟨post, hsplit⟩, hlower, hupper, rfl⟩
        cases pre with
        | nil =>
          obtain ⟨rfl, -⟩ := List.cons.inj hsplit
          simp
        | cons c' pre =>
          obtain ⟨rfl, -⟩ := List.cons.inj hsplit
          rw [reach_cons] at hlower
          omega
    · have hlater : windowOf (c :: bs) g o age = windowOf bs (g + 1) (o + c.count * c.span) age := by
        simp only [windowOf]
        rw [if_neg (by simpa using hc)]
      rw [hlater, ih]
      constructor
      · rintro ⟨pre, b, ⟨post, rfl⟩, hlower, hupper, rfl⟩
        refine ⟨c :: pre, b, ⟨post, rfl⟩, ?_, ?_, ?_⟩ <;> simp only [reach_cons, List.length_cons]
        · omega
        · omega
        · rw [Prod.mk.injEq, Nat.add_assoc, Nat.add_assoc, Nat.add_comm 1]
          exact ⟨rfl, rfl⟩
      · rintro ⟨pre, b, ⟨post, hsplit⟩, hlower, hupper, rfl⟩
        cases pre with
        | nil =>
          obtain ⟨rfl, -⟩ := List.cons.inj hsplit
          simp only [reach_nil, Nat.add_zero] at hlower hupper
          exact absurd ⟨hlower, hupper⟩ hc
        | cons c' pre =>
          obtain ⟨rfl, rfl⟩ := List.cons.inj hsplit
          simp only [reach_cons] at hlower hupper ⊢
          refine ⟨pre, b, ⟨post, rfl⟩, by omega, by omega, ?_⟩
          rw [Prod.mk.injEq, List.length_cons, Nat.add_assoc o, Nat.add_assoc g, Nat.add_comm 1]
          exact ⟨rfl, rfl⟩

theorem reach_le (grid : Grid) : reach grid.buckets ≤ maxDuration := by
  have hfold : ∀ (bs : List Bucket) (n : Nat), bs.foldl (fun total b => total + b.count * b.span) n = n + reach bs := by
    intro bs
    induction bs with
    | nil => simp
    | cons b bs ih => intro n; rw [List.foldl_cons, ih, reach_cons, Nat.add_assoc]
  have hfits := grid.fits
  rwa [hfold, Nat.zero_add] at hfits

theorem TierAt.within (h : TierAt bs pre b age) : age < reach bs := by
  obtain ⟨post, rfl⟩ := h.split
  have hupper := h.upper
  rw [reach_append, reach_cons]
  omega

theorem windowOf_age {grid : Grid} {anchor created : Nat} :
    windowOf grid.buckets 0 0 (ageAt anchor created) = some w ↔ ∃ pre b,
      TierAt grid.buckets pre b (anchor - created) ∧ w = (pre.length, (anchor - created - reach pre) / b.span) := by
  have hcap := reach_le grid
  rw [windowOf_eq_some]
  simp only [Nat.zero_add, ageAt]
  constructor
  · rintro ⟨pre, b, hsplit, hlower, hupper, rfl⟩
    have hwithin := TierAt.within ⟨hsplit, hlower, hupper⟩
    have hmin : min (anchor - created) maxDuration = anchor - created := by omega
    rw [hmin] at hlower hupper ⊢
    exact ⟨pre, b, ⟨hsplit, hlower, hupper⟩, rfl⟩
  · rintro ⟨pre, b, htier, rfl⟩
    have hwithin := htier.within
    have hmin : min (anchor - created) maxDuration = anchor - created := by omega
    rw [hmin]
    exact ⟨pre, b, htier.split, htier.lower, htier.upper, rfl⟩

theorem exists_multiple {u v o c n : Nat} (hu : u ≤ v) (hn : 0 < n) (hlower : o ≤ v - u) (hupper : v - u < o + c * n) :
    ∃ m, n ∣ m ∧ m ≤ v ∧ o ≤ v - m ∧ v - m < o + c * n ∧ (v - m - o) / n = (v - u - o) / n := by
  have hq : (v - u - o) / n * n ≤ v - u - o := Nat.div_mul_le_self _ _
  have hlt : (v - u - o) / n < c := (Nat.div_lt_iff_lt_mul hn).mpr (by omega)
  have hc : ((v - u - o) / n + 1) * n ≤ c * n := Nat.mul_le_mul_right n hlt
  generalize (v - u - o) / n = q at *
  rw [Nat.add_mul, Nat.one_mul] at hc
  have hsplit := Nat.div_add_mod (v - o - q * n) n
  have hmod := Nat.mod_lt (v - o - q * n) hn
  have hdiff : v - n * ((v - o - q * n) / n) - o = q * n + (v - o - q * n) % n := by omega
  refine ⟨n * ((v - o - q * n) / n), Nat.dvd_mul_right _ _, by omega, by omega, by omega, ?_⟩
  rw [hdiff, Nat.add_comm, Nat.add_mul_div_right _ _ hn, Nat.div_eq_of_lt hmod, Nat.zero_add]

theorem multiple_unique {m m' v o n : Nat} (hm : n ∣ m) (hm' : n ∣ m') (hv : m ≤ v) (hv' : m' ≤ v) (ho : o ≤ v - m)
    (ho' : o ≤ v - m') (heq : (v - m - o) / n = (v - m' - o) / n) : m = m' := by
  have hmod : (v - m - o) % n = (v - m' - o) % n := by
    have hsum : v - m - o + m = v - m' - o + m' := by omega
    have hleft := congrArg (· % n) hsum
    obtain ⟨k, rfl⟩ := hm
    obtain ⟨k', rfl⟩ := hm'
    simpa using hleft
  have h := Nat.div_add_mod (v - m - o) n
  have h' := Nat.div_add_mod (v - m' - o) n
  rw [heq, hmod] at h
  omega

theorem dvd_reach {a : Nat} (h : ∀ b ∈ bs, a ∣ b.span) : a ∣ reach bs := by
  induction bs with
  | nil => exact Nat.dvd_zero a
  | cons b bs ih =>
    rw [reach_cons]
    exact Nat.dvd_add (Nat.dvd_mul_left_of_dvd (h b List.mem_cons_self) _) (ih fun c hc => h c (List.mem_cons_of_mem _ hc))

theorem TierAt.earlier {a : Nat} (h : TierAt bs pre b age) (hspan : ∀ b ∈ bs, a ∣ b.span)
    (hpos : ∀ b ∈ bs, 0 < b.count ∧ 0 < b.span) (hage : a ∣ age) (ha : 0 < a) (hle : a ≤ age) :
    TierAt bs pre b (age - a) ∨ age = reach pre ∧ ∃ pre' b', pre = pre' ++ [b'] ∧ TierAt bs pre' b' (age - a) := by
  obtain ⟨⟨post, hsplit⟩, hlower, hupper⟩ := h
  by_cases hstay : reach pre ≤ age - a
  · exact .inl ⟨⟨post, hsplit⟩, hstay, by omega⟩
  have hpre : ∀ c ∈ pre, c ∈ bs := fun c hc => by rw [hsplit]; exact List.mem_append_left _ hc
  have hexact : age = reach pre := by
    obtain ⟨k, hk⟩ := Nat.dvd_sub hage (dvd_reach fun c hc => hspan c (hpre c hc))
    have hk0 : k = 0 := by
      by_contra hk0
      have := Nat.le_mul_of_pos_right a (Nat.pos_of_ne_zero hk0)
      omega
    rw [hk0] at hk
    omega
  refine .inr ⟨hexact, ?_⟩
  obtain ⟨pre', b', rfl⟩ : ∃ pre' b', pre = pre' ++ [b'] := by
    refine ⟨pre.dropLast, pre.getLast ?_, (List.dropLast_append_getLast _).symm⟩
    rintro rfl
    rw [reach_nil] at hexact
    omega
  have hb' : b' ∈ bs := hpre b' (by simp)
  have hmul : a ≤ b'.count * b'.span :=
    (Nat.le_of_dvd (hpos b' hb').2 (hspan b' hb')).trans (Nat.le_mul_of_pos_left _ (hpos b' hb').1)
  simp only [reach_append, reach_cons, reach_nil, Nat.add_zero] at hexact
  refine ⟨pre', b', rfl, ⟨b :: post, by rw [hsplit, List.append_assoc]; rfl⟩, by omega, by omega⟩

theorem TierAt.eq_of_length {pre' : List Bucket} {b' : Bucket} {age' : Nat} (h : TierAt bs pre b age)
    (h' : TierAt bs pre' b' age') (heq : pre.length = pre'.length) : pre = pre' ∧ b = b' := by
  obtain ⟨post, rfl⟩ := h.split
  obtain ⟨post', hsplit⟩ := h'.split
  obtain ⟨hpre, hrest⟩ := List.append_inj hsplit heq
  exact ⟨hpre, (List.cons.inj hrest).1⟩

end Windows

/-! ## One snapshot every cadence -/

section Last

variable {d : Dataset} {lineage : ID} {grid : Grid} {xs : List Snapshot} {s x y : Snapshot} {w : Nat × Nat}

theorem anchorOf_lt {items : List Candidate} {c : Time} (h : ∀ x ∈ items, x.created < c) (hc : 0 < c) :
    anchorOf items < c := by
  have hfold : ∀ anchor < c, items.foldl (fun anchor x => if x.owned && anchor < x.created then x.created else anchor)
      anchor < c := by
    induction items with
    | nil => exact fun anchor ha => ha
    | cons x items ih =>
      intro anchor ha
      refine ih (fun y hy => h y (List.mem_cons_of_mem _ hy)) _ ?_
      dsimp only
      split
      · exact h x List.mem_cons_self
      · exact ha
  exact hfold 0 hc

theorem Orderly.anchor (h : Orderly d lineage (xs ++ [s])) :
    anchorOf ((xs ++ [s]).map (candidate lineage)) = createdAt lineage s := by
  have howned := (h.exposed s (by simp)).2.2.1
  obtain ⟨_, _, -, -, hpos⟩ := owned_name howned
  have hlt : anchorOf (xs.map (candidate lineage)) < createdAt lineage s := by
    refine anchorOf_lt (fun x hx => ?_) (Nat.pos_of_ne_zero hpos)
    obtain ⟨t, ht, rfl⟩ := List.mem_map.mp hx
    exact (List.pairwise_append.mp h.sorted).2.2 t ht s (by simp)
  rw [List.map_append, anchorOf, List.foldl_append]
  exact if_pos (by rw [howned, Bool.true_and]; exact decide_eq_true hlt)

theorem Orderly.windowIn_eq_some (h : Orderly d lineage (xs ++ [s])) (hx : (candidate lineage x).owned = true) :
    windowIn lineage grid (xs ++ [s]) x = some w ↔ ∃ pre b,
      TierAt grid.buckets pre b (createdAt lineage s - createdAt lineage x) ∧
        w = (pre.length, (createdAt lineage s - createdAt lineage x - reach pre) / b.span) := by
  rw [windowIn, h.anchor, windowAt, if_pos hx]
  exact windowOf_age

end Last

/-- One snapshot for each period since `start`. -/
structure Regular (d : Dataset) (lineage : ID) (grid : Grid) (start : Nat) (st : Retained) : Prop where
  orderly : Orderly d lineage st.taken
  sublist : st.kept.Sublist st.taken
  created : ∀ s ∈ st.taken, ∃ i < st.taken.length, createdAt lineage s = start + i * grid.cadence
  newest : ∀ s ∈ st.taken.getLast?, createdAt lineage s = start + (st.taken.length - 1) * grid.cadence
  taken : ∀ i < st.taken.length, ∃ s ∈ st.taken, createdAt lineage s = start + i * grid.cadence
  kept : ∀ s ∈ st.taken, ∀ pre b,
    TierAt grid.buckets pre b (start + (st.taken.length - 1) * grid.cadence - createdAt lineage s) →
      (s ∈ st.kept ↔ b.span ∣ createdAt lineage s - start)

section Regular

variable {d : Dataset} {lineage : ID} {grid : Grid} {start : Nat} {st : Retained} {s x y z : Snapshot}
  {pre : List Bucket} {b : Bucket}

theorem Nested.cadence_dvd (h : Nested grid) (hb : b ∈ grid.buckets) : grid.cadence ∣ b.span := by
  unfold Nested at h
  unfold Grid.cadence
  cases hbuckets : grid.buckets with
  | nil => simp [hbuckets] at hb
  | cons c bs =>
    rw [hbuckets, List.map_cons, List.pairwise_cons] at h
    rw [hbuckets] at hb
    rcases List.mem_cons.mp hb with rfl | hb
    · exact Nat.dvd_refl _
    · exact h.1 _ (List.mem_map_of_mem hb)

structure Regular.Next (d : Dataset) (lineage : ID) (grid : Grid) (start : Nat) (st : Retained) (s : Snapshot) : Prop where
  nested : Nested grid
  cadence : 0 < grid.cadence
  regular : Regular d lineage grid start st
  orderly : Orderly d lineage (st.taken ++ [s])
  created : createdAt lineage s = start + st.taken.length * grid.cadence

namespace Regular.Next

variable (h : Regular.Next d lineage grid start st s)
include h

theorem time (hx : x ∈ st.taken ++ [s]) : ∃ i ≤ st.taken.length, createdAt lineage x = start + i * grid.cadence := by
  rcases List.mem_append.mp hx with hx | hx
  · obtain ⟨i, hi, hc⟩ := h.regular.created x hx
    exact ⟨i, hi.le, hc⟩
  · rw [List.mem_singleton.mp hx]
    exact ⟨_, le_rfl, h.created⟩

theorem kept_earlier (hx : x ∈ st.taken) (htier : TierAt grid.buckets pre b (createdAt lineage s - createdAt lineage x)) :
    (x ∈ st.kept ↔ b.span ∣ createdAt lineage x - start) ∨
      createdAt lineage s - createdAt lineage x = reach pre ∧ (b.span ∣ createdAt lineage x - start → x ∈ st.kept) := by
  obtain ⟨i, hi, hc⟩ := h.regular.created x hx
  have hage : createdAt lineage s - createdAt lineage x = (st.taken.length - i) * grid.cadence := by
    rw [h.created, hc, Nat.add_sub_add_left, Nat.sub_mul]
  have hbefore : start + (st.taken.length - 1) * grid.cadence - createdAt lineage x =
      createdAt lineage s - createdAt lineage x - grid.cadence := by
    rw [h.created, hc, Nat.sub_mul]
    omega
  have hle : grid.cadence ≤ createdAt lineage s - createdAt lineage x := by
    rw [hage]
    exact Nat.le_mul_of_pos_left _ (by omega)
  have hdvd : grid.cadence ∣ createdAt lineage s - createdAt lineage x := hage ▸ Nat.dvd_mul_left _ _
  rcases htier.earlier (fun c hc => h.nested.cadence_dvd hc) grid.positive hdvd h.cadence hle with
    hstay | ⟨hexact, pre', b', rfl, hstay⟩
  · exact .inl (h.regular.kept x hx pre b (hbefore ▸ hstay))
  · refine .inr ⟨hexact, fun hb => (h.regular.kept x hx pre' b' (hbefore ▸ hstay)).mpr (Nat.dvd_trans ?_ hb)⟩
    obtain ⟨post, hsplit⟩ := htier.split
    have hnested := h.nested
    rw [Nested, hsplit, List.map_append, List.map_append, List.pairwise_append] at hnested
    exact hnested.2.2 _ (by simp) _ (by simp)

theorem exists_present (hx : x ∈ st.taken ++ [s])
    (htier : TierAt grid.buckets pre b (createdAt lineage s - createdAt lineage x)) :
    ∃ z ∈ st.kept ++ [s], b.span ∣ createdAt lineage z - start ∧
      TierAt grid.buckets pre b (createdAt lineage s - createdAt lineage z) ∧
      (createdAt lineage s - createdAt lineage z - reach pre) / b.span =
        (createdAt lineage s - createdAt lineage x - reach pre) / b.span := by
  obtain ⟨post, hsplit⟩ := htier.split
  have hb : b ∈ grid.buckets := by simp [hsplit]
  obtain ⟨i, hi, hc⟩ := h.time hx
  have hage : ∀ j, createdAt lineage s - (start + j) = st.taken.length * grid.cadence - j := by
    intro j
    rw [h.created, Nat.add_sub_add_left]
  have hlower := htier.lower
  have hupper := htier.upper
  rw [hc, hage] at hlower hupper
  obtain ⟨m, hdvd, hle, hlower', hupper', hquot⟩ :=
    exists_multiple (Nat.mul_le_mul_right _ hi) (grid.positive b hb).2 hlower hupper
  obtain ⟨k, rfl⟩ := Nat.dvd_trans (h.nested.cadence_dvd hb) hdvd
  rw [Nat.mul_comm grid.cadence k] at *
  have hk : k ≤ st.taken.length := Nat.le_of_mul_le_mul_right hle h.cadence
  obtain ⟨z, hz, hkept⟩ : ∃ z, createdAt lineage z = start + k * grid.cadence ∧ (b.span ∣ createdAt lineage z - start →
      TierAt grid.buckets pre b (createdAt lineage s - createdAt lineage z) → z ∈ st.kept ++ [s]) := by
    rcases Nat.lt_or_eq_of_le hk with hk | rfl
    · obtain ⟨z, hz, hcz⟩ := h.regular.taken k hk
      refine ⟨z, hcz, fun hdvdz htierz => List.mem_append_left _ ?_⟩
      exact (h.kept_earlier hz htierz).elim (·.mpr hdvdz) (·.2 hdvdz)
    · exact ⟨s, h.created, fun _ _ => by simp⟩
  rw [hz, hage, Nat.add_sub_cancel_left] at hkept
  have htierz : TierAt grid.buckets pre b (st.taken.length * grid.cadence - k * grid.cadence) :=
    ⟨⟨post, hsplit⟩, hlower', hupper'⟩
  refine ⟨z, hkept hdvd htierz, ?_⟩
  rw [hz, hage, hc, hage, Nat.add_sub_cancel_left]
  exact ⟨hdvd, htierz, hquot⟩

theorem created_unique (hy : y ∈ st.taken ++ [s]) (hz : z ∈ st.taken ++ [s])
    (hdvdy : b.span ∣ createdAt lineage y - start) (hdvdz : b.span ∣ createdAt lineage z - start)
    (htiery : TierAt grid.buckets pre b (createdAt lineage s - createdAt lineage y))
    (htierz : TierAt grid.buckets pre b (createdAt lineage s - createdAt lineage z))
    (hquot : (createdAt lineage s - createdAt lineage y - reach pre) / b.span =
      (createdAt lineage s - createdAt lineage z - reach pre) / b.span) :
    createdAt lineage y = createdAt lineage z := by
  obtain ⟨i, hi, hcy⟩ := h.time hy
  obtain ⟨j, hj, hcz⟩ := h.time hz
  have hlowery := htiery.lower
  have hlowerz := htierz.lower
  rw [h.created, hcy, Nat.add_sub_add_left] at hlowery hquot
  rw [h.created, hcz, Nat.add_sub_add_left] at hlowerz
  rw [hcz, Nat.add_sub_add_left] at hquot
  rw [hcy, Nat.add_sub_cancel_left] at hdvdy
  rw [hcz, Nat.add_sub_cancel_left] at hdvdz
  rw [hcy, hcz, multiple_unique hdvdy hdvdz (Nat.mul_le_mul_right _ hi) (Nat.mul_le_mul_right _ hj) hlowery hlowerz hquot]

theorem dvd_newest (hx : x ∈ st.taken ++ [s]) (htier : TierAt grid.buckets pre b 0) :
    b.span ∣ createdAt lineage x - start := by
  obtain ⟨i, -, hcx⟩ := h.time hx
  obtain ⟨post, hsplit⟩ := htier.split
  have hcadence : grid.cadence = b.span := by
    cases pre with
    | nil => simp only [Grid.cadence, hsplit, List.nil_append]
    | cons c pre =>
      have hpos := grid.positive c (by simp [hsplit])
      have hlower := htier.lower
      rw [reach_cons] at hlower
      have := Nat.mul_pos hpos.1 hpos.2
      omega
  rw [hcx, Nat.add_sub_cancel_left, ← hcadence]
  exact Nat.dvd_mul_left _ _

theorem oldest (hz : z ∈ st.taken ++ [s]) (hdvd : b.span ∣ createdAt lineage z - start)
    (htierz : TierAt grid.buckets pre b (createdAt lineage s - createdAt lineage z)) (hy : y ∈ st.kept ++ [s])
    (htiery : TierAt grid.buckets pre b (createdAt lineage s - createdAt lineage y))
    (hquot : (createdAt lineage s - createdAt lineage y - reach pre) / b.span =
      (createdAt lineage s - createdAt lineage z - reach pre) / b.span) :
    createdAt lineage z ≤ createdAt lineage y := by
  obtain ⟨i, hi, hcz⟩ := h.time hz
  have hlez : i * grid.cadence ≤ st.taken.length * grid.cadence := Nat.mul_le_mul_right _ hi
  rcases List.mem_append.mp hy with hykept | hys
  swap
  · rw [List.mem_singleton.mp hys, hcz, h.created]
    exact Nat.add_le_add_left hlez start
  have hytaken := h.regular.sublist.subset hykept
  rcases h.kept_earlier hytaken htiery with hiff | ⟨hexact, -⟩
  · exact (h.created_unique (List.mem_append_left _ hytaken) hz (hiff.mp hykept) hdvd htiery htierz hquot).ge
  · -- it has just come into the tier, and nothing in the tier is younger
    have hlowerz := htierz.lower
    obtain ⟨j, hj, hcy⟩ := h.time (List.mem_append_left _ hytaken)
    have hley : j * grid.cadence ≤ st.taken.length * grid.cadence := Nat.mul_le_mul_right _ hj
    rw [h.created, hcz, Nat.add_sub_add_left] at hlowerz
    rw [h.created, hcy, Nat.add_sub_add_left] at hexact
    have hexact : st.taken.length * grid.cadence - j * grid.cadence = reach pre := hexact
    rw [hcz, hcy]
    exact Nat.add_le_add_left (by omega) start

theorem step : Regular d lineage grid start ⟨st.taken ++ [s], applyPrune d lineage grid (st.kept ++ [s])⟩ := by
  have hsub : (st.kept ++ [s]).Sublist (st.taken ++ [s]) := h.regular.sublist.append_right [s]
  have hpresent : Orderly d lineage (st.kept ++ [s]) :=
    ⟨fun x hx => h.orderly.exposed x (hsub.subset hx), h.orderly.sorted.sublist hsub⟩
  refine ⟨h.orderly, (applyPrune_sublist d lineage grid _).trans hsub, fun x hx => ?_, fun x hx => ?_, fun i hi => ?_,
    fun x hx pre b htier => ?_⟩
  · obtain ⟨i, hi, hc⟩ := h.time hx
    exact ⟨i, by simpa using Nat.lt_succ_of_le hi, hc⟩
  · rw [List.getLast?_append, List.getLast?_singleton, Option.some_or, Option.mem_some_iff] at hx
    rw [← hx, h.created, List.length_append, List.length_singleton, Nat.add_sub_cancel]
  · simp only [List.length_append, List.length_singleton] at hi
    rcases Nat.lt_or_eq_of_le (Nat.le_of_lt_succ hi) with hi | rfl
    · obtain ⟨x, hx, hc⟩ := h.regular.taken i hi
      exact ⟨x, List.mem_append_left _ hx, hc⟩
    · exact ⟨s, by simp, h.created⟩
  simp only [List.length_append, List.length_singleton, Nat.add_sub_cancel, ← h.created] at htier
  have howned := fun y hy => (h.orderly.exposed y hy).2.2.1
  have hwindow : ∀ y, TierAt grid.buckets pre b (createdAt lineage s - createdAt lineage y) → y ∈ st.taken ++ [s] →
      windowIn lineage grid (st.kept ++ [s]) y =
        some (pre.length, (createdAt lineage s - createdAt lineage y - reach pre) / b.span) :=
    fun y hty hy => (hpresent.windowIn_eq_some (howned y hy)).mpr ⟨pre, b, hty, rfl⟩
  obtain ⟨z, hz, hdvdz, htierz, hquotz⟩ := h.exists_present hx htier
  rw [hpresent.mem_applyPrune h.cadence]
  constructor
  · rintro ⟨hxp, hnewest | ⟨w, hw, hmin⟩⟩
    · have hage : createdAt lineage s - createdAt lineage x = 0 := Nat.sub_eq_zero_of_le (hnewest s (by simp))
      exact h.dvd_newest hx (hage ▸ htier)
    · have hw' := hwindow x htier hx
      rw [hw, Option.some.injEq] at hw'
      have hle := hmin z hz (by rw [hwindow z htierz (hsub.subset hz), hw', hquotz])
      have hge := h.oldest (hsub.subset hz) hdvdz htierz hxp htier hquotz.symm
      rwa [le_antisymm hle hge]
  · intro hdvd
    obtain rfl : x = z := h.orderly.eq_of_created hx (hsub.subset hz)
      (h.created_unique hx (hsub.subset hz) hdvd hdvdz htier htierz hquotz.symm)
    refine ⟨hz, .inr ⟨_, hwindow x htier hx, fun t ht hwt => ?_⟩⟩
    obtain ⟨pre', b', htier', heq⟩ := (hpresent.windowIn_eq_some (howned t (hsub.subset ht))).mp hwt
    obtain ⟨hlength, hquot⟩ := Prod.mk.inj heq
    obtain ⟨rfl, rfl⟩ := htier.eq_of_length htier' hlength
    exact h.oldest hx hdvd htier ht htier' hquot.symm

theorem covers : Covers lineage grid (st.taken ++ [s]) (applyPrune d lineage grid (st.kept ++ [s])) := by
  intro x hx w hw
  obtain ⟨pre, b, htier, rfl⟩ := (h.orderly.windowIn_eq_some (h.orderly.exposed x hx).2.2.1).mp hw
  obtain ⟨z, hz, hdvd, htierz, hquot⟩ := h.exists_present hx htier
  have hztaken := (h.regular.sublist.append_right [s]).subset hz
  refine ⟨z, (h.step.kept z hztaken pre b ?_).mpr hdvd, ?_⟩
  · simpa only [List.length_append, List.length_singleton, Nat.add_sub_cancel, ← h.created] using htierz
  · exact (h.orderly.windowIn_eq_some (h.orderly.exposed z hztaken).2.2.1).mpr ⟨pre, b, htierz, by rw [hquot]⟩

end Regular.Next

end Regular

/-! ## Whole runs -/

section Runs

variable {d : Dataset} {lineage : ID} {grid : Grid} {st st' : Retained} {s : Snapshot}

theorem pruning_step : (pruning d lineage grid).step st s = some st' ↔ nextSnapshot d lineage st s = true ∧
    st' = ⟨st.taken ++ [s], applyPrune d lineage grid (st.kept ++ [s])⟩ := by
  by_cases hs : nextSnapshot d lineage st s = true
  · have hstep : (pruning d lineage grid).step st s =
        some ⟨st.taken ++ [s], applyPrune d lineage grid (st.kept ++ [s])⟩ := if_pos hs
    rw [hstep, Option.some.injEq, and_iff_right hs]
    exact eq_comm
  · simp [pruning, hs]

theorem Orderly.next (h : Orderly d lineage st.taken) (hs : nextSnapshot d lineage st s = true) :
    Orderly d lineage (st.taken ++ [s]) := by
  simp only [nextSnapshot, Bool.and_eq_true, beq_iff_eq, List.isEmpty_iff, Bool.not_eq_true', List.all_eq_true,
    decide_eq_true_eq] at hs
  obtain ⟨⟨⟨⟨⟨⟨hsnapshot, hbase⟩, howned⟩, hholds⟩, hclones⟩, htoken⟩, hlater⟩ := hs
  constructor
  · intro x hx
    rcases List.mem_append.mp hx with hx | hx
    · exact h.exposed x hx
    · rw [List.mem_singleton.mp hx]
      refine ⟨hsnapshot, hbase, howned, ?_, ?_, ?_⟩ <;> rw [candidate_snapshot]
      · exact hholds
      · exact hclones
      · exact htoken
  · rw [List.pairwise_append]
    refine ⟨h.sorted, List.pairwise_singleton _ _, fun t ht x hx => ?_⟩
    rw [List.mem_singleton.mp hx]
    exact hlater t ht

theorem orderly_of_reach {ok : Retained → Snapshot → Prop} (h : Reach (pruning d lineage grid) ok st) :
    Orderly d lineage st.taken ∧ st.kept.Sublist st.taken := by
  refine h.invariant (I := fun st => Orderly d lineage st.taken ∧ st.kept.Sublist st.taken) ?_ ?_
  · rintro st rfl
    exact ⟨⟨by simp, List.Pairwise.nil⟩, List.Sublist.refl _⟩
  · rintro st s st' ⟨horderly, hsub⟩ - hstep
    obtain ⟨hs, rfl⟩ := pruning_step.mp hstep
    exact ⟨horderly.next hs, (applyPrune_sublist d lineage grid _).trans (hsub.append_right [s])⟩

theorem regular_empty (start : Nat) : Regular d lineage grid start ⟨[], []⟩ :=
  ⟨⟨by simp, List.Pairwise.nil⟩, List.Sublist.refl _, by simp, by simp, by simp, by simp⟩

theorem Regular.next {start : Nat} (h : Regular d lineage grid start st) (hs : onCadence lineage grid st s) :
    ∃ start, Regular d lineage grid start st ∧ createdAt lineage s = start + st.taken.length * grid.cadence := by
  cases hlast : st.taken.getLast? with
  | none =>
    have htaken : st.taken = [] := List.getLast?_eq_none_iff.mp hlast
    have hkept : st.kept = [] := List.sublist_nil.mp (htaken ▸ h.sublist)
    obtain ⟨taken, kept⟩ := st
    obtain rfl : taken = [] := htaken
    obtain rfl : kept = [] := hkept
    exact ⟨_, regular_empty (createdAt lineage s), by simp⟩
  | some t =>
    have hpos : 0 < st.taken.length := List.length_pos_of_mem (List.mem_of_getLast? hlast)
    refine ⟨start, h, ?_⟩
    rw [hs t hlast, h.newest t hlast, Nat.add_assoc, ← Nat.succ_mul, Nat.succ_eq_add_one, Nat.sub_add_cancel hpos]

theorem covers_of_reach (hnested : Nested grid) (hcadence : 0 < grid.cadence)
    (h : Reach (pruning d lineage grid) (onCadence lineage grid) st) :
    (∃ start, Regular d lineage grid start st) ∧ Covers lineage grid st.taken st.kept := by
  refine h.invariant (I := fun st => (∃ start, Regular d lineage grid start st) ∧
    Covers lineage grid st.taken st.kept) ?_ ?_
  · rintro st rfl
    exact ⟨⟨0, regular_empty 0⟩, by simp [Covers]⟩
  · rintro st s st' ⟨⟨start, hregular⟩, -⟩ hs hstep
    obtain ⟨hnext, rfl⟩ := pruning_step.mp hstep
    obtain ⟨start, hregular, hcreated⟩ := hregular.next hs
    have h : Regular.Next d lineage grid start st s :=
      ⟨hnested, hcadence, hregular, hregular.orderly.next hnext, hcreated⟩
    exact ⟨⟨start, h.step⟩, h.covers⟩

/-- Each plan covers the windows of the snapshots it is made from. A run of one snapshot exactly every cadence, on a
grid whose spans divide each other, covers the windows of every snapshot it ever took. -/
theorem prune_covers_windows (d : Dataset) (lineage : ID) (grid : Grid) :
    (∀ st s st', Reach (pruning d lineage grid) free st → (pruning d lineage grid).step st s = some st' →
      Covers lineage grid (st.kept ++ [s]) st'.kept ∧
      Covers lineage grid st'.taken (applyPrune d lineage grid st'.taken)) ∧
    (Nested grid → ∀ st, Reach (pruning d lineage grid) (onCadence lineage grid) st →
      Covers lineage grid st.taken st.kept) := by
  refine ⟨fun st s st' hreach hstep => ?_, fun hnested st hreach s hs w hw => ?_⟩
  swap
  · exact (covers_of_reach hnested (cadence_pos hw) hreach).2 s hs w hw
  obtain ⟨horderly, hsub⟩ := orderly_of_reach hreach
  obtain ⟨hs, rfl⟩ := pruning_step.mp hstep
  have hnext := horderly.next hs
  have hpresent := hsub.append_right [s]
  have hkept : Orderly d lineage (st.kept ++ [s]) :=
    ⟨fun x hx => hnext.exposed x (hpresent.subset hx), hnext.sorted.sublist hpresent⟩
  exact ⟨hkept.covers, hnext.covers⟩

end Runs

section Sample

def twoByTen : Grid := .windows 2 10

def snapshotAt (n : Nat) : Snapshot where
  name := .snapshot ["tank"] (.owned (n * minute) 7)
  guid := 1
  properties := [⟨.snapshot ["tank"] (.owned (n * minute) 7), .lineage, .id ⟨1, 1⟩, .sourceLocal⟩,
    ⟨.snapshot ["tank"] (.owned (n * minute) 7), .snapshot, .id ⟨7, 7⟩, .sourceLocal⟩]
  holds := []
  clones := []
  resumeRequired := false

/-- At minute 20 the snapshot of minute 10 is a newer duplicate of that of minute 1, which is too old at 21. -/
theorem older_window_lost : ∃ st, Reach (pruning ["tank"] ⟨1, 1⟩ twoByTen) free st ∧
    ¬Covers ⟨1, 1⟩ twoByTen st.taken st.kept := by
  obtain ⟨st, hst⟩ : ∃ st, run (pruning ["tank"] ⟨1, 1⟩ twoByTen) ([1, 10, 20, 21].map snapshotAt) ⟨[], []⟩ = some st :=
    ⟨_, rfl⟩
  have htaken : st.taken = [1, 10, 20, 21].map snapshotAt := by cases hst; rfl
  have hkept : st.kept = [20, 21].map snapshotAt := by cases hst; decide +kernel
  refine ⟨st, Reach.run (.init rfl) (fun _ _ => trivial) hst, fun hcovers => ?_⟩
  rw [htaken, hkept] at hcovers
  obtain ⟨t, ht, hw⟩ := hcovers (snapshotAt 10) (by simp) (0, 1) (by decide)
  revert t
  decide

/-- `12x5m,24x1h,14x1d`. -/
def fiveMinuteGrid : Grid :=
  ⟨[⟨12, 5 * minute⟩, ⟨24, 60 * minute⟩, ⟨14, 1440 * minute⟩], by decide, by decide, by decide, by decide⟩

theorem fiveMinuteGrid_covered : Nested fiveMinuteGrid ∧ ∃ st,
    Reach (pruning ["tank"] ⟨1, 1⟩ fiveMinuteGrid) (onCadence ⟨1, 1⟩ fiveMinuteGrid) st ∧
      st.taken = [5, 10].map snapshotAt ∧ Covers ⟨1, 1⟩ fiveMinuteGrid st.taken st.kept := by
  have hnested : Nested fiveMinuteGrid := by unfold Nested; decide
  have hfirst : Reach (pruning ["tank"] ⟨1, 1⟩ fiveMinuteGrid) (onCadence ⟨1, 1⟩ fiveMinuteGrid)
      ⟨[snapshotAt 5], applyPrune ["tank"] ⟨1, 1⟩ fiveMinuteGrid [snapshotAt 5]⟩ :=
    .step (a := snapshotAt 5) (.init rfl) (by simp [onCadence]) rfl
  have hsecond : Reach (pruning ["tank"] ⟨1, 1⟩ fiveMinuteGrid) (onCadence ⟨1, 1⟩ fiveMinuteGrid)
      ⟨[5, 10].map snapshotAt, applyPrune ["tank"] ⟨1, 1⟩ fiveMinuteGrid
        (applyPrune ["tank"] ⟨1, 1⟩ fiveMinuteGrid [snapshotAt 5] ++ [snapshotAt 10])⟩ := by
    refine .step (a := snapshotAt 10) hfirst (fun t ht => ?_) rfl
    obtain rfl : snapshotAt 5 = t := Option.some.inj ht
    decide
  exact ⟨hnested, _, hsecond, rfl, (prune_covers_windows ["tank"] ⟨1, 1⟩ fiveMinuteGrid).2 hnested _ hsecond⟩

end Sample

end Boomerangz.Lifecycle
