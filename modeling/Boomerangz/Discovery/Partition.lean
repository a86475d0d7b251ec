import Boomerangz.Discovery.Activation
import Boomerangz.Lib.Topmost
import Boomerangz.Policy.Grid

/-! # The partition into actor roots

The actor roots are the topmost enabled datasets, and each covers its own subtree.
-/

namespace Boomerangz.Discovery

open Check Topmost Zfs Policy

/-! ## Names -/

/-- No dataset comes after one inside it, and every dataset has its parent. -/
structure Ordered (names : List Dataset) : Prop where
  nonempty : ∀ d ∈ names, d ≠ []
  closed : ∀ d ∈ names, parentName d = [] ∨ parentName d ∈ names
  ordered : names.Pairwise fun a b => ¬ b <+: a

namespace Ordered

variable {names : List Dataset} {d a : Dataset}

theorem nodup (h : Ordered names) : names.Nodup :=
  h.ordered.imp fun {a b} hab (heq : a = b) => hab (heq ▸ List.prefix_rfl)

theorem not_mem (h : Ordered (names ++ [d])) : d ∉ names := by
  have := h.nodup
  rw [List.nodup_append] at this
  exact fun hd => this.2.2 d hd d (by simp) rfl

theorem init (h : Ordered (names ++ [d])) : Ordered names where
  nonempty a ha := h.nonempty a (by simp [ha])
  closed a ha := by
    refine (h.closed a (by simp [ha])).imp_right fun hp => ?_
    rcases List.mem_append.mp hp with hp | hp
    · exact hp
    · have hda : ¬ d <+: a := (List.pairwise_append.mp h.ordered).2.2 a ha d (by simp)
      rw [← List.mem_singleton.mp hp] at hda
      exact absurd (List.dropLast_prefix a) hda
  ordered := (List.pairwise_append.mp h.ordered).1

theorem parent_mem (h : Ordered (names ++ [d])) : parentName d = [] ∨ parentName d ∈ names := by
  refine (h.closed d (by simp)).imp_right fun hp => ?_
  rcases List.mem_append.mp hp with hp | hp
  · exact hp
  · have hne : d ≠ [] := h.nonempty d (by simp)
    have hlen := congrArg List.length (List.mem_singleton.mp hp)
    have hpos : 0 < d.length := List.length_pos_iff.mpr hne
    simp only [parentName, List.length_dropLast] at hlen
    omega

theorem prefix_mem (h : Ordered names) (hd : d ∈ names) (ha : a ≠ []) (hp : a <+: d) : a ∈ names := by
  induction d using List.reverseRecOn with
  | nil => exact absurd (List.prefix_nil.mp hp) ha
  | append_singleton d x ih =>
    rcases List.prefix_concat_iff.mp hp with rfl | hpd
    · exact hd
    · have hparent := h.closed _ hd
      rw [parentName, List.dropLast_concat] at hparent
      rcases hparent with rfl | hmem
      · exact absurd (List.prefix_nil.mp hpd) ha
      · exact ih hmem hpd

end Ordered

theorem indexRows_eq_ok {seen : List Dataset} {rows : List Row} (h : indexRows seen rows = .ok ()) :
    (∀ r ∈ rows, validDataset r.name = true) ∧ (rows.map Row.name).Nodup ∧ ∀ r ∈ rows, r.name ∉ seen := by
  induction rows generalizing seen with
  | nil => simp
  | cons r rows ih =>
    simp only [indexRows, ok_iff] at h
    obtain ⟨hvalid, -, hfresh, hrest⟩ := h
    obtain ⟨hvalids, hnodup, hseen⟩ := ih hrest
    have hr : r.name ∉ rows.map Row.name := by
      intro hr
      obtain ⟨r', hr', hname⟩ := List.mem_map.mp hr
      exact hseen r' hr' (by simp [hname])
    refine ⟨?_, ?_, ?_⟩
    · simpa [hvalid] using hvalids
    · simpa using ⟨by simpa using hr, hnodup⟩
    · intro r' hr'
      rcases List.mem_cons.mp hr' with rfl | hr'
      · simpa using hfresh
      · exact fun hmem => hseen r' hr' (List.mem_cons_of_mem _ hmem)

theorem indexDatasets_ordered {rows : List Row} {names : List Dataset} (h : indexDatasets rows = .ok names) :
    Ordered names := by
  simp only [indexDatasets, ok_iff] at h
  obtain ⟨⟨⟩, hrows, hclosed, rfl⟩ := h
  obtain ⟨hvalid, hnodup, -⟩ := indexRows_eq_ok hrows
  have hne : ∀ d ∈ rows.map Row.name, d ≠ [] := by
    intro d hd
    obtain ⟨r, hr, rfl⟩ := List.mem_map.mp hd
    exact ne_nil_of_validDataset (hvalid r hr)
  have hsorted := pairwise_sort_text path (rows.map Row.name)
  have hnodup' := (List.perm_insertionSort (fun a b => textLe (path a) (path b) = true) (rows.map Row.name)).nodup_iff.mpr
    hnodup
  refine ⟨fun d hd => hne d ((List.mem_insertionSort _).mp hd), fun d hd => ?_, ?_⟩
  · have := List.all_eq_true.mp hclosed d ((List.mem_insertionSort _).mp hd)
    simpa using this
  · refine (hsorted.and hnodup').imp_of_mem fun {a b} ha hb hab hba => ?_
    have := path_lt_of_inside (hne b ((List.mem_insertionSort _).mp hb)) hba (Ne.symm hab.2)
    exact absurd hab.1 (by simp [this])

/-! ## Marking -/

structure SameMark (a b : Entry) : Prop where
  enabled : a.policy.enabled = b.policy.enabled
  coveredBy : a.coveredBy = b.coveredBy
  member : a.member = b.member
  members : a.members = b.members

theorem SameMark.refl (a : Entry) : SameMark a a := ⟨rfl, rfl, rfl, rfl⟩

theorem SameMark.trans {a b c : Entry} (hab : SameMark a b) (hbc : SameMark b c) : SameMark a c :=
  ⟨hab.1.trans hbc.1, hab.2.trans hbc.2, hab.3.trans hbc.3, hab.4.trans hbc.4⟩

theorem cover_root (root : Dataset) (rootEntry entry : Entry) : SameMark (cover root rootEntry entry).1 rootEntry := by
  unfold cover
  simp only
  split_ifs <;> exact ⟨rfl, rfl, rfl, rfl⟩

theorem cover_coveredBy (root : Dataset) (rootEntry entry : Entry) :
    (cover root rootEntry entry).2.coveredBy = root := by
  unfold cover
  simp only
  split_ifs <;> rfl

theorem cover_enabled (root : Dataset) (rootEntry entry : Entry) :
    (cover root rootEntry entry).2.policy.enabled = entry.policy.enabled := by
  unfold cover
  simp only
  split_ifs <;> rfl

variable {p : Dataset → Bool} {done : List Dataset} {m : Marks} {d : Dataset}

structure Marked (p : Dataset → Bool) (done : List Dataset) (m : Marks) : Prop where
  within : ∀ d, m.within d = if d ∈ done then (topmost p d).getD [] else []
  members : ∀ r, m.members r =
    done.filter fun d => topmost p d == some r && (d == r || (m.entries d).member)
  enabled : ∀ d, (m.entries d).policy.enabled = p d
  coveredBy : ∀ d, (m.entries d).coveredBy =
    if d ∈ done ∧ topmost p d ≠ some d then (topmost p d).getD [] else []

theorem topmost_ne_nil (hp : p [] = false) {r : Dataset} (h : topmost p d = some r) : r ≠ [] := by
  rintro rfl
  simpa [hp] using (topmost_eq_some.mp h).1

theorem Marked.root_eq (h : Marked p done m) (hp : p [] = false) (ho : Ordered (done ++ [d])) :
    (if m.within (parentName d) == [] && (m.entries d).policy.enabled then d else m.within (parentName d)) =
      (topmost p d).getD [] := by
  have hparent : m.within (parentName d) = (topmost p (parentName d)).getD [] := by
    rw [h.within]
    rcases ho.parent_mem with hnil | hmem
    · simp [hnil, hp]
    · simp [hmem]
  have htop : topmost p d = (topmost p (parentName d)).or (if p d then some d else none) :=
    topmost_dropLast (ho.nonempty d (by simp))
  rw [hparent, h.enabled, htop]
  cases habove : topmost p (parentName d) with
  | none => cases p d <;> simp
  | some r => simp [topmost_ne_nil hp habove]

theorem members_concat {r : Dataset} {entries entries' : Dataset → Entry} (hd : d ∉ done)
    (hsame : ∀ a ≠ d, (entries' a).member = (entries a).member) :
    (done ++ [d]).filter (fun a => topmost p a == some r && (a == r || (entries' a).member)) =
      done.filter (fun a => topmost p a == some r && (a == r || (entries a).member)) ++
        if topmost p d = some r ∧ (d = r ∨ (entries' d).member = true) then [d] else [] := by
  rw [List.filter_append]
  congr 1
  · refine List.filter_congr fun a ha => ?_
    rw [hsame a (ne_of_mem_of_not_mem ha hd)]
  · by_cases h : topmost p d = some r ∧ (d = r ∨ (entries' d).member = true)
    · rw [if_pos h]
      simpa using h
    · rw [if_neg h]
      simpa using h

theorem Marked.step (h : Marked p done m) (hp : p [] = false) (ho : Ordered (done ++ [d])) :
    Marked p (done ++ [d]) (markStep m d) := by
  have hd : d ∉ done := ho.not_mem
  have hne : d ≠ [] := ho.nonempty d (by simp)
  have hwithin : ∀ a, Function.update m.within d ((topmost p d).getD []) a =
      if a ∈ done ++ [d] then (topmost p a).getD [] else [] := by
    intro a
    by_cases ha : a = d
    · simp [ha]
    · simp [ha, h.within]
  have hold : (m.entries d).coveredBy = [] := by simp [h.coveredBy, hd]
  unfold markStep
  simp only [h.root_eq hp ho]
  cases htop : topmost p d with
  | none =>
    simp only [Option.getD_none, beq_self_eq_true, if_true]
    rw [htop, Option.getD_none] at hwithin
    refine ⟨hwithin, fun r => ?_, h.enabled, fun a => ?_⟩
    · rw [members_concat hd fun _ _ => rfl, h.members]
      simp [htop]
    · by_cases ha : a = d
      · simp [ha, hold, htop]
      · simp [ha, h.coveredBy]
  | some r =>
    have hr : r ≠ [] := topmost_ne_nil hp htop
    simp only [Option.getD_some, beq_iff_eq, hr, if_false]
    rw [htop, Option.getD_some] at hwithin
    by_cases hrd : r = d
    · subst hrd
      simp only [if_true]
      refine ⟨hwithin, fun r' => ?_, h.enabled, fun a => ?_⟩
      · rw [members_concat hd fun _ _ => rfl, ← h.members]
        by_cases hr' : r' = r
        · simp [hr', htop]
        · simp [hr', htop, Ne.symm hr']
      · by_cases ha : a = r
        · simp [ha, hold, htop]
        · simp [ha, h.coveredBy]
    · simp only [hrd, if_false]
      have hroot := cover_root r (m.entries r) (m.entries d)
      have hsame : ∀ a ≠ d, SameMark (Function.update (Function.update m.entries r
          (cover r (m.entries r) (m.entries d)).1) d (cover r (m.entries r) (m.entries d)).2 a) (m.entries a) := by
        intro a ha
        rw [Function.update_of_ne ha]
        by_cases har : a = r
        · subst har
          rw [Function.update_self]
          exact hroot
        · rw [Function.update_of_ne har]
          exact SameMark.refl _
      refine ⟨hwithin, fun r' => ?_, fun a => ?_, fun a => ?_⟩
      · rw [members_concat hd fun a ha => (hsame a ha).member, ← h.members, Function.update_self]
        by_cases hr' : r' = r
        · cases (cover r (m.entries r) (m.entries d)).2.member <;> simp [hr', htop, Ne.symm hrd]
        · cases (cover r (m.entries r) (m.entries d)).2.member <;> simp [hr', htop, Ne.symm hr']
      · by_cases ha : a = d
        · simp only [ha, Function.update_self, cover_enabled, h.enabled]
        · exact (hsame a ha).enabled.trans (h.enabled a)
      · by_cases ha : a = d
        · simp only [ha, Function.update_self, cover_coveredBy]
          simp [htop, hrd]
        · refine (hsame a ha).coveredBy.trans ?_
          simp [ha, h.coveredBy]

theorem marked_foldl {names : List Dataset} {entries : Dataset → Entry} (ho : Ordered names)
    (hp : (entries []).policy.enabled = false) (hfresh : ∀ d, (entries d).coveredBy = []) :
    Marked (fun d => (entries d).policy.enabled) names
      (names.foldl markStep ⟨fun _ => [], fun _ => [], entries⟩) := by
  induction names using List.reverseRecOn with
  | nil => exact ⟨by simp, by simp, fun _ => rfl, by simpa using hfresh⟩
  | append_singleton names d ih =>
    rw [List.foldl_append]
    exact (ih ho.init).step hp ho

theorem scopeStep_same (rows : List Row) (st : (Dataset → Bool) × (Dataset → Entry)) (d a : Dataset) :
    SameMark ((scopeStep rows st d).2 a) (st.2 a) := by
  simp only [scopeStep]
  split
  · exact SameMark.refl _
  · by_cases ha : a = (st.2 d).coveredBy
    · subst ha
      simp only [Function.update_self]
      exact ⟨(Effective.forReplicationScope_keeps ..).2.1, rfl, rfl, rfl⟩
    · simp only [Function.update_of_ne ha]
      exact SameMark.refl _

theorem scopeStep_foldl_same (rows : List Row) (names : List Dataset) (st : (Dataset → Bool) × (Dataset → Entry))
    (a : Dataset) : SameMark ((names.foldl (scopeStep rows) st).2 a) (st.2 a) := by
  induction names generalizing st with
  | nil => exact SameMark.refl _
  | cons d names ih => exact (ih _).trans (scopeStep_same rows st d a)

structure RootsMarked (p : Dataset → Bool) (names : List Dataset) (entries : Dataset → Entry) : Prop where
  enabled : ∀ d, (entries d).policy.enabled = p d
  coveredBy : ∀ d, (entries d).coveredBy = if d ∈ names ∧ topmost p d ≠ some d then (topmost p d).getD [] else []
  members : ∀ r, (entries r).members =
    names.filter fun d => topmost p d == some r && (d == r || (entries d).member)

theorem markRoots_spec (rows : List Row) {names : List Dataset} {entries : Dataset → Entry} (ho : Ordered names)
    (hp : (entries []).policy.enabled = false) (hfresh : ∀ d, (entries d).coveredBy = []) :
    RootsMarked (fun d => (entries d).policy.enabled) names (markRoots rows names entries) := by
  have hm := marked_foldl ho hp hfresh
  unfold markRoots
  simp only
  set m := names.foldl markStep ⟨fun _ => [], fun _ => [], entries⟩
  set listed : Dataset → Entry := fun d => { m.entries d with members := m.members d }
  have hsame := scopeStep_foldl_same rows names ((fun _ => false), listed)
  refine ⟨fun d => ?_, fun d => ?_, fun r => ?_⟩
  · exact (hsame d).enabled.trans (hm.enabled d)
  · exact (hsame d).coveredBy.trans (hm.coveredBy d)
  · rw [(hsame r).members]
    refine (hm.members r).trans (List.filter_congr fun d _ => ?_)
    rw [(hsame d).member]

/-! ## Names -/

section Names

variable {t : Texts} {rows : List Row} {o : Options} {read : Rows} {names : List Dataset} {d : Dataset}

theorem resolveEntries_dataset (hd : d ∈ names) : (resolveEntries t rows o read names d).dataset = d := by
  unfold resolveEntries
  generalize (fun _ => Entry.zero : Dataset → Entry) = entries
  induction names using List.reverseRecOn with
  | nil => cases hd
  | append_singleton names a ih =>
    rw [List.foldl_append, List.foldl_cons, List.foldl_nil]
    by_cases hda : d = a
    · rw [hda, Function.update_self]
      rfl
    · rw [Function.update_of_ne hda]
      refine ih ?_
      simpa [hda] using hd

theorem cover_dataset (root : Dataset) (rootEntry entry : Entry) :
    (cover root rootEntry entry).1.dataset = rootEntry.dataset ∧ (cover root rootEntry entry).2.dataset = entry.dataset := by
  unfold cover
  simp only
  split_ifs <;> exact ⟨rfl, rfl⟩

theorem update_dataset {entries : Dataset → Entry} {a : Dataset} {e : Entry} (he : e.dataset = (entries a).dataset) :
    (Function.update entries a e d).dataset = (entries d).dataset := by
  by_cases hda : d = a
  · rw [hda, Function.update_self, he]
  · rw [Function.update_of_ne hda]

theorem markStep_dataset (m : Marks) (a : Dataset) : ((markStep m a).entries d).dataset = (m.entries d).dataset := by
  unfold markStep
  simp only
  generalize (if (m.within (parentName a) == [] && (m.entries a).policy.enabled) = true then a
    else m.within (parentName a)) = root
  split
  · rfl
  · split
    · rfl
    · have hcover := cover_dataset root (m.entries root) (m.entries a)
      rw [update_dataset, update_dataset hcover.1]
      rw [update_dataset hcover.1]
      exact hcover.2

theorem scopeStep_dataset (st : (Dataset → Bool) × (Dataset → Entry)) (a : Dataset) :
    ((scopeStep rows st a).2 d).dataset = (st.2 d).dataset := by
  unfold scopeStep
  simp only
  split_ifs
  · rfl
  · exact update_dataset rfl

theorem foldl_dataset {σ : Type} {f : σ → Dataset → σ} {g : σ → Dataset → Entry}
    (h : ∀ st a, (g (f st a) d).dataset = (g st d).dataset) (st : σ) :
    (g (names.foldl f st) d).dataset = (g st d).dataset := by
  induction names generalizing st with
  | nil => rfl
  | cons a names ih => rw [List.foldl_cons, ih, h]

theorem markRoots_dataset (rows : List Row) (names : List Dataset) (entries : Dataset → Entry) :
    (markRoots rows names entries d).dataset = (entries d).dataset := by
  unfold markRoots
  simp only
  rw [foldl_dataset (g := fun st : (Dataset → Bool) × (Dataset → Entry) => st.2) fun st a => scopeStep_dataset st a]
  exact foldl_dataset (g := Marks.entries) (fun m a => markStep_dataset m a) _

end Names

/-! ## The partition -/

def Scanned.IsRoot (g : Scanned) (d : Dataset) : Prop :=
  d ∈ g.names ∧ (g.entries d).coveredBy = [] ∧ (g.entries d).policy.enabled = true

structure Partition (g : Scanned) : Prop where
  root_iff : ∀ d ∈ g.names, g.IsRoot d ↔
    (g.entries d).policy.enabled = true ∧ ∀ a, a <+: d → a ≠ d → (g.entries a).policy.enabled = false
  apart : ∀ r r', g.IsRoot r → g.IsRoot r' → r <+: r' → r = r'
  covered : ∀ d ∈ g.names, ∀ r, g.IsRoot r → r <+: d → r ≠ d → (g.entries d).coveredBy = r
  outside : ∀ d ∈ g.names, (∀ r, g.IsRoot r → ¬ r <+: d) → (g.entries d).coveredBy = []
  one_root : ∀ d r r', d ∈ (g.entries r).members → d ∈ (g.entries r').members → r = r'
  starts : ∀ r, g.IsRoot r → (g.entries r).members.head? = some r
  parents_first : ∀ r, (g.entries r).members.Pairwise fun a b => ¬ b <+: a
  members : ∀ r, g.IsRoot r → ∀ d, d ∈ (g.entries r).members ↔
    d = r ∨ (d ∈ g.names ∧ (g.entries d).member = true ∧ (g.entries d).coveredBy = r)
  others : ∀ d, ¬ g.IsRoot d → (g.entries d).members = []

section

variable {g : Scanned} {p : Dataset → Bool}

theorem RootsMarked.isRoot_iff (h : RootsMarked p g.names g.entries) (hp : p [] = false) {d : Dataset} :
    g.IsRoot d ↔ d ∈ g.names ∧ topmost p d = some d := by
  constructor
  · rintro ⟨hd, hcovered, henabled⟩
    refine ⟨hd, ?_⟩
    rw [h.enabled] at henabled
    by_contra htop
    rw [h.coveredBy, if_pos ⟨hd, htop⟩] at hcovered
    cases hr : topmost p d with
    | none => simp [topmost_eq_none.mp hr d List.prefix_rfl] at henabled
    | some r =>
      rw [hr] at hcovered
      exact topmost_ne_nil hp hr hcovered
  · rintro ⟨hd, htop⟩
    refine ⟨hd, ?_, ?_⟩
    · rw [h.coveredBy, if_neg (by simp [htop])]
    · rw [h.enabled]
      exact (topmost_eq_some.mp htop).1

theorem RootsMarked.root_mem (hp : p [] = false) (ho : Ordered g.names) {d r : Dataset} (hd : d ∈ g.names)
    (htop : topmost p d = some r) : r ∈ g.names :=
  ho.prefix_mem hd (topmost_ne_nil hp htop) (topmost_eq_some.mp htop).2.1

theorem RootsMarked.mem_members (h : RootsMarked p g.names g.entries) {d r : Dataset} :
    d ∈ (g.entries r).members ↔
      d ∈ g.names ∧ topmost p d = some r ∧ (d = r ∨ (g.entries d).member = true) := by
  rw [h.members]
  simp

theorem RootsMarked.partition (h : RootsMarked p g.names g.entries) (hp : p [] = false) (ho : Ordered g.names) :
    Partition g := by
  have hroot := fun d => h.isRoot_iff hp (d := d)
  constructor
  · intro d hd
    rw [hroot, topmost_self_iff]
    simp [hd, h.enabled]
  · intro r r' hr hr' hrr'
    have := topmost_inside ((hroot r).mp hr).2 hrr'
    rw [((hroot r').mp hr').2] at this
    exact (Option.some.inj this).symm
  · intro d hd r hr hrd hne
    have htop := topmost_inside ((hroot r).mp hr).2 hrd
    rw [h.coveredBy, if_pos ⟨hd, by simp [htop, hne]⟩, htop, Option.getD_some]
  · intro d hd hout
    rw [h.coveredBy]
    cases htop : topmost p d with
    | none => simp
    | some r =>
      have hr : g.IsRoot r := (hroot r).mpr ⟨RootsMarked.root_mem hp ho hd htop, topmost_idem htop⟩
      exact absurd (topmost_eq_some.mp htop).2.1 (hout r hr)
  · intro d r r' hr hr'
    rw [h.mem_members] at hr hr'
    exact Option.some.inj (hr.2.1.symm.trans hr'.2.1)
  · intro r hr
    obtain ⟨hr, htop⟩ := (hroot r).mp hr
    have hmem : r ∈ (g.entries r).members := h.mem_members.mpr ⟨hr, htop, .inl rfl⟩
    have hordered : (g.entries r).members.Pairwise fun a b => ¬ b <+: a := by
      rw [h.members]
      exact ho.ordered.filter _
    -- every member lies inside the root, so the root cannot come after one
    cases hl : (g.entries r).members with
    | nil => simp [hl] at hmem
    | cons x rest =>
      have hx : r <+: x := (topmost_eq_some.mp (h.mem_members.mp (hl ▸ List.mem_cons_self)).2.1).2.1
      rw [hl] at hmem hordered
      rcases List.mem_cons.mp hmem with rfl | hlater
      · rfl
      · exact absurd hx ((List.pairwise_cons.mp hordered).1 r hlater)
  · intro r
    rw [h.members]
    exact ho.ordered.filter _
  · intro r hr d
    obtain ⟨hr, htop⟩ := (hroot r).mp hr
    rw [h.mem_members, h.coveredBy]
    constructor
    · rintro ⟨hd, hdr, hwhy⟩
      by_cases hne : d = r
      · exact .inl hne
      · right
        rw [if_pos ⟨hd, by simp [hdr, Ne.symm hne]⟩, hdr]
        exact ⟨hd, hwhy.resolve_left hne, rfl⟩
    · rintro (rfl | ⟨hd, hmember, hcovered⟩)
      · exact ⟨hr, htop, .inl rfl⟩
      · refine ⟨hd, ?_, .inr hmember⟩
        have hne : r ≠ [] := topmost_ne_nil hp htop
        split at hcovered
        · cases hdr : topmost p d with
          | none => simp [hdr, hne.symm] at hcovered
          | some r' => rw [hdr, Option.getD_some] at hcovered; rw [hcovered]
        · exact absurd hcovered.symm hne
  · intro d hd
    rw [h.members, List.filter_eq_nil_iff]
    intro a ha hcond
    have htop : topmost p a = some d := by
      rw [Bool.and_eq_true, beq_iff_eq] at hcond
      exact hcond.1
    exact hd ((hroot d).mpr ⟨RootsMarked.root_mem hp ho ha htop, topmost_idem htop⟩)

end

/-! ## Scans -/

section

variable {t : Texts} {r r' : Reader} {o o' : Options} {retained retained' : List Dataset} {g g' : Scanned}

theorem scan_eq_ok (h : scan t r o retained = .ok g) :
    ∃ rows act read, r.listDatasets = .ok rows ∧ indexDatasets rows = .ok g.names ∧ r.activationProperties = .ok act ∧
      (∀ d ∈ g.names, (read.stored d).filter (activationRow d) = act.filter (activationRow d)) ∧
      g.entries = markRoots rows g.names (resolveEntries t rows o read g.names) := by
  simp only [scan, ok_iff] at h
  obtain ⟨rows, hrows, names, hnames, act, hact, ⟨⟨⟩, hvalid, ⟨inspect, sparse⟩, hsparse, -, read, hread, rfl⟩⟩ := h
  refine ⟨rows, act, read, hrows, hnames, hact, fun d hd => ?_, rfl⟩
  obtain ⟨hunread, hkept⟩ := sparseRead_spec hsparse
  have hne := (indexDatasets_ordered hnames).nonempty d hd
  have hout := readAll_readOut (fun d => activationRow_unique hvalid d)
    (Nat.lt_succ_of_le (List.length_filter_le ..)) (fun d hd => by simp [hunread] at hd) hread
  cases hfetched : read.fetched d with
  | true => exact hout.agrees d hfetched
  | false =>
    rw [hout.stored d hfetched]
    refine hkept d hne ?_
    by_contra hinspect
    have := hout.inspected d hd (addAncestors_foldl_mono (by simpa using hinspect))
    simp [hfetched] at this

theorem resolved_nil {rows : List Row} {read : Rows} {names : List Dataset} (ho : Ordered names) :
    (resolveEntries t rows o read names []).policy.enabled = false := by
  rw [resolveEntries_of_not_mem fun hmem => ho.nonempty [] hmem rfl]
  rfl

theorem resolved_marked (rows : List Row) (read : Rows) {names : List Dataset} (ho : Ordered names) :
    RootsMarked (fun d => (resolveEntries t rows o read names d).policy.enabled) names
      (markRoots rows names (resolveEntries t rows o read names)) :=
  markRoots_spec rows ho (resolved_nil ho) fun d => (resolveEntries_fresh d).1

theorem coverage_eq (hrows : r'.listDatasets = r.listDatasets)
    (hact : r'.activationProperties = r.activationProperties) (h : scan t r o retained = .ok g)
    (h' : scan t r' o' retained' = .ok g') (d : Dataset) :
    (g'.entries d).coveredBy = (g.entries d).coveredBy := by
  obtain ⟨rows, act, read, hr, hn, ha, hread, he⟩ := scan_eq_ok h
  obtain ⟨rows', act', read', hr', hn', ha', hread', he'⟩ := scan_eq_ok h'
  obtain rfl : rows' = rows := Except.ok.inj (hr'.symm.trans (hrows.trans hr))
  obtain rfl : act' = act := Except.ok.inj (ha'.symm.trans (hact.trans ha))
  have hnames : g'.names = g.names := Except.ok.inj (hn'.symm.trans hn)
  have ho := indexDatasets_ordered hn
  rw [hnames] at hread' he'
  have henabled : (fun d => (resolveEntries t rows' o' read' g.names d).policy.enabled) =
      fun d => (resolveEntries t rows' o read g.names d).policy.enabled :=
    funext fun d => (resolveEntries_activation ho.nonempty
      (fun d hd => (hread' d hd).trans (hread d hd).symm) d).2
  rw [he, he', (resolved_marked rows' read' ho).coveredBy, (resolved_marked rows' read ho).coveredBy, henabled]

theorem partition_of_scan (h : scan t r o retained = .ok g) : Partition g := by
  obtain ⟨rows, -, read, -, hnames, -, -, hentries⟩ := scan_eq_ok h
  have ho := indexDatasets_ordered hnames
  have hmarked := resolved_marked (t := t) (o := o) rows read ho
  rw [← hentries] at hmarked
  exact hmarked.partition (resolved_nil ho) ho

theorem scan_dataset (h : scan t r o retained = .ok g) {d : Dataset} (hd : d ∈ g.names) : (g.entries d).dataset = d := by
  obtain ⟨rows, -, read, -, -, -, -, hentries⟩ := scan_eq_ok h
  rw [hentries, markRoots_dataset]
  exact resolveEntries_dataset hd

/-- Discovery partitions the dataset tree into actor roots, and nothing stored besides activation
changes which dataset is covered by which root. -/
theorem scan_partitions (h : scan t r o retained = .ok g) :
    Partition g ∧ ∀ r' o' retained' g', r'.listDatasets = r.listDatasets →
      r'.activationProperties = r.activationProperties → scan t r' o' retained' = .ok g' →
        ∀ d, (g'.entries d).coveredBy = (g.entries d).coveredBy := by
  exact ⟨partition_of_scan h, fun r' o' retained' g' hrows hact h' => coverage_eq hrows hact h h'⟩

/-- A sibling sorts between a root and its members, and no policy has a valid grid. -/
def mixedReader : Reader where
  listDatasets := .ok [⟨["reef", "b", "c"], .filesystem, "-"⟩, ⟨["reef-a"], .volume, ""⟩, ⟨["reef"], .filesystem, ""⟩,
    ⟨["reef", "b"], .filesystem, ""⟩]
  activationProperties := .ok mixedRows
  lifecycleProperties := none
  storedProperties := fun batch => .ok (mixedRows.filter fun row => (rowDataset row).any batch.contains)
where
  mixedRows : List Property :=
    [⟨.dataset ["reef"], enabledKey, .text "on", .sourceLocal⟩, ⟨.dataset ["reef", "b"], enabledKey, .text "off", .sourceLocal⟩,
      ⟨.dataset ["reef", "b", "c"], enabledKey, .text "on", .sourceLocal⟩,
      ⟨.dataset ["reef-a"], enabledKey, .text "on", .sourceReceived⟩]

theorem mixedReader_partitions :
    ∃ g, scan plainTexts mixedReader ⟨128, 32768, []⟩ [] = .ok g ∧ Partition g ∧
      g.names.map (fun d => (g.entries d).coveredBy) = [[], [], ["reef"], ["reef"]] := by
  obtain ⟨g, hg⟩ : ∃ g, scan plainTexts mixedReader ⟨128, 32768, []⟩ [] = .ok g := ⟨_, rfl⟩
  refine ⟨g, hg, (scan_partitions hg).1, ?_⟩
  cases hg
  decide

end

end Boomerangz.Discovery
