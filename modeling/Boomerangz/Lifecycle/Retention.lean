import Boomerangz.Lifecycle.Prune

/-! # What retention keeps

`planPrune_destroys_iff` says exactly which snapshots a plan marks for destruction.
-/

namespace Boomerangz.Lifecycle

open Check Zfs Policy

/-! ## One pass of the loop -/

def claimed (anchor : Time) (buckets : List Bucket) : List (Nat × Nat) → List Candidate → List (Nat × Nat)
  | winners, [] => winners
  | winners, x :: l => claimed anchor buckets ((windowAt anchor buckets x).toList ++ winners) l

section Loop

variable {anchor : Time} {buckets : List Bucket}

theorem mem_claimed {winners : List (Nat × Nat)} {l : List Candidate} {k : Nat × Nat} :
    k ∈ claimed anchor buckets winners l ↔
      k ∈ winners ∨ ∃ x ∈ l, windowAt anchor buckets x = some k := by
  induction l generalizing winners with
  | nil => simp [claimed]
  | cons x l ih =>
    simp only [claimed, ih, List.mem_append, Option.mem_toList, List.mem_cons, exists_eq_or_imp]
    tauto

theorem mem_decisions {winners : List (Nat × Nat)} {l : List Candidate} {d : Decision} :
    d ∈ decisions anchor buckets winners l ↔ ∃ pre x post, l = pre ++ x :: post ∧
      d = verdict anchor buckets (claimed anchor buckets winners pre) x post := by
  induction l generalizing winners with
  | nil => simp [decisions]
  | cons y l ih =>
    rw [decisions, List.mem_cons, ih]
    constructor
    · rintro (rfl | ⟨pre, x, post, rfl, rfl⟩)
      · exact ⟨[], y, l, rfl, rfl⟩
      · exact ⟨y :: pre, x, post, rfl, rfl⟩
    · rintro ⟨_ | ⟨z, pre⟩, x, post, h, rfl⟩
      · obtain ⟨rfl, rfl⟩ := List.cons.inj h
        exact .inl rfl
      · obtain ⟨rfl, rfl⟩ := List.cons.inj h
        exact .inr ⟨pre, x, post, rfl, rfl⟩

theorem verdict_snapshot (winners : List (Nat × Nat)) (x : Candidate) (rest : List Candidate) :
    (verdict anchor buckets winners x rest).snapshot = x.snapshot.name := rfl

/-- Nothing but the grid stands between the snapshot and its destruction. -/
def Candidate.exposed (x : Candidate) : Prop :=
  x.owned = true ∧ x.snapshot.holds = [] ∧ x.snapshot.clones = [] ∧ x.snapshot.resumeRequired = false

theorem verdict_destroy_iff (winners : List (Nat × Nat)) (x : Candidate) (rest : List Candidate) :
    (verdict anchor buckets winners x rest).destroy = true ↔
      x.exposed ∧ (∃ y ∈ rest, y.owned = true) ∧
        ∀ k, windowAt anchor buckets x = some k → k ∈ winners := by
  unfold verdict Candidate.exposed
  cases howned : x.owned with
  | false => simp
  | true =>
    -- Only a snapshot with no dependency reaches the newest and grid cases.
    by_cases hr : x.snapshot.resumeRequired = true
    · simp [hr]
    by_cases hc : x.snapshot.clones = []
    swap
    · simp [hr, hc]
    by_cases hh : x.snapshot.holds = []
    swap
    · simp [hr, hc, hh]
    by_cases hnewest : ∃ y ∈ rest, y.owned = true
    · have hrest : rest.all (!·.owned) = false := by simpa using hnewest
      cases windowAt anchor buckets x with
      | none => simp [hr, hc, hh, hrest, hnewest]
      | some w => by_cases hk : w ∈ winners <;> simp [hr, hc, hh, hrest, hnewest, hk]
    · have hrest : rest.all (!·.owned) = true := by simpa using hnewest
      simp [hr, hc, hh, hrest, hnewest]

end Loop

/-! ## The plan -/

@[simp] theorem candidate_snapshot (lineage : ID) (s : Snapshot) : (candidate lineage s).snapshot = s := by
  unfold candidate
  split <;> rfl

theorem destroySnapshot_exposed {pool : State} {p : Dataset → Bool} {lineage : ID} {o : Object} {ns : List Name}
    (ho : o ∈ pool.objects) (hp : p o.name.base = true) (hn : o.name ∉ ns)
    (hx : (candidate lineage (snapshotOf (pool.restrict p) o)).exposed) :
    (pool.without ns).destroySnapshot o.name = .ok (pool.without (o.name :: ns)) := by
  obtain ⟨-, hholds, hclones, -⟩ := hx
  rw [candidate_snapshot] at hholds hclones
  have hnohold : (pool.without ns).holds.any (·.1 == o.name) = false := by
    simp only [snapshotOf, State.restrict, List.map_eq_nil_iff, List.filter_eq_nil_iff, List.mem_filter,
      beq_iff_eq, State.without, List.any_eq_false] at hholds ⊢
    exact fun r hr hrn => hholds r ⟨hr.1, by rw [hrn, hp]⟩ hrn
  have hnoclone : (pool.without ns).clones.any (·.1 == o.name) = false := by
    simp only [snapshotOf, State.restrict, List.map_eq_nil_iff, List.filter_eq_nil_iff, List.mem_filter,
      beq_iff_eq, State.without, List.any_eq_false] at hclones ⊢
    exact fun r hr hrn => hclones r ⟨hr.1, by rw [hrn, hp]⟩ hrn
  have hobject : (pool.without ns).hasObject o.name = true :=
    State.hasObject_without.mpr ⟨State.hasObject_iff.mpr ⟨o, ho, rfl⟩, hn⟩
  simp only [State.destroySnapshot, ok_iff, hobject, hnohold, hnoclone, Bool.not_false, State.without_erase, true_and]

theorem candidate_injective (lineage : ID) : Function.Injective (candidate lineage) :=
  Function.LeftInverse.injective (g := Candidate.snapshot) (candidate_snapshot lineage)

def windowIn (lineage : ID) (grid : Grid) (snapshots : List Snapshot) (s : Snapshot) : Option (Nat × Nat) :=
  windowAt (anchorOf (snapshots.map (candidate lineage))) grid.buckets (candidate lineage s)

def isOwnedBy (lineage : ID) (s : Snapshot) : Prop := (candidate lineage s).owned = true

instance (lineage : ID) (s : Snapshot) : Decidable (isOwnedBy lineage s) :=
  inferInstanceAs (Decidable (_ = true))

def recordedBefore (lineage : ID) (s t : Snapshot) : Prop :=
  (candidate lineage s).key < (candidate lineage t).key

instance (lineage : ID) (s t : Snapshot) : Decidable (recordedBefore lineage s t) :=
  inferInstanceAs (Decidable (_ < _))

/-- Exactly what retention destroys. -/
def Pruned (lineage : ID) (grid : Grid) (snapshots : List Snapshot) (s : Snapshot) : Prop :=
  (candidate lineage s).exposed ∧
    (∃ t ∈ snapshots, isOwnedBy lineage t ∧ recordedBefore lineage s t) ∧
    ∀ k, windowIn lineage grid snapshots s = some k →
      ∃ t ∈ snapshots, recordedBefore lineage t s ∧ windowIn lineage grid snapshots t = some k

theorem nameKey_inj {d : Dataset} {c c' : Component}
    (h : nameKey (.snapshot d c) = nameKey (.snapshot d c')) : c = c' := by
  cases c <;> cases c' <;> simp_all [nameKey]

theorem key_inj {d : Dataset} {lineage : ID} {s t : Snapshot} {c c' : Component}
    (hs : s.name = .snapshot d c) (ht : t.name = .snapshot d c')
    (h : (candidate lineage s).key = (candidate lineage t).key) : s.name = t.name := by
  simp only [Candidate.key, candidate_snapshot, EmbeddingLike.apply_eq_iff_eq, Prod.mk.injEq, hs, ht] at h
  rw [hs, ht, nameKey_inj h.2]

def InScope (d : Dataset) (snapshots : List Snapshot) : Prop :=
  (∀ s ∈ snapshots, ∃ c, s.name = .snapshot d c) ∧ (snapshots.map Snapshot.name).Nodup

theorem snapshotsIn_inScope (s : State) (d : Dataset) : InScope d (snapshotsIn s d) := by
  refine ⟨fun x hx => ?_, snapshotsIn_nodup s d⟩
  obtain ⟨o, -, ht, rfl, rfl⟩ := mem_snapshotsIn.mp hx
  obtain ⟨d, c, hn⟩ := o.type_snapshot_iff.mp ht
  exact ⟨c, by rw [snapshotOf, hn]; rfl⟩

theorem planPrune_eq_ok {d : Dataset} {lineage : ID} {grid : Grid} {snapshots : List Snapshot}
    {ds : List Decision} :
    planPrune d lineage grid snapshots = .ok ds ↔ validDataset d = true ∧ 0 < grid.cadence ∧
      InScope d snapshots ∧
      ds = (decisions (anchorOf (snapshots.map (candidate lineage))) grid.buckets []
        ((snapshots.map (candidate lineage)).insertionSort (fun a b => a.key ≤ b.key))).insertionSort
          (fun a b => nameKey a.snapshot ≤ nameKey b.snapshot) := by
  have hscope : (snapshots.all (fun s => s.name.isSnapshot && s.name.base == d) &&
      decide (snapshots.map Snapshot.name).Nodup) = true ↔ InScope d snapshots := by
    simp only [Bool.and_eq_true, List.all_eq_true, decide_eq_true_eq, InScope]
    refine and_congr_left fun _ => forall₂_congr fun s _ => ?_
    cases s.name <;> simp [Name.base, Name.isSnapshot]
  simp only [planPrune, ok_iff, decide_eq_true_eq]
  tauto

theorem decisions_snapshots {anchor : Time} {buckets : List Bucket} {winners : List (Nat × Nat)}
    {l : List Candidate} :
    (decisions anchor buckets winners l).map Decision.snapshot = l.map (·.snapshot.name) := by
  induction l generalizing winners with
  | nil => rfl
  | cons x l ih => simp [decisions, ih, verdict_snapshot]

section Split

variable {d : Dataset} {lineage : ID} {grid : Grid} {snapshots : List Snapshot}

theorem items_inj (h : InScope d snapshots) :
    ∀ a ∈ snapshots.map (candidate lineage), ∀ b ∈ snapshots.map (candidate lineage),
      a.key = b.key → a = b := by
  simp only [List.mem_map]
  rintro _ ⟨a, ha, rfl⟩ _ ⟨b, hb, rfl⟩ he
  obtain ⟨c, hc⟩ := h.1 a ha
  obtain ⟨c', hc'⟩ := h.1 b hb
  rw [List.inj_on_of_nodup_map h.2 ha hb (key_inj hc hc' he)]

theorem verdict_iff_pruned (h : InScope d snapshots) {s : Snapshot} {pre post : List Candidate}
    (hsplit : (snapshots.map (candidate lineage)).insertionSort (fun a b => a.key ≤ b.key) =
      pre ++ candidate lineage s :: post) :
    (verdict (anchorOf (snapshots.map (candidate lineage))) grid.buckets
      (claimed (anchorOf (snapshots.map (candidate lineage))) grid.buckets [] pre)
      (candidate lineage s) post).destroy = true ↔ Pruned lineage grid snapshots s := by
  have hnodup := (List.Nodup.of_map _ h.2).map (candidate_injective lineage)
  obtain ⟨hpre, hpost⟩ := Lists.insertionSort_split hsplit hnodup (items_inj h)
  rw [verdict_destroy_iff, Pruned]
  simp only [mem_claimed, hpre, hpost, List.mem_map, List.not_mem_nil, false_or]
  refine and_congr_right fun _ => and_congr ?_ (forall₂_congr fun k _ => ?_)
  · constructor
    · rintro ⟨_, ⟨⟨t, ht, rfl⟩, hlt⟩, ho⟩
      exact ⟨t, ht, ho, hlt⟩
    · rintro ⟨t, ht, ho, hlt⟩
      exact ⟨_, ⟨⟨t, ht, rfl⟩, hlt⟩, ho⟩
  · constructor
    · rintro ⟨_, ⟨⟨t, ht, rfl⟩, hlt⟩, hw⟩
      exact ⟨t, ht, hlt, hw⟩
    · rintro ⟨t, ht, hlt, hw⟩
      exact ⟨_, ⟨⟨t, ht, rfl⟩, hlt⟩, hw⟩

theorem planPrune_destroys_iff {ds : List Decision} (h : planPrune d lineage grid snapshots = .ok ds)
    {s : Snapshot} (hs : s ∈ snapshots) :
    (∃ dec ∈ ds, dec.snapshot = s.name ∧ dec.destroy = true) ↔ Pruned lineage grid snapshots s := by
  obtain ⟨-, -, hscope, rfl⟩ := planPrune_eq_ok.mp h
  have hperm := List.perm_insertionSort (fun a b : Candidate => a.key ≤ b.key)
    (snapshots.map (candidate lineage))
  simp only [List.mem_insertionSort, mem_decisions]
  constructor
  · rintro ⟨dec, ⟨pre, y, post, hsplit, rfl⟩, hname, hdestroy⟩
    have hy : y ∈ snapshots.map (candidate lineage) := hperm.mem_iff.mp (by rw [hsplit]; simp)
    obtain ⟨t, ht, rfl⟩ := List.mem_map.mp hy
    rw [verdict_snapshot, candidate_snapshot] at hname
    obtain rfl := List.inj_on_of_nodup_map hscope.2 ht hs hname
    exact (verdict_iff_pruned hscope hsplit).mp hdestroy
  · intro hpruned
    obtain ⟨pre, post, hsplit⟩ := List.append_of_mem (hperm.mem_iff.mpr (List.mem_map_of_mem hs))
    refine ⟨_, ⟨pre, _, post, hsplit, rfl⟩, ?_, (verdict_iff_pruned hscope hsplit).mpr hpruned⟩
    rw [verdict_snapshot, candidate_snapshot]

theorem planPrune_nodup {ds : List Decision} (h : planPrune d lineage grid snapshots = .ok ds) :
    (ds.map Decision.snapshot).Nodup := by
  obtain ⟨-, -, hscope, rfl⟩ := planPrune_eq_ok.mp h
  rw [((List.perm_insertionSort _ _).map _).nodup_iff, decisions_snapshots,
    ((List.perm_insertionSort _ _).map _).nodup_iff, List.map_map]
  simpa [Function.comp_def] using hscope.2

theorem planPrune_about {ds : List Decision} (h : planPrune d lineage grid snapshots = .ok ds)
    {dec : Decision} (hdec : dec ∈ ds) : ∃ s ∈ snapshots, dec.snapshot = s.name ∧ dec.guid = s.guid := by
  obtain ⟨-, -, -, rfl⟩ := planPrune_eq_ok.mp h
  rw [List.mem_insertionSort, mem_decisions] at hdec
  obtain ⟨pre, y, post, hsplit, rfl⟩ := hdec
  have hy : y ∈ snapshots.map (candidate lineage) :=
    (List.perm_insertionSort _ _).mem_iff.mp (by rw [hsplit]; simp)
  obtain ⟨s, hs, rfl⟩ := List.mem_map.mp hy
  exact ⟨s, hs, by rw [verdict_snapshot, candidate_snapshot], by simp [verdict]⟩

end Split

theorem planPrune_snapshotsIn (s : State) {d : Dataset} (lineage : ID) {grid : Grid}
    (hd : validDataset d = true) (hgrid : 0 < grid.cadence) :
    ∃ ds, planPrune d lineage grid (snapshotsIn s d) = .ok ds :=
  ⟨_, planPrune_eq_ok.mpr ⟨hd, hgrid, snapshotsIn_inScope s d, rfl⟩⟩

end Boomerangz.Lifecycle
