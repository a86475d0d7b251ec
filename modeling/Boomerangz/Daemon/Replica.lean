import Boomerangz.Lifecycle.Retention
import Boomerangz.Transfer.Request

/-! # Pruning a replica -/

namespace Boomerangz.Daemon

open Check Zfs Policy Lifecycle Transfer

abbrev Stopped := State × Option Error

def stillProven (lineage : ID) (dec : Decision) (s : Snapshot) : Bool :=
  (candidate lineage s).owned && s.guid == dec.guid && s.holds.isEmpty && s.clones.isEmpty &&
    !s.resumeRequired

def destroyReplica (lineage : ID) (d : Dataset) (dest : State) (dec : Decision) : Except Error State := do
  let current ← dest.inspect d false
  match (snapshotsIn current d).find? (·.name == dec.snapshot) with
  | none => throw (.message "destination prune candidate disappeared: %s" [.name dec.snapshot])
  | some s =>
    require (stillProven lineage dec s)
      (.message "destination prune proof changed: %s" [.name dec.snapshot])
    dest.destroySnapshot dec.snapshot

def destroyReplicas (lineage : ID) (d : Dataset) : State → List Decision → Stopped
  | dest, [] => (dest, none)
  | dest, dec :: rest =>
    match destroyReplica lineage d dest dec with
    | .error e => (dest, some e)
    | .ok dest => destroyReplicas lineage d dest rest

/-- The grid of the member a replica replicates; a replication root's replicas all follow the
root's. -/
def gridFor (root : Dataset) (p : Effective) (members : List Member) (d : Dataset) : Option Grid :=
  if p.send.replicate then some p.grid
  else match members.reverse.find? (·.dataset == d) with
    | some m => some m.policy.grid
    | none => if d = root then some p.grid else none

/-- The loop of `pruneDestination` over the replicas that `state` shows. -/
def pruneReplicas (lineage : ID) (gridAt : Dataset → Option Grid) (state : State) :
    State → List Object → Stopped
  | dest, [] => (dest, none)
  | dest, o :: rest =>
    match gridAt o.name.base with
    | none => pruneReplicas lineage gridAt state dest rest
    | some grid =>
      match planPrune o.name.base lineage grid (snapshotsIn state o.name.base) with
      | .error e => (dest, some e)
      | .ok ds =>
        match destroyReplicas lineage o.name.base dest (ds.filter Decision.destroy) with
        | (dest, some e) => (dest, some e)
        | (dest, none) => pruneReplicas lineage gridAt state dest rest

/-- `pruneDestination`, once the target binding of the root is verified: `mapped` is the root's
replica. -/
def pruneDestination (dest : State) (root mapped : Dataset) (p : Effective) (members : List Member)
    (lineage : ID) : Stopped :=
  match dest.inspect mapped (p.send.replicate || !members.isEmpty) with
  | .error e => (dest, some e)
  | .ok state => pruneReplicas lineage (fun d => gridFor root p members (root ++ d.drop mapped.length))
      state dest (state.objects.filter Object.isDataset)

/-! ## What is destroyed -/

section Destroy

variable {dest : State} {p : Dataset → Bool} {lineage : ID} {ns : List Name} {d : Dataset}

theorem snapshotOf_again {o : Object} (hb : o.name.base = d) (hn : o.name ∉ ns) (hp : p d = true)
    (hx : (candidate lineage (snapshotOf (dest.restrict p) o)).exposed) :
    snapshotOf ((dest.without ns).restrict (· == d)) o = snapshotOf (dest.restrict p) o := by
  subst hb
  have htokens : (dest.restrict p).resumeTokens = [] := by
    have := hx.2.2.2
    simpa [snapshotOf] using this
  have hagain : ((dest.without ns).restrict (· == o.name.base)).resumeTokens = [] := by
    simp only [State.restrict, State.without, List.filter_eq_nil_iff, beq_iff_eq] at htokens ⊢
    intro r hr hd
    exact htokens r hr (hd ▸ hp)
  rw [snapshotOf_restrict (by simp), snapshotOf_without hn, snapshotOf_restrict hp, hagain, htokens]

theorem destroyReplica_ok {o : Object} {dec : Decision} (hd : dest.hasObject (.dataset d) = true)
    (hdn : .dataset d ∉ ns) (ho : o ∈ dest.objects) (ht : o.type = .snapshot) (hb : o.name.base = d)
    (hn : o.name ∉ ns) (hp : p d = true)
    (hx : (candidate lineage (snapshotOf (dest.restrict p) o)).exposed)
    (hname : dec.snapshot = o.name) (hguid : dec.guid = o.guid) :
    destroyReplica lineage d (dest.without ns) dec = .ok (dest.without (o.name :: ns)) := by
  have hinspect : (dest.without ns).inspect d false = .ok ((dest.without ns).restrict (· == d)) :=
    State.inspect_eq_ok.mpr ⟨State.hasObject_without.mpr ⟨hd, hdn⟩, rfl⟩
  have hfind : (snapshotsIn ((dest.without ns).restrict (· == d)) d).find? (·.name == o.name) =
      some (snapshotOf (dest.restrict p) o) := by
    have hmem : snapshotOf (dest.restrict p) o ∈ snapshotsIn ((dest.without ns).restrict (· == d)) d :=
      mem_snapshotsIn.mpr ⟨o, by simp [ho, hn, hb], ht, hb, snapshotOf_again hb hn hp hx⟩
    cases h : (snapshotsIn ((dest.without ns).restrict (· == d)) d).find? (·.name == o.name) with
    | none => exact absurd (List.find?_eq_none.mp h _ hmem) (by simp [snapshotOf])
    | some x =>
      have hx := List.mem_of_find?_eq_some h
      have hxn : x.name = o.name := by simpa using List.find?_some h
      exact congrArg some (List.inj_on_of_nodup_map (snapshotsIn_nodup _ _) hx hmem hxn)
  have hproven : stillProven lineage dec (snapshotOf (dest.restrict p) o) = true := by
    obtain ⟨hown, hholds, hclones, hresume⟩ := hx
    rw [candidate_snapshot] at hholds hclones hresume
    simp [stillProven, hown, hholds, hclones, hresume, hguid]
    rfl
  have hdestroy := destroySnapshot_exposed ho (hb ▸ hp) hn hx
  simp only [destroyReplica, ok_iff, hinspect, Except.ok.injEq, exists_eq_left', hname, hfind, hproven, hdestroy,
    true_and]

def Sound (dest : State) (p : Dataset → Bool) (lineage : ID) (d : Dataset) (dec : Decision) : Prop :=
  ∃ o ∈ dest.objects, o.type = .snapshot ∧ o.name.base = d ∧ dec.snapshot = o.name ∧ dec.guid = o.guid ∧
    (candidate lineage (snapshotOf (dest.restrict p) o)).exposed

theorem destroyReplicas_eq (ns : List Name) (decs : List Decision) (hd : dest.hasObject (.dataset d) = true)
    (hp : p d = true) (hdn : ∀ n ∈ ns, n ≠ .dataset d)
    (hsound : ∀ dec ∈ decs, Sound dest p lineage d dec) (hnodup : (decs.map Decision.snapshot).Nodup)
    (hdisj : ∀ dec ∈ decs, dec.snapshot ∉ ns) :
    destroyReplicas lineage d (dest.without ns) decs =
      (dest.without ((decs.map Decision.snapshot).reverse ++ ns), none) := by
  induction decs generalizing ns with
  | nil => rfl
  | cons dec rest ih =>
    obtain ⟨o, ho, ht, hb, hname, hguid, hx⟩ := hsound dec (by simp)
    have hn : o.name ∉ ns := hname ▸ hdisj dec (by simp)
    rw [List.map_cons, List.nodup_cons, hname] at hnodup
    rw [destroyReplicas, destroyReplica_ok hd (fun h => hdn _ h rfl) ho ht hb hn hp hx hname hguid]
    have hrest := ih (o.name :: ns)
      (by
        rintro n hn'
        rcases List.mem_cons.mp hn' with rfl | hn'
        · obtain ⟨_, _, hs⟩ := o.type_snapshot_iff.mp ht
          simp [hs]
        · exact hdn n hn')
      (fun x hx => hsound x (by simp [hx])) hnodup.2
      (by
        intro x hx hmem
        rcases List.mem_cons.mp hmem with he | hmem
        · exact hnodup.1 (he ▸ List.mem_map_of_mem hx)
        · exact hdisj x (by simp [hx]) hmem)
    simpa [hname] using hrest

end Destroy

def Marked (lineage : ID) (gridAt : Dataset → Option Grid) (state : State) (d : Dataset) (n : Name) : Prop :=
  ∃ grid ds, gridAt d = some grid ∧ planPrune d lineage grid (snapshotsIn state d) = .ok ds ∧
    ∃ dec ∈ ds, dec.snapshot = n ∧ dec.destroy = true

section Loop

variable {dest : State} {p : Dataset → Bool} {lineage : ID} {gridAt : Dataset → Option Grid}

theorem sound_of_plan {d : Dataset} {grid : Grid} {ds : List Decision}
    (h : planPrune d lineage grid (snapshotsIn (dest.restrict p) d) = .ok ds) {dec : Decision}
    (hdec : dec ∈ ds) (hdestroy : dec.destroy = true) : Sound dest p lineage d dec := by
  obtain ⟨x, hx, hname, hguid⟩ := planPrune_about h hdec
  have hpruned := (planPrune_destroys_iff h hx).mp ⟨dec, hdec, hname, hdestroy⟩
  obtain ⟨o, ho, ht, hb, rfl⟩ := mem_snapshotsIn.mp hx
  exact ⟨o, (State.mem_restrict_objects.mp ho).1, ht, hb, hname, hguid, hpruned.1⟩

theorem Marked.base {d : Dataset} {n : Name} {state : State} (h : Marked lineage gridAt state d n) :
    ∃ c, n = .snapshot d c := by
  obtain ⟨grid, ds, -, hds, dec, hdec, rfl, -⟩ := h
  obtain ⟨x, hx, hname, -⟩ := planPrune_about hds hdec
  rw [hname]
  exact (snapshotsIn_inScope _ _).1 x hx

theorem pruneReplicas_eq (dest : State) (lineage : ID) {gridAt : Dataset → Option Grid} {objs : List Object}
    (ns : List Name)
    (hgrid : ∀ d grid, gridAt d = some grid → 0 < grid.cadence)
    (hobjs : ∀ o ∈ objs, o.isDataset = true ∧ dest.hasObject (.dataset o.name.base) = true ∧
      p o.name.base = true)
    (hnodup : (objs.map (·.name.base)).Nodup)
    (hns : ∀ n ∈ ns, (∃ d c, n = .snapshot d c) ∧ ∀ o ∈ objs, n.base ≠ o.name.base) :
    ∃ ns', pruneReplicas lineage gridAt (dest.restrict p) (dest.without ns) objs = (dest.without ns', none) ∧
      ∀ n, n ∈ ns' ↔ n ∈ ns ∨ ∃ o ∈ objs, Marked lineage gridAt (dest.restrict p) o.name.base n := by
  induction objs generalizing ns with
  | nil => exact ⟨ns, rfl, by simp⟩
  | cons o rest ih =>
    obtain ⟨-, hdo, hpo⟩ := hobjs o (by simp)
    rw [List.map_cons, List.nodup_cons] at hnodup
    have hobjs' := fun x (hx : x ∈ rest) => hobjs x (by simp [hx])
    have hns' := fun n (hn : n ∈ ns) => (⟨(hns n hn).1, fun x hx => (hns n hn).2 x (by simp [hx])⟩ :
      (∃ d c, n = Name.snapshot d c) ∧ ∀ x ∈ rest, n.base ≠ x.name.base)
    cases hg : gridAt o.name.base with
    | none =>
      obtain ⟨ns', hrun, hmem⟩ := ih ns hobjs' hnodup.2 hns'
      refine ⟨ns', by rw [pruneReplicas, hg]; exact hrun, fun n => ?_⟩
      have : ¬ Marked lineage gridAt (dest.restrict p) o.name.base n := by
        rintro ⟨grid, -, hgrid', -⟩
        simp [hg] at hgrid'
      simp [hmem, this]
    | some grid =>
      obtain ⟨ds, hds⟩ := planPrune_snapshotsIn (dest.restrict p) lineage o.valid (hgrid _ _ hg)
      have hmarked : ∀ n, n ∈ (ds.filter Decision.destroy).map Decision.snapshot ↔
          Marked lineage gridAt (dest.restrict p) o.name.base n := by
        intro n
        simp only [List.mem_map, List.mem_filter, Marked]
        constructor
        · rintro ⟨dec, ⟨hdec, hdestroy⟩, rfl⟩
          exact ⟨grid, ds, hg, hds, dec, hdec, rfl, hdestroy⟩
        · rintro ⟨grid', ds', hg', hds', dec, hdec, hn, hdestroy⟩
          obtain rfl : grid = grid' := Option.some.inj (hg.symm.trans hg')
          obtain rfl : ds = ds' := Except.ok.inj (hds.symm.trans hds')
          exact ⟨dec, ⟨hdec, hdestroy⟩, hn⟩
      have hdestroyed := destroyReplicas_eq ns (ds.filter Decision.destroy) hdo hpo
        (by
          rintro n hn rfl
          obtain ⟨⟨_, _, h⟩, -⟩ := hns _ hn
          cases h)
        (fun dec hdec => sound_of_plan hds (List.mem_filter.mp hdec).1 (List.mem_filter.mp hdec).2)
        ((List.Sublist.map _ List.filter_sublist).nodup (planPrune_nodup hds))
        (by
          intro dec hdec hmem
          obtain ⟨c, hc⟩ := ((hmarked _).mp (List.mem_map_of_mem hdec)).base
          exact (hns _ hmem).2 o (by simp) (by rw [hc]; rfl))
      obtain ⟨ns', hrun, hmem⟩ := ih (((ds.filter Decision.destroy).map Decision.snapshot).reverse ++ ns)
        hobjs' hnodup.2
        (by
          intro n hn
          rcases List.mem_append.mp hn with hn | hn
          · obtain ⟨c, rfl⟩ := ((hmarked n).mp (List.mem_reverse.mp hn)).base
            refine ⟨⟨_, c, rfl⟩, fun x hx he => hnodup.1 ?_⟩
            exact he ▸ List.mem_map_of_mem (f := fun y : Object => y.name.base) hx
          · exact hns' n hn)
      refine ⟨ns', ?_, fun n => ?_⟩
      · rw [pruneReplicas, hg]
        simp only [hds, hdestroyed]
        exact hrun
      · rw [hmem, List.mem_append, List.mem_reverse, hmarked]
        simp only [List.mem_cons, exists_eq_or_imp]
        tauto

end Loop

section Destination

variable {dest state : State} {root mapped : Dataset} {p : Effective} {members : List Member} {lineage : ID}

theorem pruneDestination_eq (hstate : dest.inspect mapped (p.send.replicate || !members.isEmpty) = .ok state)
    (hgrid : ∀ d grid, gridFor root p members d = some grid → 0 < grid.cadence) :
    ∃ ns, pruneDestination dest root mapped p members lineage = (dest.without ns, none) ∧
      ∀ n, n ∈ ns ↔ ∃ x ∈ state.objects.filter Object.isDataset,
        Marked lineage (fun d => gridFor root p members (root ++ d.drop mapped.length)) state x.name.base n := by
  obtain ⟨-, hrestrict⟩ := State.inspect_eq_ok.mp hstate
  have hdatasets : ∀ x ∈ state.objects.filter Object.isDataset, x.name = .dataset x.name.base := by
    intro x hx
    obtain ⟨d, hd⟩ := x.isDataset_iff.mp (List.mem_filter.mp hx).2
    rw [hd, Name.base_dataset]
  have hnodup := state.datasets_nodup
  subst hrestrict
  obtain ⟨ns, hrun, hmem⟩ := pruneReplicas_eq dest lineage []
    (p := fun x => if (p.send.replicate || !members.isEmpty) = true then inside x mapped else x == mapped)
    (fun d grid h => hgrid (root ++ d.drop mapped.length) grid h)
    (by
      intro x hx
      obtain ⟨hm, hb⟩ := State.mem_restrict_objects.mp (List.mem_filter.mp hx).1
      exact ⟨(List.mem_filter.mp hx).2, State.hasObject_iff.mpr ⟨x, hm, hdatasets x hx⟩, hb⟩)
    hnodup (by simp)
  rw [State.without_nil] at hrun
  refine ⟨ns, ?_, fun n => ?_⟩
  · rw [pruneDestination, hstate]
    exact hrun
  · rw [hmem, or_iff_right List.not_mem_nil]

theorem pruneDestination_keeps_iff {o : Object}
    (hstate : dest.inspect mapped (p.send.replicate || !members.isEmpty) = .ok state)
    (hgrid : ∀ d grid, gridFor root p members d = some grid → 0 < grid.cadence)
    (hd : state.hasObject (.dataset o.name.base) = true) (ho : o ∈ state.objects) :
    (pruneDestination dest root mapped p members lineage).1.hasObject o.name = true ↔
      ¬ Marked lineage (fun d => gridFor root p members (root ++ d.drop mapped.length)) state
        o.name.base o.name := by
  obtain ⟨ns, hrun, hmem⟩ := pruneDestination_eq hstate hgrid
  obtain ⟨-, hrestrict⟩ := State.inspect_eq_ok.mp hstate
  have hobj : dest.hasObject o.name = true := by
    rw [hrestrict] at ho
    exact State.hasObject_iff.mpr ⟨o, (State.mem_restrict_objects.mp ho).1, rfl⟩
  rw [hrun, State.hasObject_without, hmem, and_iff_right hobj]
  refine not_congr ⟨?_, fun h => ?_⟩
  · rintro ⟨x, -, hx⟩
    obtain ⟨c, hc⟩ := hx.base
    rwa [hc, Name.base_snapshot, ← hc]
  · obtain ⟨x, hx, hn⟩ := State.hasObject_iff.mp hd
    refine ⟨x, List.mem_filter.mpr ⟨hx, x.isDataset_iff.mpr ⟨_, hn⟩⟩, ?_⟩
    rwa [hn, Name.base_dataset]

end Destination

/-! ## The newest snapshot -/

structure NewestByTXG (s : State) (d : Dataset) (lineage : ID) (o : Object) : Prop where
  mem : o ∈ s.objects
  snapshot : o.type = .snapshot
  base : o.name.base = d
  owned : isOwnedBy lineage (snapshotOf s o)
  greatest : ∀ x ∈ s.objects, x.type = .snapshot → x.name.base = d → isOwnedBy lineage (snapshotOf s x) →
    x.createTXG ≤ o.createTXG

def hasDependency (x : Snapshot) : Prop := x.holds ≠ [] ∨ x.clones ≠ [] ∨ x.resumeRequired = true

/-- No owned snapshot of the dataset is later by recorded time, then by name. -/
def newestRecorded (lineage : ID) (snapshots : List Snapshot) (x : Snapshot) : Prop :=
  ∀ t ∈ snapshots, isOwnedBy lineage t → ¬ recordedBefore lineage x t

/-- The grid has a window for the snapshot, and no earlier owned snapshot falls into it. -/
def firstInWindow (lineage : ID) (grid : Grid) (snapshots : List Snapshot) (x : Snapshot) : Prop :=
  ∃ k, windowIn lineage grid snapshots x = some k ∧
    ∀ t ∈ snapshots, recordedBefore lineage t x → windowIn lineage grid snapshots t ≠ some k

theorem not_pruned_iff {lineage : ID} {grid : Grid} {snapshots : List Snapshot} {x : Snapshot}
    (hx : isOwnedBy lineage x) :
    ¬ Pruned lineage grid snapshots x ↔ hasDependency x ∨ newestRecorded lineage snapshots x ∨
      firstInWindow lineage grid snapshots x := by
  unfold Pruned Candidate.exposed hasDependency newestRecorded firstInWindow
  rw [candidate_snapshot]
  have hx' : (candidate lineage x).owned = true := hx
  have hresume : x.resumeRequired = false ↔ ¬ x.resumeRequired = true := by simp
  rw [hx', hresume]
  push Not
  constructor
  · intro h
    by_contra hno
    push Not at hno
    obtain ⟨hdep, ⟨t, ht, hto, hlt⟩, hwin⟩ := hno
    obtain ⟨k, hk, hfirst⟩ := h ⟨rfl, hdep⟩ ⟨t, ht, hto, hlt⟩
    obtain ⟨y, hy, hylt, hyk⟩ := hwin k hk
    exact hfirst y hy hylt hyk
  · rintro h ⟨-, hholds, hclones, hres⟩ ⟨t, ht, hto, hlt⟩
    rcases h with (h | h | h) | h | h
    · exact absurd hholds h
    · exact absurd hclones h
    · exact absurd h hres
    · exact absurd hlt (h t ht hto)
    · exact h

/-- Neither the plan for a source dataset nor a destination prune of a replica in the same state
removes the newest snapshot, exactly when a dependency, the order of recorded times or its window
keeps it. -/
theorem newest_kept_iff (s : State) (d : Dataset) (lineage : ID) (grid : Grid) (o : Object)
    (hgrid : 0 < grid.cadence) (hd : s.hasObject (.dataset d) = true) (h : NewestByTXG s d lineage o) :
    ((∀ ds, planPrune d lineage grid (snapshotsIn s d) = .ok ds →
        ¬ ∃ dec ∈ ds, dec.snapshot = o.name ∧ dec.destroy = true) ∧
      ∀ (dest : State) (root mapped : Dataset) (p : Effective) (members : List Member),
        dest.inspect mapped (p.send.replicate || !members.isEmpty) = .ok s →
        (∀ d' grid', gridFor root p members d' = some grid' → 0 < grid'.cadence) →
        gridFor root p members (root ++ d.drop mapped.length) = some grid →
        (pruneDestination dest root mapped p members lineage).1.hasObject o.name = true) ↔
      hasDependency (snapshotOf s o) ∨ newestRecorded lineage (snapshotsIn s d) (snapshotOf s o) ∨
        firstInWindow lineage grid (snapshotsIn s d) (snapshotOf s o) := by
  obtain ⟨hm, ht, rfl, howned, -⟩ := h
  have hmem : snapshotOf s o ∈ snapshotsIn s o.name.base := mem_snapshotsIn.mpr ⟨o, hm, ht, rfl, rfl⟩
  obtain ⟨ds, hds⟩ := planPrune_snapshotsIn s lineage o.valid hgrid
  have hplan := planPrune_destroys_iff hds hmem
  rw [← not_pruned_iff howned, ← hplan]
  constructor
  · rintro ⟨hsource, -⟩
    exact hsource ds hds
  · intro hkept
    refine ⟨fun ds' hds' => ?_, fun dest root mapped p members hs hgrids hg => ?_⟩
    · obtain rfl : ds = ds' := Except.ok.inj (hds.symm.trans hds')
      exact hkept
    · rw [pruneDestination_keeps_iff hs hgrids hd hm]
      rintro ⟨grid', ds', hg', hds', hmarked⟩
      obtain rfl : grid = grid' := Option.some.inj (hg.symm.trans hg')
      obtain rfl : ds = ds' := Except.ok.inj (hds.symm.trans hds')
      exact hkept hmarked

/-! A clock that stepped back by 50 minutes between two snapshots, and a grid of one window of 40 minutes. -/

def replicaLineage : ID := ⟨1, 1⟩

def replicaSnapshot (created short txg : Nat) (h : txg ≠ 0) : Object :=
  ⟨.snapshot ["tank", "data"] (.owned created short), .snapshot, txg, txg,
    show validDataset ["tank", "data"] = true by decide, rfl, h, h⟩

def replicaProperties (created short : Nat) : List Property :=
  [⟨.snapshot ["tank", "data"] (.owned created short), .lineage, .id replicaLineage, .sourceLocal⟩,
    ⟨.snapshot ["tank", "data"] (.owned created short), .snapshot, .id ⟨short, 0⟩, .sourceLocal⟩]

def steppedBack : State where
  objects := [⟨.dataset ["tank", "data"], .filesystem, 1, 1, by decide, rfl, by decide, by decide⟩,
    replicaSnapshot (100 * minute) 7 10 (by decide), replicaSnapshot (50 * minute) 8 20 (by decide)]
  properties := replicaProperties (100 * minute) 7 ++ replicaProperties (50 * minute) 8
  distinct := by decide

def newerReplica : Object := replicaSnapshot (50 * minute) 8 20 (by decide)

theorem newerReplica_newest : NewestByTXG steppedBack ["tank", "data"] replicaLineage newerReplica where
  mem := by decide
  snapshot := rfl
  base := rfl
  owned := by decide
  greatest := by decide

theorem newest_destroyed :
    NewestByTXG steppedBack ["tank", "data"] replicaLineage newerReplica ∧
      (∃ ds, planPrune ["tank", "data"] replicaLineage (.windows 1 40)
          (snapshotsIn steppedBack ["tank", "data"]) = .ok ds ∧
        ∃ dec ∈ ds, dec.snapshot = newerReplica.name ∧ dec.destroy = true) ∧
      (pruneDestination steppedBack ["tank", "data"] ["tank", "data"] (.plain (.windows 1 40) [] [])
        [] replicaLineage).1.hasObject newerReplica.name = false := by
  refine ⟨newerReplica_newest, ⟨_, rfl, ?_⟩, by decide⟩
  decide

/-- With one window more, the grid keeps it. -/
theorem newest_kept_in_second_window :
    (∀ ds, planPrune ["tank", "data"] replicaLineage (.windows 2 40)
        (snapshotsIn steppedBack ["tank", "data"]) = .ok ds →
      ¬ ∃ dec ∈ ds, dec.snapshot = newerReplica.name ∧ dec.destroy = true) ∧
    ∀ (dest : State) (root mapped : Dataset) (p : Effective) (members : List Member),
      dest.inspect mapped (p.send.replicate || !members.isEmpty) = .ok steppedBack →
      (∀ d' grid', gridFor root p members d' = some grid' → 0 < grid'.cadence) →
      gridFor root p members (root ++ ["tank", "data"].drop mapped.length) = some (.windows 2 40) →
      (pruneDestination dest root mapped p members replicaLineage).1.hasObject newerReplica.name = true :=
  (newest_kept_iff steppedBack ["tank", "data"] replicaLineage (.windows 2 40) newerReplica
    (by decide) (by decide) newerReplica_newest).mpr (.inr (.inr ⟨(0, 1), by decide, by decide⟩))

end Boomerangz.Daemon
