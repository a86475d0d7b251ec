import Boomerangz.Lifecycle.Authority
import Boomerangz.Lifecycle.Documented
import Boomerangz.Lifecycle.Service

/-! # Pruning is stable while it runs

A plan destroys neither the newest owned snapshot nor the oldest of a window, so planning again marks what is left.
-/

namespace Boomerangz.Lifecycle

open Check Zfs Policy

def marks (ds : List Decision) : List Name := (ds.filter Decision.destroy).map Decision.snapshot

def keeps (ds : List Decision) : List Name := (ds.filter (!·.destroy)).map Decision.snapshot

def remaining (snapshots : List Snapshot) (removed : List Name) : List Snapshot :=
  snapshots.filter (!removed.contains ·.name)

/-! ## Planning again -/

section Again

variable {d : Dataset} {lineage : ID} {grid : Grid} {snapshots : List Snapshot} {removed : List Name} {s n : Snapshot}
  {ds : List Decision}

theorem mem_remaining : s ∈ remaining snapshots removed ↔ s ∈ snapshots ∧ s.name ∉ removed := by
  simp [remaining]

theorem InScope.remaining (h : InScope d snapshots) (removed : List Name) : InScope d (remaining snapshots removed) :=
  ⟨fun s hs => h.1 s (mem_remaining.mp hs).1, (List.filter_sublist.map Snapshot.name).nodup h.2⟩

theorem mem_marks (h : planPrune d lineage grid snapshots = .ok ds) (hs : s ∈ snapshots) :
    s.name ∈ marks ds ↔ Pruned lineage grid snapshots s := by
  rw [← planPrune_destroys_iff h hs]
  simp only [marks, List.mem_map, List.mem_filter]
  constructor
  · rintro ⟨dec, ⟨hdec, hdestroy⟩, hname⟩
    exact ⟨dec, hdec, hname, hdestroy⟩
  · rintro ⟨dec, hdec, hname, hdestroy⟩
    exact ⟨dec, ⟨hdec, hdestroy⟩, hname⟩

def Gone (lineage : ID) (grid : Grid) (snapshots : List Snapshot) (removed : List Name) : Prop :=
  ∀ s ∈ snapshots, s.name ∈ removed → Pruned lineage grid snapshots s

theorem Newest.kept (hn : Newest lineage snapshots n) (hgone : Gone lineage grid snapshots removed) :
    Newest lineage (remaining snapshots removed) n := by
  refine ⟨mem_remaining.mpr ⟨hn.1, fun hin => ?_⟩, hn.2.1, fun t ht => hn.2.2 t (mem_remaining.mp ht).1⟩
  obtain ⟨-, hlater, -⟩ := hgone n hn.1 hin
  exact (hn.later_iff hn.1 hn.2.1).mp hlater rfl

theorem windowIn_remaining (hscope : InScope d snapshots) (hgone : Gone lineage grid snapshots removed)
    (hs : s ∈ snapshots) : windowIn lineage grid (remaining snapshots removed) s = windowIn lineage grid snapshots s := by
  by_cases howned : isOwnedBy lineage s
  · obtain ⟨n, hn⟩ := exists_newest hscope hs howned
    rw [hn.windowIn howned, (hn.kept hgone).windowIn howned]
  · unfold isOwnedBy at howned
    unfold windowIn windowAt
    rw [if_neg howned, if_neg howned]

theorem taken_remaining (hgone : Gone lineage grid snapshots removed) {k : Nat × Nat}
    (h : ∃ t ∈ snapshots, recordedBefore lineage t s ∧ windowIn lineage grid snapshots t = some k) :
    ∃ t ∈ remaining snapshots removed, recordedBefore lineage t s ∧ windowIn lineage grid snapshots t = some k := by
  classical
  obtain ⟨t, ht, hlt, hk⟩ := h
  obtain ⟨o, ho, hmin⟩ := (snapshots.filter fun t => decide (windowIn lineage grid snapshots t = some k)).toFinset.exists_min_image
    (fun t => (candidate lineage t).key) ⟨t, by simp [ht, hk]⟩
  simp only [List.mem_toFinset, List.mem_filter, decide_eq_true_eq] at ho hmin
  refine ⟨o, mem_remaining.mpr ⟨ho.1, fun hin => ?_⟩, lt_of_le_of_lt (hmin t ⟨ht, hk⟩) hlt, ho.2⟩
  -- A plan destroys no snapshot that is the oldest of its window.
  obtain ⟨-, -, hwindow⟩ := hgone o ho.1 hin
  obtain ⟨u, hu, hult, huk⟩ := hwindow k ho.2
  exact not_lt_of_ge (hmin u ⟨hu, huk⟩) hult

theorem pruned_remaining (hscope : InScope d snapshots) (hgone : Gone lineage grid snapshots removed)
    (hs : s ∈ remaining snapshots removed) :
    Pruned lineage grid (remaining snapshots removed) s ↔ Pruned lineage grid snapshots s := by
  obtain ⟨hs', -⟩ := mem_remaining.mp hs
  unfold Pruned
  rw [windowIn_remaining hscope hgone hs']
  refine and_congr_right fun hexposed => and_congr ?_ (forall₂_congr fun k _ => ?_)
  · obtain ⟨n, hn⟩ := exists_newest hscope hs' hexposed.1
    rw [(hn.kept hgone).later_iff hs hexposed.1, hn.later_iff hs' hexposed.1]
  · constructor
    · rintro ⟨t, ht, hlt, hk⟩
      have ht' := (mem_remaining.mp ht).1
      exact ⟨t, ht', hlt, by rwa [windowIn_remaining hscope hgone ht'] at hk⟩
    · intro h
      obtain ⟨t, ht, hlt, hk⟩ := taken_remaining hgone h
      exact ⟨t, ht, hlt, by rwa [windowIn_remaining hscope hgone (mem_remaining.mp ht).1]⟩

theorem mem_names (h : planPrune d lineage grid snapshots = .ok ds) {x : Name} :
    x ∈ marks ds ∨ x ∈ keeps ds ↔ ∃ s ∈ snapshots, s.name = x := by
  rw [← List.mem_map, ← (planPrune_names h).mem_iff]
  unfold marks keeps
  simp only [List.mem_map, List.mem_filter, Bool.not_eq_true']
  constructor
  · rintro (⟨dec, ⟨hdec, -⟩, hname⟩ | ⟨dec, ⟨hdec, -⟩, hname⟩)
    · exact ⟨dec, hdec, hname⟩
    · exact ⟨dec, hdec, hname⟩
  · rintro ⟨dec, hdec, hname⟩
    cases hdestroy : dec.destroy with
    | true => exact .inl ⟨dec, ⟨hdec, hdestroy⟩, hname⟩
    | false => exact .inr ⟨dec, ⟨hdec, hdestroy⟩, hname⟩

theorem mem_keeps (h : planPrune d lineage grid snapshots = .ok ds) {x : Name} :
    x ∈ keeps ds ↔ (∃ s ∈ snapshots, s.name = x) ∧ x ∉ marks ds := by
  rw [← mem_names h]
  refine ⟨fun hkeep => ⟨.inr hkeep, fun hmark => ?_⟩, fun hor => hor.1.resolve_left hor.2⟩
  simp only [marks, keeps, List.mem_map, List.mem_filter, Bool.not_eq_true'] at hkeep hmark
  obtain ⟨dec, ⟨hdec, hkept⟩, rfl⟩ := hkeep
  obtain ⟨dec', ⟨hdec', hdestroy⟩, hname⟩ := hmark
  obtain rfl := List.inj_on_of_nodup_map (planPrune_nodup h) hdec' hdec hname
  rw [hkept] at hdestroy
  cases hdestroy

theorem gone_of_marks (h : planPrune d lineage grid snapshots = .ok ds) (hremoved : removed ⊆ marks ds) :
    Gone lineage grid snapshots removed :=
  fun _ hs hin => (mem_marks h hs).mp (hremoved hin)

theorem planPrune_remaining (h : planPrune d lineage grid snapshots = .ok ds) (hremoved : removed ⊆ marks ds) :
    ∃ ds', planPrune d lineage grid (remaining snapshots removed) = .ok ds' ∧
      (∀ x, x ∈ marks ds' ↔ x ∈ marks ds ∧ x ∉ removed) ∧ ∀ x, x ∈ keeps ds' ↔ x ∈ keeps ds := by
  obtain ⟨hd, hgrid, hscope, -⟩ := planPrune_eq_ok.mp h
  have hgone := gone_of_marks h hremoved
  obtain ⟨ds', hplan⟩ : ∃ ds', planPrune d lineage grid (remaining snapshots removed) = .ok ds' :=
    ⟨_, planPrune_eq_ok.mpr ⟨hd, hgrid, hscope.remaining removed, rfl⟩⟩
  have hmarks : ∀ x, x ∈ marks ds' ↔ x ∈ marks ds ∧ x ∉ removed := by
    intro x
    constructor
    · intro hx
      obtain ⟨s, hs, rfl⟩ := (mem_names hplan).mp (.inl hx)
      obtain ⟨hs', hnot⟩ := mem_remaining.mp hs
      exact ⟨(mem_marks h hs').mpr ((pruned_remaining hscope hgone hs).mp ((mem_marks hplan hs).mp hx)), hnot⟩
    · rintro ⟨hx, hnot⟩
      obtain ⟨s, hs, rfl⟩ := (mem_names h).mp (.inl hx)
      have hs' := mem_remaining.mpr ⟨hs, hnot⟩
      exact (mem_marks hplan hs').mpr ((pruned_remaining hscope hgone hs').mpr ((mem_marks h hs).mp hx))
  refine ⟨ds', hplan, hmarks, fun x => ?_⟩
  rw [mem_keeps hplan, mem_keeps h, hmarks]
  constructor
  · rintro ⟨⟨s, hs, rfl⟩, hnot⟩
    obtain ⟨hs', hleft⟩ := mem_remaining.mp hs
    exact ⟨⟨s, hs', rfl⟩, fun hmark => hnot ⟨hmark, hleft⟩⟩
  · rintro ⟨⟨s, hs, rfl⟩, hnot⟩
    exact ⟨⟨s, mem_remaining.mpr ⟨hs, fun hin => hnot (hremoved hin)⟩, rfl⟩, fun hmark => hnot hmark.1⟩

end Again

/-! ## Pools -/

section Pool

variable {pool s : State} {installation lineage : ID} {root dataset d : Dataset} {ns : List Name} {p : Dataset → Bool}

def Snapshots (ns : List Name) : Prop := ∀ n ∈ ns, n.isSnapshot = true

theorem restrict_without (pool : State) (ns : List Name) (p : Dataset → Bool) :
    (pool.without ns).restrict p = (pool.restrict p).without ns := by
  simp only [State.restrict, State.without, List.filter_filter, Bool.and_comm]

theorem without_congr {ns' : List Name} (h : ∀ n, n ∈ ns ↔ n ∈ ns') : pool.without ns = pool.without ns' := by
  have hcontains : ∀ n, ns.contains n = ns'.contains n := by
    intro n
    rw [Bool.eq_iff_iff, List.contains_iff_mem, List.contains_iff_mem]
    exact h n
  simp only [State.without, hcontains]

theorem snapshotsIn_without (s : State) (ns : List Name) (d : Dataset) :
    snapshotsIn (s.without ns) d = remaining (snapshotsIn s d) ns := by
  unfold snapshotsIn remaining
  rw [List.filter_map, List.filter_filter]
  have hobjects : (s.without ns).objects.filter (fun o => o.type == .snapshot && o.name.base == d) =
      s.objects.filter (fun o => (o.type == .snapshot && o.name.base == d) && !ns.contains o.name) := by
    simp only [State.without, List.filter_filter]
  rw [hobjects]
  have hfilter : (fun o : Object => ((fun x : Snapshot => !ns.contains x.name) ∘ snapshotOf s) o &&
      (o.type == .snapshot && o.name.base == d)) =
      fun o => (o.type == .snapshot && o.name.base == d) && !ns.contains o.name := by
    funext o
    rw [Bool.and_comm]
    rfl
  rw [hfilter]
  refine List.map_congr_left fun o ho => snapshotOf_without ?_
  have hnot := (Bool.and_eq_true _ _ ▸ (List.mem_filter.mp ho).2).2
  simpa using hnot

theorem not_contains_dataset (hns : Snapshots ns) (d : Dataset) : ns.contains (.dataset d) = false := by
  rw [Bool.eq_false_iff, ne_eq, List.contains_iff_mem]
  intro hin
  cases hns _ hin

theorem rootAuthority_without (hns : Snapshots ns) : rootAuthority (s.without ns) root installation =
    rootAuthority s root installation := by
  have hrow : ∀ n : Name, n == .dataset root → (!ns.contains n) = true := by
    intro n hn
    rw [beq_iff_eq.mp hn, not_contains_dataset hns]
    rfl
  refine rootAuthority_congr installation ?_ ?_
  · rw [State.without, List.filter_filter]
    refine List.filter_congr fun r _ => ?_
    cases hr : isAuthority root r with
    | false => rfl
    | true =>
      rw [isAuthority, Bool.and_eq_true] at hr
      rw [hrow _ hr.1]
      rfl
  · rw [State.without, List.filter_filter]
    refine List.filter_congr fun r _ => ?_
    cases hr : r.1 == .dataset root with
    | false => rfl
    | true =>
      rw [hrow _ hr]
      rfl

theorem datasetObjects_without (hns : Snapshots ns) : datasetObjects (s.without ns) = datasetObjects s := by
  unfold datasetObjects State.without
  simp only
  rw [List.filter_filter]
  refine List.filter_congr fun o _ => ?_
  cases ho : o.isDataset with
  | false => rfl
  | true =>
    obtain ⟨d, hd⟩ := o.isDataset_iff.mp ho
    rw [hd, not_contains_dataset hns]
    rfl

theorem inspect_without (hns : Snapshots ns) {recursive : Bool} (h : pool.inspect d recursive = .ok s) :
    (pool.without ns).inspect d recursive = .ok (s.without ns) := by
  obtain ⟨hobject, rfl⟩ := State.inspect_eq_ok.mp h
  refine State.inspect_eq_ok.mpr ⟨State.hasObject_without.mpr ⟨hobject, fun hin => ?_⟩, (restrict_without ..).symm⟩
  cases hns _ hin

theorem scopeReady_without (hns : Snapshots ns) (h : scopeReady s d = .ok ()) : scopeReady (s.without ns) d = .ok () := by
  simp only [scopeReady, ok_iff] at h ⊢
  refine ⟨h.1, State.hasObject_without.mpr ⟨h.2, fun hin => ?_⟩⟩
  cases hns _ hin

theorem pruneRead_without (hns : Snapshots ns) (h : pruneRead pool installation root dataset = .ok (s, lineage)) :
    pruneRead (pool.without ns) installation root dataset = .ok (s.without ns, lineage) := by
  simp only [pruneRead, bind_eq_ok] at h ⊢
  obtain ⟨rootState, hroot, l, hl, h⟩ := h
  refine ⟨_, inspect_without hns hroot, l, by rw [rootAuthority_without hns, hl], ?_⟩
  split at h
  · rename_i hsame
    rw [if_pos hsame]
    simp only [ok_iff, exists_eq_left', Prod.mk.injEq] at h ⊢
    obtain ⟨u, hready, rfl, rfl⟩ := h
    exact ⟨u, scopeReady_without hns hready, rfl, rfl⟩
  · rename_i hother
    rw [if_neg hother]
    simp only [ok_iff, Prod.mk.injEq] at h ⊢
    obtain ⟨t, ht, u, hready, rfl, rfl⟩ := h
    exact ⟨_, inspect_without hns ht, u, scopeReady_without hns hready, rfl, rfl⟩

theorem pruneRead_inspect (h : pruneRead pool installation root dataset = .ok (s, lineage)) :
    pool.inspect dataset false = .ok s := by
  simp only [pruneRead, bind_eq_ok] at h
  obtain ⟨rootState, hroot, l, -, h⟩ := h
  split at h
  · rename_i hsame
    simp only [ok_iff, exists_eq_left', Prod.mk.injEq] at h
    obtain ⟨-, -, rfl, -⟩ := h
    rw [hsame, hroot]
  · simp only [ok_iff, Prod.mk.injEq] at h
    obtain ⟨t, ht, -, -, rfl, -⟩ := h
    exact ht

end Pool

/-! ## The loop -/

section Loop

variable {pool s : State} {installation lineage : ID} {root : Dataset} {r : Retention} {ds : List Decision}
  {ns : List Name} {dec : Decision}
  (hread : pruneRead pool installation root r.dataset = .ok (s, lineage))
  (hplan : planPrune r.dataset lineage r.grid (snapshotsIn s r.dataset) = .ok ds)

include hplan in
theorem marks_snapshots (hns : ns ⊆ marks ds) : Snapshots ns := by
  intro n hn
  obtain ⟨x, hx, rfl⟩ := (mem_names hplan).mp (.inl (hns hn))
  obtain ⟨c, hc⟩ := (snapshotsIn_inScope s r.dataset).1 x hx
  rw [hc]
  rfl

include hread hplan in
theorem pruneEligible_ok (hns : ns ⊆ marks ds) (hdec : dec ∈ ds) (hdestroy : dec.destroy = true)
    (hleft : dec.snapshot ∉ ns) : pruneEligible (pool.without ns) installation root r s lineage dec = .ok () := by
  have hsnapshots := marks_snapshots hplan hns
  obtain ⟨ds', hagain, hmarks, -⟩ := planPrune_remaining hplan hns
  have hmark : dec.snapshot ∈ marks ds' :=
    (hmarks _).mpr ⟨List.mem_map.mpr ⟨dec, List.mem_filter.mpr ⟨hdec, hdestroy⟩, rfl⟩, hleft⟩
  obtain ⟨next, hnext, hname⟩ := List.mem_map.mp hmark
  obtain ⟨hnext, hnextDestroy⟩ := List.mem_filter.mp hnext
  -- Both decisions are about one snapshot, so they agree on its GUID.
  obtain ⟨x, hx, hxname, hxguid⟩ := planPrune_about hplan hdec
  obtain ⟨y, hy, hyname, hyguid⟩ := planPrune_about hagain hnext
  have hsame : y = x := List.inj_on_of_nodup_map (snapshotsIn_nodup s r.dataset) (mem_remaining.mp hy).1 hx
    (by rw [← hyname, hname, hxname])
  have hfound : ds'.any (fun next => next.snapshot == dec.snapshot && next.guid == dec.guid && next.destroy) = true := by
    refine List.any_eq_true.mpr ⟨next, hnext, ?_⟩
    simp [hname, hnextDestroy, hyguid, hxguid, hsame]
  simp only [pruneEligible, ok_iff, pruneRead_without hsnapshots hread, Except.ok.injEq, exists_eq_left',
    datasetObjects_without hsnapshots, beq_self_eq_true, snapshotsIn_without, hagain, hfound, and_self]

include hread hplan in
theorem destroy_marked (hdec : dec ∈ ds) (hdestroy : dec.destroy = true) (hleft : dec.snapshot ∉ ns) :
    (pool.without ns).destroySnapshot dec.snapshot = .ok (pool.without (dec.snapshot :: ns)) := by
  obtain ⟨x, hx, hname, -⟩ := planPrune_about hplan hdec
  have hpruned := (planPrune_destroys_iff hplan hx).mp ⟨dec, hdec, hname, hdestroy⟩
  obtain ⟨-, rfl⟩ := State.inspect_eq_ok.mp (pruneRead_inspect hread)
  obtain ⟨o, ho, -, hbase, rfl⟩ := mem_snapshotsIn.mp hx
  have hname' : dec.snapshot = o.name := hname
  rw [hname'] at hleft ⊢
  exact destroySnapshot_exposed (State.mem_restrict_objects.mp ho).1 (by simp [hbase]) hleft hpruned.1

theorem pruneLoop_eq (ns : List Name) {rest : List Decision}
    (hread : pruneRead pool installation root r.dataset = .ok (s, lineage))
    (hplan : planPrune r.dataset lineage r.grid (snapshotsIn s r.dataset) = .ok ds)
    (hns : ns ⊆ marks ds) (hrest : rest ⊆ ds) (hnodup : (rest.map Decision.snapshot).Nodup)
    (hleft : ∀ dec ∈ rest, dec.snapshot ∉ ns) :
    pruneLoop installation root r s lineage rest (pool.without ns) =
      ⟨(marks rest).map fun n => .command (.destroySnapshot n), .ok (), pool.without ((marks rest).reverse ++ ns)⟩ := by
  induction rest generalizing ns with
  | nil => rfl
  | cons dec rest ih =>
    obtain ⟨hdec, hrest⟩ := List.cons_subset.mp hrest
    rw [List.map_cons, List.nodup_cons] at hnodup
    unfold pruneLoop
    cases hdestroy : dec.destroy with
    | false =>
      have hmarks : marks (dec :: rest) = marks rest := by simp [marks, hdestroy]
      rw [hmarks, if_neg Bool.false_ne_true]
      exact ih ns hns hrest hnodup.2 fun x hx => hleft x (List.mem_cons_of_mem _ hx)
    | true =>
      have hmarks : marks (dec :: rest) = dec.snapshot :: marks rest := by simp [marks, hdestroy]
      have hnot := hleft dec List.mem_cons_self
      have hnow : dec.snapshot ∈ marks ds := List.mem_map.mpr ⟨dec, List.mem_filter.mpr ⟨hdec, hdestroy⟩, rfl⟩
      have hlater := ih (dec.snapshot :: ns) (List.cons_subset.mpr ⟨hnow, hns⟩) hrest hnodup.2 (by
        intro x hx hin
        rcases List.mem_cons.mp hin with heq | hin
        · exact hnodup.1 (heq ▸ List.mem_map_of_mem hx)
        · exact hleft x (List.mem_cons_of_mem _ hx) hin)
      simp only [if_true, pruneEligible_ok hread hplan hns hdec hdestroy hnot, Sent.write, Write.run, Command.run,
        destroy_marked hread hplan hdec hdestroy hnot, hlater, hmarks, List.map_cons, List.reverse_cons,
        List.append_assoc, List.singleton_append]

end Loop

/-! ## Prune -/

section Prune

variable {pool s : State} {installation lineage : ID} {root : Dataset} {p : Effective} {r : Retention} {ds : List Decision}

def Prunable (root : Dataset) (p : Effective) (r : Retention) : Prop :=
  validDataset root = true ∧ activeRoot p root = .ok () ∧ validDataset r.dataset = true ∧ inside r.dataset root = true

theorem prunePlan_eq_ok : prunePlan pool installation root p r = .ok (s, lineage, ds) ↔ Prunable root p r ∧
    pruneRead pool installation root r.dataset = .ok (s, lineage) ∧
      planPrune r.dataset lineage r.grid (snapshotsIn s r.dataset) = .ok ds := by
  simp only [prunePlan, ok_iff, Prod.exists, Prod.mk.injEq, Prunable, and_assoc]
  constructor
  · rintro ⟨hroot, ⟨⟩, hactive, hd, hinside, s', l', hread, ds', hplan, rfl, rfl, rfl⟩
    exact ⟨hroot, hactive, hd, hinside, hread, hplan⟩
  · rintro ⟨hroot, hactive, hd, hinside, hread, hplan⟩
    exact ⟨hroot, ⟨⟩, hactive, hd, hinside, s, lineage, hread, ds, hplan, rfl, rfl, rfl⟩

theorem prune_marks (h : prunePlan pool installation root p r = .ok (s, lineage, ds)) :
    prune pool installation root p r =
      ⟨(marks ds).map fun n => .command (.destroySnapshot n), .ok (), pool.without (marks ds)⟩ := by
  obtain ⟨-, hread, hplan⟩ := prunePlan_eq_ok.mp h
  have hloop := pruneLoop_eq [] hread hplan (List.nil_subset _) (List.Subset.refl ds) (planPrune_nodup hplan)
    fun _ _ => List.not_mem_nil
  rw [State.without_nil, List.append_nil] at hloop
  simp only [prune, h, hloop, without_congr fun _ => List.mem_reverse]

theorem prunePlan_again (h : prunePlan pool installation root p r = .ok (s, lineage, ds)) :
    ∃ ds', prunePlan (pool.without (marks ds)) installation root p r = .ok (s.without (marks ds), lineage, ds') ∧
      marks ds' = [] := by
  obtain ⟨hready, hread, hplan⟩ := prunePlan_eq_ok.mp h
  obtain ⟨ds', hagain, hmarks, -⟩ := planPrune_remaining hplan (List.Subset.refl (marks ds))
  refine ⟨ds', prunePlan_eq_ok.mpr ⟨hready, pruneRead_without (marks_snapshots hplan (List.Subset.refl _)) hread, ?_⟩, ?_⟩
  · rw [snapshotsIn_without, hagain]
  · exact List.eq_nil_iff_forall_not_mem.mpr fun x hx => ((hmarks x).mp hx).2 ((hmarks x).mp hx).1

end Prune

/-- Planning again after any of the marked destructions marks exactly the rest of them, and a second `Prune` finds
nothing to destroy. -/
theorem prune_stable (pool : State) (installation : ID) (root : Dataset) (p : Effective) (r : Retention) :
    (∀ d lineage grid snapshots ds removed, planPrune d lineage grid snapshots = .ok ds → removed ⊆ marks ds →
      ∃ ds', planPrune d lineage grid (remaining snapshots removed) = .ok ds' ∧
        (∀ x, x ∈ marks ds' ↔ x ∈ marks ds ∧ x ∉ removed) ∧ ∀ x, x ∈ keeps ds' ↔ x ∈ keeps ds) ∧
    ∀ s lineage ds, prunePlan pool installation root p r = .ok (s, lineage, ds) →
      prune pool installation root p r =
        ⟨(marks ds).map fun n => .command (.destroySnapshot n), .ok (), pool.without (marks ds)⟩ ∧
      prune (pool.without (marks ds)) installation root p r = ⟨[], .ok (), pool.without (marks ds)⟩ := by
  refine ⟨fun d lineage grid snapshots ds removed h hremoved => planPrune_remaining h hremoved,
    fun s lineage ds h => ⟨prune_marks h, ?_⟩⟩
  obtain ⟨ds', hagain, hnone⟩ := prunePlan_again h
  rw [prune_marks hagain, hnone, State.without_nil]
  rfl

/-! ### A member pruned while its root is held -/

def helmSnapshot (minutes : Nat) : Object :=
  ⟨.snapshot ["helm", "log"] (.owned (minutes * minute) 7), .snapshot, minutes + 1, minutes + 1,
    show validDataset ["helm", "log"] = true by decide, rfl, Nat.succ_ne_zero _, Nat.succ_ne_zero _⟩

def helmPool : State where
  objects := [.ofRow (.dataset ["helm"]) .filesystem 1 1 (by decide),
    .ofRow (.dataset ["helm", "log"]) .filesystem 2 2 (by decide),
    helmSnapshot 20, helmSnapshot 150, helmSnapshot 160, helmSnapshot 170, helmSnapshot 200]
  properties := authorityRows ["helm"] ⟨9, 9⟩ ⟨1, 1⟩ ++
    [20, 150, 160, 170, 200].flatMap fun minutes => Metadata.rows ⟨⟨1, 1⟩, ⟨7, 7⟩, minutes * minute⟩ ["helm", "log"]
  holds := [(.snapshot ["helm", "log"] (.owned (160 * minute) 7), .other "keep")]
  distinct := by decide

def helmPolicy : Effective := .plain twoHours [] [⟨"enabled", "on", ["helm"]⟩]

theorem helm_stable : ∃ s ds,
    prunePlan helmPool ⟨9, 9⟩ ["helm"] helmPolicy ⟨["helm", "log"], twoHours⟩ = .ok (s, ⟨1, 1⟩, ds) ∧
    marks ds = [20, 170].map (fun minutes => .snapshot ["helm", "log"] (.owned (minutes * minute) 7)) ∧
    (prune helmPool ⟨9, 9⟩ ["helm"] helmPolicy ⟨["helm", "log"], twoHours⟩).pool = helmPool.without (marks ds) ∧
    (prune (helmPool.without (marks ds)) ⟨9, 9⟩ ["helm"] helmPolicy ⟨["helm", "log"], twoHours⟩).writes = [] := by
  obtain ⟨s, ds, hplan⟩ : ∃ s ds,
      prunePlan helmPool ⟨9, 9⟩ ["helm"] helmPolicy ⟨["helm", "log"], twoHours⟩ = .ok (s, ⟨1, 1⟩, ds) := ⟨_, _, rfl⟩
  obtain ⟨hfirst, hsecond⟩ := (prune_stable helmPool ⟨9, 9⟩ ["helm"] helmPolicy ⟨["helm", "log"], twoHours⟩).2 s _ ds hplan
  refine ⟨s, ds, hplan, ?_, by rw [hfirst], by rw [hsecond]⟩
  cases hplan
  decide +kernel

end Boomerangz.Lifecycle
