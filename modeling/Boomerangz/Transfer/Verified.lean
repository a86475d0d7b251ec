import Boomerangz.Lifecycle.Planned
import Boomerangz.Transfer.Accepted

/-! # From the end of a stream to its checkpoint

What a transfer must find is fixed when it is planned, and settled from what the two ends have after the stream.
-/

namespace Boomerangz.Transfer

open Check Lists Zfs Lifecycle

/-! ## After the stream -/

/-- A stream of one dataset does not answer for the tokens beneath it. -/
def ownTokens (s : State) (destination : Dataset) (recursive : Bool) : State :=
  if recursive then s else { s with resumeTokens := s.resumeTokens.filter (·.1 == destination) }

/-- `source` is what a read of the source gives, which only an absent intermediate asks for. -/
def settleIntermediates (plan : Plan) (destination : State) (source : Except Error State) : Except Error Plan :=
  let absent (e : Expected) : Bool :=
    !destination.hasObject e.destination && !plan.endpoints.any (·.source == e.source)
  if plan.send.intermediates && plan.expected.any absent then do
    let s ← source
    return { plan with expected := plan.expected.filter fun e => !(absent e && !s.hasObject e.source) }
  else .ok plan

def verifyGUIDs (plan : Plan) (s : State) : Except Error Unit := do
  require s.resumeTokens.isEmpty (.plain "receive remains incomplete; recovery references retained")
  match plan.expected.find? fun e =>
      !(s.object e.destination).any fun o => o.type == .snapshot && o.guid == e.guid with
  | some e => throw (.message "received GUID verification failed for %s" [.name e.destination])
  | none => return ()

def verifyMetadata (plan : Plan) (s : State) : Except Error Unit :=
  match plan.expected.find? fun e => e.metadata.any fun m =>
      !(s.object e.destination).any fun o => (owns s o plan.lineage).toOption == some m with
  | some e => .error (.message "received ownership metadata did not verify: %s" [.name e.destination])
  | none => .ok ()

/-- What an attempt reads after its stream. -/
structure Aftermath where
  destination : State
  source : Except Error State
  checks : Except Error Unit
  reconciled : Except Error (Option State)

/-- `applyOnce` from the end of its stream to `CheckpointSet`. -/
def verifyReceived (plan : Plan) (reads : Aftermath) : Except Error Plan := do
  let destination := ownTokens reads.destination plan.destination plan.send.recursive
  let settled ← settleIntermediates plan destination reads.source
  verifyGUIDs settled destination
  reads.checks
  match ← reads.reconciled with
  | none => verifyMetadata settled destination
  | some again =>
    let again := ownTokens again plan.destination plan.send.recursive
    verifyGUIDs settled again
    verifyMetadata settled again
  return settled

/-- `CheckpointSet` checks everything before its first write. -/
def checkpointSet (pool : State) (installation : ID) (root : Dataset) (r : Reference) (verified : List (Name × Nat)) :
    State × Option Error :=
  match checkpointPlan pool installation root r verified with
  | .error e => (pool, some e)
  | .ok commands => runUntil pool commands none

section Settling

variable {plan settled : Plan} {destination s : State} {source : Except Error State} {e : Expected}

def Missing (plan : Plan) (destination : State) (e : Expected) : Prop :=
  destination.hasObject e.destination = false ∧ ∀ x ∈ plan.endpoints, x.source ≠ e.source

theorem settle_spec (h : settleIntermediates plan destination source = .ok settled) :
    (settled.endpoints = plan.endpoints ∧ settled.lineage = plan.lineage) ∧ ∀ e, e ∈ settled.expected ↔
      e ∈ plan.expected ∧ ¬ (plan.send.intermediates = true ∧ Missing plan destination e ∧
        ∃ s, source = .ok s ∧ s.hasObject e.source = false) := by
  have habsent : ∀ e, (!destination.hasObject e.destination && !plan.endpoints.any (·.source == e.source)) = true ↔
      Missing plan destination e := by
    intro e
    simp [Missing]
  unfold settleIntermediates at h
  simp only at h
  split at h
  · rename_i hasked
    simp only [ok_iff] at h
    obtain ⟨s, rfl, rfl⟩ := h
    refine ⟨⟨rfl, rfl⟩, fun e => ?_⟩
    rw [List.mem_filter, Bool.not_eq_true', ← Bool.not_eq_true, Bool.and_eq_true, habsent]
    simp only [(Bool.and_eq_true _ _ ▸ hasked).1, Bool.not_eq_true', Except.ok.injEq, exists_eq_left', true_and]
  · rename_i hkept
    cases h
    refine ⟨⟨rfl, rfl⟩, fun e => (and_iff_left_of_imp fun he hgone => hkept ?_).symm⟩
    rw [Bool.and_eq_true, List.any_eq_true]
    exact ⟨hgone.1, e, he, (habsent e).mpr hgone.2.1⟩

/-- The snapshot `e` stands for is there with the GUID of its source. -/
def Received (s : State) (e : Expected) : Prop :=
  ∃ o ∈ s.objects, o.name = e.destination ∧ o.type = .snapshot ∧ o.guid = e.guid

theorem verifyGUIDs_eq_ok {u : Unit} :
    verifyGUIDs plan s = .ok u ↔ s.resumeTokens = [] ∧ ∀ e ∈ plan.expected, Received s e := by
  have hthere : ∀ e, ((s.object e.destination).any fun o => o.type == .snapshot && o.guid == e.guid) = true ↔
      Received s e := by
    intro e
    simp only [Received, Option.any_eq_true, State.object_eq_some, Bool.and_eq_true, beq_iff_eq, and_assoc]
  simp only [verifyGUIDs, ok_iff, List.isEmpty_iff]
  refine and_congr_right fun _ => ?_
  split
  · rename_i e he
    simp only [throw_eq_ok, false_iff, not_forall]
    have hno := List.find?_some he
    rw [Bool.not_eq_true', ← Bool.not_eq_true, hthere] at hno
    exact ⟨e, List.mem_of_find?_eq_some he, hno⟩
  · rename_i hnone
    simp only [pure_eq_ok, true_iff]
    intro e he
    have hyes := List.find?_eq_none.mp hnone e he
    rwa [Bool.not_eq_true, Bool.not_eq_false', hthere] at hyes

def Aftermath.states (reads : Aftermath) : List State :=
  reads.destination :: ((reads.reconciled.toOption.getD none).toList)

def Arrived (plan : Plan) (es : List Expected) (s : State) : Prop :=
  (∀ t ∈ s.resumeTokens, plan.send.recursive = false ∧ t.1 ≠ plan.destination) ∧ ∀ e ∈ es, Received s e

theorem arrived_of_verified {u : Unit}
    (h : verifyGUIDs settled (ownTokens s plan.destination plan.send.recursive) = .ok u) :
    Arrived plan settled.expected s := by
  obtain ⟨htokens, hreceived⟩ := verifyGUIDs_eq_ok.mp h
  unfold ownTokens at htokens hreceived
  split at htokens
  · rename_i hr
    rw [if_pos hr] at hreceived
    exact ⟨by simp [htokens], hreceived⟩
  · rename_i hr
    rw [if_neg hr] at hreceived
    refine ⟨fun t ht => ⟨Bool.not_eq_true _ ▸ hr, fun heq => ?_⟩, hreceived⟩
    exact List.filter_eq_nil_iff.mp htokens t ht (beq_iff_eq.mpr heq)

theorem verifyReceived_spec {reads : Aftermath} (h : verifyReceived plan reads = .ok settled) :
    settleIntermediates plan (ownTokens reads.destination plan.destination plan.send.recursive) reads.source =
        .ok settled ∧ ∀ s ∈ reads.states, Arrived plan settled.expected s := by
  simp only [verifyReceived, bind_eq_ok] at h
  obtain ⟨p, hp, u, hu, -, -, again, hagain, h⟩ := h
  cases again with
  | none =>
    simp only [ok_iff] at h
    obtain ⟨-, -, rfl⟩ := h
    refine ⟨hp, fun s hs => ?_⟩
    obtain rfl : s = reads.destination := by simpa [Aftermath.states, hagain, Except.toOption] using hs
    exact arrived_of_verified hu
  | some t =>
    simp only [ok_iff] at h
    obtain ⟨u', hu', -, -, -, rfl⟩ := h
    refine ⟨hp, fun s hs => ?_⟩
    have hs : s = reads.destination ∨ s = t := by simpa [Aftermath.states, hagain, Except.toOption] using hs
    rcases hs with rfl | rfl
    · exact arrived_of_verified hu
    · exact arrived_of_verified hu'

end Settling

/-! ## The expectation -/

section Expecting

variable {request : Request} {view : View} {installation : ID} {sel : Selection} {mode : Mode} {base : Option Object}
  {o o' : Object} {e : Expected}

def entry (request : Request) (view : View) (sel : Selection) (o : Object) : Expected :=
  ⟨o.name, placeName request.source sel.scope.mappedRoot o.name, o.guid, metadataOf view.source sel.lineage o⟩

def Carries (view : View) (sel : Selection) (o : Object) : Prop :=
  o ∈ view.source.objects ∧ o.type = .snapshot ∧
    (sel.policy.send.replicate = true ∨ o.name.base = sel.scope.stream.dataset)

theorem select_scoped (h : select request view installation = .ok sel) (ho : o ∈ view.source.objects) :
    request.source <+: o.name.base := by
  simp only [select, ok_iff] at h
  obtain ⟨scope, -, _, hready, -⟩ := h
  simp only [inventoryReady, scopedObjects, ok_iff] at hready
  have hinside := List.all_eq_true.mp hready.2.2.1.1 o ho
  refine (inside_iff ?_).mp hinside
  rintro hnil
  rw [hnil] at hinside
  exact ne_nil_of_validDataset o.valid (by simpa [inside] using hinside)

theorem carries_stream (h : select request view installation = .ok sel) (hc : Carries view sel o) :
    sel.scope.stream.dataset <+: o.name.base := by
  rcases hc.2.2 with hr | hbase
  · have hsel := select_spec h
    have hroot := replicate_of_scope hsel.scope (hsel.policy ▸ hr)
    rw [(buildScope_replicate hsel.scope hroot).1]
    exact select_scoped h hc.1
  · rw [hbase]

theorem place_append (source mappedRoot rest : Dataset) : place source mappedRoot (source ++ rest) = mappedRoot ++ rest := by
  rw [place, List.drop_left]

theorem entry_inj (h : select request view installation = .ok sel) (hc : Carries view sel o) (hc' : Carries view sel o')
    (heq : (entry request view sel o).destination = (entry request view sel o').destination) : o = o' := by
  obtain ⟨d, c, hname⟩ := o.type_snapshot_iff.mp hc.2.1
  obtain ⟨d', c', hname'⟩ := o'.type_snapshot_iff.mp hc'.2.1
  obtain ⟨rest, hrest⟩ := select_scoped h hc.1
  obtain ⟨rest', hrest'⟩ := select_scoped h hc'.1
  simp only [hname, hname', Name.base] at hrest hrest'
  simp only [entry, hname, hname', placeName, ← hrest, ← hrest', place_append, Name.snapshot.injEq,
    List.append_cancel_left_eq] at heq
  refine List.inj_on_of_nodup_map view.source.distinct hc.1 hc'.1 ?_
  rw [hname, hname', ← hrest, ← hrest', heq.1, heq.2]

theorem entry_inside (h : select request view installation = .ok sel) (hc : Carries view sel o) :
    inside (entry request view sel o).destination.base sel.scope.target = true := by
  obtain ⟨d, c, hname⟩ := o.type_snapshot_iff.mp hc.2.1
  obtain ⟨rest, hrest⟩ := carries_stream h hc
  obtain ⟨stream, p, -, hscope⟩ := buildScope_eq_ok (select_spec h).scope
  obtain ⟨hroot, -, hstream, -, htarget⟩ := scopeOf_eq_ok hscope
  obtain ⟨x, hx, hxname⟩ := State.hasObject_iff.mp (select_member h)
  obtain ⟨top, htop⟩ := select_scoped h hx
  rw [hxname, hstream] at htop
  have htarget : sel.scope.target = sel.scope.mappedRoot ++ top := by
    rw [htarget, ← place_append request.source, htop]
    rfl
  have hthere : (entry request view sel o).destination.base = sel.scope.target ++ rest := by
    rw [hname, hstream] at hrest
    simp only [entry, hname, placeName, Name.base] at hrest htop ⊢
    rw [← hrest, ← htop, List.append_assoc, place_append, htarget, List.append_assoc]
  rw [hthere, inside_iff]
  · exact List.prefix_append _ _
  · rw [htarget]
    exact List.append_ne_nil_of_left_ne_nil (ne_nil_of_validDataset (mapReceiveDataset_valid hroot)) _

theorem endpoint_entry (h : select request view installation = .ok sel) (he : e ∈ sel.endpoints) :
    ∃ o, Carries view sel o ∧ componentOf o.name = componentOf sel.endpoint.name ∧ e = entry request view sel o := by
  obtain ⟨d, hd, hx⟩ := (mem_collect (select_spec h).endpoints e).mp he
  obtain ⟨snap, m, hsnap, howns, heq⟩ := endpointOn_spec hx
  obtain ⟨hmem, hname⟩ := State.object_eq_some.mp hsnap
  simp only [carried, List.mem_filter, Bool.and_eq_true, Bool.or_eq_true, beq_iff_eq] at hd
  refine ⟨snap, ⟨hmem, snap.type_snapshot_iff.mpr ⟨_, _, hname⟩, ?_⟩, by rw [hname]; rfl, ?_⟩
  · rw [hname]
    exact hd.2.2
  · rw [Option.some.inj heq, entry, metadataOf, howns, hname]
    rfl

theorem expected_entry (h : select request view installation = .ok sel)
    (he : e ∈ (planOf request view sel mode base).expected) : ∃ o, Carries view sel o ∧ e = entry request view sel o := by
  change e ∈ expectations .. at he
  unfold expectations at he
  split at he
  · obtain ⟨o, hc, -, rfl⟩ := endpoint_entry h he
    exact ⟨o, hc, rfl⟩
  · obtain ⟨o, ho, rfl⟩ := List.mem_map.mp he
    simp only [carriedSnapshots, List.mem_filter, Bool.and_eq_true, Bool.or_eq_true, beq_iff_eq] at ho
    exact ⟨o, ⟨ho.1, ho.2.1.1.1, ho.2.1.2⟩, rfl⟩

/-- Every snapshot of the endpoint's instant has the endpoint's transaction group. -/
def OneInstant (s : State) (snapshot : Name) : Prop :=
  ∀ x, s.object snapshot = some x →
    ∀ o ∈ s.objects, o.type = .snapshot → componentOf o.name = componentOf snapshot → o.createTXG = x.createTXG

theorem endpoints_expected (h : select request view installation = .ok sel)
    (hhistory : planHistory request view sel.scope sel.policy sel.lineage sel.endpoint sel.endpoints = .ok (mode, base))
    (hone : OneInstant view.source sel.endpoint.name) (he : e ∈ sel.endpoints) :
    e ∈ (planOf request view sel mode base).expected := by
  obtain ⟨o, hc, hcomponent, rfl⟩ := endpoint_entry h he
  have htxg := hone _ (select_spec h).endpoint_object o hc.1 hc.2.1 hcomponent
  obtain ⟨-, htype, hbase, -⟩ := (select_spec h).endpoint_mem
  have hself : sel.policy.send.replicate = false → o.name = sel.endpoint.name := by
    intro hr
    obtain ⟨d, c, hname⟩ := o.type_snapshot_iff.mp hc.2.1
    obtain ⟨d', c', hname'⟩ := sel.endpoint.type_snapshot_iff.mp htype
    have hsame := hc.2.2.resolve_left (by simp [hr])
    rw [← hbase, hname, hname'] at hsame
    rw [hname, hname'] at hcomponent ⊢
    exact congrArg₂ Name.snapshot hsame hcomponent
  change _ ∈ expectations ..
  unfold expectations
  split
  · exact he
  · rename_i hmode
    refine List.mem_map.mpr ⟨o, List.mem_filter.mpr ⟨hc.1, ?_⟩, rfl⟩
    have hcarried : (sel.policy.send.replicate || o.name.base == sel.scope.stream.dataset) = true := by
      simpa using hc.2.2
    simp only [hc.2.1, htxg, le_refl, decide_true, hcarried, beq_self_eq_true, Bool.true_and]
    obtain ⟨-, rfl, -⟩ | ⟨-, -, rfl, rfl⟩ | ⟨-, hincremental, latest, b, -, rfl, hselect⟩ := planHistory_cases hhistory
    · exact absurd rfl hmode
    · cases hr : sel.policy.send.replicate <;> simp [includes, hself, hr]
    · have hafter := (selectBase_spec hselect).1.2
      cases hr : sel.policy.send.replicate <;>
        simp [includes, hself, hr, htxg, hafter, hcomponent]

end Expecting

/-! ## The checkpoint -/

section Checkpoint

variable {pool s : State} {installation lineage : ID} {root : Dataset} {r : Reference} {verified : List (Name × Nat)}
  {commands : List Command}

def unmarked (pool : State) (r : Reference) (verified : List (Name × Nat)) (sources : List ReferenceSource) :
    List ReferenceSource :=
  sources.filter fun x => verified.lookup (r.snapshotOn x.dataset) == some x.guid && !pool.hasObject (r.bookmarkOn x.dataset)

def checkpointCommand (r : Reference) (x : ReferenceSource) : Command := .bookmark (r.snapshotOn x.dataset) r.mark

theorem sources_nodup (h : Standing pool installation root r lineage) :
    (((r.reach pool root).flatMap (r.source pool)).map ReferenceSource.dataset).Nodup := by
  have hfilter : ((r.reach pool root).flatMap (r.source pool)).map ReferenceSource.dataset =
      (r.reach pool root).filter fun d => pool.hasObject (r.bookmarkOn d) || pool.held (r.snapshotOn d) r.hold := by
    rw [List.map_flatMap, ← List.map_id (List.filter _ _), map_filter_eq_flatMap]
    refine List.flatMap_congr fun d hd => ?_
    obtain ⟨guid, hsource, -⟩ := Reference.source_eq (h.readable d hd)
    rw [hsource]
    split <;> rfl
  rw [hfilter]
  exact r.candidates_nodup.filter _

theorem checkpoints_eq (h : Standing pool installation root r lineage)
    (hcheck : Checkable pool r lineage verified ((r.reach pool root).flatMap (r.source pool))) :
    (r.reach pool root).flatMap (r.checkpoints pool) =
      (unmarked pool r verified ((r.reach pool root).flatMap (r.source pool))).map (checkpointCommand r) := by
  rw [unmarked, map_filter_eq_flatMap]
  refine (flatMap_sources h (fun d hd x hx => ?_) fun d _ _ hheld => by simp [Reference.checkpoints, hheld]).symm
  have hmem := List.mem_flatMap.mpr ⟨d, hd, hx⟩
  obtain ⟨rfl, -⟩ := Reference.mem_source (h.readable d hd) hx
  cases hmark : pool.hasObject (r.bookmarkOn x.dataset) with
  | true => simp [Reference.checkpoints, hmark]
  | false =>
    have hheld := Reference.held_of_unmarked (h.readable _ hd) hx hmark
    obtain ⟨g, hg⟩ := Option.isSome_iff_exists.mp (hcheck.fresh x hmem hmark).1
    have hguid := hcheck.guids x hmem
    simp only [hg, Option.all_some, beq_iff_eq] at hguid
    simp [Reference.checkpoints, checkpointCommand, hmark, hheld, hg, hguid]

theorem bookmarks_run {xs : List ReferenceSource} (hnodup : (xs.map ReferenceSource.dataset).Nodup)
    (hthere : ∀ x ∈ xs, ∃ o, s.object (r.snapshotOn x.dataset) = some o ∧ o.guid = x.guid)
    (hfree : ∀ x ∈ xs, s.hasObject (r.bookmarkOn x.dataset) = false) :
    ∃ t marks, runUntil s (xs.map (checkpointCommand r)) none = (t, none) ∧ t.objects = s.objects ++ marks ∧
      marks.map (fun b => (b.name, b.guid)) = xs.map fun x => (r.bookmarkOn x.dataset, x.guid) := by
  induction xs generalizing s with
  | nil => exact ⟨s, [], rfl, by simp, rfl⟩
  | cons x xs ih =>
    obtain ⟨hnot, hrest⟩ := List.nodup_cons.mp hnodup
    obtain ⟨o, ho, hguid⟩ := hthere x List.mem_cons_self
    obtain ⟨t, ht⟩ := State.bookmark_ok (m := r.mark) ho (hfree x List.mem_cons_self)
    obtain ⟨o', b, ho', hb, hbguid, -, hnew, rfl⟩ := State.bookmark_eq_ok ht
    obtain rfl := Option.some.inj (ho.symm.trans ho')
    have hkept : ∀ y ∈ xs, ∃ o, (s.insert b hnew).object (r.snapshotOn y.dataset) = some o ∧ o.guid = y.guid := by
      intro y hy
      obtain ⟨p, hp, hpguid⟩ := hthere y (List.mem_cons_of_mem x hy)
      obtain ⟨hmem, hname⟩ := State.object_eq_some.mp hp
      exact ⟨p, State.object_eq_some.mpr ⟨List.mem_append_left _ hmem, hname⟩, hpguid⟩
    have hstill : ∀ y ∈ xs, (s.insert b hnew).hasObject (r.bookmarkOn y.dataset) = false := by
      intro y hy
      have hne : b.name ≠ r.bookmarkOn y.dataset := by
        rw [hb]
        intro heq
        have hsame : x.dataset = y.dataset := (Name.bookmark.inj heq).1
        exact hnot (hsame ▸ List.mem_map_of_mem hy)
      have hbefore := hfree y (List.mem_cons_of_mem x hy)
      simp only [State.hasObject, State.insert, List.any_append] at hbefore ⊢
      simp [hbefore, hne]
    obtain ⟨t, marks, hrun, hobjects, hmarks⟩ := ih hrest hkept hstill
    refine ⟨t, b :: marks, ?_, ?_, ?_⟩
    · rw [List.map_cons, runUntil]
      · simp only [checkpointCommand, Command.run, ht]
        exact hrun
      · simp
    · simp [hobjects, State.insert]
    · rw [List.map_cons, List.map_cons, hmarks, hb, hbguid, hguid]
      rfl

def Checkpoints (pool : State) (installation : ID) (root : Dataset) (r : Reference) (verified : List (Name × Nat)) : Prop :=
  (∃ e, checkpointSet pool installation root r verified = (pool, some e)) ∨
    ∃ s lineage sources after marks, referenceState pool installation root r = .ok (s, lineage, sources) ∧
      checkpointSet pool installation root r verified = (after, none) ∧ after.objects = pool.objects ++ marks ∧
      marks.map (fun b => (b.name, b.guid)) =
        (unmarked pool r verified sources).map fun x => (r.bookmarkOn x.dataset, x.guid)

theorem checkpointSet_exact (pool : State) (installation : ID) (root : Dataset) (r : Reference)
    (verified : List (Name × Nat)) : Checkpoints pool installation root r verified := by
  unfold Checkpoints checkpointSet
  cases hplan : checkpointPlan pool installation root r verified with
  | error e => exact .inl ⟨e, rfl⟩
  | ok commands =>
    obtain ⟨lineage, hstands, hcheck, rfl⟩ := checkpointPlan_eq_ok.mp hplan
    rw [checkpoints_eq hstands hcheck]
    have hsource : ∀ x ∈ unmarked pool r verified ((r.reach pool root).flatMap (r.source pool)),
        pool.hasObject (r.bookmarkOn x.dataset) = false ∧
          ∃ o, pool.object (r.snapshotOn x.dataset) = some o ∧ o.guid = x.guid := by
      intro x hx
      simp only [unmarked, List.mem_filter, Bool.and_eq_true, Bool.not_eq_true'] at hx
      obtain ⟨hmem, -, hfree⟩ := hx
      obtain ⟨-, o, ho, -⟩ := hcheck.fresh x hmem hfree
      obtain ⟨d, hd, hxd⟩ := List.mem_flatMap.mp hmem
      obtain ⟨rfl, hguid⟩ := Reference.mem_source (hstands.readable d hd) hxd
      exact ⟨hfree, o, ho, (hguid o ho).symm⟩
    obtain ⟨after, marks, hrun, hobjects, hmarks⟩ := bookmarks_run
      ((List.filter_sublist.map _).nodup (sources_nodup hstands)) (fun x hx => (hsource x hx).2) fun x hx => (hsource x hx).1
    exact .inr ⟨_, lineage, _, after, marks, referenceState_eq_ok.mpr ⟨hstands, rfl, rfl⟩, hrun, hobjects, hmarks⟩

end Checkpoint

/-! ## Verified -/

/-- What holds of a plan from its expectation to its checkpoint. -/
structure Verifiable (view : View) (plan : Plan) : Prop where
  distinct : ∀ e ∈ plan.expected, ∀ e' ∈ plan.expected, e.destination = e'.destination → e = e'
  inside : ∀ e ∈ plan.expected, inside e.destination.base plan.destination = true
  endpoints : OneInstant view.source plan.snapshot → ∀ e ∈ plan.endpoints, e ∈ plan.expected
  settles : ∀ destination source settled, settleIntermediates plan destination source = .ok settled → ∀ e,
    e ∈ settled.expected ↔ e ∈ plan.expected ∧ ¬ (plan.send.intermediates = true ∧ Missing plan destination e ∧
      ∃ s, source = .ok s ∧ s.hasObject e.source = false)
  verifies : ∀ reads settled, verifyReceived plan reads = .ok settled →
    settleIntermediates plan (ownTokens reads.destination plan.destination plan.send.recursive) reads.source = .ok settled ∧
      ∀ s ∈ reads.states, Arrived plan settled.expected s ∧
        (OneInstant view.source plan.snapshot → ∀ e ∈ plan.endpoints, Received s e)

/-- The expectation of a plan is settled and verified before anything is marked, and then exactly the verified
sources without a checkpoint are. -/
theorem build_verified {request : Request} {view : View} {installation : ID} {plan : Plan}
    (h : build request view installation = .ok plan) :
    Verifiable view plan ∧ ∀ pool root r verified, Checkpoints pool installation root r verified := by
  simp only [build, ok_iff] at h
  obtain ⟨sel, hsel, ⟨mode, base⟩, hhistory, rfl⟩ := h
  have hendpoints : OneInstant view.source sel.endpoint.name → ∀ e ∈ sel.endpoints,
      e ∈ (planOf request view sel mode base).expected := fun hone e he => endpoints_expected hsel hhistory hone he
  refine ⟨⟨fun e he e' he' heq => ?_, fun e he => ?_, hendpoints, fun _ _ _ hs => (settle_spec hs).2, ?_⟩,
    fun pool root r verified => checkpointSet_exact pool installation root r verified⟩
  · obtain ⟨o, hc, rfl⟩ := expected_entry hsel he
    obtain ⟨o', hc', rfl⟩ := expected_entry hsel he'
    rw [entry_inj hsel hc hc' heq]
  · obtain ⟨o, hc, rfl⟩ := expected_entry hsel he
    exact entry_inside hsel hc
  · intro reads settled hverified
    obtain ⟨hsettled, harrived⟩ := verifyReceived_spec hverified
    refine ⟨hsettled, fun s hs => ⟨harrived s hs, fun hone e he => (harrived s hs).2 e ?_⟩⟩
    exact ((settle_spec hsettled).2 e).mpr ⟨hendpoints hone e he, fun hgone => hgone.2.1.2 e he rfl⟩

/-- The next package of a recursive stream. -/
theorem package_verified : ∃ plan, build packageRequest (packageView packageReplica) ⟨9, 9⟩ = .ok plan ∧
    plan.send.intermediates = true ∧ Verifiable (packageView packageReplica) plan := by
  obtain ⟨plan, hplan, hall⟩ : ∃ plan, build packageRequest (packageView packageReplica) ⟨9, 9⟩ = .ok plan ∧
    plan.send.intermediates = true := ⟨_, rfl, rfl⟩
  exact ⟨plan, hplan, hall, (build_verified hplan).1⟩

/-! ### The first package of a recursive stream -/

def firstView : View :=
  { packageView (packageReplica.restrict fun _ => false) with
    inventory := [⟨["tank"], .filesystem, "-"⟩, ⟨["tank", "a"], .filesystem, "-"⟩, ⟨["backup"], .filesystem, "-"⟩]
    source := { packageSource with properties := packageSource.properties.filter fun p => !p.name.isTargetState }
    destinationExists := false
    destinationIdentity := some ⟨["backup"], .filesystem, 2, 5⟩
    rootDestinationExists := false
    rootDestinationIdentity := some ⟨["backup"], .filesystem, 2, 5⟩ }

/-- The snapshot of `tank/a` was made in a later transaction than that of `tank`. -/
def laterView : View :=
  let a : Object := .ofRow (.snapshot ["tank", "a"] (packageInstant 2).name) .snapshot 22 21 (by decide)
  { packageView packageReplica with source := { packageSource with
      objects := packageSource.objects.map fun o => if o.name = a.name then a else o
      distinct := by decide } }

/-- An older snapshot of the root was pruned before the package was sent. It stays expected, since the package is
not one of intermediates. An endpoint of a later transaction than the root's is not expected. -/
theorem first_package_unsettled : (∃ plan, build packageRequest firstView ⟨9, 9⟩ = .ok plan ∧
    ∃ e ∈ plan.expected, ∃ destination source, Missing plan destination e ∧ source.hasObject e.source = false ∧
      ∃ settled, settleIntermediates plan destination (.ok source) = .ok settled ∧ e ∈ settled.expected) ∧
    ∃ plan, build packageRequest laterView ⟨9, 9⟩ = .ok plan ∧ packageEndpoint ["a"] 22 ∈ plan.endpoints ∧
      packageEndpoint ["a"] 22 ∉ plan.expected := by
  refine ⟨?_, _, rfl, by decide, by decide⟩
  obtain ⟨plan, hplan, hexpected, hkept, hendpoints⟩ : ∃ plan, build packageRequest firstView ⟨9, 9⟩ = .ok plan ∧
      ⟨.snapshot ["tank"] (packageInstant 1).name, .snapshot ["backup", "t"] (packageInstant 1).name, 11,
        some (packageInstant 1)⟩ ∈ plan.expected ∧ plan.send.intermediates = false ∧
      plan.endpoints = [packageEndpoint [] 21, packageEndpoint ["a"] 22] := ⟨_, rfl, by decide, rfl, rfl⟩
  refine ⟨plan, hplan, _, hexpected, packageReplicaFull.erase (.snapshot ["backup", "t"] (packageInstant 1).name),
    packageSource.erase (.snapshot ["tank"] (packageInstant 1).name), ⟨by decide, ?_⟩, by decide, plan, ?_, hexpected⟩
  · rw [hendpoints]
    decide
  · rw [settleIntermediates, hkept]
    rfl

end Boomerangz.Transfer
