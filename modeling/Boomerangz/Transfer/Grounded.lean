import Boomerangz.Transfer.Receive

/-! # What a plan starts from

Endpoint, base and mode are chosen by separate scans. Together they start from what the destination has.
-/

namespace Boomerangz.Transfer

open Check Lists Zfs Policy Lifecycle

/-! ## The promise -/

def AtDestination (view : View) (e : Expected) : Prop :=
  view.destinationExists = true ∧ ∃ o ∈ view.destination.objects, o.name = e.destination ∧ o.guid = e.guid

def Latest (s : State) (d : Dataset) (latest : Object) : Prop :=
  (latest ∈ s.objects ∧ latest.type = .snapshot ∧ latest.name.base = d) ∧
    ∀ o ∈ s.objects, o.type = .snapshot → o.name.base = d → o.createTXG ≤ latest.createTXG

def OwnedOn (s : State) (lineage : ID) (d : Dataset) (o : Object) : Prop :=
  (o ∈ s.objects ∧ o.type = .snapshot ∧ o.name.base = d) ∧ ∃ m, owns s o lineage = .ok m

def CheckpointOf (s : State) (root stream : Dataset) (canonical : String) (lineage : ID) (o : Object) : Prop :=
  ∃ refs, referenceRecords s root (some lineage) = .ok refs ∧
    ∃ r ∈ refs, r.targetID = ⟨canonical⟩ ∧ r.dataset = stream ∧ o ∈ s.objects ∧ o.name = r.bookmarkOn stream

def Common (endpoint latest o : Object) : Prop := o.guid = latest.guid ∧ o.createTXG < endpoint.createTXG

structure Grounded (request : Request) (view : View) (plan : Plan) (stream : Member) (endpoint : Object) : Prop where
  sends : request.stream (if view.stream = [] then request.source else view.stream) = .ok stream ∧
    plan.source = stream.dataset
  receives : ∃ root, request.mapped stream.dataset = .ok (root, plan.destination)
  full : plan.mode = .full → view.destinationExists = false
  upToDate : plan.mode = .upToDate ↔ ∀ e ∈ plan.endpoints, AtDestination view e
  starts : plan.mode ≠ .full → plan.mode ≠ .upToDate →
    ∃ latest base, Latest view.destination plan.destination latest ∧ plan.base = some base.name ∧
      base ∈ view.source.objects ∧ base.name.base = plan.source ∧ Common endpoint latest base ∧
      (OwnedOn view.source plan.lineage plan.source base ∨
        CheckpointOf view.source request.source plan.source request.canonical plan.lineage base ∧
        plan.mode = .incrementalLatest ∧ plan.send.recursive = false ∧
        ∀ o, OwnedOn view.source plan.lineage plan.source o → ¬ Common endpoint latest o)
  ends : plan.snapshot = endpoint.name ∧ OwnedOn view.source plan.lineage plan.source endpoint ∧
    (stream.snapshot = none → ∀ o, OwnedOn view.source plan.lineage plan.source o → o.createTXG ≤ endpoint.createTXG) ∧
    ∀ n, stream.snapshot = some n → endpoint.name = n
  subtree : plan.send.recursive = true → ∀ o ∈ view.source.objects, o.isDataset = true →
    ∃ e ∈ plan.endpoints, ∃ snap, OwnedOn view.source plan.lineage o.name.base snap ∧
      snap.name = .snapshot o.name.base (componentOf endpoint.name) ∧ e.source = snap.name ∧ e.guid = snap.guid ∧
      ∃ m instant, owns view.source snap plan.lineage = .ok m ∧ e.metadata = some m ∧
        owns view.source endpoint plan.lineage = .ok instant ∧ m.created = instant.created

/-! ## The stages -/

section Stages

variable {request : Request} {view : View} {scope : Scope} {p : Effective} {lineage : ID} {endpoint latest : Object}
  {endpoints : List Expected} {mode : Mode} {base : Option Object} {d : Dataset} {o : Object}

theorem isOwned_iff {s : State} : isOwned s lineage o = true ↔ ∃ m, owns s o lineage = .ok m := by
  unfold isOwned
  cases owns s o lineage <;> simp

theorem latestAt_spec {s : State} (h : latestAt s d = some latest) : Latest s d latest := by
  obtain ⟨hmem, hmax⟩ := greatest_spec h
  simp only [List.mem_filter, Bool.and_eq_true, beq_iff_eq] at hmem hmax
  exact ⟨⟨hmem.1, hmem.2.1, hmem.2.2⟩, fun o ho ht hd => hmax o ⟨ho, ht, hd⟩⟩

theorem selectBase_spec (h : selectBase request view scope p lineage endpoint latest = .ok (some o)) :
    Common endpoint latest o ∧ (OwnedOn view.source lineage scope.stream.dataset o ∨
      CheckpointOf view.source request.source scope.stream.dataset request.canonical lineage o ∧
      canResumeFromBookmark p = true ∧
      ∀ x, OwnedOn view.source lineage scope.stream.dataset x → ¬ Common endpoint latest x) := by
  unfold selectBase at h
  split at h
  · next found hfound =>
    cases h
    have hmem := List.mem_of_find?_eq_some hfound
    have hcond := List.find?_some hfound
    simp only [sharedBase, Bool.and_eq_true, beq_iff_eq, decide_eq_true_eq, isOwned_iff] at hcond
    obtain ⟨⟨⟨⟨ht, hd⟩, hg⟩, hlt⟩, howned⟩ := hcond
    exact ⟨⟨hg, hlt⟩, .inl ⟨⟨hmem, ht, hd⟩, howned⟩⟩
  · next hnone =>
    split at h
    · next hresume =>
      simp only [ok_iff] at h
      obtain ⟨refs, hrefs, h⟩ := h
      obtain ⟨r, hr, h⟩ := List.exists_of_findSome?_eq_some h
      split at h
      · next hcond =>
        simp only [Bool.and_eq_true, beq_iff_eq] at hcond
        rw [Option.filter_eq_some_iff] at h
        obtain ⟨hobject, h⟩ := h
        simp only [Bool.and_eq_true, beq_iff_eq, decide_eq_true_eq] at h
        obtain ⟨hmem, hname⟩ := State.object_eq_some.mp hobject
        refine ⟨h, .inr ⟨⟨refs, hrefs, r, hr, hcond.1, hcond.2, hmem, hcond.2 ▸ hname⟩, hresume, ?_⟩⟩
        rintro x ⟨⟨hx, ht, hd⟩, howned⟩ ⟨hg, hlt⟩
        have hno := List.find?_eq_none.mp hnone x hx
        simp [sharedBase, ht, hd, hg, hlt, isOwned_iff.mpr howned] at hno
      · cases h
    · cases h

theorem planHistory_cases (h : planHistory request view scope p lineage endpoint endpoints = .ok (mode, base)) :
    (alreadyThere view endpoints = true ∧ mode = .upToDate ∧ base = none) ∨
    (alreadyThere view endpoints = false ∧ view.destinationExists = false ∧ mode = .full ∧ base = none) ∨
    alreadyThere view endpoints = false ∧ mode = (if p.incremental = .all then .incrementalAll else .incrementalLatest) ∧
      ∃ latest b, latestAt view.destination scope.target = some latest ∧ base = some b ∧
        selectBase request view scope p lineage endpoint latest = .ok (some b) := by
  simp only [planHistory, ok_iff] at h
  obtain ⟨-, h⟩ := h
  split at h
  · next hthere =>
    cases h
    exact .inl ⟨hthere, rfl, rfl⟩
  · next hthere =>
    rw [Bool.not_eq_true] at hthere
    split at h
    · split at h
      · cases h
      · next latest hlatest =>
        simp only [bind_eq_ok] at h
        obtain ⟨found, hfound, h⟩ := h
        split at h
        · cases h
        · next b =>
          cases h
          exact .inr (.inr ⟨hthere, rfl, latest, b, hlatest, rfl, hfound⟩)
    · next hexists =>
      simp only [ok_iff] at h
      obtain ⟨-, -, h⟩ := h
      cases h
      exact .inr (.inl ⟨hthere, by simpa using hexists, rfl, rfl⟩)

theorem alreadyThere_iff (hsome : endpoints ≠ []) :
    alreadyThere view endpoints = true ↔ ∀ e ∈ endpoints, AtDestination view e := by
  simp only [alreadyThere, AtDestination, Bool.and_eq_true, List.all_eq_true, Option.any_eq_true, beq_iff_eq,
    State.object_eq_some, and_assoc]
  constructor
  · exact fun h e he => ⟨h.1, h.2 e he⟩
  · intro h
    obtain ⟨e, he⟩ := List.exists_mem_of_ne_nil _ hsome
    exact ⟨(h e he).1, fun e he => (h e he).2⟩

end Stages

/-! ## The plan -/

section Plan

variable {request : Request} {view : View} {installation : ID} {sel : Selection} {mode : Mode} {base : Option Object}

theorem eligible_iff {s : State} {stream : Member} {lineage : ID} {o : Object} (hpin : stream.snapshot = none) :
    o ∈ eligible s stream lineage ↔ OwnedOn s lineage stream.dataset o := by
  simp [eligible, OwnedOn, hpin, isOwned_iff, and_assoc]

theorem viewStream_stream {stream : Member} {p : Effective} (h : viewStream request view = .ok (stream, p)) :
    request.stream (if view.stream = [] then request.source else view.stream) = .ok stream := by
  simp only [viewStream, ok_iff] at h
  obtain ⟨-, -, -, -, found, hfound, _, -, heq⟩ := h
  cases heq
  exact hfound

theorem select_member (h : select request view installation = .ok sel) :
    view.source.hasObject (.dataset sel.scope.stream.dataset) = true := by
  simp only [select, ok_iff] at h
  obtain ⟨scope, -, _, hready, _, -, _, -, -, -, -, _, -, -, -, _, -, _, -, rfl⟩ := h
  simp only [inventoryReady, ok_iff] at hready
  exact hready.2.1

theorem endpoints_ne_nil (h : select request view installation = .ok sel) : sel.endpoints ≠ [] := by
  obtain ⟨o, ho, hname⟩ := State.hasObject_iff.mp (select_member h)
  have hcarried : o ∈ carried view sel.scope.stream.dataset sel.policy.send.replicate :=
    List.mem_filter.mpr ⟨ho, by simp [o.isDataset_iff.mpr ⟨_, hname⟩, hname, Name.base]⟩
  obtain ⟨x, hx⟩ := collect_total (select_spec h).endpoints hcarried
  obtain ⟨snap, metadata, -, -, rfl⟩ := endpointOn_spec hx
  exact List.ne_nil_of_mem ((mem_collect (select_spec h).endpoints _).mpr ⟨o, hcarried, hx⟩)

theorem exists_owned_endpoint (h : Selects request view installation sel) (hr : sel.policy.send.replicate = true)
    {o : Object} (ho : o ∈ view.source.objects) (hd : o.isDataset = true) :
    ∃ e ∈ sel.endpoints, ∃ snap, OwnedOn view.source sel.lineage o.name.base snap ∧
      snap.name = .snapshot o.name.base (componentOf sel.endpoint.name) ∧ e.source = snap.name ∧ e.guid = snap.guid ∧
      ∃ m instant, owns view.source snap sel.lineage = .ok m ∧ e.metadata = some m ∧
        owns view.source sel.endpoint sel.lineage = .ok instant ∧ m.created = instant.created := by
  have hcarried : o ∈ carried view sel.scope.stream.dataset sel.policy.send.replicate := by
    simp [carried, hr, ho, hd]
  obtain ⟨x, hx⟩ := collect_total h.endpoints hcarried
  obtain ⟨snap, m, hsnap, howns, rfl⟩ := endpointOn_spec hx
  obtain ⟨hmem, hname⟩ := State.object_eq_some.mp hsnap
  obtain ⟨-, -, -, -, howned⟩ := h.endpoint_mem
  obtain ⟨instant, hinstant⟩ := isOwned_iff.mp howned
  refine ⟨_, (mem_collect h.endpoints _).mpr ⟨o, hcarried, hx⟩, snap, ⟨⟨hmem, ?_, ?_⟩, m, howns⟩, hname, rfl, rfl,
    m, instant, howns, rfl, hinstant, ?_⟩
  · exact snap.type_snapshot_iff.mpr ⟨_, _, hname⟩
  · rw [hname]
    rfl
  · obtain ⟨⟨d, -, hm⟩, -⟩ := ownership_eq_ok howns
    obtain ⟨⟨d', -, hi⟩, -⟩ := ownership_eq_ok hinstant
    simp only at hm hi
    rw [hname, hi] at hm
    simp only [componentOf, Name.snapshot.injEq, Metadata.name, Component.owned.injEq] at hm
    exact hm.2.1.symm

theorem grounded (hsel : select request view installation = .ok sel)
    (hhistory : planHistory request view sel.scope sel.policy sel.lineage sel.endpoint sel.endpoints = .ok (mode, base)) :
    Grounded request view (planOf request view sel mode base) sel.scope.stream sel.endpoint := by
  have h := select_spec hsel
  obtain ⟨stream, p, hview, hscope⟩ := buildScope_eq_ok h.scope
  obtain ⟨hroot, hinside, hstream, -, htarget⟩ := scopeOf_eq_ok hscope
  obtain ⟨hmem, htype, hbase, hpinned, howned⟩ := h.endpoint_mem
  have hthere : alreadyThere view sel.endpoints = true ↔ ∀ e ∈ sel.endpoints, AtDestination view e :=
    alreadyThere_iff (endpoints_ne_nil hsel)
  refine ⟨⟨hstream ▸ viewStream_stream hview, rfl⟩, ⟨sel.scope.mappedRoot, ?_⟩, fun hfull => ?_, ?_, fun hnfull hnup => ?_,
    ⟨rfl, ⟨⟨hmem, htype, hbase⟩, isOwned_iff.mp howned⟩, fun hpin o ho => ?_, hpinned⟩,
    fun hr o ho hd => exists_owned_endpoint h hr ho hd⟩
  · simp only [Request.mapped, ok_iff]
    exact ⟨_, hroot, hstream ▸ hinside, by rw [hstream, ← htarget]; rfl⟩
  · obtain ⟨-, rfl, -⟩ | ⟨-, hexists, -⟩ | ⟨-, rfl, -⟩ := planHistory_cases hhistory
    · cases hfull
    · exact hexists
    · split at hfull <;> cases hfull
  · refine Iff.trans ?_ hthere
    obtain ⟨hyes, rfl, -⟩ | ⟨hno, -, rfl, -⟩ | ⟨hno, rfl, -⟩ := planHistory_cases hhistory
    · exact iff_of_true rfl hyes
    · exact iff_of_false (by rintro ⟨⟩) (by simp [hno])
    · exact iff_of_false (by split <;> rintro ⟨⟩) (by simp [hno])
  · obtain ⟨-, rfl, -⟩ | ⟨-, -, rfl, -⟩ | ⟨-, hmode, latest, b, hlatest, rfl, hselect⟩ := planHistory_cases hhistory
    · exact absurd rfl hnup
    · exact absurd rfl hnfull
    · obtain ⟨hcommon, hsnapshot | ⟨hcheckpoint, hresume, hnone⟩⟩ := selectBase_spec hselect
      · exact ⟨latest, b, latestAt_spec hlatest, rfl, hsnapshot.1.1, hsnapshot.1.2.2, hcommon, .inl hsnapshot⟩
      · obtain ⟨refs, hrefs, r, hr, htid, hdataset, hb, hname⟩ := hcheckpoint
        simp only [canResumeFromBookmark, Bool.and_eq_true, decide_eq_true_eq, Bool.not_eq_true'] at hresume
        refine ⟨latest, b, latestAt_spec hlatest, rfl, hb, by rw [hname]; rfl, hcommon,
          .inr ⟨⟨refs, hrefs, r, hr, htid, hdataset, hb, hname⟩, ?_, hresume.2, hnone⟩⟩
        rw [hmode, hresume.1]
        rfl
  · exact (greatest_spec h.endpoint).2 o ((eligible_iff hpin).mpr ho)

/-- A plan starts from what its destination has and ends at the newest owned snapshot, or the pinned one. -/
theorem build_grounded {request : Request} {view : View} {installation : ID} {plan : Plan}
    (h : build request view installation = .ok plan) :
    ∃ stream endpoint, Grounded request view plan stream endpoint := by
  simp only [build, ok_iff] at h
  obtain ⟨sel, hsel, ⟨mode, base⟩, hhistory, rfl⟩ := h
  exact ⟨_, _, grounded hsel hhistory⟩

/-- The next package of a recursive stream starts from its replica's last snapshot. -/
theorem package_grounded : ∃ plan, build packageRequest (packageView packageReplica) ⟨9, 9⟩ = .ok plan ∧
    plan.mode = .incrementalAll ∧
    ∃ stream endpoint, Grounded packageRequest (packageView packageReplica) plan stream endpoint := by
  obtain ⟨plan, hplan, hmode⟩ : ∃ plan, build packageRequest (packageView packageReplica) ⟨9, 9⟩ = .ok plan ∧
    plan.mode = .incrementalAll := ⟨_, rfl, rfl⟩
  exact ⟨plan, hplan, hmode, build_grounded hplan⟩

end Plan

end Boomerangz.Transfer
