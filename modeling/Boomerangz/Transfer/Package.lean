import Boomerangz.Lifecycle.Authority
import Boomerangz.Transfer.Plan

/-! # Recursive packages

A `-R` package is received one dataset after another; cut off, it leaves some of them to the next plan.
-/

namespace Boomerangz.Transfer

open Check Lists Zfs Policy Lifecycle

variable {request : Request} {view : View} {scope : Scope}

/-! ## What `Build` settles for a recursive stream -/

theorem streams_of_replicate {streams : List Member} (h : request.streams = .ok streams)
    (hr : request.policy.send.replicate = true) :
    request.members = [] ∧ streams = [⟨request.source, request.policy, request.snapshot⟩] := by
  unfold Request.streams at h
  split at h
  · rename_i hm
    exact ⟨by simpa using hm, (Except.ok.inj h).symm⟩
  · simp [hr] at h

theorem buildScope_eq_ok
    (h : buildScope request view = .ok scope) : ∃ stream p, viewStream request view = .ok (stream, p) ∧
      scopeOf request stream p = .ok scope := by
  simp only [buildScope, bind_eq_ok] at h
  obtain ⟨⟨stream, p⟩, hview, h⟩ := h
  refine ⟨stream, p, hview, ?_⟩
  split at h
  · simp only [bind_eq_ok] at h
    exact h.choose_spec.2.choose_spec.2
  · simp only [bind_eq_ok] at h
    exact h.choose_spec.2.choose_spec.2
  · simp only [bind_eq_ok] at h
    exact h.choose_spec.2.choose_spec.2
  · simp at h

theorem viewStream_eq_ok {stream : Member} {p : Effective}
    (h : viewStream request view = .ok (stream, p)) :
    (∃ streams, request.streams = .ok streams ∧ stream ∈ streams) ∧ streamPolicy request stream = .ok p := by
  simp only [viewStream, ok_iff] at h
  obtain ⟨-, -, -, -, found, hfound, p', hp', heq⟩ := h
  obtain ⟨rfl, rfl⟩ := Prod.mk.inj heq
  refine ⟨?_, hp'⟩
  simp only [Request.stream, bind_eq_ok] at hfound
  obtain ⟨streams, hstreams, hfound⟩ := hfound
  refine ⟨streams, hstreams, ?_⟩
  split at hfound
  · rename_i m hm
    exact pure_eq_ok.mp hfound ▸ List.mem_of_find?_eq_some hm
  · simp at hfound

theorem replicate_of_scope
    (h : buildScope request view = .ok scope) (hr : scope.policy.send.replicate = true) :
    request.policy.send.replicate = true := by
  obtain ⟨stream, p, hview, hscope⟩ := buildScope_eq_ok h
  simp only [scopeOf, ok_iff] at hscope
  obtain ⟨_, -, -, rfl⟩ := hscope
  have hp := (viewStream_eq_ok hview).2
  unfold streamPolicy at hp
  split at hp
  · exact Except.ok.inj hp ▸ hr
  · simp only [ok_iff] at hp
    obtain ⟨-, hno, -, -, rfl⟩ := hp
    have hyes : stream.policy.send.replicate = true := hr
    simp [hyes] at hno

theorem place_self (source mappedRoot : Dataset) : place source mappedRoot source = mappedRoot := by
  simp [place]

theorem buildScope_replicate
    (h : buildScope request view = .ok scope) (hr : request.policy.send.replicate = true) :
    scope.stream = ⟨request.source, request.policy, request.snapshot⟩ ∧ scope.policy = request.policy ∧
      mapReceiveDataset request.source request.destinationRoot request.policy.discard = .ok scope.mappedRoot ∧
      scope.target = scope.mappedRoot := by
  obtain ⟨stream, p, hview, hscope⟩ := buildScope_eq_ok h
  obtain ⟨⟨streams, hstreams, hmem⟩, hp⟩ := viewStream_eq_ok hview
  obtain ⟨-, rfl⟩ := streams_of_replicate hstreams hr
  obtain rfl := List.mem_singleton.mp hmem
  have hp' : p = request.policy := by
    unfold streamPolicy at hp
    rw [if_pos rfl] at hp
    exact (Except.ok.inj hp).symm
  subst hp'
  simp only [scopeOf, Request.mapped, ok_iff]
    at hscope
  obtain ⟨_, ⟨root, hroot, -, rfl⟩, -, rfl⟩ := hscope
  exact ⟨rfl, rfl, hroot, place_self _ _⟩

structure Selects (request : Request) (view : View) (installation : ID) (sel : Selection) : Prop where
  scope : buildScope request view = .ok sel.scope
  root : view.source.hasObject (.dataset request.source) = true
  policy : sel.policy.send.replicate = sel.scope.policy.send.replicate
  lineage : rootAuthority view.source request.source installation = .ok sel.lineage
  endpoint : greatest Object.createTXG (eligible view.source sel.scope.stream sel.lineage) = some sel.endpoint
  endpoints : collect (endpointOn request view sel.scope sel.lineage (componentOf sel.endpoint.name))
    (carried view sel.scope.stream.dataset sel.policy.send.replicate) = .ok sel.endpoints

theorem select_spec {installation : ID} {sel : Selection}
    (h : select request view installation = .ok sel) : Selects request view installation sel := by
  simp only [select, ok_iff] at h
  obtain ⟨scope, hscope, i, hready, p, hp, lineage, hlineage, -, -, -, ⟨binding, new⟩, -, -, -, endpoint,
    hendpoint, endpoints, hendpoints, rfl⟩ := h
  refine ⟨hscope, ?_, ?_, hlineage, ?_, hendpoints⟩
  · simp only [inventoryReady, ok_iff] at hready
    exact hready.1
  · simp only [scopePolicy, ok_iff] at hp
    obtain ⟨-, -, rfl⟩ := hp
    split <;> simp
  · unfold selectEndpoint at hendpoint
    split at hendpoint
    · rename_i o ho
      exact Except.ok.inj hendpoint ▸ ho
    · cases hendpoint

theorem endpointOn_spec {lineage : ID} {c : Component}
    {o : Object} {x : Option Expected} (h : endpointOn request view scope lineage c o = .ok x) :
    ∃ snap metadata, view.source.object (.snapshot o.name.base c) = some snap ∧
      owns view.source snap lineage = .ok metadata ∧
      x = some ⟨snap.name, .snapshot (place request.source scope.mappedRoot o.name.base) c, snap.guid,
        some metadata⟩ := by
  simp only [endpointOn, ok_iff] at h
  obtain ⟨_, -, -, h⟩ := h
  split at h
  · simp at h
  · rename_i snap hsnap
    simp only [bind_eq_ok] at h
    obtain ⟨metadata, howns, h⟩ := h
    refine ⟨snap, metadata, hsnap, howns, ?_⟩
    split at h
    · exact (pure_eq_ok.mp h).symm
    · simp only [ok_iff] at h
      obtain ⟨-, _, -, -, rfl⟩ := h
      rfl

/-- The endpoint that is expected of a dataset. -/
def Selection.expects (sel : Selection) (request : Request) (view : View) (o : Object) (e : Expected) : Prop :=
  ∃ snap, view.source.object (.snapshot o.name.base (componentOf sel.endpoint.name)) = some snap ∧
    e.source = snap.name ∧ e.guid = snap.guid ∧
    e.destination = .snapshot (place request.source sel.scope.mappedRoot o.name.base) (componentOf sel.endpoint.name)

namespace Selects

variable {request : Request} {view : View} {installation : ID} {sel : Selection}

theorem endpoint_mem (h : Selects request view installation sel) :
    sel.endpoint ∈ view.source.objects ∧ sel.endpoint.type = .snapshot ∧
      sel.endpoint.name.base = sel.scope.stream.dataset ∧
      (∀ n, sel.scope.stream.snapshot = some n → sel.endpoint.name = n) ∧
      isOwned view.source sel.lineage sel.endpoint = true := by
  have hmem := (greatest_spec h.endpoint).1
  simp only [eligible, List.mem_filter, Bool.and_eq_true, beq_iff_eq] at hmem
  obtain ⟨hm, ⟨⟨ht, hb⟩, hn⟩, ho⟩ := hmem
  refine ⟨hm, ht, hb, fun n hpin => ?_, ho⟩
  simpa [hpin] using hn

theorem endpoint_object (h : Selects request view installation sel) :
    view.source.object sel.endpoint.name = some sel.endpoint :=
  State.object_eq_some.mpr ⟨h.endpoint_mem.1, rfl⟩

theorem mem_endpoints (h : Selects request view installation sel) (hr : sel.policy.send.replicate = true)
    {e : Expected} (he : e ∈ sel.endpoints) :
    ∃ o ∈ view.source.objects, o.isDataset = true ∧ sel.expects request view o e := by
  obtain ⟨o, ho, hx⟩ := (mem_collect h.endpoints e).mp he
  simp only [carried, hr, Bool.true_or, Bool.and_true, List.mem_filter] at ho
  obtain ⟨snap, metadata, hsnap, -, heq⟩ := endpointOn_spec hx
  cases heq
  exact ⟨o, ho.1, ho.2, snap, hsnap, rfl, rfl, rfl⟩

theorem exists_endpoint (h : Selects request view installation sel) (hr : sel.policy.send.replicate = true)
    {o : Object} (ho : o ∈ view.source.objects) (hd : o.isDataset = true) :
    ∃ e ∈ sel.endpoints, sel.expects request view o e := by
  have hmem : o ∈ carried view sel.scope.stream.dataset sel.policy.send.replicate := by
    simp [carried, hr, ho, hd]
  obtain ⟨x, hx⟩ := collect_total h.endpoints hmem
  obtain ⟨snap, metadata, hsnap, -, rfl⟩ := endpointOn_spec hx
  exact ⟨_, (mem_collect h.endpoints _).mpr ⟨o, hmem, hx⟩, snap, hsnap, rfl, rfl, rfl⟩

end Selects

theorem planHistory_replicate {p : Effective} {lineage : ID}
    {endpoint latest : Object} {endpoints : List Expected} (hr : p.send.replicate = true)
    (hsame : ∀ e ∈ endpoints, ∀ o, view.destination.object e.destination = some o → o.guid = e.guid)
    (hexists : view.destinationExists = true) (hlatest : latestAt view.destination scope.target = some latest) :
    planHistory request view scope p lineage endpoint endpoints =
      if alreadyThere view endpoints then .ok (.upToDate, none)
      else match view.source.objects.find? (sharedBase view scope lineage endpoint latest) with
        | some base => .ok (if p.incremental = .all then .incrementalAll else .incrementalLatest, some base)
        | none => .error noCommonBase := by
  have hall : endpoints.all (fun e => (view.destination.object e.destination).all (·.guid == e.guid)) = true := by
    rw [List.all_eq_true]
    intro e he
    cases ho : view.destination.object e.destination with
    | none => rfl
    | some o => simpa using hsame e he o ho
  have hbookmark : canResumeFromBookmark p = false := by simp [canResumeFromBookmark, hr]
  simp only [planHistory, hall, require, if_true, hexists, hlatest, selectBase, hbookmark]
  split
  · rfl
  · simp only [bind, Except.bind]
    cases view.source.objects.find? (sharedBase view scope lineage endpoint latest) <;> rfl

/-! ## Planning again -/

def arrived (s : State) (e : Expected) : Bool := (s.object e.destination).any (·.guid == e.guid)

def settled (s : State) (r : Property) : Bool :=
  s.hasObject r.dataset && !r.name.isReference && !r.name.isTargetState

/-- The view after the package of `plan` was cut off and its token resumed: `delivered` were received in full, `rest`
not at all. -/
structure Continued (request : Request) (view : View) (plan : Plan) (endpoint : Object)
    (delivered rest : List Expected) (pin : Option Name) (view' : View) : Prop where
  endpoint_eq : view.source.object plan.snapshot = some endpoint
  objects : view.source.objects ⊆ view'.source.objects
  datasets : view'.source.objects.filter Object.isDataset = view.source.objects.filter Object.isDataset
  rows : view'.source.properties.filter (settled view.source) =
    view.source.properties.filter (settled view.source)
  received : view'.source.received = view.source.received
  pinned : ∀ n, pin = some n → ∀ o ∈ view'.source.objects, o.name = n → endpoint.createTXG ≤ o.createTXG
  -- ZFS gives each snapshot its own GUID, and each snapshot command its own transaction.
  guids : ∀ x ∈ view'.source.objects, ∀ y ∈ view'.source.objects, x.type = .snapshot → y.type = .snapshot →
    x.guid = y.guid → x = y
  txgs : ∀ x ∈ view'.source.objects, x.type = .snapshot → x.name.base = request.source →
    x.createTXG = endpoint.createTXG → x = endpoint
  exist : view'.destinationExists = true
  newest : ∃ latest, latestAt view'.destination plan.destination = some latest ∧ latest.guid = endpoint.guid
  delivered : ∀ e ∈ delivered, arrived view'.destination e = true
  kept : ∀ e ∈ rest, view'.destination.object e.destination = view.destination.object e.destination
  unsent : ∀ o ∈ view'.source.objects, o.type = .snapshot → o.name.base = request.source →
    endpoint.createTXG < o.createTXG → ∀ d, view'.destination.object (.snapshot d (componentOf o.name)) = none

def receivable (view : View) (plan : Plan) : Prop :=
  ∀ base, plan.base = some base → ∀ e ∈ plan.endpoints, ∀ o,
    view.source.object (.snapshot e.source.base (componentOf base)) = some o →
      (view.destination.object (.snapshot e.destination.base (componentOf base))).any (·.guid == o.guid) = true

def continues (request : Request) (view : View) (installation : ID) : Prop :=
  build request view installation ≠ .error noCommonBase ∧
    build request view installation ≠ .error noDestinationHistory ∧
    ∀ plan, build request view installation = .ok plan → receivable view plan

theorem continues_of_history {installation : ID} {sel : Selection}
    (h : select request view installation = .ok sel) {mode : Mode} {base : Option Object}
    (hh : planHistory request view sel.scope sel.policy sel.lineage sel.endpoint sel.endpoints = .ok (mode, base)) :
    continues request view installation ↔ receivable view (planOf request view sel mode base) := by
  have hb : build request view installation = .ok (planOf request view sel mode base) := by
    simp [build, h, hh]
  simp only [continues, hb, ne_eq, reduceCtorEq, not_false_eq_true, true_and, Except.ok.injEq, forall_eq']

theorem not_continues_of_history {installation : ID} {sel : Selection}
    (h : select request view installation = .ok sel)
    (hh : planHistory request view sel.scope sel.policy sel.lineage sel.endpoint sel.endpoints =
      .error noCommonBase) : ¬ continues request view installation := by
  have hb : build request view installation = .error noCommonBase := by
    simp only [build, h, hh, bind, Except.bind]
  exact fun hc => hc.1 hb

theorem planHistory_same {p : Effective} {lineage : ID}
    {endpoint : Object} {endpoints : List Expected} {x : Mode × Option Object}
    (h : planHistory request view scope p lineage endpoint endpoints = .ok x) :
    ∀ e ∈ endpoints, ∀ o, view.destination.object e.destination = some o → o.guid = e.guid := by
  simp only [planHistory, ok_iff, List.all_eq_true] at h
  intro e he o ho
  simpa [ho] using h.1 e he

structure Replanned (request : Request) (view view' : View) (sel sel' : Selection) : Prop where
  replicate : sel'.policy.send.replicate = true
  mapped : sel'.scope.mappedRoot = sel.scope.mappedRoot
  target : sel'.scope.target = sel.scope.target
  stream : sel'.scope.stream.dataset = request.source
  lineage : sel'.lineage = sel.lineage
  objects : ∀ n o, view.source.object n = some o → view'.source.object n = some o
  datasets : ∀ o : Object, o.isDataset = true → (o ∈ view'.source.objects ↔ o ∈ view.source.objects)
  root : ∃ o ∈ view.source.objects, o.isDataset = true ∧ o.name.base = request.source
  endpoint : sel.endpoint ∈ view'.source.objects ∧ sel.endpoint.type = .snapshot ∧
    sel.endpoint.name.base = request.source ∧ isOwned view'.source sel.lineage sel.endpoint = true
  newer : sel.endpoint.createTXG ≤ sel'.endpoint.createTXG

section Again

variable {request : Request} {installation : ID} {view view' : View} {plan : Plan} {endpoint : Object}
  {delivered rest : List Expected} {pin : Option Name} {sel sel' : Selection}

theorem replanned (hs : Selects request view installation sel) (hr : sel.policy.send.replicate = true)
    (hc : Continued request view plan sel.endpoint delivered rest pin view')
    (hs' : Selects { request with snapshot := pin } view' installation sel') :
    Replanned request view view' sel sel' := by
  have hreq : request.policy.send.replicate = true := replicate_of_scope hs.scope (hs.policy ▸ hr)
  obtain ⟨hstream, -, hmap, htarget⟩ := buildScope_replicate hs.scope hreq
  obtain ⟨hstream', hpol', hmap', htarget'⟩ := buildScope_replicate hs'.scope hreq
  obtain ⟨hmem, htype, hbase, -, howned⟩ := hs.endpoint_mem
  obtain ⟨hmem', -, -, hpin', -⟩ := hs'.endpoint_mem
  rw [hstream] at hbase
  have hsettled : ∀ o ∈ view.source.objects, ∀ r : Property, r.dataset = o.name →
      r.name.isReference = false → r.name.isTargetState = false → settled view.source r = true := by
    intro o ho r hr hk ht
    have : view.source.hasObject r.dataset = true := State.hasObject_iff.mpr ⟨o, ho, hr.symm⟩
    simp [settled, this, hk, ht]
  obtain ⟨root, hroot, hrootn⟩ := State.hasObject_iff.mp hs.root
  have hlineage : sel'.lineage = sel.lineage := by
    have hsame : rootAuthority view'.source request.source installation =
        rootAuthority view.source request.source installation := by
      refine rootAuthority_congr installation (filter_congr hc.rows ?_) (by rw [hc.received])
      intro r hr
      simp only [isAuthority, Bool.and_eq_true, Bool.or_eq_true, beq_iff_eq] at hr
      obtain ⟨hd, (hk | hk) | hk⟩ := hr <;>
        exact hsettled root hroot r (hd.trans hrootn.symm) (by rw [hk]; rfl) (by rw [hk]; rfl)
    exact Except.ok.inj (hs'.lineage.symm.trans (hsame.trans hs.lineage))
  have howned' : isOwned view'.source sel.lineage sel.endpoint = true := by
    rw [isOwned, owns_congr sel.lineage (filter_congr hc.rows ?_)]
    · exact howned
    · intro r hr
      simp only [isOwnership, Bool.and_eq_true, Bool.or_eq_true, beq_iff_eq] at hr
      obtain ⟨hd, hk | hk⟩ := hr <;> exact hsettled _ hmem r hd (by rw [hk]; rfl) (by rw [hk]; rfl)
  refine ⟨?_, ?_, ?_, by rw [hstream'], hlineage, ?_, ?_, ⟨root, hroot, root.isDataset_iff.mpr ⟨_, hrootn⟩,
    by rw [hrootn]; rfl⟩, ⟨hc.objects hmem, htype, hbase, howned'⟩, ?_⟩
  · rw [hs'.policy, hpol']
    exact hreq
  · exact Except.ok.inj (hmap'.symm.trans hmap)
  · rw [htarget, htarget']
    exact Except.ok.inj (hmap'.symm.trans hmap)
  · intro n o ho
    obtain ⟨hm, hn⟩ := State.object_eq_some.mp ho
    exact State.object_eq_some.mpr ⟨hc.objects hm, hn⟩
  · intro o ho
    have := congrArg (o ∈ ·) hc.datasets
    simpa [ho] using this
  · cases hpin : pin with
    | none =>
      -- With nothing pinned the package's own endpoint is still eligible.
      refine (greatest_spec hs'.endpoint).2 _ ?_
      simp [eligible, hstream', hpin, hc.objects hmem, htype, hbase, hlineage, howned']
    | some n => exact hc.pinned n hpin _ hmem' (hpin' n (by rw [hstream', hpin]))

theorem all_arrived_iff (hc : Continued request view plan endpoint delivered rest pin view')
    (hpackage : (delivered ++ rest).Perm plan.endpoints) :
    (∀ e ∈ plan.endpoints, arrived view'.destination e = true) ↔ ∀ e ∈ rest, arrived view.destination e = true := by
  have hkept : ∀ e ∈ rest, arrived view'.destination e = arrived view.destination e := by
    intro e he
    rw [arrived, arrived, hc.kept e he]
  simp only [← hpackage.mem_iff, List.mem_append]
  constructor
  · intro h e he
    rw [← hkept e he]
    exact h e (.inr he)
  · rintro h e (he | he)
    · exact hc.delivered e he
    · rw [hkept e he]
      exact h e he

def counterpart (view' : View) (c : Component) (e e' : Expected) : Prop :=
  ∃ snap, view'.source.object (.snapshot e'.source.base c) = some snap ∧ snap.guid = e.guid ∧
    e.destination = .snapshot e'.destination.base c

section Replan

variable (h : Replanned request view view' sel sel') (hs : Selects request view installation sel)
  (hr : sel.policy.send.replicate = true) (hs' : Selects { request with snapshot := pin } view' installation sel')
include h hs hr hs'

theorem Replanned.counterpart_of_mem {e' : Expected} (he' : e' ∈ sel'.endpoints) :
    ∃ e ∈ sel.endpoints, counterpart view' (componentOf sel.endpoint.name) e e' := by
  obtain ⟨o, ho, hd, snap', hsnap', hsource, -, hdest⟩ := hs'.mem_endpoints h.replicate he'
  obtain ⟨e, he, snap, hsnap, -, hguid, hdest'⟩ := hs.exists_endpoint hr ((h.datasets o hd).mp ho) hd
  refine ⟨e, he, snap, ?_, hguid.symm, ?_⟩
  · rw [hsource, (State.object_eq_some.mp hsnap').2]
    exact h.objects _ _ hsnap
  · rw [hdest', hdest, h.mapped]
    rfl

theorem Replanned.mem_of_counterpart {e : Expected} (he : e ∈ sel.endpoints) :
    ∃ e' ∈ sel'.endpoints, counterpart view' (componentOf sel.endpoint.name) e e' := by
  obtain ⟨o, ho, hd, snap, hsnap, -, hguid, hdest⟩ := hs.mem_endpoints hr he
  obtain ⟨e', he', snap', hsnap', hsource', -, hdest'⟩ :=
    hs'.exists_endpoint h.replicate ((h.datasets o hd).mpr ho) hd
  refine ⟨e', he', snap, ?_, hguid.symm, ?_⟩
  · rw [hsource', (State.object_eq_some.mp hsnap').2]
    exact h.objects _ _ hsnap
  · rw [hdest, hdest', h.mapped]
    rfl

theorem Replanned.receivable_iff (mode : Mode) :
    receivable view' (planOf { request with snapshot := pin } view' sel' mode (some sel.endpoint)) ↔
      ∀ e ∈ sel.endpoints, arrived view'.destination e = true := by
  simp only [receivable, planOf, Option.map_some, Option.some.injEq, forall_eq']
  constructor
  · intro hall e he
    obtain ⟨e', he', snap, hsnap, hguid, hdest⟩ := h.mem_of_counterpart hs hr hs' he
    have := hall e' he' snap hsnap
    rwa [hguid, ← hdest] at this
  · intro hall e' he' o ho
    obtain ⟨e, he, snap, hsnap, hguid, hdest⟩ := h.counterpart_of_mem hs hr hs' he'
    obtain rfl := Option.some.inj (hsnap.symm.trans ho)
    rw [hguid, ← hdest]
    exact hall e he

variable (hselect : select { request with snapshot := pin } view' installation = .ok sel')
  (hc : Continued request view plan sel.endpoint delivered rest pin view') (hdest : plan.destination = sel.scope.target)
include hselect hc hdest

theorem continues_of_same
    (hsame : ∀ e ∈ sel.endpoints, ∀ o, view'.destination.object e.destination = some o → o.guid = e.guid)
    (heq : sel'.endpoint = sel.endpoint) :
    continues { request with snapshot := pin } view' installation ↔
      ∀ e ∈ sel.endpoints, arrived view'.destination e = true := by
  -- With one endpoint the two plans expect the same GUIDs at the same names.
  have hmatch : ∀ e e', e' ∈ sel'.endpoints → counterpart view' (componentOf sel.endpoint.name) e e' →
      e.destination = e'.destination ∧ e.guid = e'.guid := by
    rintro e e' he' ⟨snap, hsnap, hguid, hd⟩
    obtain ⟨o, -, -, snap', hsnap', hsource, hguid', hdest'⟩ := hs'.mem_endpoints h.replicate he'
    have hbase : e'.source.base = o.name.base := by rw [hsource, (State.object_eq_some.mp hsnap').2]; rfl
    rw [heq] at hsnap' hdest'
    obtain rfl := Option.some.inj (hsnap'.symm.trans (hbase ▸ hsnap))
    exact ⟨by rw [hd, hdest']; rfl, by rw [← hguid, hguid']⟩
  have hthere : alreadyThere view' sel'.endpoints = true ↔
      ∀ e ∈ sel.endpoints, arrived view'.destination e = true := by
    simp only [alreadyThere, hc.exist, Bool.true_and, List.all_eq_true]
    constructor
    · intro hall e he
      obtain ⟨e', he', hcp⟩ := h.mem_of_counterpart hs hr hs' he
      obtain ⟨hd, hg⟩ := hmatch e e' he' hcp
      rw [arrived, hd, hg]
      exact hall e' he'
    · intro hall e' he'
      obtain ⟨e, he, hcp⟩ := h.counterpart_of_mem hs hr hs' he'
      obtain ⟨hd, hg⟩ := hmatch e e' he' hcp
      rw [← hd, ← hg]
      exact hall e he
  obtain ⟨latest, hlatest, hguid⟩ := hc.newest
  rw [hdest, ← h.target] at hlatest
  have hhist : planHistory { request with snapshot := pin } view' sel'.scope sel'.policy sel'.lineage
      sel'.endpoint sel'.endpoints = _ := planHistory_replicate h.replicate (by
      intro e' he' o ho
      obtain ⟨e, he, hcp⟩ := h.counterpart_of_mem hs hr hs' he'
      obtain ⟨hd, hg⟩ := hmatch e e' he' hcp
      rw [← hg]
      exact hsame e he o (hd ▸ ho)) hc.exist hlatest
  by_cases hal : alreadyThere view' sel'.endpoints = true
  · rw [if_pos hal] at hhist
    refine iff_of_true ((continues_of_history hselect hhist).mpr ?_) (hthere.mp hal)
    intro base hb
    simp [planOf] at hb
  · rw [if_neg hal] at hhist
    refine iff_of_false (not_continues_of_history hselect ?_) (fun hall => hal (hthere.mpr hall))
    -- Only the endpoint itself has the replica's newest GUID, and it is no base of itself.
    rw [List.find?_eq_none.mpr] at hhist
    · exact hhist
    · intro o ho
      simp only [sharedBase, Bool.and_eq_true, beq_iff_eq, decide_eq_true_eq, not_and]
      rintro ⟨⟨⟨ht, -⟩, hg⟩, hlt⟩ -
      have := hc.guids o ho _ h.endpoint.1 ht h.endpoint.2.1 (hg.trans hguid)
      rw [heq, this] at hlt
      omega

theorem continues_of_newer
    (hlt : sel.endpoint.createTXG < sel'.endpoint.createTXG) :
    continues { request with snapshot := pin } view' installation ↔
      ∀ e ∈ sel.endpoints, arrived view'.destination e = true := by
  obtain ⟨hmem', htype', hbase', -, -⟩ := hs'.endpoint_mem
  have hnone : ∀ e' ∈ sel'.endpoints, view'.destination.object e'.destination = none := by
    intro e' he'
    obtain ⟨o, -, -, snap', -, -, -, hdest'⟩ := hs'.mem_endpoints h.replicate he'
    rw [hdest']
    exact hc.unsent _ hmem' htype' (hbase'.trans h.stream) hlt _
  have hthere : ¬ alreadyThere view' sel'.endpoints = true := by
    obtain ⟨root, hroot, hd, -⟩ := h.root
    obtain ⟨e', he', -⟩ := hs'.exists_endpoint h.replicate ((h.datasets root hd).mpr hroot) hd
    simp only [alreadyThere, hc.exist, Bool.true_and, List.all_eq_true]
    intro hall
    have := hall e' he'
    simp [hnone e' he'] at this
  obtain ⟨latest, hlatest, hguid⟩ := hc.newest
  rw [hdest, ← h.target] at hlatest
  have hhist : planHistory { request with snapshot := pin } view' sel'.scope sel'.policy sel'.lineage
      sel'.endpoint sel'.endpoints = _ := planHistory_replicate h.replicate (by
        intro e' he' o ho
        simp [hnone e' he'] at ho) hc.exist hlatest
  have hbase : view'.source.objects.find? (sharedBase view' sel'.scope sel'.lineage sel'.endpoint latest) =
      some sel.endpoint := by
    obtain ⟨hm, ht, hb, ho⟩ := h.endpoint
    refine find?_unique hm (by simp [sharedBase, ht, hb, h.stream, hguid, hlt, h.lineage, ho]) ?_
    intro o hmo hp
    simp only [sharedBase, Bool.and_eq_true, beq_iff_eq] at hp
    exact hc.guids o hmo _ hm hp.1.1.1.1 ht (hp.1.1.2.trans hguid)
  rw [if_neg hthere, hbase] at hhist
  rw [continues_of_history hselect hhist, h.receivable_iff hs hr hs']

end Replan

end Again

/-- After a resumed package, planning again goes on exactly when every dataset that the package did not reach had its
endpoint beforehand. -/
theorem package_continues_iff {request : Request} {installation : ID} {view view' : View} {plan : Plan}
    {endpoint : Object} {delivered rest : List Expected} {pin : Option Name} {sel' : Selection}
    (hplan : build request view installation = .ok plan) (hr : plan.send.recursive = true)
    (hpackage : (delivered ++ rest).Perm plan.endpoints)
    (hc : Continued request view plan endpoint delivered rest pin view')
    (hselect : select { request with snapshot := pin } view' installation = .ok sel') :
    continues { request with snapshot := pin } view' installation ↔
      ∀ e ∈ rest, arrived view.destination e = true := by
  simp only [build, ok_iff] at hplan
  obtain ⟨sel, hsel, ⟨mode, base⟩, hhist, rfl⟩ := hplan
  have hs := select_spec hsel
  have hs' := select_spec hselect
  obtain rfl : sel.endpoint = endpoint := Option.some.inj (hs.endpoint_object.symm.trans hc.endpoint_eq)
  have h := replanned hs hr hc hs'
  rw [← all_arrived_iff hc hpackage]
  rcases Nat.lt_or_eq_of_le h.newer with hlt | heq
  · exact continues_of_newer h hs hr hs' hselect hc rfl hlt
  · obtain ⟨hmem', htype', hbase', -, -⟩ := hs'.endpoint_mem
    refine continues_of_same h hs hr hs' hselect hc rfl ?_
      (hc.txgs _ hmem' htype' (hbase'.trans h.stream) heq.symm)
    intro e he o ho
    rcases List.mem_append.mp (hpackage.mem_iff.mpr he) with hd | hrest
    · have := hc.delivered e hd
      simpa [arrived, ho] using this
    · exact planHistory_same hhist e he o (hc.kept e hrest ▸ ho)

/-! ### A package of two datasets -/

def packageInstant (n : Nat) : Metadata := ⟨⟨1, 1⟩, ⟨n, n⟩, 100 * n⟩

def packageSource : State where
  objects := [.ofRow (.dataset ["tank"]) .filesystem 7 1 (by decide),
    .ofRow (.dataset ["tank", "a"]) .filesystem 8 2 (by decide),
    .ofRow (.snapshot ["tank"] (packageInstant 1).name) .snapshot 11 10 (by decide),
    .ofRow (.snapshot ["tank", "a"] (packageInstant 1).name) .snapshot 12 10 (by decide),
    .ofRow (.snapshot ["tank"] (packageInstant 2).name) .snapshot 21 20 (by decide),
    .ofRow (.snapshot ["tank", "a"] (packageInstant 2).name) .snapshot 22 20 (by decide)]
  properties := authorityRows ["tank"] ⟨9, 9⟩ ⟨1, 1⟩ ++ (packageInstant 1).rows ["tank"] ++
    (packageInstant 1).rows ["tank", "a"] ++ (packageInstant 2).rows ["tank"] ++
    (packageInstant 2).rows ["tank", "a"] ++
    [⟨.dataset ["tank"], .target ⟨"local:backup/t"⟩, .binding ⟨5, ["backup", "t"], 3, []⟩, .sourceLocal⟩]
  distinct := by decide

def packageReplica : State where
  objects := [.ofRow (.dataset ["backup", "t"]) .filesystem 3 3 (by decide),
    .ofRow (.dataset ["backup", "t", "a"]) .filesystem 4 4 (by decide),
    .ofRow (.snapshot ["backup", "t"] (packageInstant 1).name) .snapshot 11 30 (by decide),
    .ofRow (.snapshot ["backup", "t", "a"] (packageInstant 1).name) .snapshot 12 31 (by decide)]
  properties := []
  distinct := by decide

def packageReplicaCut : State :=
  packageReplica.insert (.ofRow (.snapshot ["backup", "t"] (packageInstant 2).name) .snapshot 21 40 (by decide))
    (by decide)

/-- `tank/a` was received on its own before. -/
def packageReplicaAhead : State :=
  packageReplica.insert (.ofRow (.snapshot ["backup", "t", "a"] (packageInstant 2).name) .snapshot 22 41 (by decide))
    (by decide)

def packageReplicaFull : State :=
  packageReplicaAhead.insert (.ofRow (.snapshot ["backup", "t"] (packageInstant 2).name) .snapshot 21 40 (by decide))
    (by decide)

def packageView (destination : State) : View where
  stream := []
  inventory := [⟨["tank"], .filesystem, "-"⟩, ⟨["tank", "a"], .filesystem, "-"⟩,
    ⟨["backup", "t"], .filesystem, "-"⟩, ⟨["backup", "t", "a"], .filesystem, "-"⟩]
  destinationInventory := none
  source := packageSource
  destination := destination
  destinationExists := true
  destinationIdentity := some ⟨["backup", "t"], .filesystem, 3, 5⟩
  rootDestinationExists := true
  rootDestinationIdentity := some ⟨["backup", "t"], .filesystem, 3, 5⟩
  bindingIdentity := none

def packageRequest : Request where
  source := ["tank"]
  destinationRoot := ["backup", "t"]
  snapshot := none
  policy := { Effective.plain (.windows 1 1) [["backup", "t"]]
    [⟨"enabled", "on", ["tank"]⟩] with send := ⟨false, false, false, false, false, true⟩ }
  members := []
  transport := .localHost
  remoteName := ""
  canonicalTarget := ""

def packageEndpoint (d : Dataset) (guid : Nat) : Expected :=
  ⟨.snapshot ("tank" :: d) (packageInstant 2).name, .snapshot ("backup" :: "t" :: d) (packageInstant 2).name, guid,
    some (packageInstant 2)⟩

theorem packageView_continued {plan : Plan} {delivered rest : List Expected} {before destination : State}
    (hplan : plan.snapshot = .snapshot ["tank"] (packageInstant 2).name)
    (hdest : plan.destination = ["backup", "t"])
    (hnewest : ∃ latest, latestAt destination ["backup", "t"] = some latest ∧ latest.guid = 21)
    (hd : ∀ e ∈ delivered, arrived destination e = true)
    (hk : ∀ e ∈ rest, destination.object e.destination = before.object e.destination) :
    Continued packageRequest (packageView before) plan
      (.ofRow (.snapshot ["tank"] (packageInstant 2).name) .snapshot 21 20 (by decide)) delivered rest none
      (packageView destination) where
  endpoint_eq := by rw [hplan]; rfl
  objects := List.Subset.refl _
  datasets := rfl
  rows := rfl
  received := rfl
  pinned := by simp
  guids := by
    change ∀ x ∈ packageSource.objects, ∀ y ∈ packageSource.objects, _
    decide
  txgs := by
    change ∀ x ∈ packageSource.objects, _
    decide
  exist := rfl
  newest := by rw [hdest]; exact hnewest
  delivered := hd
  kept := hk
  unsent := by
    intro o ho ht hb hlt
    have : ∀ o ∈ packageSource.objects, ¬ 20 < o.createTXG := by decide
    exact absurd hlt (this o ho)

/-- The root has the endpoint and `tank/a` does not: the replica's newest snapshot is the endpoint
itself, and planning finds no base. -/
theorem package_strands_child : ∃ plan, build packageRequest (packageView packageReplica) ⟨9, 9⟩ = .ok plan ∧
    plan.send.recursive = true ∧
    ([packageEndpoint [] 21] ++ [packageEndpoint ["a"] 22]).Perm plan.endpoints ∧
    Continued packageRequest (packageView packageReplica) plan
      (.ofRow (.snapshot ["tank"] (packageInstant 2).name) .snapshot 21 20 (by decide))
      [packageEndpoint [] 21] [packageEndpoint ["a"] 22] none (packageView packageReplicaCut) ∧
    build packageRequest (packageView packageReplicaCut) ⟨9, 9⟩ = .error noCommonBase := by
  obtain ⟨plan, hplan⟩ : ∃ plan, build packageRequest (packageView packageReplica) ⟨9, 9⟩ = .ok plan := ⟨_, rfl⟩
  refine ⟨plan, hplan, ?_, ?_, packageView_continued ?_ ?_ ⟨_, rfl, rfl⟩ (by decide) (by decide), by decide⟩
  all_goals cases hplan
  · rfl
  · exact .refl _
  · rfl
  · rfl

theorem package_reaches_all : arrived packageReplicaAhead (packageEndpoint ["a"] 22) = true ∧
    continues packageRequest (packageView packageReplicaFull) ⟨9, 9⟩ := by
  obtain ⟨plan, hplan⟩ : ∃ plan, build packageRequest (packageView packageReplicaAhead) ⟨9, 9⟩ = .ok plan := ⟨_, rfl⟩
  obtain ⟨sel, hsel⟩ : ∃ sel, select packageRequest (packageView packageReplicaFull) ⟨9, 9⟩ = .ok sel := ⟨_, rfl⟩
  have hfacts : plan.send.recursive = true ∧
      ([packageEndpoint [] 21] ++ [packageEndpoint ["a"] 22]).Perm plan.endpoints ∧
      plan.snapshot = .snapshot ["tank"] (packageInstant 2).name ∧ plan.destination = ["backup", "t"] := by
    cases hplan
    exact ⟨rfl, .refl _, rfl, rfl⟩
  obtain ⟨hr, hp, hn, hd⟩ := hfacts
  exact ⟨by decide, (package_continues_iff hplan hr hp
    (packageView_continued hn hd ⟨_, rfl, rfl⟩ (by decide) (by decide)) hsel).mpr (by decide)⟩

end Boomerangz.Transfer
