import Boomerangz.Lifecycle.Accounted
import Boomerangz.Lifecycle.Authority

/-! # Reconciling and retiring inactive roots

`reconcileInactive` writes or clears a root's marker; `retire` cleans a root whose grace period is over.
-/

namespace Boomerangz.Lifecycle

open Check Zfs

variable {installation : ID} {d : Dataset} {s : State}

/-! ## Operations -/

inductive Fault where
  | before (e : Error)
  | changed
  | after (e : Error)
deriving DecidableEq, Repr

def InactivePlan.command (plan : InactivePlan) (d : Dataset) : Option Command :=
  match plan.action, plan.marker with
  | some .setMarker, some m => some (.setProperty (.dataset d) .inactive (.inactive m))
  | some .clearMarker, _ => some (.inheritProperty (.dataset d) .inactive)
  | _, _ => none

def inspectInactive (pool : State) (installation : ID) (d : Dataset) (active : Bool) (now : Time)
    (grace : Int) (offset : Int := 0) : Except Error InactivePlan := do
  let s ← pool.inspect d false
  inactivePlan s d installation active now grace offset

/-- The end of `ReconcileInactive`, on the pool that its write left. -/
def verifyInactive (pool : State) (installation : ID) (d : Dataset) (active : Bool) (now : Time) (grace offset : Int)
    (plan : InactivePlan) : Option Fault → Except Error InactivePlan
  | some (.after e) => .error e
  | _ =>
    match inspectInactive pool installation d active now grace offset with
    | .ok ⟨_, _, _, none, _, _, _⟩ => .ok plan
    | _ => .error (.plain "inactive marker transition could not be verified")

/-- `ReconcileInactive` with `apply`: its result, and the pool it leaves. -/
def reconcileInactive (pool : State) (installation : ID) (d : Dataset) (active : Bool) (now : Time)
    (grace : Int) (fault : Option Fault) (offset : Int := 0) : Except Error InactivePlan × State :=
  match inspectInactive pool installation d active now grace offset with
  | .error e => (.error e, pool)
  | .ok plan =>
    match plan.command d, fault with
    | _, some (.before e) => (.error e, pool)
    | none, _ => (.ok plan, pool)
    | some _, some .changed => (.error .stateChanged, pool)
    | some c, fault =>
      match c.run pool with
      | .error e => (.error e, pool)
      | .ok pool' => (verifyInactive pool' installation d active now grace offset plan fault, pool')

structure RetirementPlan where
  inactive : InactivePlan
  eligible : Bool
  blockers : List Error
deriving DecidableEq, Repr

def retireEligible (pool : State) (installation : ID) (d : Dataset) (recursive : Bool) (now : Time) (grace : Int)
    (offset : Int := 0) : Except Error (InactivePlan × Bool) := do
  let s ← pool.inspect d recursive
  let active ← locallyActive (activationProperties pool) d
  let plan ← inactivePlan s d installation active now grace offset
  return (plan, !active && plan.action.isNone && plan.automatic && plan.due)

/-- `Retire`. `fault` fails its inspections; `cut` stops the clean after that many of its actions. -/
def retireIn [Digests] (pool : State) (installation : ID) (d : Dataset) (recursive : Bool) (now : Time) (grace : Int)
    (apply : Bool) (safety : CleanSafety) (fault : Option Error) (cut : Option Nat) (offset : Int := 0) :
    Except Error RetirementPlan × State :=
  match fault, retireEligible pool installation d recursive now grace offset with
  | some e, _ => (.error e, pool)
  | none, .error e => (.error e, pool)
  | none, .ok (plan, false) => (.ok ⟨plan, false, []⟩, pool)
  | none, .ok (plan, true) =>
    match cleanPlan pool installation d ⟨recursive, true⟩ safety (some ⟨now, grace, offset⟩) with
    | .error e => (.error e, pool)
    | .ok c =>
      if !apply then (.ok ⟨plan, true, c.blockers⟩, pool)
      else if !c.blockers.isEmpty then (.error (.plain "clean blocked"), pool)
      else match runUntil pool (c.actions.map CleanAction.command) cut with
        | (pool', some e) => (.error e, pool')
        | (pool', none) => (.ok ⟨plan, true, []⟩, pool')

def retire [Digests] (pool : State) (installation : ID) (d : Dataset) (now : Time) (grace : Int) (apply : Bool)
    (safety : CleanSafety) (fault : Option Error) (cut : Option Nat) : Except Error RetirementPlan × State :=
  retireIn pool installation d true now grace apply safety fault cut

/-! ## Markers -/

def markerSince (s : State) (installation : ID) (d : Dataset) : Option Time :=
  match decodeInactiveMarker s d, rootAuthority s d installation, exactDatasetGUID s d with
  | .ok (some m), .ok lineage, .ok guid => (validateInactiveMarker m guid lineage installation).toOption
  | _, _, _ => none

theorem markerSince_eq_some {since : Time} :
    markerSince s installation d = some since ↔ ∃ m lineage guid, decodeInactiveMarker s d = .ok (some m) ∧
      rootAuthority s d installation = .ok lineage ∧ exactDatasetGUID s d = .ok guid ∧
      validateInactiveMarker m guid lineage installation = .ok since := by
  have hopt : ∀ x : Except Error Time, x.toOption = some since ↔ x = .ok since := by
    intro x
    cases x <;> simp [Except.toOption]
  constructor
  · intro h
    unfold markerSince at h
    split at h
    · rename_i m lineage guid hm hl hg
      exact ⟨m, lineage, guid, hm, hl, hg, (hopt _).mp h⟩
    · cases h
  · rintro ⟨m, lineage, guid, hm, hl, hg, hv⟩
    simp only [markerSince, hm, hl, hg, hv]
    rfl

def isMarking (d : Dataset) (r : Property) : Bool :=
  isAuthority d r || (r.dataset == .dataset d && r.name == .inactive)

section Congr

variable {s s' : State} {d : Dataset} {installation : ID}

theorem decodeInactiveMarker_congr {q : Property → Bool} (h : s'.properties.filter q = s.properties.filter q)
    (hq : ∀ r, (r.dataset == .dataset d && r.name == .inactive) = true → q r = true) :
    decodeInactiveMarker s' d = decodeInactiveMarker s d := by
  have hrows : s'.localRows d .inactive = s.localRows d .inactive :=
    filter_congr h fun r hr => hq r ((Bool.and_eq_true _ _).mp hr).1
  simp only [decodeInactiveMarker, hrows]

theorem isMarking_of_inactive {r : Property} (h : (r.dataset == .dataset d && r.name == .inactive) = true) :
    isMarking d r = true := by
  simp [isMarking, h]

variable (h : s'.properties.filter (isMarking d) = s.properties.filter (isMarking d))
  (hreceived : s'.received.filter (·.1 == .dataset d) = s.received.filter (·.1 == .dataset d))

include h hreceived

theorem markerAuthority_congr :
    rootAuthority s' d installation = rootAuthority s d installation := by
  refine rootAuthority_congr installation (filter_congr h ?_) hreceived
  intro r hr
  simp [isMarking, hr]

variable (hobject : s'.object (.dataset d) = s.object (.dataset d))

include hobject

theorem markerSince_congr :
    markerSince s' installation d = markerSince s installation d := by
  simp only [markerSince, exactDatasetGUID, decodeInactiveMarker_congr h fun _ => isMarking_of_inactive,
    markerAuthority_congr h hreceived, hobject]

theorem inactivePlan_congr {active : Bool} {now : Time} {grace offset : Int} :
    inactivePlan s' d installation active now grace offset = inactivePlan s d installation active now grace offset := by
  simp only [inactivePlan, exactDatasetGUID, decodeInactiveMarker_congr h fun _ => isMarking_of_inactive,
    markerAuthority_congr h hreceived, hobject]

end Congr

section Scope

variable {s : State} {d : Dataset} {p : Dataset → Bool}

theorem restrict_marking (hp : p d = true) :
    (s.restrict p).properties.filter (isMarking d) = s.properties.filter (isMarking d) := by
  refine State.filter_restrict ?_
  intro r hr
  have hd : r.dataset = .dataset d := by
    simp only [isMarking, isAuthority, Bool.or_eq_true, Bool.and_eq_true, beq_iff_eq] at hr
    rcases hr with hr | hr
    · exact hr.1
    · exact hr.1
  rw [hd]
  exact hp

theorem restrict_received (hp : p d = true) :
    (s.restrict p).received.filter (·.1 == .dataset d) = s.received.filter (·.1 == .dataset d) := by
  refine State.filter_restrict ?_
  intro r hr
  rw [beq_iff_eq.mp hr]
  exact hp

theorem markerSince_restrict (installation : ID) (hp : p d = true) :
    markerSince (s.restrict p) installation d = markerSince s installation d :=
  markerSince_congr (restrict_marking hp) (restrict_received hp) (State.restrict_object hp)

theorem inactivePlan_restrict {installation : ID} {active : Bool} {now : Time} {grace offset : Int}
    (hp : p d = true) : inactivePlan (s.restrict p) d installation active now grace offset =
      inactivePlan s d installation active now grace offset :=
  inactivePlan_congr (restrict_marking hp) (restrict_received hp) (State.restrict_object hp)

theorem markerSince_run {s' : State} {c : Command} (installation : ID) (h : c.run s = .ok s')
    (hd : c.base ≠ d) : markerSince s' installation d = markerSince s installation d := by
  have hself : ∀ t : State, markerSince (t.restrict (· == d)) installation d = markerSince t installation d :=
    fun t => markerSince_restrict installation (by simp)
  rw [← hself s', ← hself s, run_restrict h (by simpa using hd)]

end Scope

theorem rootAuthority_rows {root : Dataset} {installation lineage : ID}
    (h : rootAuthority s root installation = .ok lineage) {k : Key}
    (hk : k = .owner ∨ k = .lineage ∨ k = .version) :
    ∃ r ∈ s.properties, r.dataset = .dataset root ∧ r.name = k := by
  simp only [rootAuthority, ok_iff] at h
  obtain ⟨-, -, h⟩ := h
  have hvalue : ∀ {k : Key} {v : Value}, valueOf (s.properties.filter fun p =>
      p.dataset == .dataset root && (p.name == .owner || p.name == .lineage)) k = some v →
      ∃ r ∈ s.properties, r.dataset = .dataset root ∧ r.name = k := by
    intro k v hv
    obtain ⟨r, hr, -⟩ := Option.map_eq_some_iff.mp hv
    have hm := List.mem_of_find?_eq_some hr
    simp only [List.mem_filter, Bool.and_eq_true, beq_iff_eq] at hm
    exact ⟨r, hm.1, hm.2.1, by simpa using List.find?_some hr⟩
  split at h
  · rename_i owner l howner hlineage
    rcases hk with rfl | rfl | rfl
    · exact hvalue howner
    · exact hvalue hlineage
    · simp only [ok_iff, currentState] at h
      obtain ⟨-, -, ⟨version, hversion, hle, -⟩, -⟩ := h
      -- A root without a version row is in the first format, which is too old.
      by_contra hnone
      unfold stateVersion at hversion
      rw [State.localRows_eq_nil fun r hr hd hk => hnone ⟨r, hr, hd, hk⟩] at hversion
      cases hversion
      simp [currentVersion] at hle
  · simp at h

theorem markerSince_of_thinned {s s' : State} {since : Time}
    (h : Thinned s' s) (hm : markerSince s' installation d = some since) :
    markerSince s installation d = some since := by
  obtain ⟨keep, hkeep⟩ := h.properties
  rw [← hm]
  refine (markerSince_congr ?_ (h.received d) (h.dataset d)).symm
  unfold markerSince at hm
  split at hm
  · rename_i m lineage guid hdecode hauthority hguid
    have hkept : ∀ k, (∃ r ∈ s'.properties, r.dataset = .dataset d ∧ r.name = k) →
        keep (.dataset d) k = true := by
      rintro k ⟨r, hr, hrd, rfl⟩
      rw [hkeep, List.mem_filter, hrd] at hr
      exact hr.2
    have hmarker : ∃ r ∈ s'.properties, r.dataset = .dataset d ∧ r.name = .inactive := by
      by_contra hnone
      unfold decodeInactiveMarker at hdecode
      rw [State.localRows_eq_nil fun r hr hd hk => hnone ⟨r, hr, hd, hk⟩] at hdecode
      cases hdecode
    rw [hkeep]
    refine State.filter_restrict ?_
    intro r hr
    simp only [isMarking, isAuthority, Bool.or_eq_true, Bool.and_eq_true, beq_iff_eq] at hr
    rcases hr with ⟨hd, (hk | hk) | hk⟩ | ⟨hd, hk⟩ <;> rw [hd, hk]
    · exact hkept _ (rootAuthority_rows hauthority (.inl rfl))
    · exact hkept _ (rootAuthority_rows hauthority (.inr (.inl rfl)))
    · exact hkept _ (rootAuthority_rows hauthority (.inr (.inr rfl)))
    · exact hkept _ hmarker
  · cases hm

/-! ## Plans -/

def readable (now : Time) (offset : Int := 0) : Bool := now != 0 && yearFits (now + 1000000000 * offset)

theorem inactivePlan_marked {since now : Time} {grace offset : Int}
    (hm : markerSince s installation d = some since) (hnow : readable now offset = true) (hg : 0 < grace) :
    ∃ m, inactivePlan s d installation false now grace offset =
      .ok ⟨d, false, some m, none, some (since + grace.toNat), since + grace.toNat ≤ now, true⟩ := by
  obtain ⟨m, lineage, guid, hdecode, hauthority, hguid, hsince⟩ := markerSince_eq_some.mp hm
  have hvalid := rootAuthority_valid hauthority
  refine ⟨m, ?_⟩
  simp only [readable, Bool.and_eq_true] at hnow
  simp [inactivePlan, require, hvalid, hnow.1, hnow.2, hdecode, hauthority, hguid, hsince, hg, hg.le, bind,
    Except.bind, pure, Except.pure]

theorem inactivePlan_ok (active : Bool) {since now : Time} {grace offset : Int}
    (hm : markerSince s installation d = some since) (hnow : readable now offset = true) (hg : 0 ≤ grace) :
    ∃ plan, inactivePlan s d installation active now grace offset = .ok plan := by
  obtain ⟨m, lineage, guid, hdecode, hauthority, hguid, hsince⟩ := markerSince_eq_some.mp hm
  have hvalid := rootAuthority_valid hauthority
  simp only [readable, Bool.and_eq_true] at hnow
  cases active <;> by_cases hpos : 0 < grace <;>
    simp [inactivePlan, require, hvalid, hnow.1, hnow.2, hdecode, hauthority, hguid, hsince, hg, hpos, bind, Except.bind,
      pure, Except.pure]

theorem inactivePlan_deadline {now : Time} {grace : Int}
    {plan : InactivePlan} (h : inactivePlan s d installation false now grace = .ok plan) (hg : 0 < grace) :
    plan.deadline.isSome = true := by
  simp only [inactivePlan, ok_iff] at h
  obtain ⟨-, -, marker, -, h⟩ := h
  cases marker with
  | none =>
    simp only [Bool.false_eq_true, if_false, ok_iff] at h
    obtain ⟨_, -, _, -, rfl⟩ := h
    simp [hg]
  | some m =>
    simp only [Bool.false_eq_true, if_false, hg, if_true, ok_iff] at h
    obtain ⟨_, -, _, -, _, -, rfl⟩ := h
    rfl

theorem hasObject_of_marker {since : Time}
    (hm : markerSince s installation d = some since) : s.hasObject (.dataset d) = true := by
  obtain ⟨_, _, guid, -, -, hguid, -⟩ := markerSince_eq_some.mp hm
  cases ho : s.object (.dataset d) with
  | none => simp [exactDatasetGUID, ho] at hguid
  | some o => exact State.hasObject_of_object ho

section Reconcile

variable {pool : State} {installation : ID} {d : Dataset} {now : Time} {grace offset : Int} {x : Except Error InactivePlan}

theorem inspectInactive_eq_ok {active : Bool} {plan : InactivePlan} :
    inspectInactive pool installation d active now grace offset = .ok plan ↔
      pool.hasObject (.dataset d) = true ∧ inactivePlan pool d installation active now grace offset = .ok plan := by
  simp only [inspectInactive, bind_eq_ok, State.inspect_eq_ok]
  constructor
  · rintro ⟨s, ⟨hd, rfl⟩, h⟩
    rw [inactivePlan_restrict (by simp)] at h
    exact ⟨hd, h⟩
  · rintro ⟨hd, h⟩
    exact ⟨_, ⟨hd, rfl⟩, (inactivePlan_restrict (by simp)).trans h⟩

theorem verifyInactive_eq_ok {active : Bool} {fault : Option Fault} {plan plan' : InactivePlan} :
    verifyInactive pool installation d active now grace offset plan fault = .ok plan' ↔ plan = plan' ∧
      (∀ e, fault ≠ some (.after e)) ∧
      ∃ p, inspectInactive pool installation d active now grace offset = .ok p ∧ p.action = none := by
  unfold verifyInactive
  split
  · simp
  · rename_i hfault
    split
    · rename_i hinspect
      simp only [Except.ok.injEq, hinspect, exists_eq_left', and_true, iff_self_and]
      exact fun _ => hfault
    · rename_i hnone
      simp only [reduceCtorEq, false_iff]
      rintro ⟨-, -, p, hp, haction⟩
      obtain ⟨_, _, _, _, _, _, _⟩ := p
      cases haction
      exact hnone _ _ _ _ _ _ hp

theorem reconcileInactive_pool {active : Bool} {fault : Option Fault}
    {pool' : State} (h : reconcileInactive pool installation d active now grace fault offset = (x, pool')) :
    pool' = pool ∨ ∃ plan c, inspectInactive pool installation d active now grace offset = .ok plan ∧
      plan.command d = some c ∧ c.run pool = .ok pool' := by
  unfold reconcileInactive at h
  split at h
  · cases h
    exact .inl rfl
  · rename_i plan hplan
    split at h
    · cases h
      exact .inl rfl
    · cases h
      exact .inl rfl
    · cases h
      exact .inl rfl
    · rename_i c hc _ _
      split at h
      · cases h
        exact .inl rfl
      · rename_i hrun
        cases h
        exact .inr ⟨plan, c, hplan, hc, hrun⟩

theorem InactivePlan.command_base {plan : InactivePlan} {c : Command} (h : plan.command d = some c) :
    c.base = d := by
  unfold InactivePlan.command at h
  split at h
  · cases h
    rfl
  · cases h
    rfl
  · cases h

theorem InactivePlan.command_runs {plan : InactivePlan} {c : Command} (h : plan.command d = some c)
    (hd : pool.hasObject (.dataset d) = true) : ∃ pool', c.run pool = .ok pool' := by
  unfold InactivePlan.command at h
  split at h
  · cases h
    exact ⟨_, State.setProperty_eq_ok.mpr ⟨hd, rfl⟩⟩
  · cases h
    exact ⟨_, State.inheritProperty_eq_ok.mpr ⟨hd, rfl⟩⟩
  · cases h

theorem reconcileInactive_ne {active : Bool} {fault : Option Fault}
    {pool' : State} {d' : Dataset} (h : reconcileInactive pool installation d active now grace fault = (x, pool'))
    (hd : d ≠ d') : markerSince pool' installation d' = markerSince pool installation d' := by
  rcases reconcileInactive_pool h with rfl | ⟨plan, c, -, hc, hrun⟩
  · rfl
  · exact markerSince_run installation hrun (by rw [InactivePlan.command_base hc]; exact hd)

theorem reconcileInactive_active {fault : Option Fault} {pool' : State}
    {since : Time} (h : reconcileInactive pool installation d true now grace fault = (x, pool'))
    (hm : markerSince pool' installation d = some since) : markerSince pool installation d = some since := by
  rcases reconcileInactive_pool h with rfl | ⟨plan, c, hplan, hc, hrun⟩
  · exact hm
  · have hplan := (inspectInactive_eq_ok.mp hplan).2
    have hclear : c = .inheritProperty (.dataset d) .inactive := by
      simp only [inactivePlan, ok_iff] at hplan
      obtain ⟨-, -, marker, -, hplan⟩ := hplan
      cases marker with
      | none =>
        simp only [if_true, pure_eq_ok] at hplan
        subst hplan
        cases hc
      | some m =>
        simp only [if_true, ok_iff] at hplan
        obtain ⟨_, -, _, -, _, -, rfl⟩ := hplan
        cases hc
        rfl
    subst hclear
    exact markerSince_of_thinned (run_thinned rfl hrun) hm

theorem reconcileInactive_deadline {pool' : State} {since : Time}
    (h : reconcileInactive pool installation d false now grace none = (x, pool'))
    (hm : markerSince pool' installation d = some since) (hnow : readable now = true) (hg : 0 < grace) :
    ∃ plan, x = .ok plan ∧ plan.deadline.isSome = true := by
  unfold reconcileInactive at h
  split at h
  · -- The plan fails only for a root without a valid marker.
    rename_i e he
    cases h
    obtain ⟨m, hplan⟩ := inactivePlan_marked hm hnow hg
    rw [inspectInactive_eq_ok.mpr ⟨hasObject_of_marker hm, hplan⟩] at he
    cases he
  · rename_i plan hplan
    have hdeadline := inactivePlan_deadline (inspectInactive_eq_ok.mp hplan).2 hg
    split at h
    · rename_i hf
      cases hf
    · cases h
      exact ⟨plan, rfl, hdeadline⟩
    · rename_i hf
      cases hf
    · rename_i c hc _ _
      obtain ⟨_, hrun⟩ := InactivePlan.command_runs hc (inspectInactive_eq_ok.mp hplan).1
      rw [hrun] at h
      cases h
      obtain ⟨m, hmarked⟩ := inactivePlan_marked hm hnow hg
      exact ⟨plan, verifyInactive_eq_ok.mpr
        ⟨rfl, nofun, _, inspectInactive_eq_ok.mpr ⟨hasObject_of_marker hm, hmarked⟩, rfl⟩, hdeadline⟩

end Reconcile

section Retire

variable [Digests] {pool pool' : State} {installation : ID} {d : Dataset} {now : Time} {grace : Int} {apply : Bool}
  {safety : CleanSafety} {fault : Option Error} {cut : Option Nat}

theorem cleanPlan_removes {options : CleanOptions} {retirement : Option Retirement} {c : CleanPlan}
    (h : cleanPlan pool installation d options safety retirement = .ok c) :
    ∀ x ∈ c.actions.map CleanAction.command, x.removes = true := by
  simp only [cleanPlan, ok_iff] at h
  obtain ⟨-, s, hs, rfl⟩ := h
  obtain ⟨-, rfl⟩ := State.inspect_eq_ok.mp hs
  intro x hx
  obtain ⟨a, ha, rfl⟩ := List.mem_map.mp hx
  rw [sortCleanActions, List.mem_insertionSort] at ha
  exact (cleanActions_within ha).1

theorem retire_thinned {x : Except Error RetirementPlan}
    (h : retire pool installation d now grace apply safety fault cut = (x, pool')) : Thinned pool' pool := by
  unfold retire retireIn at h
  split at h
  · cases h
    exact .refl _
  · cases h
    exact .refl _
  · cases h
    exact .refl _
  · split at h
    · cases h
      exact .refl _
    · rename_i c hc
      split at h
      · cases h
        exact .refl _
      · split at h
        · cases h
          exact .refl _
        · have ht : Thinned (runUntil pool (c.actions.map CleanAction.command) cut).1 pool :=
            runUntil_thinned (cleanPlan_removes hc)
          split at h
          · rename_i p e hrun
            cases h
            rwa [hrun] at ht
          · rename_i p hrun
            cases h
            rwa [hrun] at ht

theorem retire_eligible {plan : RetirementPlan} {since : Time}
    (h : retire pool installation d now grace apply safety fault cut = (.ok plan, pool'))
    (hm : markerSince pool installation d = some since) (hnow : readable now = true) (hg : 0 < grace)
    (hdue : since + grace.toNat ≤ now) (hoff : locallyActive (activationProperties pool) d ≠ .ok true) :
    plan.eligible = true := by
  have hnot : ∀ p, retireEligible pool installation d true now grace ≠ .ok (p, false) := by
    intro p hp
    simp only [retireEligible, ok_iff] at hp
    obtain ⟨s, hs, active, hactive, plan, hplan, heq⟩ := hp
    obtain ⟨-, rfl⟩ := State.inspect_eq_ok.mp hs
    cases active with
    | true => exact hoff hactive
    | false =>
      rw [inactivePlan_restrict (by simp [inside_self])] at hplan
      obtain ⟨m, hmarked⟩ := inactivePlan_marked hm hnow hg
      rw [hmarked] at hplan
      cases hplan
      simp [hdue] at heq
  unfold retire retireIn at h
  split at h
  · cases h
  · cases h
  · rename_i hp
    exact absurd hp (hnot _)
  · split at h
    · cases h
    · split at h
      · cases h
        rfl
      · split at h
        · cases h
        · split at h
          · cases h
          · cases h
            rfl

end Retire

end Boomerangz.Lifecycle
