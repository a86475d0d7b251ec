import Boomerangz.Lib.Run
import Boomerangz.Lifecycle.Executable
import Boomerangz.Lifecycle.Foreign

/-! # The grace period

`ReconcileInactive` and `Retire` in any order, among whatever else happens to the pool.
-/

namespace Boomerangz.Lifecycle

open Check Transition Zfs

/-! ## Runs -/

inductive InactiveCall where
  | reconcile (active : Bool) (now : Time) (grace : Int) (fault : Option Fault) (offset : Int)
  | retire (recursive : Bool) (now : Time) (grace : Int) (apply : Bool) (safety : CleanSafety) (fault : Option Error)
      (cut : Option Nat) (offset : Int)
  | elsewhere (pool : State)

def inactiveCalls [Digests] (installation : ID) (d : Dataset) (start : State) : System State InactiveCall where
  init s := s = start
  step s
    | .reconcile active now grace fault offset =>
      some (reconcileInactive s installation d active now grace fault offset).2
    | .retire recursive now grace apply safety fault cut offset =>
      some (retireIn s installation d recursive now grace apply safety fault cut offset).2
    | .elsewhere pool => some pool

structure Elsewhere (d : Dataset) (s s' : State) : Prop where
  listed : Listed s'
  marker : markerRows s' d .inactive = markerRows s d .inactive

/-- The commands are not cut off after the marker is removed and before the owner is. -/
def Uncut (d : Dataset) (cs : List Command) (cut : Option Nat) : Prop :=
  ∀ k, cut = some k → .inheritProperty (.dataset d) .inactive ∈ cs.take k →
    .inheritProperty (.dataset d) .owner ∈ cs.take k

def InactiveCall.quiet [Digests] (installation : ID) (d : Dataset) (s : State) : InactiveCall → Prop
  | reconcile active _ _ _ _ => active = false
  | retire recursive now grace _ safety _ cut offset =>
    Uncut d (retireCommands s installation d recursive now grace safety offset) cut
  | elsewhere pool => Elsewhere d s pool

def IsOwned (installation : ID) (d : Dataset) (s : State) : Prop :=
  ∃ lineage, rootAuthority s d installation = .ok lineage

def StaysInactive [Digests] (installation : ID) (d : Dataset) (s : State) (call : InactiveCall) : Prop :=
  IsOwned installation d s ∧ call.quiet installation d s

structure GraceOver (pool : State) (installation : ID) (d : Dataset) (now : Time) (grace : Int) : Prop where
  inactive : locallyActive (activationProperties pool) d = .ok false
  positive : 0 < grace
  elapsed : ∃ since, markerSince pool installation d = some since ∧ since + grace.toNat ≤ now

/-! ## Markers -/

section Marker

variable {s s' : State} {installation : ID} {d : Dataset} {now : Time} {grace offset : Int}

theorem decodeInactiveMarker_rows (h : markerRows s' d .inactive = markerRows s d .inactive) :
    decodeInactiveMarker s' d = decodeInactiveMarker s d :=
  decodeInactiveMarker_congr h fun _ hr => hr

theorem decodeInactiveMarker_eq_none (h : markerRows s d .inactive = []) : decodeInactiveMarker s d = .ok none := by
  rw [markerRows, List.filter_eq_nil_iff] at h
  have hrows : s.localRows d .inactive = [] := State.localRows_eq_nil fun r hr hd hk => h r hr (by simp [hd, hk])
  simp only [decodeInactiveMarker, hrows]

theorem inactivePlan_some {active : Bool} {plan : InactivePlan} {m : InactiveMarker}
    (hm : decodeInactiveMarker s d = .ok (some m)) (h : inactivePlan s d installation active now grace offset = .ok plan) :
    ∃ since, markerSince s installation d = some since ∧ plan.action = (if active then some .clearMarker else none) ∧
      plan.automatic = decide (0 < grace) ∧
      plan.due = (!active && decide (0 < grace) && decide (since + grace.toNat ≤ now)) := by
  simp only [inactivePlan, hm, ok_iff] at h
  obtain ⟨-, -, x, hx, h⟩ := h
  cases hx
  simp only [bind_eq_ok] at h
  obtain ⟨lineage, hl, guid, hg, since, hv, h⟩ := h
  refine ⟨since, markerSince_eq_some.mpr ⟨m, lineage, guid, hm, hl, hg, hv⟩, ?_⟩
  cases active with
  | true =>
    simp only [if_true, pure_eq_ok] at h
    subst h
    simp
  | false =>
    by_cases hgrace : 0 < grace
    · simp only [Bool.false_eq_true, if_false, hgrace, if_true, pure_eq_ok] at h
      subst h
      simp [hgrace]
    · simp only [Bool.false_eq_true, if_false, hgrace, pure_eq_ok] at h
      subst h
      simp [hgrace]

theorem inactivePlan_none {plan : InactivePlan} (hm : decodeInactiveMarker s d = .ok none)
    (h : inactivePlan s d installation true now grace offset = .ok plan) : plan.action = none := by
  simp only [inactivePlan, hm, ok_iff] at h
  obtain ⟨-, -, x, hx, h⟩ := h
  cases hx
  simp only [if_true, pure_eq_ok] at h
  subst h
  rfl

theorem inactivePlan_due {active : Bool} {plan : InactivePlan}
    (h : inactivePlan s d installation active now grace offset = .ok plan) (hdue : plan.due = true) :
    active = false ∧ 0 < grace ∧ ∃ since, markerSince s installation d = some since ∧ since + grace.toNat ≤ now := by
  have h' := h
  simp only [inactivePlan, ok_iff] at h
  obtain ⟨-, -, marker, hm, h⟩ := h
  cases marker with
  | none =>
    cases active with
    | true =>
      simp only [if_true, pure_eq_ok] at h
      subst h
      cases hdue
    | false =>
      simp only [Bool.false_eq_true, if_false, ok_iff] at h
      obtain ⟨_, -, _, -, rfl⟩ := h
      cases hdue
  | some m =>
    obtain ⟨since, hsince, -, -, heq⟩ := inactivePlan_some hm h'
    rw [heq] at hdue
    simp only [Bool.and_eq_true, Bool.not_eq_true', decide_eq_true_eq] at hdue
    exact ⟨hdue.1.1, hdue.1.2, since, hsince, hdue.2⟩

end Marker

/-! ## Retirements -/

section Retire

variable {pool : State} {installation : ID} {d : Dataset} {recursive : Bool} {now : Time} {grace offset : Int}
  {safety : CleanSafety}

theorem owner_inherited {s : State} {options : CleanOptions} (hs : pool.inspect d recursive = .ok s)
    (howner : markerRows pool d .owner ≠ []) :
    .inherit (.dataset d) .owner ∈ cleanActions s d options safety true := by
  obtain ⟨-, rfl⟩ := State.inspect_eq_ok.mp hs
  obtain ⟨r, hr⟩ := List.exists_mem_of_ne_nil _ howner
  obtain ⟨hmem, hrow⟩ := List.mem_filter.mp hr
  simp only [Bool.and_eq_true, beq_iff_eq] at hrow
  refine List.mem_append_right _ (List.mem_map.mpr ⟨(.dataset d, .owner), mem_inheritKeys_iff.mpr ?_, rfl⟩)
  refine ⟨?_, rfl, fun hdestroyed => ?_, fun _ => ⟨rfl, rfl, rfl⟩⟩
  · rw [storedOn, Bool.or_eq_true, List.any_eq_true]
    refine .inl ⟨r, State.mem_restrict_properties.mpr ⟨hmem, ?_⟩, by simp [hrow]⟩
    simp [hrow.1, Name.base, inside_self]
  · obtain ⟨x, hx, hname⟩ := List.mem_map.mp hdestroyed
    have hsnapshot := (cleanSnapshots_free hx).1
    rw [hname] at hsnapshot
    cases hsnapshot

theorem markerRows_removed {cs : List Command} {k : Key} (h : .inheritProperty (.dataset d) k ∈ cs) :
    markerRows (pool.cleared cs) d k = [] := by
  rw [markerRows, List.filter_eq_nil_iff]
  intro r hr hrow
  obtain ⟨-, hkept⟩ := List.mem_filter.mp hr
  simp only [Bool.and_eq_true, beq_iff_eq] at hrow
  rw [Bool.not_eq_true', ← Bool.not_eq_true, Command.any_drops_iff, not_or, hrow.1, hrow.2] at hkept
  exact hkept.1 h

theorem markerRows_cleared {cs : List Command} {k : Key} (hcs : .inheritProperty (.dataset d) k ∉ cs)
    (hremoves : ∀ c ∈ cs, c.removes = true) : markerRows (pool.cleared cs) d k = markerRows pool d k := by
  simp only [markerRows, State.cleared, List.filter_filter]
  refine List.filter_congr fun r _ => ?_
  rw [Bool.and_eq_left_iff_imp]
  intro hrow
  simp only [Bool.and_eq_true, beq_iff_eq] at hrow
  rw [Bool.not_eq_true', ← Bool.not_eq_true, Command.any_drops_iff, not_or, hrow.1, hrow.2, Bool.not_eq_true]
  exact ⟨hcs, Command.any_erases_dataset hremoves d⟩

variable [Digests]

theorem retirementPlan_unblocked {options : CleanOptions} {r : Retirement} {c : CleanPlan}
    (h : cleanPlan pool installation d options safety (some r) = .ok c) (hblockers : c.blockers = []) :
    ∃ s, pool.inspect d options.recursive = .ok s ∧ Unblocked s d options safety ∧
      retirementBlockers s d installation (activationProperties pool) r = [] ∧
      c.actions = sortCleanActions (cleanActions s d options safety true) := by
  simp only [cleanPlan, ok_iff] at h
  obtain ⟨-, s, hs, rfl⟩ := h
  have hblockers : cleanBlockers s installation d options safety (some r) (activationProperties pool) = [] := hblockers
  obtain ⟨hfree, hmode, -⟩ := cleanBlockers_eq_nil.mp hblockers
  exact ⟨s, hs, hfree, hmode, rfl⟩

theorem graceOver_of_cleanPlan {options : CleanOptions} {c : CleanPlan}
    (h : cleanPlan pool installation d options safety (some ⟨now, grace, offset⟩) = .ok c) (hblockers : c.blockers = []) :
    GraceOver pool installation d now grace := by
  obtain ⟨s, hs, -, hmode, -⟩ := retirementPlan_unblocked h hblockers
  obtain ⟨-, rfl⟩ := State.inspect_eq_ok.mp hs
  simp only [retirementBlockers, List.append_eq_nil_iff] at hmode
  obtain ⟨hactive, hmode⟩ := hmode
  rw [inactivePlan_restrict (by simp [inside_self])] at hmode
  cases hlocal : locallyActive (activationProperties pool) d with
  | error e => simp [hlocal] at hactive
  | ok active =>
    cases active with
    | true => simp [hlocal] at hactive
    | false =>
      cases hplan : inactivePlan pool d installation false now grace offset with
      | error e => simp [hlocal, hplan] at hmode
      | ok plan =>
        have hdue : plan.due = true := by
          simp only [hlocal, hplan] at hmode
          split_ifs at hmode with _ _ hdue
          simpa using hdue
        obtain ⟨-, hgrace, hover⟩ := inactivePlan_due hplan hdue
        exact ⟨hlocal, hgrace, hover⟩

theorem retireCommands_eq (h : retireCommands pool installation d recursive now grace safety offset ≠ []) :
    ∃ c, cleanPlan pool installation d ⟨recursive, true⟩ safety (some ⟨now, grace, offset⟩) = .ok c ∧ c.blockers = [] ∧
      retireCommands pool installation d recursive now grace safety offset = c.actions.map CleanAction.command := by
  unfold retireCommands at h ⊢
  split at h
  · rename_i plan heligible
    cases hc : cleanPlan pool installation d ⟨recursive, true⟩ safety (some ⟨now, grace, offset⟩) with
    | error e => simp [hc] at h
    | ok c =>
      simp only [hc, List.isEmpty_iff] at h ⊢
      by_cases hblockers : c.blockers = []
      · exact ⟨c, rfl, hblockers, by simp [hblockers]⟩
      · simp [hblockers] at h
  · cases h rfl

theorem graceOver_of_commands (h : retireCommands pool installation d recursive now grace safety offset ≠ []) :
    GraceOver pool installation d now grace := by
  obtain ⟨c, hc, hblockers, -⟩ := retireCommands_eq h
  exact graceOver_of_cleanPlan hc hblockers

theorem runUntil_retire (hlisted : Listed pool) {c : CleanPlan} {cut : Option Nat}
    (hplan : cleanPlan pool installation d ⟨recursive, true⟩ safety (some ⟨now, grace, offset⟩) = .ok c)
    (hblockers : c.blockers = []) (hcut : Uncut d (c.actions.map CleanAction.command) cut) :
    markerRows (runUntil pool (c.actions.map CleanAction.command) cut).1 d .inactive = markerRows pool d .inactive ∨
      markerRows (runUntil pool (c.actions.map CleanAction.command) cut).1 d .owner = [] := by
  have hremoves := cleanPlan_removes hplan
  obtain ⟨s, hs, hfree, -, hactions⟩ := retirementPlan_unblocked hplan hblockers
  have hlisteds : Listed s := by
    obtain ⟨-, rfl⟩ := State.inspect_eq_ok.mp hs
    exact hlisted.restrict
  have hrest : Remainder s (scopeProofs s d) (afterProofs s d ⟨recursive, true⟩ safety true) :=
    afterProofs_remainder hfree hlisteds
  obtain ⟨xs, ys, hsplit, hstate, hstuck⟩ := @runUntil_cleared pool _ hremoves cut
  have hxs : ∀ x ∈ xs, x.removes = true := fun x hx => hremoves x (hsplit ▸ List.mem_append_left _ hx)
  rw [hstate]
  by_cases hinactive : .inheritProperty (.dataset d) .inactive ∈ xs
  case neg => exact .inl (markerRows_cleared hinactive hxs)
  right
  by_cases howner : markerRows pool d .owner = []
  · rw [markerRows, List.filter_eq_nil_iff] at howner ⊢
    exact fun r hr => howner r (List.mem_of_mem_filter hr)
  refine markerRows_removed ?_
  obtain ⟨as, bs, hsorted, rfl, rfl⟩ := List.map_eq_append_iff.mp hsplit
  rw [hactions] at hsorted
  cases bs with
  | nil =>
    have howned := (mem_of_split hsorted).mp (owner_inherited hs howner)
    exact List.mem_map.mpr ⟨_, howned.resolve_right List.not_mem_nil, rfl⟩
  | cons b bs =>
    rcases hstuck _ _ rfl with hlength | hready
    · -- cut off here
      have htake := hcut _ hlength
      rw [hsplit, List.take_left] at htake
      exact htake hinactive
    · -- a command fails only before the first property is cleared
      exfalso
      have hmem : ∀ a, a ∈ as ∨ a ∈ b :: bs ↔
          a ∈ (scopeProofs s d).flatMap (proofActions s) ++ afterProofs s d _ safety true :=
        fun a => by rw [← cleanActions_eq hfree, ← mem_of_split hsorted]
      have hrank : b.rank ≤ 2 := by
        cases b with
        | inherit n k =>
          have hb : .inherit n k ∈ afterProofs s d ⟨recursive, true⟩ safety true :=
            mem_of_rank ((hmem _).mp (.inr List.mem_cons_self)) (inherit_rank _ _).le
          have hobject : pool.hasObject n = true := by
            have := (hrest.inherited n k hb).1
            obtain ⟨-, rfl⟩ := State.inspect_eq_ok.mp hs
            rw [State.restrict_hasObject, Bool.and_eq_true] at this
            exact this.1
          simp only [CleanAction.command, Command.ready, State.hasObject_cleared, hobject,
            hrest.not_erased hb fun a ha => (hmem a).mp (.inl ha)] at hready
          cases hready
        | _ => simp [CleanAction.rank]
      obtain ⟨a, ha, hcommand⟩ := List.mem_map.mp hinactive
      have hbefore : a.rank ≤ 2 := by
        rcases CleanAction.before_iff.mp (before_of_split hsorted ha List.mem_cons_self) with hlt | ⟨heq, -⟩
        · exact hlt.le.trans hrank
        · exact heq.le.trans hrank
      cases a with
      | inherit n k => exact absurd hbefore (inherit_rank n k).not_ge
      | _ => cases hcommand

end Retire

/-! ## Calls -/

section Calls

variable {pool pool' : State} {installation : ID} {d : Dataset} {now : Time} {grace offset : Int}

theorem inactivePlan_command {active : Bool} {plan : InactivePlan} {m : InactiveMarker}
    (hm : decodeInactiveMarker pool d = .ok (some m))
    (h : inactivePlan pool d installation active now grace offset = .ok plan) :
    plan.command d = if active then some (.inheritProperty (.dataset d) .inactive) else none := by
  obtain ⟨since, -, haction, -⟩ := inactivePlan_some hm h
  unfold InactivePlan.command
  rw [haction]
  cases active <;> rfl

theorem reconcileInactive_again {m : InactiveMarker} (hm : decodeInactiveMarker pool d = .ok (some m))
    (fault : Option Fault) : (reconcileInactive pool installation d false now grace fault offset).2 = pool := by
  rcases reconcileInactive_pool (Prod.mk.eta.symm) with h | ⟨plan, c, hplan, hc, -⟩
  · exact h
  · rw [inactivePlan_command hm (inspectInactive_eq_ok.mp hplan).2] at hc
    cases hc

theorem inactivePlan_decoded {active : Bool} {plan : InactivePlan}
    (h : inactivePlan pool d installation active now grace offset = .ok plan) :
    ∃ marker, decodeInactiveMarker pool d = .ok marker := by
  simp only [inactivePlan, ok_iff] at h
  obtain ⟨-, -, marker, hm, -⟩ := h
  exact ⟨marker, hm⟩

theorem reconcileInactive_eq_ok {active : Bool} {fault : Option Fault} {plan : InactivePlan}
    (h : reconcileInactive pool installation d active now grace fault offset = (.ok plan, pool')) :
    inspectInactive pool installation d active now grace offset = .ok plan ∧
      (plan.command d).elim (pool' = pool) fun c => c.run pool = .ok pool' ∧
        ∃ p, inspectInactive pool' installation d active now grace offset = .ok p ∧ p.action = none := by
  unfold reconcileInactive at h
  split at h
  · cases h
  · rename_i x hinspect
    split at h
    · cases h
    · rename_i hc _
      obtain ⟨rfl, rfl⟩ : x = plan ∧ pool = pool' := by simpa using h
      exact ⟨hinspect, by rw [hc]; rfl⟩
    · cases h
    · rename_i c hc _ _
      split at h
      · cases h
      · rename_i hrun
        obtain ⟨hverify, rfl⟩ := Prod.mk.inj h
        obtain ⟨rfl, -, hverified⟩ := verifyInactive_eq_ok.mp hverify
        exact ⟨hinspect, by rw [hc]; exact ⟨hrun, hverified⟩⟩

theorem decode_inherited {s : State} (h : Command.run pool (.inheritProperty (.dataset d) .inactive) = .ok s) :
    decodeInactiveMarker s d = .ok none := by
  obtain ⟨-, rfl⟩ := State.inheritProperty_eq_ok.mp h
  refine decodeInactiveMarker_eq_none ?_
  simp only [markerRows, List.filter_filter, Bool.and_not_self, List.filter_false]

theorem reconcileInactive_removes {fault : Option Fault} {plan : InactivePlan}
    (h : reconcileInactive pool installation d true now grace fault offset = (.ok plan, pool')) :
    decodeInactiveMarker pool' d = .ok none := by
  obtain ⟨hinspect, hrun⟩ := reconcileInactive_eq_ok h
  obtain ⟨-, hplan⟩ := inspectInactive_eq_ok.mp hinspect
  obtain ⟨marker, hm⟩ := inactivePlan_decoded hplan
  cases marker with
  | none =>
    have hcommand : plan.command d = none := by
      unfold InactivePlan.command
      rw [inactivePlan_none hm hplan]
    rw [hcommand] at hrun
    obtain rfl : pool' = pool := hrun
    exact hm
  | some m =>
    rw [inactivePlan_command hm hplan] at hrun
    exact decode_inherited hrun.1

theorem inactivePlan_unmarked (hm : decodeInactiveMarker pool d = .ok none) (hvalid : validDataset d = true)
    (hnow : readable now offset = true) (hg : 0 ≤ grace) :
    inactivePlan pool d installation true now grace offset =
      .ok ⟨d, true, none, none, none, false, decide (0 < grace)⟩ := by
  simp only [readable, Bool.and_eq_true] at hnow
  simp [inactivePlan, require, hvalid, hnow.1, hnow.2, hm, hg, bind, Except.bind, pure, Except.pure]

/-- From a valid marker, observing the root active succeeds. -/
theorem reconcileInactive_runs {since : Time} (hm : markerSince pool installation d = some since)
    (hnow : readable now offset = true) (hg : 0 ≤ grace) :
    ∃ plan pool', reconcileInactive pool installation d true now grace none offset = (.ok plan, pool') := by
  obtain ⟨plan, hplan⟩ := inactivePlan_ok true hm hnow hg
  obtain ⟨m, _, _, hdecode, hauthority, -, -⟩ := markerSince_eq_some.mp hm
  have hobject := hasObject_of_marker hm
  obtain ⟨t, hrun⟩ : ∃ t, Command.run pool (.inheritProperty (.dataset d) .inactive) = .ok t :=
    ⟨_, State.inheritProperty_eq_ok.mpr ⟨hobject, rfl⟩⟩
  have hobject' : t.hasObject (.dataset d) = true := by
    obtain ⟨-, rfl⟩ := State.inheritProperty_eq_ok.mp hrun
    exact hobject
  have hunmarked : inactivePlan t d installation true now grace offset = .ok _ :=
    inactivePlan_unmarked (decode_inherited hrun) (rootAuthority_valid hauthority) hnow hg
  have hverify : verifyInactive t installation d true now grace offset plan none = .ok plan :=
    verifyInactive_eq_ok.mpr ⟨rfl, by simp, _, inspectInactive_eq_ok.mpr ⟨hobject', hunmarked⟩, rfl⟩
  exact ⟨plan, t, by simp only [reconcileInactive, inspectInactive_eq_ok.mpr ⟨hobject, hplan⟩,
    inactivePlan_command hdecode hplan, if_true, hrun, hverify]⟩

theorem markerSince_set {s : State} {lineage : ID} {guid : Nat} {m : InactiveMarker}
    (hauthority : rootAuthority pool d installation = .ok lineage) (hguid : exactDatasetGUID pool d = .ok guid)
    (hvalid : validateInactiveMarker m guid lineage installation = .ok now)
    (hrun : Command.run pool (.setProperty (.dataset d) .inactive (.inactive m)) = .ok s) :
    markerSince s installation d = some now := by
  have hrows := State.localRows_setProperty hrun
  obtain ⟨-, rfl⟩ := State.setProperty_eq_ok.mp hrun
  refine markerSince_eq_some.mpr ⟨m, lineage, guid, ?_, ?_, hguid, hvalid⟩
  · simp only [decodeInactiveMarker, hrows]
  · rw [← hauthority]
    refine rootAuthority_congr installation ?_ rfl
    rw [List.filter_append, List.filter_filter, List.filter_singleton, show isAuthority d
      ⟨.dataset d, .inactive, .inactive m, .sourceLocal⟩ = false by simp [isAuthority], cond_false, List.append_nil]
    refine List.filter_congr fun r _ => ?_
    rw [Bool.and_eq_left_iff_imp]
    intro hr
    simp only [isAuthority, Bool.and_eq_true, Bool.or_eq_true, beq_iff_eq] at hr
    rcases hr with ⟨-, (hk | hk) | hk⟩ <;> simp [hk]

theorem inactivePlan_first {lineage : ID} {guid : Nat} (hm : decodeInactiveMarker pool d = .ok none)
    (hauthority : rootAuthority pool d installation = .ok lineage) (hguid : exactDatasetGUID pool d = .ok guid)
    (hnow : readable now offset = true) (hg : 0 ≤ grace) : ∃ plan,
      inactivePlan pool d installation false now grace offset = .ok plan ∧
      plan.command d = some (.setProperty (.dataset d) .inactive
        (.inactive ⟨inactiveMarkerVersion, now, now < endOfTime, guid, lineage, installation⟩)) := by
  simp only [readable, Bool.and_eq_true] at hnow
  let m : InactiveMarker := ⟨inactiveMarkerVersion, now, now < endOfTime, guid, lineage, installation⟩
  refine ⟨⟨d, false, some m, some .setMarker, if 0 < grace then some (now + grace.toNat) else none, false, 0 < grace⟩,
    ?_, rfl⟩
  simp [inactivePlan, require, rootAuthority_valid hauthority, hnow.1, hnow.2, hm, hg, hauthority, hguid, bind, Except.bind,
    pure, Except.pure, m]

/-- Observing an owned root inactive for the first time records the time, when its text in UTC reads back. -/
theorem reconcileInactive_records (howned : IsOwned installation d pool) (hobject : pool.hasObject (.dataset d) = true)
    (hm : decodeInactiveMarker pool d = .ok none) (hnow : readable now offset = true) (hutc : now < endOfTime)
    (hg : 0 ≤ grace) : ∃ plan pool', reconcileInactive pool installation d false now grace none offset =
      (.ok plan, pool') ∧ markerSince pool' installation d = some now := by
  obtain ⟨lineage, hauthority⟩ := howned
  obtain ⟨o, ho⟩ := State.hasObject_iff.mp hobject
  have hguid : exactDatasetGUID pool d = .ok o.guid := by simp only [exactDatasetGUID, State.object_eq_some.mpr ho]
  obtain ⟨plan, hplan, hc⟩ := inactivePlan_first hm hauthority hguid hnow hg
  obtain ⟨t, hrun⟩ := InactivePlan.command_runs hc hobject
  have hsince : markerSince t installation d = some now :=
    markerSince_set hauthority hguid (by simp [validateInactiveMarker, require, hutc]) hrun
  obtain ⟨m, _, _, hdecode, -⟩ := markerSince_eq_some.mp hsince
  obtain ⟨p, hp⟩ := inactivePlan_ok false hsince hnow hg
  obtain ⟨_, -, haction, -⟩ := inactivePlan_some hdecode hp
  have hverify : verifyInactive t installation d false now grace offset plan none = .ok plan :=
    verifyInactive_eq_ok.mpr ⟨rfl, by simp, p, inspectInactive_eq_ok.mpr ⟨hasObject_of_marker hsince, hp⟩, haction⟩
  exact ⟨plan, t, by simp only [reconcileInactive, inspectInactive_eq_ok.mpr ⟨hobject, hplan⟩, hc, hrun, hverify], hsince⟩

theorem listed_runUntil {cs : List Command} {cut : Option Nat} (h : Listed pool) (hcs : ∀ c ∈ cs, c.removes = true) :
    Listed (runUntil pool cs cut).1 :=
  runUntil_invariant h fun c hc _ _ ht hrun => ht.run (hcs c hc) hrun

variable [Digests]

theorem retireIn_preview (recursive : Bool) (safety : CleanSafety) (fault : Option Error) (cut : Option Nat) :
    (retireIn pool installation d recursive now grace false safety fault cut offset).2 = pool := by
  unfold retireIn
  split
  · rfl
  · rfl
  · rfl
  · split <;> rfl

theorem retireIn_owned {recursive apply : Bool} {safety : CleanSafety} {fault : Option Error} {cut : Option Nat}
    (hlisted : Listed pool) (hcut : Uncut d (retireCommands pool installation d recursive now grace safety offset) cut)
    (hpool : pool' = (retireIn pool installation d recursive now grace apply safety fault cut offset).2) :
    Listed pool' ∧ (IsOwned installation d pool' → decodeInactiveMarker pool' d = decodeInactiveMarker pool d) := by
  by_cases hsame : pool' = pool
  · subst hsame
    exact ⟨hlisted, fun _ => rfl⟩
  have hrun := hpool.trans ((retireIn_sends recursive apply safety fault cut).resolve_left fun h => hsame (hpool.trans h))
  have hcommands : retireCommands pool installation d recursive now grace safety offset ≠ [] := by
    intro hnone
    rw [hnone] at hrun
    exact hsame hrun
  obtain ⟨c, hplan, hblockers, hc⟩ := retireCommands_eq hcommands
  rw [hc] at hrun hcut
  have hruns := runUntil_retire hlisted hplan hblockers hcut
  rw [← hrun] at hruns
  refine ⟨hrun ▸ listed_runUntil hlisted (cleanPlan_removes hplan), ?_⟩
  rintro ⟨lineage, howned⟩
  refine decodeInactiveMarker_rows (hruns.resolve_right fun hempty => ?_)
  obtain ⟨r, hr, hd, hk⟩ := rootAuthority_rows howned (.inl rfl)
  exact List.filter_eq_nil_iff.mp hempty r hr (by simp [hd, hk])

end Calls

section Runs

variable [Digests] {installation : ID} {d : Dataset} {start s : State}

theorem marker_kept {m : InactiveMarker} (hlisted : Listed start) (hm : decodeInactiveMarker start d = .ok (some m))
    (h : Reach (inactiveCalls installation d start) (StaysInactive installation d) s) :
    Listed s ∧ (IsOwned installation d s → decodeInactiveMarker s d = .ok (some m)) := by
  refine h.invariant (I := fun s => Listed s ∧ (IsOwned installation d s → decodeInactiveMarker s d = .ok (some m)))
    ?_ ?_
  · rintro s rfl
    exact ⟨hlisted, fun _ => hm⟩
  · rintro s call s' ⟨hs, hmarker⟩ ⟨howned, hquiet⟩ hstep
    have hmarker := hmarker howned
    cases call with
    | reconcile active now grace fault offset =>
      obtain rfl : active = false := hquiet
      obtain rfl : s' = s := (Option.some.inj hstep).symm.trans (reconcileInactive_again hmarker fault)
      exact ⟨hs, fun _ => hmarker⟩
    | retire recursive now grace apply safety fault cut offset =>
      obtain ⟨hlisted', hkept⟩ := retireIn_owned hs hquiet (Option.some.inj hstep).symm
      exact ⟨hlisted', fun howned' => (hkept howned').trans hmarker⟩
    | elsewhere pool =>
      cases hstep
      exact ⟨hquiet.listed, fun _ => (decodeInactiveMarker_rows hquiet.marker).trans hmarker⟩

/-- The recorded start stays while the root is owned and inactive and no retirement stops between removing it and the
owner. Seeing the root active removes it, and a retirement acts only on an inactive root whose grace period is
over. -/
theorem grace_period_honoured (installation : ID) (d : Dataset) {start : State} (hlisted : Listed start) :
    (∀ m s, decodeInactiveMarker start d = .ok (some m) →
      Reach (inactiveCalls installation d start) (StaysInactive installation d) s → IsOwned installation d s →
      decodeInactiveMarker s d = .ok (some m)) ∧
    (∀ now grace offset, IsOwned installation d start → start.hasObject (.dataset d) = true →
      decodeInactiveMarker start d = .ok none → readable now offset = true → now < endOfTime → 0 ≤ grace →
      ∃ plan s, reconcileInactive start installation d false now grace none offset = (.ok plan, s) ∧
        markerSince s installation d = some now) ∧
    (∀ now grace fault offset plan s,
      reconcileInactive start installation d true now grace fault offset = (.ok plan, s) →
      decodeInactiveMarker s d = .ok none) ∧
    (∀ since now grace offset, markerSince start installation d = some since → readable now offset = true → 0 ≤ grace →
      ∃ plan s, reconcileInactive start installation d true now grace none offset = (.ok plan, s)) ∧
    (∀ recursive now grace safety offset, retireCommands start installation d recursive now grace safety offset ≠ [] →
      GraceOver start installation d now grace) ∧
    (∀ recursive now grace apply safety fault cut offset,
      (retireIn start installation d recursive now grace apply safety fault cut offset).2 ≠ start →
      apply = true ∧ GraceOver start installation d now grace) := by
  refine ⟨fun m s hm h howned => (marker_kept hlisted hm h).2 howned, fun now grace offset => reconcileInactive_records,
    fun now grace fault offset plan s => reconcileInactive_removes,
    fun since now grace offset => reconcileInactive_runs,
    fun recursive now grace safety offset => graceOver_of_commands, ?_⟩
  intro recursive now grace apply safety fault cut offset hchanged
  cases apply with
  | false => exact absurd (retireIn_preview recursive safety fault cut) hchanged
  | true =>
    have hsends : retireCommands start installation d recursive now grace safety offset ≠ [] := by
      intro hnone
      rcases retireIn_sends recursive true safety fault cut with h | h
      · exact hchanged h
      · rw [hnone] at h
        exact hchanged h
    exact ⟨rfl, graceOver_of_commands hsends⟩

end Runs

section Sample

attribute [local instance] symbolicDigests

def idle (marker : List Property) : State where
  objects := [.ofRow (.dataset ["idle"]) .filesystem 1 5 (by decide)]
  properties := authorityRows ["idle"] ⟨9, 9⟩ ⟨1, 1⟩ ++ marker
  distinct := by decide

def idleSince100 : State :=
  idle [⟨.dataset ["idle"], .inactive, .inactive ⟨1, 100, true, 1, ⟨1, 1⟩, ⟨9, 9⟩⟩, .sourceLocal⟩]

/-- A retirement is cut off after its first command, and the next observation records another start. A start in the
year 9999 of its zone and the year 10000 of UTC cannot be read back, and the root is never seen active again. -/
theorem start_recorded_again :
    (∃ s t, (retireIn idleSince100 ⟨9, 9⟩ ["idle"] true 110 10 true anySafety none (some 1)).2 = s ∧
      IsOwned ⟨9, 9⟩ ["idle"] s ∧ (reconcileInactive s ⟨9, 9⟩ ["idle"] false 111 10 none).2 = t ∧
      markerSince idleSince100 ⟨9, 9⟩ ["idle"] = some 100 ∧ markerSince t ⟨9, 9⟩ ["idle"] = some 111) ∧
    ∃ t, (reconcileInactive (idle []) ⟨9, 9⟩ ["idle"] false (endOfTime + 1800000000000) 10 none (-3600)).2 = t ∧
      decodeInactiveMarker t ["idle"] ≠ .ok none ∧
      ∀ now grace fault offset, (reconcileInactive t ⟨9, 9⟩ ["idle"] true now grace fault offset).2 = t := by
  refine ⟨⟨_, _, rfl, ⟨⟨1, 1⟩, by decide⟩, rfl, by decide, by decide⟩, _, rfl, by decide, ?_⟩
  intro now grace fault offset
  refine (reconcileInactive_pool Prod.mk.eta.symm).resolve_right ?_
  rintro ⟨plan, -, hplan, -⟩
  obtain ⟨since, hsince, -⟩ := inactivePlan_some rfl (inspectInactive_eq_ok.mp hplan).2
  cases hsince

/-- It retires at time 110 with a grace period of 10, not at 109. -/
theorem idleSince100_retires :
    (retireIn idleSince100 ⟨9, 9⟩ ["idle"] true 109 10 true anySafety none none).2 = idleSince100 ∧
      (retireIn idleSince100 ⟨9, 9⟩ ["idle"] true 110 10 true anySafety none none).2 ≠ idleSince100 ∧
      GraceOver idleSince100 ⟨9, 9⟩ ["idle"] 110 10 := by
  have hlisted : Listed idleSince100 := ⟨by unfold OneValue; decide, by decide, by decide⟩
  have hretires : (retireIn idleSince100 ⟨9, 9⟩ ["idle"] true 110 10 true anySafety none none).2 ≠ idleSince100 :=
    fun h => absurd (congrArg (·.properties) h) (by decide)
  obtain ⟨-, -, -, -, -, hover⟩ := grace_period_honoured ⟨9, 9⟩ ["idle"] hlisted
  exact ⟨rfl, hretires, (hover true 110 10 true anySafety none none 0 hretires).2⟩

end Sample

end Boomerangz.Lifecycle
