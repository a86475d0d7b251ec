import Boomerangz.Lifecycle.Retire
import Boomerangz.Lifecycle.Retry
import Boomerangz.Lifecycle.Service

/-! # Roots of another installation

An installation may take a root without being its owner only if the subtree carries no internal state.
-/

namespace Boomerangz.Lifecycle

open Check Lists Zfs Policy

/-! ## Ownership of a root -/

def markerRows (s : State) (d : Dataset) (k : Key) : List Property :=
  s.properties.filter fun r => r.dataset == .dataset d && r.name == k

/-- The markers of a root of this installation. -/
structure Owned (s : State) (installation : ID) (root : Dataset) (lineage : ID) : Prop where
  ownerRow : markerRows s root .owner = [⟨.dataset root, .owner, .id installation, .sourceLocal⟩]
  lineageRow : markerRows s root .lineage = [⟨.dataset root, .lineage, .id lineage, .sourceLocal⟩]
  received : ∀ r ∈ s.received, r.1 = .dataset root → r.2.1 = .lineage → r.2.2 = .id lineage
  versionRow : (markerRows s root .version).filter (·.source == .sourceLocal) =
    [⟨.dataset root, .version, .number currentVersion, .sourceLocal⟩]

def HasState (s : State) (root : Dataset) : Prop :=
  (∃ r ∈ s.properties, inside r.dataset.base root = true ∧ r.name.isState = true) ∨
    ∃ r ∈ s.received, inside r.1.base root = true ∧ r.2.1.isState = true

theorem currentState_version {s : State} {root : Dataset} {u : Unit} (h : currentState s root = .ok u) :
    (markerRows s root .version).filter (·.source == .sourceLocal) =
      [⟨.dataset root, .version, .number currentVersion, .sourceLocal⟩] := by
  have hrows : (markerRows s root .version).filter (·.source == .sourceLocal) = s.localRows root .version := by
    rw [markerRows, List.filter_filter]
    exact List.filter_congr fun r _ => Bool.and_comm ..
  have hmem : ∀ r ∈ (markerRows s root .version).filter (·.source == .sourceLocal),
      r.dataset = .dataset root ∧ r.name = .version ∧ r.source = .sourceLocal := by
    intro r hr
    simp only [markerRows, List.mem_filter, Bool.and_eq_true, beq_iff_eq] at hr
    exact ⟨hr.1.2.1, hr.1.2.2, hr.2⟩
  simp only [currentState, stateVersion, ← hrows, ok_iff, decide_eq_true_eq] at h
  obtain ⟨version, hversion, hle, hge⟩ := h
  split at hversion
  · cases hversion
    simp [currentVersion] at hle
  · rename_i n k v source hone
    cases hversion
    obtain ⟨rfl, rfl, rfl⟩ := hmem _ (hone ▸ List.mem_singleton_self _)
    have hv : v + 1 = currentVersion := le_antisymm hge hle
    simp only [hone, Nat.succ_eq_add_one, hv]
  · cases hversion

theorem owned_of_authority {s : State} {installation lineage : ID} {root : Dataset}
    (h : rootAuthority s root installation = .ok lineage) : Owned s installation root lineage := by
  simp only [rootAuthority, ok_iff, Bool.and_eq_true] at h
  obtain ⟨-, ⟨hlocal, hnodup⟩, h⟩ := h
  -- the one row of a key among the markers is the only row of that key
  have hone : ∀ {k : Key} {v : Value}, k = .owner ∨ k = .lineage → valueOf (s.properties.filter fun p =>
      p.dataset == .dataset root && (p.name == .owner || p.name == .lineage)) k = some v →
      markerRows s root k = [⟨.dataset root, k, v, .sourceLocal⟩] := by
    intro k v hk hv
    obtain ⟨⟨n, k', v', source⟩, hp, rfl⟩ := Option.map_eq_some_iff.mp hv
    have hm := List.mem_of_find?_eq_some hp
    obtain ⟨hsource, -⟩ := (Bool.and_eq_true _ _).mp (List.all_eq_true.mp hlocal _ hm)
    simp only [List.mem_filter, Bool.and_eq_true, beq_iff_eq] at hm
    obtain rfl : n = .dataset root := hm.2.1
    obtain rfl : k' = k := by simpa using List.find?_some hp
    obtain rfl : source = .sourceLocal := by simpa using hsource
    rw [← filter_of_find? (of_decide_eq_true hnodup) hp, List.filter_filter, markerRows]
    refine List.filter_congr fun r _ => ?_
    rcases hk with rfl | rfl <;> cases r.dataset == .dataset root <;> cases r.name == .owner <;>
      cases r.name == .lineage <;> rfl
  split at h
  · rename_i owner l howner hl
    simp only [ok_iff, beq_iff_eq] at h
    obtain ⟨rfl, hhidden, u, hcurrent, rfl⟩ := h
    refine ⟨hone (.inl rfl) howner, hone (.inr rfl) hl, ?_, currentState_version hcurrent⟩
    intro r hr hname hkey
    simpa using List.all_eq_true.mp hhidden r (List.mem_filter.mpr ⟨hr, by simp [hname, hkey]⟩)
  · simp at h

theorem authority_refused {s : State} {installation : ID} {root : Dataset} {p : Dataset → Bool}
    (h : ∀ lineage, ¬ Owned s installation root lineage) (hp : p root = true) :
    ∃ e, rootAuthority (s.restrict p) root installation = .error e := by
  rw [rootAuthority_restrict installation hp]
  cases hauth : rootAuthority s root installation with
  | error e => exact ⟨e, rfl⟩
  | ok lineage => exact absurd (owned_of_authority hauth) (h lineage)

/-! ## The operations -/

inductive Operation where
  | createSnapshot (members : List Dataset) (now : Time) (p : Effective) (ids : Fresh)
      (births : Dataset → State.Birth)
  | prune (p : Effective) (r : Retention)
  | reference (op : ReferenceOp)
  | reconcileInactive (active : Bool) (now : Time) (grace : Int)
  | retire (recursive : Bool) (now : Time) (grace : Int) (safety : CleanSafety)

def reconcileCommands (pool : State) (installation : ID) (d : Dataset) (active : Bool) (now : Time) (grace : Int) :
    List Command :=
  match inspectInactive pool installation d active now grace with
  | .error _ => []
  | .ok plan => (plan.command d).toList

def retireCommands [Digests] (pool : State) (installation : ID) (d : Dataset) (recursive : Bool) (now : Time) (grace : Int)
    (safety : CleanSafety) (offset : Int := 0) : List Command :=
  match retireEligible pool installation d recursive now grace offset with
  | .ok (_, true) =>
    match cleanPlan pool installation d ⟨recursive, true⟩ safety (some ⟨now, grace, offset⟩) with
    | .ok c => if c.blockers.isEmpty then c.actions.map CleanAction.command else []
    | .error _ => []
  | _ => []

def Operation.writes [Digests] (pool : State) (installation : ID) (root : Dataset) : Operation → List Write
  | createSnapshot members now p ids births =>
    (Lifecycle.createSnapshot pool installation root members now p ids births).writes
  | prune p r => (Lifecycle.prune pool installation root p r).writes
  | reference op => ((op.plan pool installation root).toOption.getD []).map .command
  | reconcileInactive active now grace => (reconcileCommands pool installation root active now grace).map .command
  | retire recursive now grace safety =>
    (retireCommands pool installation root recursive now grace safety).map .command

section Sent

variable {pool : State} {installation : ID} {d : Dataset} {now : Time} {grace offset : Int}

theorem retireIn_sends [Digests] (recursive apply : Bool) (safety : CleanSafety) (fault : Option Error) (cut : Option Nat) :
    (retireIn pool installation d recursive now grace apply safety fault cut offset).2 = pool ∨
      (retireIn pool installation d recursive now grace apply safety fault cut offset).2 =
        (runUntil pool (retireCommands pool installation d recursive now grace safety offset) cut).1 := by
  unfold retireIn retireCommands
  cases fault with
  | some e => exact .inl rfl
  | none =>
    rcases heligible : retireEligible pool installation d recursive now grace offset with e | ⟨plan, eligible⟩
    · exact .inl rfl
    · cases eligible with
      | false => exact .inl rfl
      | true =>
        rcases hc : cleanPlan pool installation d ⟨recursive, true⟩ safety (some ⟨now, grace, offset⟩) with e | c
        · exact .inl rfl
        · simp only
          by_cases happly : (!apply) = true
          · exact .inl (by rw [if_pos happly])
          by_cases hblockers : c.blockers.isEmpty = true
          · right
            rw [if_neg happly, if_neg (by simp [hblockers]), if_pos hblockers]
            rcases runUntil pool (c.actions.map CleanAction.command) cut with ⟨pool', e | e⟩ <;> rfl
          · exact .inl (by rw [if_neg happly, if_pos (by simpa using hblockers)])

end Sent

/-! ## Refusals -/

section Refused

variable {pool : State} {installation : ID} {root : Dataset}

theorem createPlan_refused {now : Time} {ids : Fresh} {x : Metadata × Bool} {p : Dataset → Bool}
    (hforeign : ∀ lineage, ¬ Owned pool installation root lineage) (hp : p root = true)
    (hstate : (pool.restrict p).properties.any (·.name.isState) = true ∨
      (pool.restrict p).received.any (·.2.1.isState) = true) :
    createPlan (pool.restrict p) installation root now ids ≠ .ok x := by
  obtain ⟨e, he⟩ := authority_refused hforeign hp
  intro h
  simp only [createPlan, bind_eq_ok] at h
  obtain ⟨-, -, stored, -, h⟩ := h
  cases stored with
  | none =>
    simp only [checkFresh, ok_iff] at h
    obtain ⟨⟨hrows, hhidden⟩, -⟩ := h
    rcases hstate with hstate | hstate
    · simp [hstate] at hrows
    · simp [hstate] at hhidden
  | some l =>
    simp only [bind_eq_ok, he] at h
    obtain ⟨lineage, hlineage, -⟩ := h
    cases hlineage

theorem inactivePlan_authority {s : State} {d : Dataset} {active : Bool} {now : Time} {grace : Int} {plan : InactivePlan}
    (h : inactivePlan s d installation active now grace = .ok plan) (hdo : plan.action.isSome = true ∨ plan.due = true) :
    ∃ lineage, rootAuthority s d installation = .ok lineage := by
  simp only [inactivePlan, ok_iff] at h
  obtain ⟨-, -, marker, -, h⟩ := h
  cases marker with
  | none =>
    simp only at h
    split at h
    · simp only [pure_eq_ok] at h
      subst h
      simp at hdo
    · simp only [bind_eq_ok] at h
      obtain ⟨lineage, hlineage, -⟩ := h
      exact ⟨lineage, hlineage⟩
  | some m =>
    simp only [bind_eq_ok] at h
    obtain ⟨lineage, hlineage, -⟩ := h
    exact ⟨lineage, hlineage⟩

theorem HasState.inspected (h : HasState pool root) :
    (pool.restrict fun x => if true then inside x root else x == root).properties.any (·.name.isState) = true ∨
      (pool.restrict fun x => if true then inside x root else x == root).received.any (·.2.1.isState) = true := by
  rcases h with ⟨r, hr, hin, hkey⟩ | ⟨r, hr, hin, hkey⟩
  · exact .inl (List.any_eq_true.mpr ⟨r, List.mem_filter.mpr ⟨hr, by simpa using hin⟩, hkey⟩)
  · exact .inr (List.any_eq_true.mpr ⟨r, List.mem_filter.mpr ⟨hr, by simpa using hin⟩, hkey⟩)

variable (hforeign : ∀ lineage, ¬ Owned pool installation root lineage)
include hforeign

theorem reference_refused (op : ReferenceOp)
    {cs : List Command} : op.plan pool installation root ≠ .ok cs := by
  have hstanding : ∀ r x, referenceState pool installation root r ≠ .ok x := by
    intro r ⟨s, lineage, sources⟩ h
    exact hforeign lineage (owned_of_authority (referenceState_eq_ok.mp h).1.authority)
  intro h
  cases op with
  | protectSet stream snapshots target =>
    simp only [ReferenceOp.plan, map_eq_ok, protectPlan, ok_iff, proofScope_eq_ok] at h
    obtain ⟨x, ⟨-, -, -, -, -, s, ⟨-, rfl⟩, -, -, lineage, hlineage, -⟩, -⟩ := h
    obtain ⟨e, he⟩ := authority_refused hforeign (proofDatasets_root pool root (snapshots.map Name.base) [])
    rw [he] at hlineage
    cases hlineage
  | checkpointSet r verified =>
    simp only [ReferenceOp.plan, checkpointPlan, bind_eq_ok] at h
    obtain ⟨x, hx, -⟩ := h
    exact hstanding r x hx
  | releaseCompletedHold r =>
    simp only [ReferenceOp.plan, completedPlan, bind_eq_ok] at h
    obtain ⟨x, hx, -⟩ := h
    exact hstanding r x hx
  | releaseReference r =>
    simp only [ReferenceOp.plan, releasePlan, bind_eq_ok] at h
    obtain ⟨x, hx, -⟩ := h
    exact hstanding r x hx

theorem reconcile_refused (active : Bool) (now : Time)
    (grace : Int) : reconcileCommands pool installation root active now grace = [] := by
  unfold reconcileCommands
  cases hplan : inspectInactive pool installation root active now grace with
  | error e => rfl
  | ok plan =>
    simp only [inspectInactive, bind_eq_ok] at hplan
    obtain ⟨s, hs, hplan⟩ := hplan
    obtain ⟨-, rfl⟩ := State.inspect_eq_ok.mp hs
    rw [inactivePlan_restrict (by simp)] at hplan
    cases haction : plan.action with
    | none => simp [InactivePlan.command, haction]
    | some action =>
      obtain ⟨lineage, hauth⟩ := inactivePlan_authority hplan (.inl (by simp [haction]))
      exact absurd (owned_of_authority hauth) (hforeign lineage)

theorem retire_refused [Digests] (recursive : Bool) (now : Time)
    (grace : Int) (safety : CleanSafety) : retireCommands pool installation root recursive now grace safety = [] := by
  have hnot : ∀ plan, retireEligible pool installation root recursive now grace ≠ .ok (plan, true) := by
    intro plan h
    simp only [retireEligible, ok_iff, Prod.mk.injEq, Bool.and_eq_true] at h
    obtain ⟨s, hs, active, -, plan', hplan, rfl, -, hdue⟩ := h
    obtain ⟨-, rfl⟩ := State.inspect_eq_ok.mp hs
    rw [inactivePlan_restrict (by cases recursive <;> simp [inside_self])] at hplan
    obtain ⟨lineage, hauth⟩ := inactivePlan_authority hplan (.inr hdue)
    exact hforeign lineage (owned_of_authority hauth)
  unfold retireCommands
  rcases heligible : retireEligible pool installation root recursive now grace with e | ⟨plan, eligible⟩
  · rfl
  · cases eligible with
    | false => rfl
    | true => exact absurd heligible (hnot plan)

theorem prune_refused (p : Effective) (r : Retention) :
    (prune pool installation root p r).writes = [] := by
  unfold prune
  split
  · rfl
  · rename_i x hplanned
    simp only [prunePlan, ok_iff, pruneRead] at hplanned
    obtain ⟨-, -, -, -, -, y, ⟨s, hs, lineage, hlineage, -⟩, -⟩ := hplanned
    obtain ⟨-, rfl⟩ := State.inspect_eq_ok.mp hs
    obtain ⟨e, he⟩ := authority_refused hforeign (p := fun x => if false then inside x root else x == root) (by simp)
    rw [he] at hlineage
    cases hlineage

theorem create_refused (hstate : HasState pool root)
    (members : List Dataset) (now : Time) (p : Effective) (ids : Fresh) (births : Dataset → State.Birth) :
    (createSnapshot pool installation root members now p ids births).writes = [] := by
  unfold createSnapshot
  simp only
  split
  · rfl
  · rename_i x hplanned
    simp only [ok_iff] at hplanned
    obtain ⟨-, -, -, -, -, s, hs, y, hy, -⟩ := hplanned
    obtain ⟨-, rfl⟩ := State.inspect_eq_ok.mp hs
    exact absurd hy (createPlan_refused hforeign (by simp [inside_self]) hstate.inspected)

end Refused

/-- A root this installation does not own is never touched, unless nothing of its subtree carries
internal state. -/
theorem foreign_root_untouched [Digests] {pool : State} {installation : ID} {root : Dataset}
    (hforeign : ∀ lineage, ¬ Owned pool installation root lineage) (hstate : HasState pool root) (op : Operation) :
    op.writes pool installation root = [] := by
  cases op with
  | createSnapshot members now p ids births => exact create_refused hforeign hstate members now p ids births
  | prune p r => exact prune_refused hforeign p r
  | reference op =>
    cases hplan : op.plan pool installation root with
    | error e => simp [Operation.writes, hplan, Except.toOption]
    | ok cs => exact absurd hplan (reference_refused hforeign op)
  | reconcileInactive active now grace => simp [Operation.writes, reconcile_refused hforeign]
  | retire recursive now grace safety => simp [Operation.writes, retire_refused hforeign]

section Sample

attribute [local instance] symbolicDigests

/-- A pool moved to another installation: what the owner would release stays protected. -/
theorem protectedSubtree_moved_untouched :
    (Operation.reference (.releaseReference sampleProof)).writes protectedSubtree ⟨9, 9⟩ ["tank"] ≠ [] ∧
      (Operation.reference (.releaseReference sampleProof)).writes protectedSubtree ⟨8, 8⟩ ["tank"] = [] :=
  ⟨List.cons_ne_nil _ _, foreign_root_untouched (fun _ h => absurd h.ownerRow (by decide)) (.inl (by decide)) _⟩

end Sample

end Boomerangz.Lifecycle
