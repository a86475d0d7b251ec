import Boomerangz.Lifecycle.Executable

/-! # Carrying out a plan to its end

A recursive proof and a proof of one of its members share a hold or a bookmark.
-/

namespace Boomerangz.Lifecycle

open Check Zfs

structure CarriedOut (d : Dataset) (subtree : Bool) (actions : List CleanAction) (pool : State) : Prop where
  distinct : actions.Nodup
  found : ∀ xs a ys, actions = xs ++ a :: ys →
    ∃ s, carryOut d subtree xs pool = .ok s ∧ a.found s = true
  ends : ∃ s, carryOut d subtree actions pool = .ok s

/-! ## From the scope to the pool -/

theorem Sound.of_restrict {pool : State} {p : Dataset → Bool} {actions : List CleanAction}
    (h : Sound (pool.restrict p) actions) : Sound pool actions where
  marked ha := by
    have := h.marked ha
    rw [State.restrict_hasObject, Bool.and_eq_true] at this
    exact this.1
  held ha := by
    obtain ⟨hsnapshot, hheld⟩ := h.held ha
    rw [State.restrict_held, Bool.and_eq_true] at hheld
    exact ⟨hsnapshot, hheld.1⟩
  destroyed {n g} ha := by
    obtain ⟨hsnapshot, hobject, hclones, hholds⟩ := h.destroyed ha
    rw [State.restrict_hasObject, Bool.and_eq_true] at hobject
    refine ⟨hsnapshot, hobject.1, ?_, fun t ht => hholds t ?_⟩
    · rw [List.any_eq_false] at hclones ⊢
      intro r hr hn
      obtain rfl : r.1 = n := beq_iff_eq.mp hn
      exact hclones r (List.mem_filter.mpr ⟨hr, hobject.2⟩) hn
    · rw [State.restrict_held, ht, hobject.2, Bool.true_and]
  inherited ha := by
    obtain ⟨hobject, hbookmark, hstored, hkept⟩ := h.inherited ha
    rw [State.restrict_hasObject, Bool.and_eq_true] at hobject
    refine ⟨hobject.1, hbookmark, ?_, hkept⟩
    simp only [storedOn, Bool.or_eq_true, List.any_eq_true] at hstored ⊢
    exact hstored.imp (Exists.imp fun p hp => ⟨List.mem_of_mem_filter hp.1, hp.2⟩)
      (Exists.imp fun r hr => ⟨List.mem_of_mem_filter hr.1, hr.2⟩)
  nodup := h.nodup

/-! ## Plans of proofs and a remainder -/

section Plan

variable {pool s : State} {d : Dataset} {subtree : Bool} {proofs : List Reference} {actions rest : List CleanAction}

theorem apart_of_runAll {pool' : State} (hperm : actions.Perm (proofs.flatMap (proofActions s) ++ rest))
    (hremoves : ∀ a ∈ actions, a.command.removes = true)
    (hrun : runAll pool (actions.map CleanAction.command) = .ok pool') :
    proofs.Pairwise fun r r' => shares s r r' = false := by
  have honce := once_nodup_of_runAll (fun c hc => by
    obtain ⟨a, ha, rfl⟩ := List.mem_map.mp hc
    exact hremoves a ha) hrun
  have hkept : ((proofs.flatMap (proofActions s)).map CleanAction.command).filter Command.once =
      (proofs.flatMap (proofActions s)).map CleanAction.command := by
    refine List.filter_eq_self.mpr fun c hc => ?_
    obtain ⟨a, ha, rfl⟩ := List.mem_map.mp hc
    rcases mem_flatMap_proofActions ha with ⟨_, _, _, rfl, -⟩ | ⟨_, _, _, rfl, -⟩ <;> rfl
  rw [((hperm.map CleanAction.command).filter _).nodup_iff, List.map_append, List.filter_append, hkept] at honce
  exact proofs_nodup_iff.mp (List.nodup_append.mp honce).1

variable [Digests]

theorem carriedOut_iff (hinspect : pool.inspect d subtree = .ok s) (htokens : s.resumeTokens = [])
    (hperm : actions.Perm (proofs.flatMap (proofActions s) ++ rest)) (hrest : Remainder s proofs rest) :
    CarriedOut d subtree (sortCleanActions actions) pool ↔ proofs.Pairwise fun r r' => shares s r r' = false := by
  have hremoves : ∀ a ∈ sortCleanActions actions, a.command.removes = true :=
    fun a ha => hrest.removes (hperm.subset (mem_sortCleanActions.mp ha))
  constructor
  · rintro ⟨-, -, pool', hends⟩
    rw [carryOut_ok_iff hinspect htokens hremoves] at hends
    exact apart_of_runAll ((List.perm_insertionSort _ _).trans hperm) hremoves hends
  · intro hapart
    obtain ⟨-, rfl⟩ := State.inspect_eq_ok.mp hinspect
    have hsound : Sound pool actions := ((hrest.sound hapart).perm hperm).of_restrict
    have hcarried : ∀ xs ys, sortCleanActions actions = xs ++ ys →
        carryOut d subtree xs pool = .ok (pool.cleared (xs.map CleanAction.command)) := by
      intro xs ys hsplit
      refine (carryOut_ok_iff hinspect htokens fun a ha => hremoves a ?_).mpr (hsound.runs hsplit)
      rw [hsplit]
      exact List.mem_append_left _ ha
    refine ⟨(List.perm_insertionSort _ _).nodup_iff.mpr hsound.nodup.of_map, fun xs a ys hsplit => ?_,
      _, hcarried _ [] (List.append_nil _).symm⟩
    exact ⟨_, hcarried xs _ hsplit, hsound.found hsplit⟩

end Plan

/-! ## Cleans, retirements and forgotten targets -/

inductive Cleaning where
  | clean (options : CleanOptions) (retirement : Option Retirement)
  | forget (options : CleanOptions) (targets : List TargetText)
deriving DecidableEq, Repr

namespace Cleaning

def subtree : Cleaning → Bool
  | clean options _ => options.recursive
  | forget _ _ => true

def proofs (s : State) (d : Dataset) : Cleaning → List Reference
  | clean _ _ => scopeProofs s d
  | forget _ given => match (readTargets given).bind (forgottenProofs s d) with
    | .ok (_, refs) => refs
    | .error _ => []

variable [Digests]

def plan (pool : State) (installation : ID) (d : Dataset) (safety : CleanSafety) : Cleaning → Except Error CleanPlan
  | clean options retirement => cleanPlan pool installation d options safety retirement
  | forget options given => forgetPlan pool d options safety given

end Cleaning

section Carried

variable {pool s : State} {installation : ID} {d : Dataset} {safety : CleanSafety}

theorem scopeReady_tokens {u : Unit} (h : scopeReady s d = .ok u) : s.resumeTokens = [] := by
  simp only [scopeReady, ok_iff, List.isEmpty_iff] at h
  exact h.1

variable [Digests]

/-- A plan without blockers is carried out to its end exactly when no two of its proofs share a hold
or a bookmark. -/
theorem plan_carried_out_iff {c : Cleaning} {plan : CleanPlan} (hlisted : Listed pool)
    (hinspect : pool.inspect d c.subtree = .ok s) (hplan : c.plan pool installation d safety = .ok plan)
    (hblockers : plan.blockers = []) :
    CarriedOut d c.subtree plan.actions pool ↔ (c.proofs s d).Pairwise fun r r' => shares s r r' = false := by
  have hlisted : Listed s := by
    obtain ⟨-, rfl⟩ := State.inspect_eq_ok.mp hinspect
    exact hlisted.restrict
  cases c with
  | clean options retirement =>
    simp only [Cleaning.plan, cleanPlan, ok_iff] at hplan
    obtain ⟨-, s', hs', rfl⟩ := hplan
    obtain rfl : s = s' := Except.ok.inj (hinspect.symm.trans hs')
    have hfree := (cleanBlockers_eq_nil.mp hblockers).1
    obtain ⟨_, hready⟩ := hfree.ready
    exact carriedOut_iff hinspect (scopeReady_tokens hready) (.of_eq (cleanActions_eq hfree))
      (afterProofs_remainder hfree hlisted)
  | forget options given =>
    simp only [Cleaning.plan, forgetPlan, ok_iff] at hplan
    obtain ⟨-, targets, htargets, -, s', hs', rfl⟩ := hplan
    obtain rfl : s = s' := Except.ok.inj (hinspect.symm.trans hs')
    simp only [forgetBlockers, List.append_eq_nil_iff, blocker_eq_nil, forgetProofs_unblocked] at hblockers
    obtain ⟨⟨⟨⟨⟨⟨_, hready⟩, -⟩, -⟩, lineage, refs, hforget⟩, -⟩, -⟩ := hblockers
    have hproofs : (Cleaning.forget options given).proofs s d = refs := by
      simp only [Cleaning.proofs, htargets, Except.bind, hforget.read]
    rw [hproofs]
    exact carriedOut_iff hinspect (scopeReady_tokens hready) (forgetActions_perm hforget)
      (forgottenKeys_remainder hforget hlisted)

end Carried

section Sample

attribute [local instance] symbolicDigests

theorem protectedSubtree_listed : Listed protectedSubtree :=
  ⟨by unfold OneValue; decide, by decide, by decide⟩

/-- With one proof a recursive clean is carried out to its end. -/
theorem protectedSubtree_carried_out : ∃ plan,
    (Cleaning.clean ⟨true, true⟩ none).plan protectedSubtree ⟨9, 9⟩ ["tank"] anySafety = .ok plan ∧
      CarriedOut ["tank"] true plan.actions protectedSubtree := by
  obtain ⟨plan, hplan⟩ : ∃ plan,
    (Cleaning.clean ⟨true, true⟩ none).plan protectedSubtree ⟨9, 9⟩ ["tank"] anySafety = .ok plan := ⟨_, rfl⟩
  refine ⟨plan, hplan, (plan_carried_out_iff protectedSubtree_listed (State.inspect_eq_ok.mpr ⟨by decide, rfl⟩) hplan
    (by cases hplan; decide)).mpr (by decide)⟩

def ownMemberProof : Reference := ⟨⟨"local:backup"⟩, ["tank", "a"], sampleMetadata, false⟩

def overlappingSubtree : State where
  objects := protectedSubtree.objects
  properties := protectedSubtree.properties ++
    [⟨.dataset ["tank"], ownMemberProof.property, .reference (encodeReference ownMemberProof ["tank"]), .sourceLocal⟩]
  holds := protectedSubtree.holds
  distinct := by decide

/-- Both proofs release the member's hold, and the clean stops at the second release. -/
theorem overlappingSubtree_stops : Listed overlappingSubtree ∧ ∃ plan,
    (Cleaning.clean ⟨true, false⟩ none).plan overlappingSubtree ⟨9, 9⟩ ["tank"] anySafety = .ok plan ∧
      plan.blockers = [] ∧ ¬plan.actions.Nodup ∧
      carryOut ["tank"] true plan.actions overlappingSubtree = .error (.plain "no such tag on this dataset") := by
  refine ⟨⟨by unfold OneValue; decide, by decide, by decide⟩, ?_⟩
  obtain ⟨plan, hplan⟩ : ∃ plan,
    (Cleaning.clean ⟨true, false⟩ none).plan overlappingSubtree ⟨9, 9⟩ ["tank"] anySafety = .ok plan := ⟨_, rfl⟩
  exact ⟨plan, hplan, by cases hplan; decide, by cases hplan; decide, by cases hplan; decide⟩

end Sample

end Boomerangz.Lifecycle
