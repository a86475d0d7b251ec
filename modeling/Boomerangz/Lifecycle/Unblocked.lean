import Boomerangz.Lifecycle.Planned
import Boomerangz.Lifecycle.Transition

/-! # Plans that nothing blocks

What the absence of blockers says about a scope, and the actions of such a plan.
-/

namespace Boomerangz.Lifecycle

open Check Zfs

theorem blocker_eq_nil {α : Type} {x : Except Error α} : blocker x = [] ↔ ∃ a, x = .ok a := by
  cases x <;> simp [blocker]

/-! ## One proof -/

def sourceGUID (s : State) (r : Reference) (x : Dataset) : Nat :=
  match r.sourceOn s x with
  | .ok (some source) => source.guid
  | _ => 0

def dropsOn (s : State) (r : Reference) (x : Dataset) : List CleanAction :=
  (if s.held (r.snapshotOn x) r.hold then [.release (r.snapshotOn x) r.hold (sourceGUID s r x)] else []) ++
    if s.hasObject (r.bookmarkOn x) then [.destroyBookmark x r.mark (sourceGUID s r x)] else []

def proofActions (s : State) (r : Reference) : List CleanAction := (r.candidates s).flatMap (dropsOn s r)

structure ProofOk (s : State) (lineage : Option ID) (r : Reference) : Prop where
  sources : ∀ x ∈ r.candidates s, ∃ o, r.sourceOn s x = .ok o
  proven : ∀ x ∈ r.candidates s, s.held (r.snapshotOn x) r.hold = true →
    lineage.any (provenOn s · r ⟨x, sourceGUID s r x⟩) = true

section Proof

variable {s : State} {r : Reference} {x : Dataset} {lineage : Option ID} {sources : List ReferenceSource}

theorem hasObject_of_object_none {n : Name} (h : s.object n = none) : s.hasObject n = false := by
  rw [Bool.eq_false_iff, Ne, ← State.object_isSome_iff, h]
  simp

theorem sourceOn_eq_ok {o : Option ReferenceSource} (h : r.sourceOn s x = .ok o) :
    o = if s.held (r.snapshotOn x) r.hold || s.hasObject (r.bookmarkOn x) then some ⟨x, sourceGUID s r x⟩ else none := by
  have hguid : sourceGUID s r x = (o.map ReferenceSource.guid).getD 0 := by
    rw [sourceGUID, h]
    cases o <;> rfl
  rw [hguid]
  unfold Reference.sourceOn at h
  cases hb : s.object (r.bookmarkOn x) with
  | some b =>
    rw [hb] at h
    rw [State.hasObject_of_object hb, Bool.or_true, if_pos rfl]
    cases ho : s.object (r.snapshotOn x) with
    | some o' =>
      simp only [ho] at h
      split at h <;> cases h
      rfl
    | none =>
      simp only [ho] at h
      cases h
      rfl
  | none =>
    rw [hb] at h
    rw [hasObject_of_object_none hb, Bool.or_false]
    cases ho : s.object (r.snapshotOn x) with
    | some o' =>
      simp only [ho, Except.ok.injEq] at h
      subst h
      split <;> rfl
    | none =>
      simp only [ho] at h
      split at h <;> cases h
      rename_i hheld
      rw [if_neg hheld]

theorem sources_eq (h : r.sources s = .ok sources) :
    sources = (r.candidates s).flatMap fun x =>
      if s.held (r.snapshotOn x) r.hold || s.hasObject (r.bookmarkOn x) then [⟨x, sourceGUID s r x⟩] else [] := by
  obtain ⟨hok, rfl⟩ := collect_eq_ok.mp h
  refine List.flatMap_congr fun x hx => ?_
  obtain ⟨o, ho⟩ := hok x hx
  rw [ho, sourceOn_eq_ok ho]
  split <;> rfl

theorem cleanSource_unblocked {g : Nat} : (cleanSource s lineage r ⟨x, g⟩).2 = [] ↔
    (s.held (r.snapshotOn x) r.hold = true → lineage.any (provenOn s · r ⟨x, g⟩) = true) := by
  unfold cleanSource
  cases hheld : s.held (r.snapshotOn x) r.hold <;> cases lineage.any (provenOn s · r ⟨x, g⟩) <;> simp [hheld]

theorem cleanSource_actions
    (h : s.held (r.snapshotOn x) r.hold = true → lineage.any (provenOn s · r ⟨x, sourceGUID s r x⟩) = true) :
    (cleanSource s lineage r ⟨x, sourceGUID s r x⟩).1 = dropsOn s r x := by
  unfold cleanSource dropsOn
  cases hheld : s.held (r.snapshotOn x) r.hold with
  | false => simp [hheld]
  | true => simp [hheld, h hheld]

theorem cleanReference_unblocked {safety : CleanSafety} {name : Dataset} :
    (cleanReference s safety name lineage r).2 = [] ↔
      (∃ u, safety.checkTarget name r.targetID = .ok u) ∧ ProofOk s lineage r := by
  unfold cleanReference
  cases hsources : r.sources s with
  | error e =>
    have : ¬ProofOk s lineage r := by
      intro h
      obtain ⟨sources, hok⟩ := collect_ok h.sources
      rw [Reference.sources, hok] at hsources
      cases hsources
    simp [this]
  | ok sources =>
    simp only [List.append_eq_nil_iff, blocker_eq_nil, List.flatMap_eq_nil_iff]
    refine and_congr_right fun _ => ⟨fun h => ⟨(collect_eq_ok.mp hsources).1, ?_⟩, fun h => ?_⟩
    · intro x hx hheld
      refine cleanSource_unblocked.mp (h ⟨x, sourceGUID s r x⟩ ?_) hheld
      rw [sources_eq hsources, List.mem_flatMap]
      exact ⟨x, hx, by simp [hheld]⟩
    · intro source hsource
      rw [sources_eq hsources, List.mem_flatMap] at hsource
      obtain ⟨x, hx, hsource⟩ := hsource
      split at hsource
      · obtain rfl := List.mem_singleton.mp hsource
        exact cleanSource_unblocked.mpr (h.proven x hx)
      · simp at hsource

theorem cleanReference_actions {safety : CleanSafety} {name : Dataset} (h : ProofOk s lineage r) :
    (cleanReference s safety name lineage r).1 = proofActions s r := by
  obtain ⟨sources, hok⟩ := collect_ok h.sources
  have hsources : r.sources s = .ok sources := hok
  simp only [cleanReference, hsources, proofActions]
  rw [sources_eq hsources, List.flatMap_assoc]
  refine List.flatMap_congr fun x hx => ?_
  split
  · simp only [List.flatMap_cons, List.flatMap_nil, List.append_nil]
    exact cleanSource_actions (h.proven x hx)
  · rename_i hnone
    simp only [Bool.not_eq_true, Bool.or_eq_false_iff] at hnone
    simp [dropsOn, hnone]

end Proof

/-! ## One dataset -/

structure LineagesOk (s : State) (options : CleanOptions) (name : Dataset) (lineage : Option ID) : Prop where
  one : ∀ l ∈ candidateLineages s name, ∀ l' ∈ candidateLineages s name, l = l'
  own : ∀ l, lineage = some l → candidateLineages s name ≠ [] → l ∈ candidateLineages s name
  adopted : options.destroyOwnedSnapshots = true → lineage = none → candidateLineages s name = []

structure DatasetOk (s : State) (d : Dataset) (options : CleanOptions) (safety : CleanSafety) (name : Dataset)
    (lineage : Option ID) (refs : List Reference) : Prop where
  lineage_eq : cleanLineage s d name = .ok lineage
  lineages : LineagesOk s options name lineage
  records : referenceRecords s name lineage = .ok refs
  targets : ∀ r ∈ refs, ∃ u, safety.checkTarget name r.targetID = .ok u
  proofs : ∀ r ∈ refs, ProofOk s lineage r

def proofsOn (s : State) (d name : Dataset) : List Reference :=
  match cleanLineage s d name with
  | .error _ => []
  | .ok lineage => ((referenceRecords s name lineage).toOption).getD []

section Datasets

variable {s : State} {d name : Dataset} {options : CleanOptions} {safety : CleanSafety}

theorem one_lt_length_of_nodup {α : Type} {l : List α} (h : l.Nodup) :
    ¬1 < l.length ↔ ∀ a ∈ l, ∀ b ∈ l, a = b := by
  match l, h with
  | [], _ => simp
  | [a], _ => simp
  | a :: b :: l, h =>
    simp only [List.nodup_cons, List.mem_cons, not_or] at h
    simp only [List.length_cons, List.mem_cons]
    refine ⟨fun hlt => absurd hlt (by omega), fun hall => ?_⟩
    exact absurd (hall a (.inl rfl) b (.inr (.inl rfl))) h.1.1

theorem lineages_unblocked {lineage : Option ID} :
    (¬(1 < (candidateLineages s name).length || lineage.any fun l =>
        !(candidateLineages s name).isEmpty && !(candidateLineages s name).contains l) = true ∧
      ¬(options.destroyOwnedSnapshots && lineage.isNone && !(candidateLineages s name).isEmpty) = true) ↔
      LineagesOk s options name lineage := by
  have hnodup : (candidateLineages s name).Nodup := List.nodup_dedup _
  constructor
  · rintro ⟨hconflict, hadopted⟩
    simp only [Bool.or_eq_true, decide_eq_true_eq, not_or] at hconflict
    refine ⟨(one_lt_length_of_nodup hnodup).mp hconflict.1, ?_, ?_⟩
    · rintro l rfl hne
      simpa [hne] using hconflict.2
    · rintro hdestroy rfl
      simpa [hdestroy] using hadopted
  · rintro ⟨hone, hown, hadopted⟩
    constructor
    · simp only [Bool.or_eq_true, decide_eq_true_eq, not_or]
      refine ⟨(one_lt_length_of_nodup hnodup).mpr hone, ?_⟩
      cases lineage with
      | none => simp
      | some l => simpa using hown l rfl
    · cases lineage with
      | none => simpa using fun hdestroy => hadopted hdestroy rfl
      | some l => simp

theorem cleanDataset_unblocked : (cleanDataset s d options safety name).2 = [] ↔
    ∃ lineage refs, DatasetOk s d options safety name lineage refs := by
  unfold cleanDataset
  cases hlineage : cleanLineage s d name with
  | error e =>
    simp only [List.cons_ne_nil, false_iff]
    rintro ⟨lineage, refs, h⟩
    rw [h.lineage_eq] at hlineage
    cases hlineage
  | ok lineage =>
    cases hrefs : referenceRecords s name lineage with
    | error e =>
      simp only [hrefs, List.append_eq_nil_iff, List.cons_ne_nil, and_false, false_iff]
      rintro ⟨lineage', refs, h⟩
      obtain rfl : lineage = lineage' := Except.ok.inj (hlineage.symm.trans h.lineage_eq)
      rw [h.records] at hrefs
      cases hrefs
    | ok refs =>
      simp only [hrefs, List.append_eq_nil_iff, ite_eq_right_iff, List.cons_ne_nil, imp_false,
        List.flatMap_eq_nil_iff, cleanReference_unblocked]
      rw [lineages_unblocked]
      constructor
      · rintro ⟨hlineages, hall⟩
        exact ⟨lineage, refs, hlineage, hlineages, hrefs, fun r hr => (hall r hr).1, fun r hr => (hall r hr).2⟩
      · rintro ⟨lineage', refs', h⟩
        obtain rfl : lineage = lineage' := Except.ok.inj (hlineage.symm.trans h.lineage_eq)
        obtain rfl : refs = refs' := Except.ok.inj (hrefs.symm.trans h.records)
        exact ⟨h.lineages, fun r hr => ⟨h.targets r hr, h.proofs r hr⟩⟩

theorem DatasetOk.proofsOn_eq {lineage : Option ID} {refs : List Reference}
    (h : DatasetOk s d options safety name lineage refs) : proofsOn s d name = refs := by
  simp [proofsOn, h.lineage_eq, h.records, Except.toOption]

theorem DatasetOk.actions {lineage : Option ID} {refs : List Reference}
    (h : DatasetOk s d options safety name lineage refs) :
    (cleanDataset s d options safety name).1 = (proofsOn s d name).flatMap (proofActions s) := by
  simp only [cleanDataset, h.lineage_eq, h.records, h.proofsOn_eq]
  exact List.flatMap_congr fun r hr => cleanReference_actions (h.proofs r hr)

end Datasets

/-! ## The scope -/

def scopeProofs (s : State) (d : Dataset) : List Reference := (scopeDatasets s).flatMap (proofsOn s d)

structure Unblocked (s : State) (d : Dataset) (options : CleanOptions) (safety : CleanSafety) : Prop where
  ready : ∃ u, scopeReady s d = .ok u
  readable : ∃ u, recordsReadable s d = .ok u
  quiescent : ∃ u, safety.quiescent (scopeDatasets s) = .ok u
  lineage : ∃ l, storedLineage s d = .ok l
  datasets : ∀ name ∈ scopeDatasets s, ∃ lineage refs, DatasetOk s d options safety name lineage refs
  holds : ∀ n t, isOwnTag t = true → s.held n t = true → ∃ r ∈ scopeProofs s d,
    .release t n ∈ (proofActions s r).map CleanAction.command
  marks : ∀ x m, isOwnMark m = true → s.hasObject (.bookmark x m) = true → ∃ r ∈ scopeProofs s d,
    .destroyBookmark x m ∈ (proofActions s r).map CleanAction.command

section Scope

variable {s : State} {d : Dataset} {options : CleanOptions} {safety : CleanSafety}

theorem cleanProofs_eq
    (h : ∀ name ∈ scopeDatasets s, ∃ lineage refs, DatasetOk s d options safety name lineage refs) :
    cleanProofs s d options safety = (scopeProofs s d).flatMap (proofActions s) := by
  rw [cleanProofs, scopeProofs, List.flatMap_assoc]
  refine List.flatMap_congr fun name hname => ?_
  obtain ⟨lineage, refs, hok⟩ := h name hname
  exact hok.actions

theorem cleanBlockers_eq_nil {installation : ID} {retirement : Option Retirement} {activation : List Property} :
    cleanBlockers s installation d options safety retirement activation = [] ↔ Unblocked s d options safety ∧
      (match retirement with
        | some r => retirementBlockers s d installation activation r
        | none => activationBlockers activation (scopeDatasets s)) = [] ∧
      (retirement.isSome = true → cleanSnapshots s d options safety true = []) := by
  have hmem : ∀ c, c ∈ (((scopeProofs s d).flatMap (proofActions s)).map CleanAction.command) ↔
      ∃ r ∈ scopeProofs s d, c ∈ (proofActions s r).map CleanAction.command := by
    intro c
    rw [List.map_flatMap, List.mem_flatMap]
  simp only [cleanBlockers, List.append_eq_nil_iff, blocker_eq_nil, List.flatMap_eq_nil_iff, cleanDataset_unblocked,
    ite_eq_right_iff, List.map_eq_nil_iff]
  constructor
  · rintro ⟨⟨⟨⟨⟨⟨⟨hready, hreadable⟩, hmode⟩, hquiescent⟩, hlineage⟩, hdatasets⟩, hunproven⟩, hdependent⟩
    rw [cleanProofs_eq hdatasets] at hunproven
    obtain ⟨hholds, hmarks⟩ := unprovenBlockers_eq_nil.mp hunproven
    refine ⟨⟨hready, hreadable, hquiescent, hlineage, hdatasets, ?_, ?_⟩, hmode, hdependent⟩
    · exact fun n t ht hheld => (hmem _).mp (hholds n t ht hheld)
    · exact fun x m hm hx => (hmem _).mp (hmarks x m hm hx)
  · rintro ⟨h, hmode, hdependent⟩
    refine ⟨⟨⟨⟨⟨⟨⟨h.ready, h.readable⟩, hmode⟩, h.quiescent⟩, h.lineage⟩, h.datasets⟩, ?_⟩, hdependent⟩
    rw [cleanProofs_eq h.datasets]
    refine unprovenBlockers_eq_nil.mpr ⟨?_, ?_⟩
    · exact fun n t ht hheld => (hmem _).mpr (h.holds n t ht hheld)
    · exact fun x m hm hx => (hmem _).mpr (h.marks x m hm hx)

end Scope

end Boomerangz.Lifecycle
