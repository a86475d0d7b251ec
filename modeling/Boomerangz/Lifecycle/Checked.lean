import Boomerangz.Lib.Maps
import Boomerangz.Lifecycle.Recognised

/-! # The check between two destructive commands

`cleanTransition` on inspections in memory, where a collection may be nil.
-/

open Maps Boomerangz.Zfs.Text

namespace Boomerangz.Lifecycle.Text

/-! ## Inspections and actions -/

abbrev ListMap := Map (List Char) (Option (List (List Char)))

/-- `zfs.State`. -/
structure Inspected where
  objects : Option (List ObjectRow)
  properties : Option (List Row)
  received : Map (List Char) (Map (List Char) (List Char))
  resumeTokens : Map (List Char) (List Char)
  clones : ListMap
  holds : ListMap

inductive Operation where
  | destroySnapshot
  | destroyBookmark
  | release
  | inherit
  | unknown
deriving DecidableEq, Repr

structure Action where
  operation : Operation
  object : List Char
  property : List Char
deriving DecidableEq, Repr

/-- What a difference says. The texts are joined by "; ", and none of them is empty. -/
inductive Difference where
  | received (key object value was : List Char)
  | objectMissing (name : List Char)
  | objectAppeared (name : List Char)
  | propertyMissing (p : Row)
  | propertyAppeared (p : Row)
  | reordered
  | holds (after expected : ListMap)
  | clones (after expected : ListMap)
  | resumeTokens
  | state

namespace Action

def destroys (a : Action) (n : List Char) : Bool :=
  match a.operation with
  | .destroySnapshot | .destroyBookmark => n == a.object
  | _ => false

def releases (a : Action) (n t : List Char) : Bool :=
  match a.operation with
  | .release => n == a.object && t == a.property
  | _ => false

def inherits (a : Action) (p : Row) : Bool :=
  match a.operation with
  | .inherit => p.dataset == a.object && p.name == a.property
  | _ => false

end Action

/-! ## The check -/

/-- The state before with exactly the action applied, but for its received values. -/
def expectedOf (before : Inspected) (a : Action) : Option Inspected :=
  match a.operation with
  | .destroySnapshot | .destroyBookmark => some { before with
      objects := before.objects.map (List.filter (!·.name == a.object))
      properties := before.properties.map (List.filter (!·.dataset == a.object))
      holds := before.holds.erase a.object
      clones := before.clones.erase a.object
      resumeTokens := before.resumeTokens.erase a.object }
  | .release =>
    if before.holds.entries.isNone then none
    else some { before with
      holds := before.holds.store a.object ((before.holds.get a.object).join.map (List.filter (!· == a.property))) }
  | .inherit => some { before with
      properties := before.properties.map (List.filter fun p => !(p.dataset == a.object && p.name == a.property)) }
  | .unknown => some before

def Inspected.receivedAt (s : Inspected) (o k : List Char) : Option (List Char) := (s.received.get o).bind (·.get k)

/-- The first received value that is not what it was. -/
def changedReceived (before after : Inspected) : Option Difference :=
  after.received.list.findSome? fun e => e.2.list.findSome? fun f =>
    if (before.receivedAt e.1 f.1).getD [] ≠ f.2 then
      some (.received f.1 e.1 f.2 ((before.receivedAt e.1 f.1).getD []))
    else none

def normalizeValues (m : ListMap) : ListMap :=
  (m.filter fun e => !(e.2.getD []).isEmpty).orNil

def normalize (s : Inspected) : Inspected := { s with
  properties := if (s.properties.getD []).isEmpty then none else s.properties
  holds := normalizeValues s.holds
  clones := normalizeValues s.clones
  resumeTokens := s.resumeTokens.orNil }

/-- `reflect.DeepEqual` of two states without their received values. -/
def deepEqual (s s' : Inspected) : Bool :=
  s.objects == s'.objects && s.properties == s'.properties && s.resumeTokens.deepEqual s'.resumeTokens &&
    s.clones.deepEqual s'.clones && s.holds.deepEqual s'.holds

def listDifferences (expected after : Inspected) : List Difference :=
  let objects := expected.objects.getD []
  let objects' := after.objects.getD []
  let properties := expected.properties.getD []
  let properties' := after.properties.getD []
  let listed := (objects.filter (!objects'.contains ·)).map (.objectMissing ·.name) ++
    (objects'.filter (!objects.contains ·)).map (.objectAppeared ·.name) ++
    (properties.filter (!properties'.contains ·)).map .propertyMissing ++
    (properties'.filter (!properties.contains ·)).map .propertyAppeared
  let listed := if listed.isEmpty && (objects != objects' || properties != properties')
    then [.reordered] else listed
  let listed := listed ++
    (if expected.holds.deepEqual after.holds then [] else [.holds after.holds expected.holds]) ++
    (if expected.clones.deepEqual after.clones then [] else [.clones after.clones expected.clones]) ++
    if expected.resumeTokens.deepEqual after.resumeTokens then [] else [.resumeTokens]
  if listed.isEmpty then [.state] else listed

/-- `cleanTransition`: nothing where it would panic. -/
def checkTransition (before after : Inspected) (a : Action) : Option (List Difference) := do
  let expected ← expectedOf before a
  match changedReceived before after with
  | some difference => return [difference]
  | none =>
    if deepEqual (normalize expected) (normalize after) then return []
    else return listDifferences (normalize expected) (normalize after)

/-! ## What the action is to do -/

def valuesIn (m : ListMap) (n : List Char) : List (List Char) :=
  (m.get n).join.getD []

structure CarriesOut (before after : Inspected) (a : Action) : Prop where
  objects : after.objects.getD [] = (before.objects.getD []).filter (!a.destroys ·.name)
  properties : after.properties.getD [] =
    (before.properties.getD []).filter fun p => !a.destroys p.dataset && !a.inherits p
  holds : ∀ n, valuesIn after.holds n = if a.destroys n then [] else (valuesIn before.holds n).filter (!a.releases n ·)
  clones : ∀ n, valuesIn after.clones n = if a.destroys n then [] else valuesIn before.clones n
  resumeTokens : ∀ n, after.resumeTokens.get n = if a.destroys n then none else before.resumeTokens.get n

def KeepsReceived (before after : Inspected) : Prop :=
  ∀ o k v, after.receivedAt o k = some v → before.receivedAt o k = some v

def Intended (before after : Inspected) (a : Action) : Prop := CarriesOut before after a ∧ KeepsReceived before after

/-- The check says whether the action, and nothing else, was carried out. -/
def Judges (before after : Inspected) (a : Action) : Prop :=
  ∃ differences, checkTransition before after a = some differences ∧ (differences = [] ↔ Intended before after a)

def SameNil (before after : Inspected) : Prop := before.objects = none ↔ after.objects = none

def ReadsReceived (before after : Inspected) : Prop :=
  ∀ o k v, after.receivedAt o k = some v → (before.receivedAt o k).getD [] = v

/-- A hold is released in a state whose holds are not nil, a list of objects does not become nil, and no
received value appears that is empty, where nothing else is wrong. -/
structure Judgeable (before after : Inspected) (a : Action) : Prop where
  held : a.operation = .release → before.holds.entries ≠ none
  objects : Intended before after a → SameNil before after
  received : CarriesOut before after a → SameNil before after → ReadsReceived before after →
    ∀ o k, after.receivedAt o k = some [] → before.receivedAt o k = some []

section Check

variable {before after expected : Inspected} {a : Action}

/-! ## The expected state -/

theorem expectedOf_isSome : (∃ expected, expectedOf before a = some expected) ↔
    (a.operation = .release → before.holds.entries ≠ none) := by
  rcases a with ⟨operation, object, property⟩
  cases operation <;> simp [expectedOf]

theorem map_filter_true {α : Type} (l : Option (List α)) : l.map (List.filter fun _ => true) = l := by
  cases l <;> simp

theorem valuesIn_erase (m : ListMap) (o n : List Char) :
    valuesIn (m.erase o) n = if n = o then [] else valuesIn m n := by
  rw [valuesIn, Map.get_erase]
  split <;> rfl

theorem valuesIn_store (m : ListMap) (o n : List Char)
    (v : Option (List (List Char))) : valuesIn (m.store o v) n = if n = o then v.getD [] else valuesIn m n := by
  rw [valuesIn, Map.get_store]
  split <;> rfl

theorem getD_map_filter {α : Type} (p : α → Bool) (l : Option (List α)) :
    (l.map (List.filter p)).getD [] = (l.getD []).filter p := by
  cases l <;> rfl

theorem expectedOf_spec (h : expectedOf before a = some expected) :
    expected.objects = before.objects.map (List.filter (!a.destroys ·.name)) ∧
    expected.properties = before.properties.map (List.filter fun p => !a.destroys p.dataset && !a.inherits p) ∧
    (∀ n, valuesIn expected.holds n =
      if a.destroys n then [] else (valuesIn before.holds n).filter (!a.releases n ·)) ∧
    (∀ n, valuesIn expected.clones n = if a.destroys n then [] else valuesIn before.clones n) ∧
    ∀ n, expected.resumeTokens.get n = if a.destroys n then none else before.resumeTokens.get n := by
  rcases a with ⟨operation, object, property⟩
  cases operation with
  | destroySnapshot | destroyBookmark =>
    cases h
    simp [Action.destroys, Action.inherits, Action.releases, valuesIn_erase, Map.get_erase]
  | release =>
    simp only [expectedOf] at h
    split at h
    next => cases h
    next =>
      cases h
      refine ⟨(map_filter_true _).symm, (map_filter_true _).symm, fun n => ?_, fun n => rfl, fun n => rfl⟩
      rw [valuesIn_store, getD_map_filter]
      by_cases hn : n = object
      · subst hn
        simp [Action.destroys, Action.releases, valuesIn]
      · simp [Action.destroys, Action.releases, hn, beq_false_of_ne hn]
  | inherit | unknown =>
    cases h
    simp [Action.destroys, Action.inherits, Action.releases, map_filter_true]

/-! ## The comparison -/

theorem deepEqual_normalizeValues {m m' : ListMap} :
    (normalizeValues m).deepEqual (normalizeValues m') = true ↔ ∀ n, valuesIn m n = valuesIn m' n := by
  have hget : ∀ (m : ListMap) n,
      (m.filter fun e => !(e.2.getD []).isEmpty).get n =
        if valuesIn m n = [] then none else some (some (valuesIn m n)) := by
    intro m n
    rw [Map.get_filter, valuesIn]
    rcases m.get n with _ | _ | _ | ⟨t, ts⟩ <;> rfl
  rw [normalizeValues, normalizeValues, Map.deepEqual_orNil]
  simp only [hget]
  refine forall_congr' fun n => ⟨fun h => ?_, fun h => by rw [h]⟩
  split at h <;> split at h <;> simp_all

theorem orNone_eq_iff {α : Type} {l l' : Option (List α)} :
    (if (l.getD []).isEmpty then none else l) = (if (l'.getD []).isEmpty then none else l') ↔ l.getD [] = l'.getD [] := by
  rcases l with _ | _ | ⟨x, xs⟩ <;> rcases l' with _ | _ | ⟨y, ys⟩ <;> simp

theorem eq_iff_getD {α : Type} {l l' : Option (List α)} :
    l = l' ↔ l.getD [] = l'.getD [] ∧ (l = none ↔ l' = none) := by
  cases l <;> cases l' <;> simp

theorem deepEqual_normalize (h : expectedOf before a = some expected) :
    deepEqual (normalize expected) (normalize after) = true ↔ CarriesOut before after a ∧ SameNil before after := by
  obtain ⟨hobjects, hproperties, hholds, hclones, htokens⟩ := expectedOf_spec h
  have hnil : (expected.objects = none ↔ after.objects = none) ↔ SameNil before after := by
    rw [hobjects, Option.map_eq_none_iff, SameNil]
  rw [deepEqual, Bool.and_eq_true, Bool.and_eq_true, Bool.and_eq_true, Bool.and_eq_true, beq_iff_eq, beq_iff_eq]
  simp only [normalize, orNone_eq_iff, deepEqual_normalizeValues, Map.deepEqual_orNil, hholds, hclones, htokens]
  rw [eq_iff_getD, hnil, hobjects, hproperties, getD_map_filter, getD_map_filter]
  constructor
  · rintro ⟨⟨⟨⟨⟨hobjects, hnil⟩, hproperties⟩, htokens⟩, hclones⟩, hholds⟩
    exact ⟨⟨hobjects.symm, hproperties.symm, fun n => (hholds n).symm, fun n => (hclones n).symm,
      fun n => (htokens n).symm⟩, hnil⟩
  · rintro ⟨hcarries, hnil⟩
    exact ⟨⟨⟨⟨⟨hcarries.objects.symm, hnil⟩, hcarries.properties.symm⟩, fun n => (hcarries.resumeTokens n).symm⟩,
      fun n => (hcarries.clones n).symm⟩, fun n => (hcarries.holds n).symm⟩

theorem changedReceived_eq_none : changedReceived before after = none ↔ ReadsReceived before after := by
  simp only [changedReceived, List.findSome?_eq_none_iff, Prod.forall, ← Map.get_eq_some, ite_eq_right_iff,
    reduceCtorEq, imp_false, not_not, ReadsReceived, Inspected.receivedAt, Option.bind_eq_some_iff]
  constructor
  · rintro h o k v ⟨values, hvalues, hv⟩
    exact h o values hvalues k v hv
  · intro h o values hvalues k v hv
    exact h o k v ⟨values, hvalues, hv⟩

theorem listDifferences_ne_nil (s s' : Inspected) : listDifferences s s' ≠ [] := by
  unfold listDifferences
  extract_lets
  split
  next => exact List.cons_ne_nil _ _
  next h => exact fun hnil => h (List.isEmpty_iff.mpr hnil)

theorem checkTransition_eq_nil (h : expectedOf before a = some expected) :
    ∃ differences, checkTransition before after a = some differences ∧
      (differences = [] ↔ CarriesOut before after a ∧ SameNil before after ∧ ReadsReceived before after) := by
  rw [← and_assoc, ← deepEqual_normalize h, ← changedReceived_eq_none]
  simp only [checkTransition, h, Option.bind_eq_bind, Option.bind_some]
  cases changedReceived before after with
  | some difference => exact ⟨_, rfl, by simp⟩
  | none =>
    cases hequal : deepEqual (normalize expected) (normalize after) with
    | true => exact ⟨_, rfl, by simp⟩
    | false => exact ⟨_, rfl, by simp [listDifferences_ne_nil]⟩

theorem KeepsReceived.reads (h : KeepsReceived before after) : ReadsReceived before after := by
  intro o k v hv
  rw [h o k v hv, Option.getD_some]

theorem ReadsReceived.keeps_iff (h : ReadsReceived before after) :
    KeepsReceived before after ↔ ∀ o k, after.receivedAt o k = some [] → before.receivedAt o k = some [] := by
  refine ⟨fun hkeeps o k => hkeeps o k [], fun hblank o k v hv => ?_⟩
  cases hbefore : before.receivedAt o k with
  | some w =>
    have hw := h o k v hv
    rw [hbefore, Option.getD_some] at hw
    rw [hw]
  | none =>
    have hempty := h o k v hv
    rw [hbefore, Option.getD_none] at hempty
    subst hempty
    exact (hbefore ▸ hblank o k hv)

end Check

/-- The check between two commands reports nothing exactly after what the action is to do, and a difference
otherwise, for states that are judgeable and no others. -/
theorem transition_judged (before after : Inspected) (a : Action) :
    Judges before after a ↔ Judgeable before after a := by
  constructor
  · rintro ⟨differences, hcheck, hiff⟩
    obtain ⟨expected, hexpected⟩ : ∃ expected, expectedOf before a = some expected := by
      cases h : expectedOf before a with
      | none => simp [checkTransition, h] at hcheck
      | some expected => exact ⟨expected, rfl⟩
    obtain ⟨differences', hcheck', hnil⟩ := @checkTransition_eq_nil before after expected a hexpected
    obtain rfl := Option.some.inj (hcheck.symm.trans hcheck')
    refine ⟨expectedOf_isSome.mp ⟨expected, hexpected⟩, fun h => (hnil.mp (hiff.mpr h)).2.1, ?_⟩
    intro hcarries hsame hreads
    exact hreads.keeps_iff.mp (hiff.mp (hnil.mpr ⟨hcarries, hsame, hreads⟩)).2
  · intro h
    obtain ⟨expected, hexpected⟩ := expectedOf_isSome.mpr h.held
    obtain ⟨differences, hcheck, hnil⟩ := @checkTransition_eq_nil before after expected a hexpected
    refine ⟨differences, hcheck, hnil.trans ⟨?_, ?_⟩⟩
    · rintro ⟨hcarries, hsame, hreads⟩
      exact ⟨hcarries, hreads.keeps_iff.mpr (h.received hcarries hsame hreads)⟩
    · intro hintended
      exact ⟨hintended.1, h.objects hintended, hintended.2.reads⟩

def pearlInspected (settings : List String) (received : List (List Char × List Char))
    (h : (received.map Prod.fst).Nodup) : Inspected where
  objects := some [⟨"pearl".toList, "filesystem".toList, 1, 0, 1⟩]
  properties := some (settings.map fun k => ⟨"pearl".toList, k.toList, "on".toList, "local".toList⟩)
  received := ⟨some [("pearl".toList, ⟨some received, h⟩)], List.nodup_singleton _⟩
  resumeTokens := .empty
  clones := .empty
  holds := .empty

def pearlInherit : Action := ⟨.inherit, "pearl".toList, "org.boomerangz:enabled".toList⟩

/-- While a setting is inherited an empty value is received for another one, behind the local value. -/
theorem blank_unnoticed : ∃ before after, checkTransition before after pearlInherit = some [] ∧
    ¬ Intended before after pearlInherit := by
  refine ⟨pearlInspected ["org.boomerangz:enabled", "org.boomerangz:replicate"] [] List.nodup_nil,
    pearlInspected ["org.boomerangz:replicate"] [("org.boomerangz:replicate".toList, [])] (List.nodup_singleton _),
    rfl, ?_⟩
  intro h
  cases h.2 "pearl".toList "org.boomerangz:replicate".toList [] rfl

theorem inherit_judged : Judges (pearlInspected ["org.boomerangz:enabled"] [] List.nodup_nil)
    (pearlInspected [] [] List.nodup_nil) pearlInherit := by
  refine (transition_judged _ _ _).mpr ⟨by rintro ⟨⟩, fun _ => ⟨by rintro ⟨⟩, by rintro ⟨⟩⟩, ?_⟩
  intro _ _ _ o k h
  obtain ⟨values, hvalues, hk⟩ := Option.bind_eq_some_iff.mp h
  obtain ⟨-, rfl⟩ := Prod.mk.inj (List.mem_singleton.mp (Map.get_eq_some.mp hvalues))
  cases hk

end Boomerangz.Lifecycle.Text
