import Boomerangz.Lifecycle.Forget
import Boomerangz.Zfs.Removal

/-! # Carrying out a plan

After every action only its exact effect may become the baseline for the next one.
-/

namespace Boomerangz.Lifecycle

open Check Zfs

/-! ## The check after an action -/

def valuesOf {α : Type} (rows : List (Name × α)) (n : Name) : List α := (rows.filter (·.1 == n)).map Prod.snd

def sameValues {α : Type} [DecidableEq α] (rows rows' : List (Name × α)) : Bool :=
  (rows ++ rows').all fun r => valuesOf rows r.1 == valuesOf rows' r.1

/-- The state before with exactly the action applied. -/
def expectedAfter (before : State) (a : CleanAction) : State :=
  match a with
  | .destroyBookmark d m _ => before.erase (.bookmark d m)
  | .destroySnapshot n _ => before.erase n
  | .release n t _ => { before with holds := before.holds.filter (· != (n, t)) }
  | .inherit n k => { before with properties := before.properties.filter fun p => !(p.dataset == n && p.name == k) }

/-- The differences `cleanTransition` lists, in its order. -/
def differences (expected after : State) : List Error :=
  let listed := (expected.objects.filter (!after.objects.contains ·)).map
      (fun o => Error.message "object %s missing" [.name o.name]) ++
    (after.objects.filter (!expected.objects.contains ·)).map
      (fun o => Error.message "object %s appeared" [.name o.name]) ++
    (expected.properties.filter (!after.properties.contains ·)).map
      (fun p => Error.message "property %s on %s missing" [.key p.name, .name p.dataset]) ++
    (after.properties.filter (!expected.properties.contains ·)).map
      (fun p => Error.message "property %s on %s appeared" [.key p.name, .name p.dataset])
  let reordered := if listed.isEmpty && (expected.objects != after.objects || expected.properties != after.properties)
    then [Error.plain "objects or properties reordered"] else []
  listed ++ reordered ++
    (if sameValues expected.holds after.holds then [] else [.plain "holds differ"]) ++
    (if sameValues expected.clones after.clones then [] else [.plain "clones differ"]) ++
    if expected.resumeTokens == after.resumeTokens then [] else [.plain "resume tokens changed"]

/-- How `after` differs from `before` with exactly the action applied. Received
values may disappear, but not appear or change. -/
def cleanTransition (before after : State) (a : CleanAction) : List Error :=
  match after.received.find? (!before.received.contains ·) with
  | some (n, k, _) => [.message "received %s on %s became %q, was %q" [.key k, .name n]]
  | none => differences (expectedAfter before a) after

/-- The loop of `clean`. -/
def carryOut (d : Dataset) (subtree : Bool) : List CleanAction → State → Except Error State
  | [], pool => .ok pool
  | a :: rest, pool => do
    let before ← pool.inspect d subtree
    let pool' ← a.command.run pool
    let after ← pool'.inspect d subtree
    require (cleanTransition before after a).isEmpty
      (.message "unexpected state change after clean action on %s" [.name a.object])
    require after.resumeTokens.isEmpty (.plain "resume state appeared during clean")
    carryOut d subtree rest pool'

section Transition

variable {s pool pool' : State} {a : CleanAction} {d : Dataset} {subtree : Bool} {actions : List CleanAction}

theorem sameValues_self {α : Type} [DecidableEq α] (rows : List (Name × α)) : sameValues rows rows = true := by
  simp [sameValues]

theorem differences_self (s : State) : differences s s = [] := by simp [differences, sameValues_self]

theorem expectedAfter_eq (s : State) (a : CleanAction) : expectedAfter s a = s.cleared [a.command] := by
  cases a with
  | destroyBookmark d m guid => exact (s.cleared_destroyBookmark d m).symm
  | release n t guid => exact (s.cleared_release t n).symm
  | destroySnapshot n guid => exact (s.cleared_destroySnapshot n).symm
  | inherit n k => exact (s.cleared_inherit n k).symm

theorem cleanTransition_cleared (s : State) (a : CleanAction) : cleanTransition s (s.cleared [a.command]) a = [] := by
  have hreceived : (s.cleared [a.command]).received.find? (!s.received.contains ·) = none := by
    rw [List.find?_eq_none]
    intro r hr
    have : r ∈ s.received := List.mem_of_mem_filter hr
    simpa using this
  rw [cleanTransition, hreceived, expectedAfter_eq, differences_self]

theorem inspect_cleared {cs : List Command} (h : pool.inspect d subtree = .ok s)
    (hcs : ∀ c ∈ cs, c.removes = true) : (pool.cleared cs).inspect d subtree = .ok (s.cleared cs) := by
  obtain ⟨hroot, rfl⟩ := State.inspect_eq_ok.mp h
  refine State.inspect_eq_ok.mpr ⟨?_, State.restrict_cleared.symm⟩
  rw [State.hasObject_cleared, hroot, Command.any_erases_dataset hcs]
  rfl

theorem carryOut_ok_iff (hinspect : pool.inspect d subtree = .ok s) (htokens : s.resumeTokens = [])
    (hremoves : ∀ a ∈ actions, a.command.removes = true) :
    carryOut d subtree actions pool = .ok pool' ↔ runAll pool (actions.map CleanAction.command) = .ok pool' := by
  induction actions generalizing pool s with
  | nil => rw [List.map_nil, runAll_nil, carryOut, Except.ok.injEq]
  | cons a actions ih =>
    have ha := hremoves a List.mem_cons_self
    rw [List.map_cons, runAll_cons]
    simp only [carryOut, ok_iff, hinspect, Except.ok.injEq, exists_eq_left']
    refine exists_congr fun t => and_congr_right fun hrun => ?_
    obtain ⟨-, rfl⟩ := (run_removal ha).mp hrun
    have hafter : (pool.cleared [a.command]).inspect d subtree = .ok (s.cleared [a.command]) :=
      inspect_cleared hinspect (by simpa using ha)
    simp only [hafter, Except.ok.injEq, exists_eq_left', cleanTransition_cleared, List.isEmpty_nil, true_and]
    rw [ih hafter htokens fun x hx => hremoves x (List.mem_cons_of_mem _ hx)]
    simp [State.cleared, htokens]

end Transition

end Boomerangz.Lifecycle
