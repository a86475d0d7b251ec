import Boomerangz.Lifecycle.Clean

/-! # Forgetting targets

`forgetPlan` removes what a root keeps for some targets. The targets themselves are not checked.
-/

namespace Boomerangz.Lifecycle

open Check Zfs

/-- A target ID as it is given: one that `ValidTargetID` accepts, or another text. -/
inductive TargetText where
  | id (t : TargetID)
  | invalid (text : String)
deriving DecidableEq, Repr

variable [Digests]

/-- The part of a target's key before a further colon is the target's ID. -/
def isStateOf (t : TargetID) : Key → Bool
  | .target t' => t' == t
  | .suspended t' => t' == t
  | .badTarget text => text.toList.takeWhile (· != ':') == Digests.target t
  | _ => false

def isMarkOf (t : TargetID) : Mark → Bool
  | .target t' _ => t' == t
  | .stray text => (Digests.target t ++ ['-']).isPrefixOf text.toList
  | .other _ => false

def readTargets : List TargetText → Except Error (List TargetID)
  | [] => .ok []
  | .invalid text :: _ => .error (.message "invalid target ID %q" [.text text])
  | .id t :: rest => do
    let ts ← readTargets rest
    return t :: ts

def forgetReference (s : State) (d : Dataset) (lineage : ID) (r : Reference) : List CleanAction × List Error :=
  match r.sources s with
  | .error _ => ([.inherit (.dataset d) r.property], [.message "reference proof %s" [.key r.property]])
  | .ok sources => (.inherit (.dataset d) r.property :: sources.flatMap fun source => (cleanSource s lineage r source).1,
      sources.flatMap fun source => (cleanSource s lineage r source).2)

def forgottenProofs (s : State) (d : Dataset) (targets : List TargetID) : Except Error (ID × List Reference) := do
  match ← storedLineage s d with
  | none => throw (.message "forgetting a target needs a source root with a lineage: %s" [.name (.dataset d)])
  | some lineage => do
    let refs ← referenceRecords s d (some lineage)
    return (lineage, refs.filter fun r => targets.contains r.targetID)

def forgetProofs (s : State) (d : Dataset) (targets : List TargetID) : List CleanAction × List Error :=
  match forgottenProofs s d targets with
  | .error e => ([], [e])
  | .ok (lineage, refs) => (refs.flatMap fun r => (forgetReference s d lineage r).1,
      refs.flatMap fun r => (forgetReference s d lineage r).2)

def targetRows (s : State) (d : Dataset) (targets : List TargetID) : List Property :=
  s.properties.filter fun p => p.dataset == .dataset d && p.source == .sourceLocal && targets.any (isStateOf · p.name)

def keepsTarget (s : State) (d : Dataset) (targets : List TargetID) (t : TargetID) : Bool :=
  (match forgottenProofs s d targets with
    | .error _ => false
    | .ok (_, refs) => refs.any (·.targetID == t)) ||
  (targetRows s d targets).any (isStateOf t ·.name)

def unforgottenBlockers (s : State) (targets : List TargetID) (actions : List CleanAction) : List Error :=
  (s.holds.filter fun h => match h.2 with
    | .target t => targets.contains t && !releases actions h.1 h.2
    | _ => false).map (fun h => .message "unproven hold: %s" [.name h.1]) ++
  unprovenMarks s actions fun m => targets.any (isMarkOf · m)

def forgetActions (s : State) (d : Dataset) (targets : List TargetID) : List CleanAction :=
  (forgetProofs s d targets).1 ++ (targetRows s d targets).map fun p => .inherit (.dataset d) p.name

def forgetBlockers (s : State) (d : Dataset) (safety : CleanSafety) (targets : List TargetID) : List Error :=
  blocker (scopeReady s d) ++ blocker (recordsReadable s d) ++ blocker (safety.quiescent (scopeDatasets s)) ++
    (forgetProofs s d targets).2 ++ unforgottenBlockers s targets (forgetProofs s d targets).1 ++
    (targets.filter fun t => !keepsTarget s d targets t).map fun _ =>
      .message "%s keeps no state for target %s" [.name (.dataset d)]

def forgetPlan (pool : State) (d : Dataset) (options : CleanOptions) (safety : CleanSafety) (given : List TargetText) :
    Except Error CleanPlan := do
  require (!(options.recursive || options.destroyOwnedSnapshots))
    (.plain "forgetting a target cannot be combined with recursive clean or snapshot destruction")
  let targets ← readTargets given
  require (validDataset d) (.invalidName d)
  -- the holds and bookmarks that the root's proofs record are on its members' snapshots too
  let s ← pool.inspect d true
  return ⟨sortCleanActions (forgetActions s d targets), forgetBlockers s d safety targets, []⟩

end Boomerangz.Lifecycle
