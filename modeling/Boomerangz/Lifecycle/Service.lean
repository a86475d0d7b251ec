import Boomerangz.Lifecycle.Prune
import Boomerangz.Lifecycle.Reference

/-! # Snapshot creation and pruning

`CreateSnapshot` and `Prune` as what they send to ZFS and how they end. The root's lock is held throughout.
-/

namespace Boomerangz.Lifecycle

open Check Zfs Policy

/-! ## What an operation sends -/

/-- A command of an operation. -/
inductive Write where
  | command (c : Command)
  | authority (root : Dataset) (installation lineage : ID)
  | snapshot (members : List Dataset) (m : Metadata) (births : Dataset → State.Birth)

/-- `authorityProperties`. -/
def authorityValues (installation lineage : ID) : List (Key × Value) :=
  [(.lineage, .id lineage), (.owner, .id installation), (.version, .number currentVersion)]

/-- `Properties` of a new snapshot. -/
def Metadata.values (m : Metadata) : List (Key × Value) := [(.lineage, .id m.lineage), (.snapshot, .id m.snapshot)]

def Write.run (s : State) : Write → Except Error State
  | command c => c.run s
  | authority root installation lineage => s.setProperties (.dataset root) (authorityValues installation lineage)
  | snapshot members m births => s.snapshotAll members m.name m.values births

structure Sent (α : Type) where
  writes : List Write
  result : Except Error α
  pool : State

def Sent.write {α : Type} (pool : State) (w : Write) (next : State → Sent α) : Sent α :=
  match w.run pool with
  | .error e => ⟨[w], .error e, pool⟩
  | .ok pool' => { next pool' with writes := w :: (next pool').writes }

/-! ## CreateSnapshot -/

def validateMembers (root : Dataset) (members : List Dataset) : Except Error Unit := do
  require (!members.isEmpty) (.plain "snapshot requires at least one member")
  go [] members
where
  go : List Dataset → List Dataset → Except Error Unit
    | _, [] => .ok ()
    | seen, d :: ds => do
      require (validDataset d) (.invalidName d)
      require (inside d root) (.message "member %s is outside root %s" [.name (.dataset d), .name (.dataset root)])
      require (!seen.contains d) (.message "member %s is repeated" [.name (.dataset d)])
      go (d :: seen) ds

def checkFresh (s : State) : Except Error Unit := do
  require (!s.properties.any (·.name.isState)) (.plain "existing internal metadata requires explicit adoption or clean")
  require (!s.received.any (·.2.1.isState)) (.plain "hidden received metadata requires explicit resolution")

def checkDescendants (s : State) (lineage : ID) : List Object → Except Error Unit
  | [] => .ok ()
  | o :: os =>
    if o.isDataset then do
      let child ← storedLineage s o.name.base
      require (child.all (· == lineage)) (.message "conflicting descendant lineage on %s" [.name o.name])
      checkDescendants s lineage os
    else checkDescendants s lineage os

/-- The identities `NewID` gives a call. -/
structure Fresh where
  lineage : ID
  snapshot : ID

/-- What `CreateSnapshot` checks before its first write: the metadata, and whether the root is new. -/
def createPlan (s : State) (installation : ID) (root : Dataset) (now : Time) (ids : Fresh) :
    Except Error (Metadata × Bool) := do
  scopeReady s root
  let stored ← storedLineage s root
  let lineage ← match stored with
    | none => do
      checkFresh s
      pure ids.lineage
    | some _ => rootAuthority s root installation
  checkDescendants s lineage s.objects
  require (now != 0 && now < endOfTime) (.plain "valid lineage and creation time are required")
  return (⟨lineage, ids.snapshot, now⟩, stored.isNone)

def datasetObjects (s : State) : List Object := s.objects.filter Object.isDataset

def checkInitialized (pool : State) (s : State) (installation : ID) (root : Dataset) (lineage : ID) :
    Except Error Unit := do
  let current ← pool.inspect root true
  require ((rootAuthority current root installation).toOption == some lineage &&
      datasetObjects s == datasetObjects current && current.resumeTokens.isEmpty)
    (.plain "scope changed during lineage initialization")

def checkCreated (pool : State) (s : State) (root : Dataset) (members : List Dataset) (m : Metadata) :
    Except Error Metadata := do
  let after ← pool.inspect root true
  require (datasetObjects s == datasetObjects after) (.plain "dataset scope changed during snapshot creation")
  match members.find? (fun d => !(snapshotsIn after d).any
      fun x => x.name == .snapshot d m.name && (ownership x m.lineage).toOption == some m) with
  | some d => throw (.message "created snapshot could not be verified on %s" [.name (.dataset d)])
  | none => return m

/-- One snapshot or set of snapshots, after the markers of a new root. -/
def createSnapshot (pool : State) (installation : ID) (root : Dataset) (members : List Dataset) (now : Time)
    (p : Effective) (ids : Fresh) (births : Dataset → State.Birth) : Sent Metadata :=
  let planned : Except Error (State × Metadata × Bool) := do
    require (validDataset root) (.invalidName root)
    activeRoot p root
    validateMembers root members
    let s ← pool.inspect root true
    let (m, fresh) ← createPlan s installation root now ids
    return (s, m, fresh)
  match planned with
  | .error e => ⟨[], .error e, pool⟩
  | .ok (s, m, fresh) =>
    let create := fun pool => Sent.write pool (.snapshot members m births) fun after =>
      ⟨[], checkCreated after s root members m, after⟩
    if fresh then Sent.write pool (.authority root installation m.lineage) fun current =>
      match checkInitialized current s installation root m.lineage with
      | .error e => ⟨[], .error e, current⟩
      | .ok () => create current
    else create pool

/-! ## Prune -/

structure Retention where
  dataset : Dataset
  grid : Grid

def pruneRead (pool : State) (installation : ID) (root dataset : Dataset) : Except Error (State × ID) := do
  let rootState ← pool.inspect root false
  let lineage ← rootAuthority rootState root installation
  let s ← if dataset = root then pure rootState else pool.inspect dataset false
  scopeReady s dataset
  return (s, lineage)

def pruneEligible (pool : State) (installation : ID) (root : Dataset) (r : Retention) (first : State) (lineage : ID)
    (decision : Decision) : Except Error Unit := do
  let (current, actual) ← pruneRead pool installation root r.dataset
  require (datasetObjects first == datasetObjects current) (.plain "dataset identity changed before pruning")
  require (actual == lineage) (.plain "lineage changed before pruning")
  let decisions ← planPrune r.dataset lineage r.grid (snapshotsIn current r.dataset)
  require (decisions.any fun next => next.snapshot == decision.snapshot && next.guid == decision.guid && next.destroy)
    (.message "snapshot eligibility changed before pruning %s" [.name decision.snapshot])

/-- The loop of `Prune`: each exact deletion is planned again first. -/
def pruneLoop (installation : ID) (root : Dataset) (r : Retention) (first : State) (lineage : ID) :
    List Decision → State → Sent Unit
  | [], pool => ⟨[], .ok (), pool⟩
  | decision :: rest, pool =>
    if decision.destroy then
      match pruneEligible pool installation root r first lineage decision with
      | .error e => ⟨[], .error e, pool⟩
      | .ok () => Sent.write pool (.command (.destroySnapshot decision.snapshot))
          fun pool => pruneLoop installation root r first lineage rest pool
    else pruneLoop installation root r first lineage rest pool

/-- The initial preview of `Prune`. -/
def prunePlan (pool : State) (installation : ID) (root : Dataset) (p : Effective) (r : Retention) :
    Except Error (State × ID × List Decision) := do
  require (validDataset root) (.invalidName root)
  activeRoot p root
  require (validDataset r.dataset) (.invalidName r.dataset)
  require (inside r.dataset root)
    (.message "retention dataset %s is outside root %s" [.name (.dataset r.dataset), .name (.dataset root)])
  let (s, lineage) ← pruneRead pool installation root r.dataset
  let decisions ← planPrune r.dataset lineage r.grid (snapshotsIn s r.dataset)
  return (s, lineage, decisions)

/-- `Prune` with `apply`. -/
def prune (pool : State) (installation : ID) (root : Dataset) (p : Effective) (r : Retention) : Sent Unit :=
  match prunePlan pool installation root p r with
  | .error e => ⟨[], .error e, pool⟩
  | .ok (s, lineage, decisions) => pruneLoop installation root r s lineage decisions pool

end Boomerangz.Lifecycle
