import Boomerangz.Lifecycle.Inactive
import Boomerangz.Lifecycle.Reference
import Boomerangz.Zfs.Text

/-! # Clean

`cleanPlan` lists what removes boomerangz from a scope and what forbids it; `clean` carries a plan out.
-/

namespace Boomerangz.Lifecycle

open Check Zfs

structure CleanOptions where
  recursive : Bool
  destroyOwnedSnapshots : Bool
deriving DecidableEq, Repr

structure CleanSafety where
  quiescent : List Dataset → Except Error Unit
  checkTarget : Dataset → TargetID → Except Error Unit

structure Retirement where
  now : Time
  grace : Int
  offset : Int
deriving DecidableEq, Repr

inductive CleanAction where
  | destroyBookmark (d : Dataset) (m : Mark) (guid : Nat)
  | release (n : Name) (t : Tag) (guid : Nat)
  | destroySnapshot (n : Name) (guid : Nat)
  | inherit (n : Name) (k : Key)
deriving DecidableEq, Repr

namespace CleanAction

def command : CleanAction → Command
  | destroyBookmark d m _ => .destroyBookmark d m
  | release n t _ => .release t n
  | destroySnapshot n _ => .destroySnapshot n
  | inherit n k => .inheritProperty n k

/-- References go before snapshots, snapshot metadata before dataset-level proofs, and the
lineage of a dataset last. -/
def rank : CleanAction → Nat
  | destroyBookmark _ _ _ => 0
  | release _ _ _ => 1
  | destroySnapshot _ _ => 2
  | inherit (.snapshot _ _) _ => 3
  | inherit _ .lineage => 5
  | inherit _ _ => 4

def object : CleanAction → Name
  | destroyBookmark d m _ => .bookmark d m
  | release n _ _ => n
  | destroySnapshot n _ => n
  | inherit n _ => n

section Order

variable [Digests]

def detail : CleanAction → List Char
  | release _ t _ => t.text
  | inherit _ k => k.text
  | _ => []

/-- The comparison of `sortCleanActions`. -/
def before (a b : CleanAction) : Bool :=
  if a.rank != b.rank then a.rank < b.rank
  else if a.object.text != b.object.text then textLe a.object.text b.object.text
  else textLe a.detail b.detail

end Order

end CleanAction

def sortCleanActions [Digests] (actions : List CleanAction) : List CleanAction :=
  actions.insertionSort fun a b => a.before b

structure CleanPlan where
  actions : List CleanAction
  blockers : List Error
  warnings : List Error
deriving DecidableEq, Repr

def inheritWarning : Error := .plain
  "inherit masks received properties; hidden received values may remain and can be restored externally"

def blocker {α : Type} : Except Error α → List Error
  | .ok _ => []
  | .error e => [e]

/-! ## Blockers of the scope -/

def retirementBlockers (s : State) (d : Dataset) (installation : ID) (activation : List Property)
    (r : Retirement) : List Error :=
  let active := locallyActive activation d
  (match active with
    | .error e => [e]
    | .ok true => [.plain "retirement requires an inactive source root"]
    | .ok false => []) ++
  match inactivePlan s d installation (active matches .ok true) r.now r.grace r.offset with
  | .error e => [e]
  | .ok plan =>
    if plan.action.isSome then [.plain "inactive marker transition must complete before retirement"]
    else if !plan.automatic then [.plain "automatic retirement is disabled"]
    else if !plan.due then [.plain "inactive grace period has not elapsed"]
    else []

/-- The nearest activation above `d` that is outside the clean scope. -/
def exposedActivation (activation : List Property) (selected : List Dataset) (d : Dataset) : Option Property :=
  Lists.greatest (·.dataset.base.length) (activation.filter fun p => p.name == enabledKey &&
    p.source == .sourceLocal && !selected.contains p.dataset.base && p.dataset.base != d &&
    inside d p.dataset.base)

def activationBlockers (activation : List Property) (datasets : List Dataset) : List Error :=
  datasets.flatMap fun d => match exposedActivation activation datasets d with
    | some p => if p.value == .text "on"
      then [.message "cleaning %s would expose enabled=on from %s" [.name (.dataset d), .name p.dataset]]
      else []
    | none => []

/-! ## Proofs -/

def candidateLineages (s : State) (d : Dataset) : List ID :=
  ((snapshotsIn s d).flatMap fun snapshot => snapshot.properties.filterMap fun p =>
    match p.name, p.value with
    | .lineage, .id l => match ownership snapshot l with
      | .ok _ => some l
      | .error _ => none
    | _, _ => none).dedup

def cleanLineage (s : State) (d name : Dataset) : Except Error (Option ID) := do
  let lineage ← storedLineage s name
  if lineage.isNone && name != d then
    return match storedLineage s d with
      | .ok l => l
      | .error _ => none
  else return lineage

def cleanSource (s : State) (lineage : Option ID) (r : Reference) (source : ReferenceSource) :
    List CleanAction × List Error :=
  let n := r.snapshotOn source.dataset
  let held := if s.held n r.hold then
      if lineage.any (fun l => provenOn s l r source) then ([.release n r.hold source.guid], [])
      else ([], [.message "held snapshot ownership changed: %s" [.name n]])
    else ([], [])
  let marked := if s.hasObject (r.bookmarkOn source.dataset)
    then [.destroyBookmark source.dataset r.mark source.guid] else []
  (held.1 ++ marked, held.2)

def cleanReference (s : State) (safety : CleanSafety) (name : Dataset) (lineage : Option ID)
    (r : Reference) : List CleanAction × List Error :=
  let target := blocker (safety.checkTarget name r.targetID)
  match r.sources s with
  | .error _ => ([], target ++ [.message "reference proof %s" [.key r.property]])
  | .ok sources =>
    (sources.flatMap fun source => (cleanSource s lineage r source).1,
      target ++ sources.flatMap fun source => (cleanSource s lineage r source).2)

def cleanDataset (s : State) (d : Dataset) (options : CleanOptions) (safety : CleanSafety) (name : Dataset) :
    List CleanAction × List Error :=
  match cleanLineage s d name with
  | .error e => ([], [e])
  | .ok lineage =>
    let candidates := candidateLineages s name
    let conflicts := if 1 < candidates.length ||
        (lineage.any fun l => !candidates.isEmpty && !candidates.contains l)
      then [.message "conflicting snapshot lineages on %s" [.name (.dataset name)]] else []
    let unadopted := if options.destroyOwnedSnapshots && lineage.isNone && !candidates.isEmpty
      then [.message "adopt missing lineage before destroying snapshots on %s" [.name (.dataset name)]]
      else []
    match referenceRecords s name lineage with
    | .error e => ([], conflicts ++ unadopted ++ [e])
    | .ok refs => (refs.flatMap fun r => (cleanReference s safety name lineage r).1,
        conflicts ++ unadopted ++ refs.flatMap fun r => (cleanReference s safety name lineage r).2)

/-! ## Unproven protections -/

/-- `strings.HasPrefix(tag, SnapshotPrefix)`. -/
def isOwnTag : Tag → Bool
  | .other _ => false
  | _ => true

def isOwnMark : Mark → Bool
  | .other _ => false
  | _ => true

def releases (actions : List CleanAction) (n : Name) (t : Tag) : Bool :=
  actions.any fun a => a.command == .release t n

def unmarks (actions : List CleanAction) (d : Dataset) (m : Mark) : Bool :=
  actions.any fun a => a.command == .destroyBookmark d m

def unprovenMarks (s : State) (actions : List CleanAction) (own : Mark → Bool) : List Error :=
  (s.objects.filter (fun o => match o.name with
    | .bookmark d m => own m && !unmarks actions d m
    | _ => false)).map (fun o => .message "unproven bookmark: %s" [.name o.name])

def unprovenBlockers (s : State) (actions : List CleanAction) : List Error :=
  (s.holds.filter (fun h => isOwnTag h.2 && !releases actions h.1 h.2)).map
    (fun h => .message "unproven hold: %s" [.name h.1]) ++ unprovenMarks s actions isOwnMark

/-! ## Snapshots and properties -/

def ownedSnapshots (s : State) (d : Dataset) (datasets : List Dataset) (actions : List CleanAction) :
    List (Snapshot × Bool) :=
  datasets.flatMap fun name =>
    match cleanLineage s d name with
    | .ok (some lineage) => (snapshotsIn s name).filterMap fun x =>
      match ownership x lineage with
      | .error _ => none
      | .ok _ => some (x, !x.clones.isEmpty || x.resumeRequired || x.holds.any (!releases actions x.name ·))
    | _ => []

/-- The private and public keys left after the snapshots are gone. -/
def inheritKeys (s : State) (retirement : Bool) (destroyed : List Name) : List (Name × Key) :=
  let kept := fun (n : Name) (k : Key) => retirement &&
    (k.isPublic || n matches .snapshot _ _ | .bookmark _ _)
  ((s.properties.map (fun p => (p.dataset, p.name)) ++ s.received.map (fun r => (r.1, r.2.1))).filter
    fun r => !kept r.1 r.2 && r.2.isBoomerangz && !destroyed.contains r.1).dedup

def scopeDatasets (s : State) : List Dataset :=
  ((s.objects.filter Object.isDataset).map (·.name.base)).insertionSort (fun a b => textLe (path a) (path b))

def cleanProofs (s : State) (d : Dataset) (options : CleanOptions) (safety : CleanSafety) : List CleanAction :=
  (scopeDatasets s).flatMap fun name => (cleanDataset s d options safety name).1

def cleanSnapshots (s : State) (d : Dataset) (options : CleanOptions) (safety : CleanSafety)
    (dependent : Bool) : List Snapshot :=
  if options.destroyOwnedSnapshots then
    ((ownedSnapshots s d (scopeDatasets s) (cleanProofs s d options safety)).filter (·.2 == dependent)).map
      Prod.fst
  else []

def cleanActions (s : State) (d : Dataset) (options : CleanOptions) (safety : CleanSafety)
    (retirement : Bool) : List CleanAction :=
  let destroyed := cleanSnapshots s d options safety false
  cleanProofs s d options safety ++ destroyed.map (fun x => .destroySnapshot x.name x.guid) ++
    (inheritKeys s retirement (destroyed.map Snapshot.name)).map fun r => .inherit r.1 r.2

def cleanBlockers (s : State) (installation : ID) (d : Dataset) (options : CleanOptions)
    (safety : CleanSafety) (retirement : Option Retirement) (activation : List Property) : List Error :=
  blocker (scopeReady s d) ++ blocker (recordsReadable s d) ++
    (match retirement with
      | some r => retirementBlockers s d installation activation r
      | none => activationBlockers activation (scopeDatasets s)) ++
    blocker (safety.quiescent (scopeDatasets s)) ++ blocker (storedLineage s d) ++
    (scopeDatasets s).flatMap (fun name => (cleanDataset s d options safety name).2) ++
    unprovenBlockers s (cleanProofs s d options safety) ++
    (if retirement.isSome then (cleanSnapshots s d options safety true).map fun x =>
      .message "dependent owned snapshot prevents retirement: %s" [.name x.name] else [])

section Plan

variable [Digests]

/-- `retirement` is `none` for a clean. -/
def cleanPlan (pool : State) (installation : ID) (d : Dataset) (options : CleanOptions)
    (safety : CleanSafety) (retirement : Option Retirement) : Except Error CleanPlan := do
  require (validDataset d) (.invalidName d)
  let s ← pool.inspect d options.recursive
  return {
    actions := sortCleanActions (cleanActions s d options safety retirement.isSome)
    blockers := cleanBlockers s installation d options safety retirement (activationProperties pool)
    warnings := inheritWarning :: if retirement.isSome then []
      else (cleanSnapshots s d options safety true).map fun x =>
        .message "retaining dependent snapshot: %s" [.name x.name] }

/-- `clean` with `apply`. -/
def clean (pool : State) (installation : ID) (d : Dataset) (options : CleanOptions)
    (safety : CleanSafety) (retirement : Option Retirement) : Except Error State := do
  let plan ← cleanPlan pool installation d options safety retirement
  require plan.blockers.isEmpty (.plain "clean blocked")
  runAll pool (plan.actions.map CleanAction.command)

end Plan

end Boomerangz.Lifecycle
