import Boomerangz.Transfer.Plan

/-! # Resuming an interrupted receive

`buildResume` cannot read the token: it takes the newest proof of the stream whose snapshots are all still held.
-/

namespace Boomerangz.Transfer

open Check Lists Zfs Lifecycle

/-- The checks of `BuildResume` up to the mapping. -/
def resumeScope (request : Request) (view : View) : Except Error Scope := do
  let (stream, p) ← viewStream request view
  let own := stream.dataset == request.source
  match request.transport with
  | .localHost =>
    require ((!own || request.policy.locals.contains request.destinationRoot) &&
        request.canonical == canonicalLocalTarget request.destinationRoot)
      (.plain "destination is not configured by the source local property")
  | .ssh | .native =>
    require (request.remoteName != "" && (!own || request.policy.remote.contains request.remoteName) &&
        request.canonical != "" && singleLine request.canonical)
      (.plain "remote is not configured with a canonical target")
  | .other text => throw (.message "unsupported transfer transport %q" [.text text])
  scopeOf request stream p

def resumeToken (request : Request) (view : View) (scope : Scope) : Except Error (Dataset × Token) := do
  match view.destination.resumeTokens with
  | [(d, token)] =>
    require view.source.resumeTokens.isEmpty (.plain "exactly one destination resume token is required")
    require (inside d scope.target) (.plain "resume token escapes the mapped destination")
    require view.destinationExists (.plain "resumable destination root is missing")
    scopedObjects request view scope
    return (d, token)
  | _ => throw (.plain "exactly one destination resume token is required")

/-- The inventory checks of `BuildResume`. -/
def resumeReady (request : Request) (view : View) (scope : Scope) : Except Error Unit := do
  distinctRows "duplicate dataset in source transfer inventory: %s" view.inventory
  require (view.inventory.any (fun r => r.name == scope.stream.dataset &&
      (r.type == .filesystem || r.type == .volume) && r.encryptionRoot != ""))
    (.plain "source dataset lacks complete matching inventory")
  let rows := destinationRows request view
  distinctRows "duplicate dataset in destination transfer inventory: %s" rows
  require (view.destinationIdentity.any (fun i => i.name == scope.target && i.guid != 0 &&
      identified rows i))
    (.plain "destination identity does not match resumable root")

def resumeBinding (request : Request) (view : View) (scope : Scope) : Except Error TargetBinding :=
  let lacking : Error := .plain "resumable transfer lacks a valid target binding"
  match storedTargetBinding view.source request.source (bindingTemplate request scope.mappedRoot) with
  | .error _ => .error lacking
  | .ok none => .error lacking
  | .ok (some stored) => do
    validateBinding stored
    match view.bindingIdentity with
    | none => throw (.plain "bound destination identity is missing")
    | some i =>
      match bindingForTarget request scope.mappedRoot i with
      | .ok wanted =>
        require (stored == wanted) (.plain "resumable target differs from persistent binding")
        return stored
      | .error _ => throw (.plain "resumable target differs from persistent binding")

def sourceHeld (s : State) (lineage : ID) (r : Reference) (source : ReferenceSource) : Bool :=
  (s.object (r.snapshotOn source.dataset)).any fun o => o.guid == source.guid &&
    s.held o.name r.hold && metadataOf s lineage o == some r.metadata

def resumable (s : State) (lineage : ID) (r : Reference) : Bool :=
  match r.sources s with
  | .ok sources => (sources.head?.map ReferenceSource.dataset) == some r.dataset &&
      sources.all (sourceHeld s lineage r)
  | .error _ => false

def referenceTXG (s : State) (r : Reference) : Nat :=
  ((s.object (r.snapshotOn r.dataset)).map Object.createTXG).getD 0

def resumeCandidates (s : State) (canonical : String) (stream : Dataset) (lineage : ID)
    (refs : List Reference) : List Reference :=
  refs.filter fun r => r.targetID == ⟨canonical⟩ && r.dataset == stream && resumable s lineage r

def newestReference (s : State) (candidates : List Reference) : Option Reference :=
  match greatest (referenceTXG s) candidates with
  | none => none
  | some r => if (candidates.filter (referenceTXG s · == referenceTXG s r)).length = 1 then some r else none

def resumeExpected (request : Request) (view : View) (scope : Scope) (lineage : ID) (r : Reference)
    (source : ReferenceSource) : Except Error (Option Expected) := do
  let mapped := place request.source scope.mappedRoot source.dataset
  match view.destination.object (.dataset mapped) with
  | none => pure ()
  | some existing =>
    require ((view.source.object (.dataset source.dataset)).any (·.type == existing.type))
      (.plain "source/destination dataset types differ")
    require (match storedLineage view.destination mapped with
        | .ok there => there.all (· == lineage)
        | .error _ => false)
      (.plain "destination has a conflicting lineage")
  return some ⟨r.snapshotOn source.dataset, .snapshot mapped r.metadata.name, source.guid, some r.metadata⟩

def buildResume (request : Request) (view : View) (installation : ID) :
    Except Error (Plan × Reference) := do
  let scope ← resumeScope request view
  let (tokenDataset, token) ← resumeToken request view scope
  resumeReady request view scope
  let lineage ← rootAuthority view.source request.source installation
  let suspended ← targetSuspended view.source request.source request.canonical
  require (!suspended) (.plain "target is suspended pending explicit remote revalidation")
  let binding ← resumeBinding request view scope
  let refs ← referenceRecords view.source request.source (some lineage)
  match newestReference view.source
      (resumeCandidates view.source request.canonical scope.stream.dataset lineage refs) with
  | none => throw (.plain "resume token does not have an unambiguous newest held source proof")
  | some r =>
    let sources ← r.sources view.source
    let expected ← collect (resumeExpected request view scope lineage r) sources
    require (sources.any (fun source =>
        place request.source scope.mappedRoot source.dataset == tokenDataset))
      (.plain "resume token is not covered by its held source proof")
    return ({
      source := scope.stream.dataset
      destination := scope.target
      snapshot := r.snapshotOn scope.stream.dataset
      base := none
      lineage := lineage
      mode := .resume
      send := {
        source := scope.stream.dataset, snapshot := none, resumeToken := some token, base := none
        intermediates := false, recursive := false, largeBlocks := false, compressed := false
        embeddedData := false, raw := false, properties := false }
      receive := {
        root := tokenDataset, discard := .exact, set := scope.policy.setProperties
        exclude := receiveExclusions scope.policy view.source }
      expected := expected
      endpoints := expected
      warnings := scope.policy.warnings.map Warning.text
      targetBinding := binding
      bindingNew := false }, r)

end Boomerangz.Transfer
