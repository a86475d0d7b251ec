import Boomerangz.Transfer.Request

/-! # The transfer planner

`build` for one stream, without writes, in the order of the source.
-/

namespace Boomerangz.Transfer

open Check Lists Zfs Policy Lifecycle

/-! ## Views and plans -/

/-- One row of `ListDatasets`. -/
structure InventoryRow where
  name : Dataset
  type : ObjectType
  encryptionRoot : String
deriving DecidableEq, Repr

/-- A complete preflight inventory for one stream; `stream` is `[]` for the root's own. -/
structure View where
  stream : Dataset
  inventory : List InventoryRow
  destinationInventory : Option (List InventoryRow)
  source : State
  destination : State
  destinationExists : Bool
  destinationIdentity : Option DatasetIdentity
  rootDestinationExists : Bool
  rootDestinationIdentity : Option DatasetIdentity
  bindingIdentity : Option DatasetIdentity
deriving DecidableEq

structure Expected where
  source : Name
  destination : Name
  guid : Nat
  metadata : Option Metadata
deriving DecidableEq, Repr

inductive Mode where
  | full
  | upToDate
  | incrementalLatest
  | incrementalAll
  | resume
deriving DecidableEq, Repr

structure SendOptions where
  source : Dataset
  snapshot : Option Name
  resumeToken : Option Token
  base : Option Name
  intermediates : Bool
  recursive : Bool
  largeBlocks : Bool
  compressed : Bool
  embeddedData : Bool
  raw : Bool
  properties : Bool
deriving DecidableEq, Repr

/-- How `zfs receive` maps the names of a stream; `other` is a mode it does not know. -/
inductive ReceiveDiscard where
  | exact
  | dropFirst
  | dropAll
  | other (text : String)
deriving DecidableEq, Repr

structure ReceiveOptions where
  root : Dataset
  discard : ReceiveDiscard
  set : List (String × String)
  exclude : List Key
deriving DecidableEq, Repr

inductive Warning where
  | text (s : String)
  | foreignSnapshot (n : Name)
deriving DecidableEq, Repr

structure Plan where
  source : Dataset
  destination : Dataset
  snapshot : Name
  base : Option Name
  lineage : ID
  mode : Mode
  send : SendOptions
  receive : ReceiveOptions
  expected : List Expected
  endpoints : List Expected
  warnings : List Warning
  targetBinding : TargetBinding
  bindingNew : Bool
deriving DecidableEq, Repr

structure Scope where
  stream : Member
  policy : Effective
  mappedRoot : Dataset
  target : Dataset
deriving DecidableEq

/-- `destinationInventory`. -/
def destinationRows (request : Request) (view : View) : List InventoryRow :=
  if request.transport = .localHost then view.inventory
  else view.destinationInventory.getD view.inventory

def viewStream (request : Request) (view : View) : Except Error (Member × Effective) := do
  require (validDataset request.source) (.invalidName request.source)
  require (request.policy.enabled && request.policy.valid)
    (.plain "source policy must be enabled and valid")
  activeRoot request.policy request.source
  let stream ← request.stream (if view.stream = [] then request.source else view.stream)
  let p ← streamPolicy request stream
  return (stream, p)

/-- `strings.ContainsAny(canonical, "\x00\r\n")` is false. -/
def singleLine (canonical : String) : Bool :=
  canonical.toList.all (fun c => !(['\x00', '\r', '\n'].contains c))

def scopeOf (request : Request) (stream : Member) (p : Effective) : Except Error Scope := do
  let (mappedRoot, target) ← request.mapped stream.dataset
  require (request.transport != .localHost ||
      !(inside mappedRoot request.source || inside request.source mappedRoot))
    (.plain "source and destination scopes overlap")
  return ⟨stream, p, mappedRoot, target⟩

/-- The checks of `Build` up to the mapping. -/
def buildScope (request : Request) (view : View) : Except Error Scope := do
  let (stream, p) ← viewStream request view
  let own := stream.dataset == request.source
  match request.transport with
  | .localHost =>
    require (request.policy.locals.contains request.destinationRoot || !own)
      (.plain "destination is not configured by the source local property")
    require (request.canonical == canonicalLocalTarget request.destinationRoot)
      (.plain "local canonical target does not match destination")
  | .ssh | .native =>
    require (request.remoteName != "" && (!own || request.policy.remote.contains request.remoteName))
      (.plain "remote is not configured by the source remote property")
    require (request.canonical != "" && singleLine request.canonical)
      (.plain "canonical remote target is required")
  | .other text => throw (.message "unsupported transfer transport %q" [.text text])
  scopeOf request stream p

/-! ## Inventories -/

def repeated : List Dataset → List Dataset → Option Dataset
  | _, [] => none
  | seen, d :: ds => if seen.contains d then some d else repeated (d :: seen) ds

def distinctRows (format : String) (rows : List InventoryRow) : Except Error Unit :=
  match repeated [] (rows.map InventoryRow.name) with
  | some d => .error (.message format [.name (.dataset d)])
  | none => .ok ()

/-- `name` or its nearest ancestor in an inventory. -/
def nearestExisting (name : Dataset) (rows : List InventoryRow) : Option Dataset :=
  greatest List.length ((rows.map InventoryRow.name).filter (inside name ·))

def scopedObjects (request : Request) (view : View) (scope : Scope) : Except Error Unit := do
  require (view.source.objects.all (fun o => inside o.name.base request.source))
    (.plain "source inventory escapes selected scope")
  require (view.destination.objects.all (fun o => inside o.name.base scope.target))
    (.plain "destination inventory escapes selected scope")

def identified (rows : List InventoryRow) (i : DatasetIdentity) : Bool :=
  rows.any (fun r => r.name == i.name && r.type == i.type)

/-- The inventory checks of `Build`; gives the root's destination identity. -/
def inventoryReady (request : Request) (view : View) (scope : Scope) :
    Except Error DatasetIdentity := do
  require (view.source.hasObject (.dataset request.source)) (.plain "source dataset is missing")
  require (view.source.hasObject (.dataset scope.stream.dataset))
    (.message "member dataset is missing: %s" [.name (.dataset scope.stream.dataset)])
  scopedObjects request view scope
  require (view.source.resumeTokens.isEmpty && view.destination.resumeTokens.isEmpty)
    (.plain "resumable receive state requires recovery before a new stream")
  distinctRows "duplicate dataset in transfer inventory: %s" view.inventory
  match view.source.objects.find? (fun o => o.isDataset && !view.inventory.any (fun r =>
      r.name == o.name.base && r.type == o.type && r.encryptionRoot != "")) with
  | some o => throw (.message "source dataset lacks complete matching inventory: %s" [.name o.name])
  | none =>
    let rows := destinationRows request view
    distinctRows "duplicate dataset in destination transfer inventory: %s" rows
    match view.destinationIdentity, view.rootDestinationIdentity with
    | none, _ => throw (.plain "destination identity does not match sparse inventory")
    | some identity, rootIdentity? =>
      require (identified rows identity)
        (.plain "destination identity does not match sparse inventory")
      match rootIdentity? with
      | none => throw (.plain "root destination identity does not match sparse inventory")
      | some rootIdentity =>
        require (identified rows rootIdentity && (if view.rootDestinationExists
            then rootIdentity.name == scope.mappedRoot else inside scope.mappedRoot rootIdentity.name))
          (.plain "root destination identity does not match sparse inventory")
        if view.destinationExists then
          require (identity.name == scope.target &&
              (view.destination.object (.dataset scope.target)).any
                (fun o => o.guid == identity.guid && o.type == identity.type))
            (.plain "destination identity does not match exact destination root")
        else
          require (nearestExisting scope.target rows == some identity.name)
            (.plain "destination identity is not the nearest existing ancestor")
        return rootIdentity

/-! ## Policy and binding -/

def InventoryRow.encrypted (r : InventoryRow) : Bool := r.encryptionRoot != "" && r.encryptionRoot != "-"

def scopePolicy (request : Request) (view : View) (scope : Scope) : Except Error Effective := do
  let encrypted := view.inventory.any (fun r => r.name == scope.stream.dataset && r.encrypted)
  let descendant := view.inventory.find? (fun r => r.name != request.source &&
    inside r.name request.source && r.encrypted)
  let p := if scope.policy.send.replicate
    then scope.policy.forReplicationScope encrypted ((descendant.map InventoryRow.name).getD [])
    else scope.policy
  require p.valid
    (.message "replication-scope policy is invalid: %s" [.text ("; ".intercalate p.errors)])
  require (!(encrypted && p.send.props && !p.send.raw))
    (.plain "encrypted property streams require raw mode")
  return p

/-- The binding of the target and whether it is new. -/
def planBinding (request : Request) (view : View) (scope : Scope) (rootIdentity : DatasetIdentity) :
    Except Error (TargetBinding × Bool) := do
  let wanted ← bindingForTarget request scope.mappedRoot rootIdentity
  match ← storedTargetBinding view.source request.source wanted with
  | none => return (wanted, true)
  | some stored =>
    validateBinding stored
    let verified ← if view.rootDestinationExists then pure wanted
      else match view.bindingIdentity with
        | none => throw (.plain "bound destination identity is missing")
        | some i => bindingForTarget request scope.mappedRoot i
    require (stored == verified) (.plain
      "target identity or mapping differs from persistent binding; run boomerangz dataset reseed for this source and target")
    return (stored, false)

def wholeSubtree (request : Request) (view : View) (p : Effective) (lineage : ID) :
    Except Error Unit :=
  if p.send.replicate then do
    let refs ← referenceRecords view.source request.source (some lineage)
    require (!refs.any (fun r => r.targetID == ⟨request.canonical⟩ && r.dataset != request.source))
      (.plain "target was last replicated one stream per member, and replicate=on needs a replica of the whole subtree; run boomerangz dataset reseed for this source and target")
  else .ok ()

/-! ## Endpoints -/

/-- `ownership(view.Source, o, lineage)` succeeds. -/
def isOwned (s : State) (lineage : ID) (o : Object) : Bool :=
  match owns s o lineage with
  | .ok _ => true
  | .error _ => false

def eligible (s : State) (stream : Member) (lineage : ID) : List Object :=
  s.objects.filter fun o => o.type == .snapshot && o.name.base == stream.dataset &&
    stream.snapshot.all (o.name == ·) && isOwned s lineage o

def selectEndpoint (s : State) (stream : Member) (lineage : ID) : Except Error Object :=
  match greatest Object.createTXG (eligible s stream lineage) with
  | some o => .ok o
  | none => .error (.plain "no selected owned snapshot exists")

def endpointOn (request : Request) (view : View) (scope : Scope) (lineage : ID) (c : Component)
    (o : Object) : Except Error (Option Expected) := do
  let d := o.name.base
  let child ← storedLineage view.source d
  require (child.all (· == lineage)) (.message "conflicting source lineage on %s" [.name o.name])
  match view.source.object (.snapshot d c) with
  | none => throw (.message "replication endpoint missing on %s" [.name o.name])
  | some snap =>
    let metadata ← owns view.source snap lineage
    let mapped := place request.source scope.mappedRoot d
    match view.destination.object (.dataset mapped) with
    | none => pure ()
    | some existing =>
      require (existing.type == o.type) (.plain "source/destination dataset types differ")
      let there ← storedLineage view.destination mapped
      require (there.all (· == lineage)) (.plain "destination has a conflicting lineage")
    return some ⟨snap.name, .snapshot mapped c, snap.guid, some metadata⟩

def componentOf : Name → Component
  | .snapshot _ c => c
  | _ => .other ""

def carried (view : View) (stream : Dataset) (replicate : Bool) : List Object :=
  view.source.objects.filter fun o => o.isDataset && (replicate || o.name.base == stream)

/-! ## History -/

def latestAt (s : State) (target : Dataset) : Option Object :=
  greatest Object.createTXG (s.objects.filter fun o => o.type == .snapshot && o.name.base == target)

/-- A source snapshot that is older than the endpoint and the newest one of the destination. -/
def sharedBase (view : View) (scope : Scope) (lineage : ID) (endpoint latest o : Object) : Bool :=
  o.type == .snapshot && o.name.base == scope.stream.dataset && o.guid == latest.guid &&
    o.createTXG < endpoint.createTXG && isOwned view.source lineage o

def selectBase (request : Request) (view : View) (scope : Scope) (p : Effective) (lineage : ID)
    (endpoint latest : Object) : Except Error (Option Object) :=
  match view.source.objects.find? (sharedBase view scope lineage endpoint latest) with
  | some o => .ok (some o)
  | none =>
    if canResumeFromBookmark p then do
      let refs ← referenceRecords view.source request.source (some lineage)
      return refs.findSome? fun r =>
        if r.targetID == ⟨request.canonical⟩ && r.dataset == scope.stream.dataset then
          (view.source.object (r.bookmarkOn r.dataset)).filter fun o =>
            o.guid == latest.guid && o.createTXG < endpoint.createTXG
        else none
    else .ok none

def noDestinationHistory : Error := .plain
  "existing destination has no common base; run boomerangz dataset reseed for this source and target"

def noCommonBase : Error := .plain
  "destination latest snapshot has no eligible common source base; run boomerangz dataset reseed for this source and target"

def receiveParent (request : Request) (view : View) (scope : Scope) (p : Effective) :
    Except Error Unit := do
  let remoteMember := request.transport != .localHost && scope.stream.dataset != request.source
  let above := p.discard == .off && !remoteMember
  require (!above || 2 ≤ request.destinationRoot.length)
    (.plain "cannot bootstrap into an absent pool root")
  let parent := if above then request.destinationRoot.dropLast else request.destinationRoot
  require ((destinationRows request view).any (·.name == parent))
    (if p.discard == .off && remoteMember then .message
      "remote %s has no configured root %s, which %s's stream receives beneath and only %s's own stream would create; create it on the remote, or send %s to this remote too"
      [.text request.remoteName, .name (.dataset parent), .name (.dataset scope.stream.dataset),
        .name (.dataset request.source), .name (.dataset request.source)]
    else .message "receive parent %s does not exist" [.name (.dataset parent)])

def alreadyThere (view : View) (endpoints : List Expected) : Bool :=
  view.destinationExists && endpoints.all fun e =>
    (view.destination.object e.destination).any (·.guid == e.guid)

def planHistory (request : Request) (view : View) (scope : Scope) (p : Effective) (lineage : ID)
    (endpoint : Object) (endpoints : List Expected) : Except Error (Mode × Option Object) := do
  require (endpoints.all fun e => (view.destination.object e.destination).all (·.guid == e.guid))
    (.plain "destination snapshot name has a different GUID")
  if alreadyThere view endpoints then return (.upToDate, none)
  else if view.destinationExists then
    match latestAt view.destination scope.target with
    | none => throw noDestinationHistory
    | some latest =>
      match ← selectBase request view scope p lineage endpoint latest with
      | none => throw noCommonBase
      | some base =>
        return (if p.incremental = .all then .incrementalAll else .incrementalLatest, some base)
  else
    receiveParent request view scope p
    return (.full, none)

/-! ## Expectations -/

def includes (mode : Mode) (replicate : Bool) (endpoint : Object) (base : Option Object)
    (o : Object) : Bool :=
  let after := ((base.map Object.createTXG).getD 0) < o.createTXG
  if mode = .incrementalAll then after
  else if replicate then mode = .full || (after && componentOf o.name == componentOf endpoint.name)
  else o.name == endpoint.name

/-- `metadata` of an expected snapshot; foreign snapshots have none. -/
def metadataOf (s : State) (lineage : ID) (o : Object) : Option Metadata :=
  match owns s o lineage with
  | .ok m => some m
  | .error _ => none

def carriedSnapshots (view : View) (scope : Scope) (mode : Mode) (replicate : Bool)
    (endpoint : Object) (base : Option Object) : List Object :=
  view.source.objects.filter fun o => o.type == .snapshot && o.createTXG ≤ endpoint.createTXG &&
    (replicate || o.name.base == scope.stream.dataset) && includes mode replicate endpoint base o

def expectations (request : Request) (view : View) (scope : Scope) (lineage : ID) (mode : Mode)
    (replicate : Bool) (endpoint : Object) (base : Option Object) (endpoints : List Expected) :
    List Expected :=
  if mode = .upToDate then endpoints
  else (carriedSnapshots view scope mode replicate endpoint base).map fun o =>
    ⟨o.name, placeName request.source scope.mappedRoot o.name, o.guid, metadataOf view.source lineage o⟩

/-- `policy.IsPublic`, for a name after the namespace. -/
def publicText (name : String) : Bool := !"state:".toList.isPrefixOf name.toList

/-- `completeReceiveExclusions`. -/
def receiveExclusions (p : Effective) (s : State) : List Key :=
  (p.ignoreProperties.map Key.native ++ (p.values.filter (publicText ·.name)).map (fun v => Key.policy v.name) ++
    (s.properties.map Property.name).filter
      (fun k => k.isPublic || k.isReference || k.isTargetState)).dedup

def recursiveWarning : Warning := .text
  "recursive replication uses native package semantics and may affect foreign destination snapshots"

def warningsOf (p : Effective) (expected : List Expected) : List Warning :=
  let foreign := expected.filter (fun e => e.metadata.isNone)
  (p.warnings.map Warning.text ++ (if p.send.replicate then [recursiveWarning] else []) ++
    foreign.map (fun e => Warning.foreignSnapshot e.source)).dedup

structure Selection where
  scope : Scope
  policy : Effective
  lineage : ID
  binding : TargetBinding
  bindingNew : Bool
  endpoint : Object
  endpoints : List Expected
deriving DecidableEq

/-- `Build` up to the endpoints. -/
def select (request : Request) (view : View) (installation : ID) : Except Error Selection := do
  let scope ← buildScope request view
  let rootIdentity ← inventoryReady request view scope
  let p ← scopePolicy request view scope
  let lineage ← rootAuthority view.source request.source installation
  let suspended ← targetSuspended view.source request.source request.canonical
  require (!suspended) (.plain "target is suspended pending explicit remote revalidation")
  let (binding, bindingNew) ← planBinding request view scope rootIdentity
  wholeSubtree request view p lineage
  let endpoint ← selectEndpoint view.source scope.stream lineage
  let endpoints ← collect (endpointOn request view scope lineage (componentOf endpoint.name))
    (carried view scope.stream.dataset p.send.replicate)
  return ⟨scope, p, lineage, binding, bindingNew, endpoint, endpoints⟩

def planOf (request : Request) (view : View) (sel : Selection) (mode : Mode) (base : Option Object) : Plan :=
  let p := sel.policy
  let stream := sel.scope.stream.dataset
  let expected := expectations request view sel.scope sel.lineage mode p.send.replicate sel.endpoint base
    sel.endpoints
  let filesystem := (view.source.object (.dataset stream)).any (·.type == .filesystem)
  { source := stream
    destination := sel.scope.target
    snapshot := sel.endpoint.name
    base := base.map Object.name
    lineage := sel.lineage
    mode := mode
    send := {
      source := stream, snapshot := some sel.endpoint.name, resumeToken := none
      base := base.map Object.name, intermediates := mode = .incrementalAll
      recursive := p.send.replicate, largeBlocks := p.send.largeBlocks
      compressed := p.send.compressed, embeddedData := p.send.embeddedData, raw := p.send.raw
      properties := p.send.props }
    receive := {
      root := sel.scope.target
      discard := .exact
      set := if filesystem && !p.setProperties.any (·.1 == "canmount")
        then p.setProperties ++ [("canmount", "noauto")] else p.setProperties
      exclude := receiveExclusions p view.source }
    expected := expected
    endpoints := sel.endpoints
    warnings := warningsOf p expected
    targetBinding := sel.binding
    bindingNew := sel.bindingNew }

def build (request : Request) (view : View) (installation : ID) : Except Error Plan := do
  let sel ← select request view installation
  let (mode, base) ← planHistory request view sel.scope sel.policy sel.lineage sel.endpoint sel.endpoints
  return planOf request view sel mode base

end Boomerangz.Transfer
