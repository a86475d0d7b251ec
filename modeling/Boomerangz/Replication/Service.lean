import Boomerangz.Replication.Scope

/-! # The remote replication service

`rpc.Server` and the direct SSH executor: a request passes with its arguments, or is refused.
-/

namespace Boomerangz.Replication

open Zfs

inductive Discard where
  | exact
  | dropFirst
  | dropAll
  | other (value : Nat)
deriving DecidableEq, Repr

/-- `ReceiveOptions`, with its map in the order of its keys. -/
structure ReceiveOptions where
  root : Text
  discard : Discard
  set : List (Text × Text)
  exclude : List Text
deriving DecidableEq, Repr

inductive Operation where
  | listDatasets
  | inspectDatasetIdentity (dataset : Text)
  | inspectState (dataset : Text) (recursive : Bool)
  | checkPermissions (dataset : Text) (permissions : List Text)
  | createReceiveParent (dataset : Text)
  | abortReceive (dataset : Text)
  | destroyDataset (dataset : Text) (recursive : Bool)
  | renameDataset (source dest : Text)
  | setProperties (object : Text) (properties : List (Text × Text))
  | inheritProperty (object property : Text)
  | destroySnapshot (snapshot : Text)
  | receive (options : ReceiveOptions)
deriving DecidableEq, Repr

inductive Code where
  | permissionDenied
  | invalidArgument
  | unimplemented
deriving DecidableEq, Repr

structure Refusal where
  code : Code
  message : String
deriving DecidableEq, Repr

/-- The optional interfaces a backend has: `zfs.ReseedExecutor` and `zfs.ReplicaExecutor`. -/
structure Abilities where
  reseeds : Bool
  replaces : Bool
deriving DecidableEq, Repr

/-! ## Receive arguments -/

def propertyNamespace : Text := "org.boomerangz:".toList

def placeholderProperty : Text := "org.boomerangz:state:placeholder".toList

def streamProperty (name : Text) : Bool :=
  name != [] && name.all fun c =>
    ('a'.toNat ≤ c.toNat && c.toNat ≤ 'z'.toNat) || ('0'.toNat ≤ c.toNat && c.toNat ≤ '9'.toNat) ||
      [':', '_', '-', '.'].contains c

def receiveArguments (options : ReceiveOptions) : Except String (List Text) :=
  if !validateDataset options.root then .error "invalid ZFS dataset name %q"
  else match options.discard with
    | .other _ => .error "invalid receive discard mode"
    | discard =>
      let flag : List Text := match discard with
        | .dropFirst => ["-d".toList]
        | .dropAll => ["-e".toList]
        | _ => []
      let reserved := fun p : Text × Text => !streamProperty p.1 || propertyNamespace.isPrefixOf p.1 || p.2.contains '\x00'
      if options.set.any reserved then .error "invalid or reserved receive override %q"
      else if options.exclude.any (!streamProperty ·) then .error "invalid receive exclusion %q"
      else
        let set := options.set.flatMap fun p => ["-o".toList, p.1 ++ '=' :: p.2]
        let excluded := (Lists.compact (options.exclude.mergeSort textLe)).filter fun key =>
          !(options.set.any (·.1 == key)) && key != placeholderProperty
        .ok (["receive".toList, "-u".toList, "-s".toList] ++ flag ++ set ++
          ["-o".toList, placeholderProperty ++ "=off".toList] ++ excluded.flatMap (fun key => ["-x".toList, key]) ++
          [options.root])

/-! ## The server -/

structure Server where
  allowedRoots : List Text
  abilities : Abilities

def newServerForRoots (allowedRoots : List Text) (abilities : Abilities) : Except String Server :=
  if allowedRoots.isEmpty then .error "at least one allowed destination root is required"
  else if allowedRoots.all validateDataset then
    .ok ⟨Lists.compact (allowedRoots.mergeSort textLe), abilities⟩
  else .error "allowed destination root: %w"

namespace Server

variable (s : Server)

def related (dataset : Text) : Bool := s.allowedRoots.any (Replication.related · dataset)

def inside (object : Text) : Bool := s.allowedRoots.any (insideScope · object)

def guarded (check : Bool) (message : String) (operation : Operation) : Except Refusal Operation :=
  if check then .ok operation else .error ⟨.permissionDenied, message⟩

def outside : String := "dataset is outside the configured destination scope"

def optional (able : Bool) (message : String) (result : Except Refusal Operation) : Except Refusal Operation :=
  match result with
  | .error refusal => .error refusal
  | .ok operation => if able then .ok operation else .error ⟨.unimplemented, message⟩

def renameDataset (source dest : Text) : Except Refusal Operation :=
  optional s.abilities.replaces "destination placeholder replacement is unavailable"
    (guarded (s.allowedRoots.any fun root =>
        source != root && dest != root && insideScope root source && insideScope root dest)
      "rename is outside one configured destination scope" (.renameDataset source dest))

def createReceiveParent (dataset : Text) : Except Refusal Operation :=
  guarded (s.inside dataset && !s.allowedRoots.contains dataset)
    "receive ancestor is outside the configured destination scope" (.createReceiveParent dataset)

def destroySnapshot (snapshot : Text) : Except Refusal Operation :=
  if !validateSnapshot snapshot then .error ⟨.invalidArgument, "invalid ZFS snapshot name %q"⟩
  else guarded (s.inside snapshot) "snapshot is outside the configured destination scope" (.destroySnapshot snapshot)

def receive (options : ReceiveOptions) : Except Refusal Operation :=
  if !s.inside options.root then
    .error ⟨.permissionDenied, "receive root differs from the configured destination scope"⟩
  else match receiveArguments options with
    | .error message => .error ⟨.invalidArgument, message⟩
    | .ok _ => .ok (.receive options)

def reseedUnavailable : String := "destination reseed operations are unavailable"

def handle : Operation → Except Refusal Operation
  | .listDatasets => .ok .listDatasets
  | .inspectDatasetIdentity dataset => guarded (s.related dataset) outside (.inspectDatasetIdentity dataset)
  | .inspectState dataset recursive => guarded (s.inside dataset) outside (.inspectState dataset recursive)
  | .checkPermissions dataset permissions =>
    guarded (s.related dataset) outside (.checkPermissions dataset permissions)
  | .createReceiveParent dataset => s.createReceiveParent dataset
  | .abortReceive dataset =>
    optional s.abilities.reseeds reseedUnavailable (guarded (s.inside dataset) outside (.abortReceive dataset))
  | .destroyDataset dataset recursive =>
    optional s.abilities.reseeds reseedUnavailable
      (guarded (s.inside dataset) outside (.destroyDataset dataset recursive))
  | .renameDataset source dest => s.renameDataset source dest
  | .setProperties object properties => guarded (s.inside object) outside (.setProperties object properties)
  | .inheritProperty object property => guarded (s.inside object) outside (.inheritProperty object property)
  | .destroySnapshot snapshot => s.destroySnapshot snapshot
  | .receive options => s.receive options

def listed (datasets : List Text) : List Text := datasets.filter s.related

def passed (requests : List Operation) : List Operation := requests.filterMap fun r => (s.handle r).toOption

end Server

/-! ## The direct SSH executor -/

namespace Ssh

variable (root : Text) (abilities : Abilities)

def guarded (check : Bool) (message : String) (operation : Operation) : Except String Operation :=
  if check then .ok operation else .error message

def outside : String := "dataset is outside configured SSH destination scope"

def optional (able : Bool) (message : String) (result : Except String Operation) : Except String Operation :=
  match result with
  | .error refusal => .error refusal
  | .ok operation => if able then .ok operation else .error message

def renameDataset (source dest : Text) : Except String Operation :=
  optional abilities.replaces "destination placeholder replacement is unavailable"
    (guarded (!(!insideScope root source || !insideScope root dest || source == root || dest == root))
      "rename is outside configured SSH destination scope" (.renameDataset source dest))

def createReceiveParent (dataset : Text) : Except String Operation :=
  guarded (!(!insideScope root dataset || dataset == root))
    "receive ancestor is outside configured SSH destination scope" (.createReceiveParent dataset)

def destroySnapshot (snapshot : Text) : Except String Operation :=
  if !validateSnapshot snapshot then .error "invalid ZFS snapshot name %q"
  else guarded (insideScope root snapshot) "snapshot is outside configured SSH destination scope"
    (.destroySnapshot snapshot)

/-- `Stream.Run` up to the pipeline, whose receive arguments are checked first. -/
def receive (options : ReceiveOptions) : Except String Operation :=
  if options.root != root && !below root options.root then
    .error "receive root differs from configured SSH destination scope"
  else match receiveArguments options with
    | .error message => .error message
    | .ok _ => .ok (.receive options)

/-- What `scopedExecutor` passes to its backend, and `Stream` to the remote receive. -/
def handle : Operation → Except String Operation
  | .listDatasets => .ok .listDatasets
  | .inspectDatasetIdentity dataset => guarded (related root dataset) outside (.inspectDatasetIdentity dataset)
  | .inspectState dataset recursive => guarded (insideScope root dataset) outside (.inspectState dataset recursive)
  | .checkPermissions dataset permissions =>
    guarded (related root dataset) outside (.checkPermissions dataset permissions)
  | .createReceiveParent dataset => createReceiveParent root dataset
  | .abortReceive dataset =>
    optional abilities.reseeds Server.reseedUnavailable
      (guarded (insideScope root dataset) outside (.abortReceive dataset))
  | .destroyDataset dataset recursive =>
    optional abilities.reseeds Server.reseedUnavailable
      (guarded (insideScope root dataset) outside (.destroyDataset dataset recursive))
  | .renameDataset source dest => renameDataset root abilities source dest
  | .setProperties object properties => guarded (insideScope root object) outside (.setProperties object properties)
  | .inheritProperty object property => guarded (insideScope root object) outside (.inheritProperty object property)
  | .destroySnapshot snapshot => destroySnapshot root snapshot
  | .receive options => receive root options

def listed (datasets : List Text) : List Text := datasets.filter (related root)

end Ssh

end Boomerangz.Replication
