import Boomerangz.Lifecycle.Clean

/-! # Migration

The step from the first format of a root's state to the second, which the live decoders read.
-/

namespace Boomerangz.Migrate

open Check Zfs Lifecycle

/-! ## The first format -/

structure V1Metadata where
  lineage : Value
  snapshot : Value
  created : Time
deriving DecidableEq, Repr

structure V1Source where
  dataset : Dataset
  guid : Nat
  metadata : V1Metadata
deriving DecidableEq, Repr

structure V1Reference where
  target : String
  dataset : Dataset
  metadata : V1Metadata
  sources : List V1Source
deriving DecidableEq, Repr

structure V1Binding where
  version : Nat
  canonicalTarget : String
  mappedDataset : Dataset
  poolGUID : Nat
  anchor : Dataset
  anchorGUID : Nat
deriving DecidableEq, Repr

structure Codec where
  reference : String → Option V1Reference
  binding : String → Option V1Binding
  keyText : Key → List Char
  injective : Function.Injective keyText

/-! ## The step -/

/-- A rewritten property. `previous` is the value it replaces, if there is one. -/
structure Action where
  property : Key
  previous : Option Value
  value : Value
deriving DecidableEq, Repr

def localValue (s : State) (root : Dataset) (k : Key) : Option Value :=
  (s.properties.find? fun p => p.dataset == .dataset root && p.name == k && p.source == .sourceLocal).map
    Property.value

def v1Sources (s : State) (old : V1Reference) (u : ID) : List V1Source → Except String Unit
  | [] => .ok ()
  | source :: rest => do
    require (source.guid != 0 && source.metadata == old.metadata && inside source.dataset old.dataset)
      ("source " ++ String.ofList (path source.dataset) ++ " is not of the proof's endpoint")
    let names := [Name.snapshot source.dataset (.owned old.metadata.created u.short),
      .bookmark source.dataset (.target ⟨old.target⟩ u)]
    require (names.all fun n => (s.object n).all (·.guid == source.guid)) "GUID differs from what the proof recorded"
    v1Sources s old u rest

def v1Record (s : State) (root : Dataset) (key : Key) (old : V1Reference) : Except String ReferenceRecord := do
  require (localValue s root .lineage == some old.metadata.lineage) "proof is not of the root's lineage"
  match old.metadata.snapshot with
  | .id u =>
    require (old.target != "" && old.metadata.created != 0 && validDataset old.dataset && inside old.dataset root)
      "proof is incomplete"
    require (key == .reference ⟨old.target⟩ ⟨old.dataset⟩ u) "proof does not match its key"
    require ((old.sources.head?.map V1Source.dataset) == some old.dataset)
      "proof does not lead with its stream's snapshot"
    v1Sources s old u old.sources
    -- a time past the year 9999 has no encoding
    require (old.metadata.created < endOfTime) "year outside of range [0,9999]"
    return ⟨old.dataset.drop root.length, old.metadata.created, 1 < old.sources.length⟩
  | _ => throw "proof is incomplete"

/-- `v1Proof`: the new value of a proof, or none for one already in the second format. -/
def v1Proof (c : Codec) (s : State) (root : Dataset) (p : Property) : Except String (Option Value) :=
  match p.value with
  | .reference _ => .ok none
  | .text t =>
    match c.reference t with
    | some old => do
      let record ← v1Record s root p.name old
      return some (.reference record)
    | none => .error "proof is in neither format v1 nor v2"
  | _ => .error "proof is in neither format v1 nor v2"

def v1BoundRecord (key : Key) (old : V1Binding) : Except String BindingRecord := do
  require (old.version == 1) ("binding version " ++ toString old.version ++ " is not format v1")
  require (key == .target ⟨old.canonicalTarget⟩) "binding does not match its key"
  require (old.poolGUID != 0 && old.anchorGUID != 0 && validDataset old.mappedDataset && validDataset old.anchor &&
    inside old.mappedDataset old.anchor) "binding is incomplete"
  return ⟨old.poolGUID, old.mappedDataset, old.anchorGUID, if old.anchor = old.mappedDataset then [] else old.anchor⟩

def v1BindingRecord (c : Codec) (p : Property) : Except String (Option Value) :=
  match p.value with
  | .binding _ => .ok none
  | .text t =>
    match c.binding t with
    | some old => do
      let record ← v1BoundRecord p.name old
      return some (.binding record)
    | none => .error "binding is in neither format v1 nor v2"
  | _ => .error "binding is in neither format v1 nor v2"

/-- A binding's key: one without a further colon, as the suspension marker has it. -/
def isBindingKey : Key → Bool
  | .target _ => true
  | .badTarget text => !text.toList.contains ':'
  | _ => false

def rewritten (c : Codec) (s : State) (root : Dataset) (p : Property) : Except String (Option Value) :=
  if p.dataset != .dataset root || p.source != .sourceLocal then .ok none
  else if p.name.isReference then v1Proof c s root p
  else if isBindingKey p.name then v1BindingRecord c p
  else .ok none

def rewriteAction (c : Codec) (s : State) (root : Dataset) (p : Property) : Option Action :=
  match rewritten c s root p with
  | .ok (some v) => some ⟨p.name, some p.value, v⟩
  | _ => none

def rewriteBlocker (c : Codec) (s : State) (root : Dataset) (p : Property) : Option Error :=
  match rewritten c s root p with
  | .error e => some (.message "%s on %s: %v" [.key p.name, .name (.dataset root), .text e])
  | .ok _ => none

def sortActions (c : Codec) (actions : List Action) : List Action :=
  actions.insertionSort fun a b => textLe (c.keyText a.property) (c.keyText b.property)

/-- `v1ToV2`: the rewritten properties in the order of their names, and what forbids the step. -/
def v1ToV2 (c : Codec) (s : State) (root : Dataset) : List Action × List Error :=
  (sortActions c (s.properties.filterMap (rewriteAction c s root)), s.properties.filterMap (rewriteBlocker c s root))

/-! ## Plans -/

inductive Status where
  | unmanaged
  | current
  | pending
  | blocked
  | migrated
deriving DecidableEq, Repr

structure Plan where
  dataset : Dataset
  status : Status
  version : Nat
  actions : List Action
  blockers : List Error
deriving DecidableEq, Repr

/-- The root keeps an owner or records of its own. -/
def managed (s : State) (root : Dataset) : Bool :=
  s.properties.any fun p => p.dataset == .dataset root && p.source == .sourceLocal &&
    (p.name == .owner || p.name.isReference || p.name.isTargetState)

def Action.row (root : Dataset) (a : Action) : Property := ⟨.dataset root, a.property, a.value, .sourceLocal⟩

/-- The state as it reads once the actions are written. They are sorted and name each
property once. -/
def applied (s : State) (root : Dataset) (actions : List Action) : State :=
  { s with
    properties := s.properties.filter (fun p => !(p.dataset == .dataset root && p.source == .sourceLocal &&
      actions.any (·.property == p.name))) ++ actions.map (Action.row root) }

def lineageOf (s : State) (root : Dataset) : Option ID :=
  match localValue s root .lineage with
  | some (.id l) => some l
  | _ => none

def marker : Action := ⟨.version, none, .number currentVersion⟩

def planV1 (c : Codec) (s : State) (root : Dataset) (version : Nat) : Plan :=
  let (actions, blockers) := v1ToV2 c s root
  if blockers.isEmpty then
    let current := applied (applied s root actions) root [marker]
    let unread := blocker (referenceRecords current root (lineageOf current root))
    ⟨root, if unread.isEmpty then .pending else .blocked, version, actions ++ [marker], unread⟩
  else ⟨root, .blocked, version, actions, blockers⟩

def planRoot (c : Codec) (pool : State) (root : Dataset) : Except Error Plan := do
  require (validDataset root) (.invalidName root)
  let s ← pool.inspect root true
  match stateVersion s root with
  | .error e => return ⟨root, .blocked, 0, [], [e]⟩
  | .ok version =>
    if currentVersion < version then
      return ⟨root, .blocked, version, [], [.message
        "state on %s is format v%d, newer than the v%d this build knows; upgrade boomerangz"
        [.name (.dataset root), .number version, .number currentVersion]]⟩
    else if version == currentVersion then return ⟨root, .current, version, [], []⟩
    -- a marker would make the dataset look managed
    else if !managed s root then return ⟨root, .unmanaged, 0, [], []⟩
    else return planV1 c s root version

/-! ## Apply -/

def holds (pool : State) (root : Dataset) (k : Key) (value : Option Value) : Except Error Unit := do
  let s ← pool.inspect root false
  require (localValue s root k == value)
    (.message "%s on %s changed during migration; preview again" [.key k, .name (.dataset root)])

def applyAction (root : Dataset) (pool : State) (a : Action) : Except Error Unit × State :=
  match holds pool root a.property a.previous with
  | .error e => (.error e, pool)
  | .ok () =>
    match pool.setProperty (.dataset root) a.property a.value with
    | .error e => (.error e, pool)
    | .ok pool' => (holds pool' root a.property (some a.value), pool')

/-- The loop of `Apply`: how it ended, and the pool it leaves. -/
def applyActions (root : Dataset) : List Action → State → Except Error Unit × State
  | [], pool => (.ok (), pool)
  | a :: rest, pool =>
    match applyAction root pool a with
    | (.error e, pool') => (.error e, pool')
    | (.ok (), pool') => applyActions root rest pool'

/-- `Apply`. Nothing changes between its two readings of the plan. -/
def apply (c : Codec) (pool : State) (root : Dataset) : Except Error Plan × State :=
  match planRoot c pool root with
  | .error e => (.error e, pool)
  | .ok plan =>
    if plan.blockers.isEmpty then
      match applyActions root plan.actions pool with
      | (.error e, pool') => (.error e, pool')
      | (.ok (), pool') => (.ok { plan with status := .migrated }, pool')
    else (.error (.plain "migration blocked"), pool)

end Boomerangz.Migrate
