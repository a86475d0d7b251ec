import Boomerangz.Lifecycle.Reference

/-! # Transfer requests and target bindings -/

namespace Boomerangz.Transfer

open Check Zfs Policy Lifecycle

/-! ## Requests -/

inductive Transport where
  | localHost
  | ssh
  | native
  | other (text : String)
deriving DecidableEq, Repr

/-- One dataset a root sends as its own stream. -/
structure Member where
  dataset : Dataset
  policy : Effective
  snapshot : Option Name
deriving DecidableEq

structure Request where
  source : Dataset
  destinationRoot : Dataset
  snapshot : Option Name
  policy : Effective
  members : List Member
  transport : Transport
  remoteName : String
  canonicalTarget : String
deriving DecidableEq

def canonicalLocalTarget (root : Dataset) : String := "local:" ++ String.ofList (path root)

/-- `canonicalTarget`. -/
def Request.canonical (r : Request) : String :=
  if r.transport = .localHost && r.canonicalTarget == "" then canonicalLocalTarget r.destinationRoot
  else r.canonicalTarget

/-- The checks of `Streams` on its sorted members. -/
def checkMembers (root : Dataset) : Option Dataset → List Member → Except Error Unit
  | _, [] => .ok ()
  | prev, m :: ms => do
    require (validDataset m.dataset) (.invalidName m.dataset)
    require (inside m.dataset root)
      (.message "member %s is outside root %s" [.name (.dataset m.dataset), .name (.dataset root)])
    require (prev != some m.dataset) (.message "member %s is repeated" [.name (.dataset m.dataset)])
    checkMembers root (some m.dataset) ms

/-- The members, parents first, or the root alone. -/
def Request.streams (r : Request) : Except Error (List Member) :=
  if r.members.isEmpty then .ok [⟨r.source, r.policy, r.snapshot⟩]
  else do
    require (!r.policy.send.replicate)
      (.plain "a replication root sends one stream, not one per member")
    let members := r.members.insertionSort (fun a b => textLe (path a.dataset) (path b.dataset))
    checkMembers r.source none members
    return members

/-- The member the request names, or the root. -/
def Request.stream (r : Request) (d : Dataset) : Except Error Member := do
  let streams ← r.streams
  match streams.find? (·.dataset == d) with
  | some m => return m
  | none => throw (.message "%s is not a stream of this request" [.name (.dataset d)])

def mapReceiveDataset (source root : Dataset) (discard : Discard) : Except Error Dataset := do
  require (validDataset source) (.invalidName source)
  require (validDataset root) (.invalidName root)
  match discard with
  | .off => return root
  | .first => return root ++ source.drop 1
  | .all => return root ++ source.getLast?.toList
  | .other _ => throw (.plain "invalid receive discard mode")

theorem mapReceiveDataset_valid {source root mapped : Dataset} {discard : Discard}
    (h : mapReceiveDataset source root discard = .ok mapped) : validDataset mapped = true := by
  simp only [mapReceiveDataset, ok_iff] at h
  obtain ⟨hsource, hroot, h⟩ := h
  cases discard with
  | off =>
    cases h
    exact hroot
  | first =>
    cases h
    exact validDataset_append hroot hsource fun x hx => List.mem_of_mem_drop hx
  | all =>
    cases h
    refine validDataset_append hroot hsource fun x hx => ?_
    exact List.mem_of_getLast? (Option.mem_toList.mp hx)
  | other text => cases h

def place (source mappedRoot d : Dataset) : Dataset := mappedRoot ++ d.drop source.length

def placeName (source mappedRoot : Dataset) : Name → Name
  | .dataset d => .dataset (place source mappedRoot d)
  | .snapshot d c => .snapshot (place source mappedRoot d) c
  | .bookmark d m => .bookmark (place source mappedRoot d) m

/-- The root's mapped destination and the stream's. -/
def Request.mapped (r : Request) (stream : Dataset) : Except Error (Dataset × Dataset) := do
  let root ← mapReceiveDataset r.source r.destinationRoot r.policy.discard
  require (inside stream r.source)
    (.message "stream %s is outside root %s" [.name (.dataset stream), .name (.dataset r.source)])
  return (root, place r.source root stream)

def canResumeFromBookmark (p : Effective) : Bool := p.incremental = .latest && !p.send.replicate

/-- A member must itself send to this target, and share the root's mapping. -/
def streamPolicy (r : Request) (stream : Member) : Except Error Effective :=
  if stream.dataset = r.source then .ok r.policy
  else do
    let p := stream.policy
    let args : List Arg := [.name (.dataset stream.dataset)]
    require (p.enabled && p.valid) (.message "member %s policy must be enabled and valid" args)
    require (!p.send.replicate) (.message "member %s cannot send recursively" args)
    require (p.discard == r.policy.discard)
      (.message "member %s does not share the root's receive mapping" args)
    require (if r.transport = .localHost then p.locals.contains r.destinationRoot
        else p.remote.contains r.remoteName)
      (.message "member %s does not send to this target" args)
    return p

/-! ## Bindings -/

structure TargetBinding where
  transport : Transport
  canonicalTarget : String
  destinationRoot : Dataset
  mappedDataset : Dataset
  pool : Dataset
  poolGUID : Nat
  anchor : Dataset
  anchorGUID : Nat
  relativePath : Dataset
deriving DecidableEq, Repr

structure DatasetIdentity where
  name : Dataset
  type : ObjectType
  guid : Nat
  poolGUID : Nat
deriving DecidableEq, Repr

/-- What configuration says about a target. -/
def bindingTemplate (r : Request) (mapped : Dataset) : TargetBinding :=
  ⟨r.transport, r.canonical, r.destinationRoot, mapped, [], 0, [], 0, []⟩

def TargetBinding.anchored (b : TargetBinding) (anchor : Dataset) (poolGUID anchorGUID : Nat) :
    Except Error TargetBinding := do
  require (inside b.mappedDataset anchor)
    (.plain "destination anchor does not contain mapped dataset")
  return { b with
    pool := anchor.take 1, poolGUID := poolGUID, anchor := anchor, anchorGUID := anchorGUID
    relativePath := b.mappedDataset.drop anchor.length }

def bindingForTarget (r : Request) (mapped : Dataset) (identity : DatasetIdentity) :
    Except Error TargetBinding :=
  (bindingTemplate r mapped).anchored identity.name identity.poolGUID identity.guid

/-- The decoding of one row of `storedTargetBinding`. -/
def decodeBinding (target : TargetBinding) : Value → Except Error TargetBinding
  | .binding record => do
    require (validDataset record.mapped) (.plain "invalid target binding mapping")
    require (record.mapped == target.mappedDataset)
      (.mappingChanged record.mapped target.mappedDataset)
    require (record.anchor == [] || (record.anchor != record.mapped && validDataset record.anchor))
      (.plain "invalid target binding anchor")
    target.anchored (if record.anchor = [] then record.mapped else record.anchor)
      record.poolGUID record.anchorGUID
  | _ => .error (.plain "invalid target binding")

/-- A received binding names the sending installation's destination. -/
def storedTargetBinding (s : State) (root : Dataset) (target : TargetBinding) :
    Except Error (Option TargetBinding) :=
  match s.localRows root (.target ⟨target.canonicalTarget⟩) with
  | [] => .ok none
  | [p] => do
    currentState s root
    let b ← decodeBinding target p.value
    return some b
  | _ => .error (.plain "target binding must be unambiguous")

def validateBinding (b : TargetBinding) : Except Error Unit :=
  require (!(b.transport matches .other _) && b.canonicalTarget != "" && b.destinationRoot != [] &&
      b.mappedDataset != [] && b.pool != [] && b.poolGUID != 0 && b.anchor != [] && b.anchorGUID != 0)
    (.plain "target binding is incomplete or unsupported")

def encodeBinding (b : TargetBinding) : Except Error BindingRecord := do
  validateBinding b
  return ⟨b.poolGUID, b.mappedDataset, b.anchorGUID,
    if b.anchor = b.mappedDataset then [] else b.anchor⟩

def targetSuspended (s : State) (root : Dataset) (canonical : String) : Except Error Bool :=
  match s.localRows root (.suspended ⟨canonical⟩) with
  | [] => .ok false
  | [⟨_, _, .text "unverified", _⟩] => .ok true
  | _ => .error (.plain "target suspension marker is invalid")

end Boomerangz.Transfer
