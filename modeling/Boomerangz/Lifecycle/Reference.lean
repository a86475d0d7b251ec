import Boomerangz.Lifecycle.Ownership

/-! # Recovery references

A proof is recorded on the root; its snapshots are read from holds and bookmarks. An operation first plans the
commands it would run.
-/

namespace Boomerangz.Lifecycle

open Check Lists Zfs

structure Reference where
  targetID : TargetID
  dataset : Dataset
  metadata : Metadata
  recursive : Bool
deriving DecidableEq, Repr

structure ReferenceSource where
  dataset : Dataset
  guid : Nat
deriving DecidableEq, Repr

namespace Reference

def property (r : Reference) : Key := .reference r.targetID ⟨r.dataset⟩ r.metadata.snapshot

def hold (r : Reference) : Tag := .target r.targetID

def mark (r : Reference) : Mark := .target r.targetID r.metadata.snapshot

/-- `sourceSnapshot`. -/
def snapshotOn (r : Reference) (d : Dataset) : Name := .snapshot d r.metadata.name

/-- `sourceBookmark`. -/
def bookmarkOn (r : Reference) (d : Dataset) : Name := .bookmark d r.mark

/-- The stream whose descendants the proof can involve, or `[]`. -/
def subtree (r : Reference) : Dataset := if r.recursive then r.dataset else []

def covers (r : Reference) (d : Dataset) : Bool := d == r.dataset || (r.recursive && inside d r.dataset)

/-- One turn of the loop of `Sources`. -/
def sourceOn (r : Reference) (s : State) (d : Dataset) : Except Error (Option ReferenceSource) :=
  let held := s.held (r.snapshotOn d) r.hold
  match s.object (r.snapshotOn d), s.object (r.bookmarkOn d) with
  | some o, some b =>
    if b.guid = o.guid then .ok (some ⟨d, o.guid⟩)
    else .error (.message "checkpoint bookmark %s does not match its snapshot" [.name b.name])
  | none, some b => .ok (some ⟨d, b.guid⟩)
  | some o, none => .ok (if held then some ⟨d, o.guid⟩ else none)
  | none, none =>
    if held then .error (.message "source %s has no GUID" [.name (.dataset d)]) else .ok none

/-- The stream and, for a recursive proof, its descendants, in the order `Sources` visits them. -/
def candidates (r : Reference) (s : State) : List Dataset :=
  compact (((s.objects.filter Object.isDataset).map (·.name.base)).filter r.covers
    |>.insertionSort (fun a b => textLe (path a) (path b)))

/-- The snapshots the endpoint consists of. -/
def sources (r : Reference) (s : State) : Except Error (List ReferenceSource) :=
  collect (r.sourceOn s) (r.candidates s)

end Reference

/-! ## Records -/

/-- The key names the target, the stream and the snapshot; the value must name the same stream. -/
def decodeReference (p : Property) (root : Dataset) (lineage : Option ID) : Option Reference :=
  match lineage, p.name, p.value with
  | some l, .reference t stream u, .reference record =>
    let d := root ++ record.stream
    if validDataset d && record.created != 0 && record.created < endOfTime && stream == ⟨d⟩
    then some ⟨t, d, ⟨l, u, record.created⟩, record.recursive⟩
    else none
  | _, _, _ => none

def encodeReference (r : Reference) (root : Dataset) : ReferenceRecord :=
  ⟨r.dataset.drop root.length, r.metadata.created, r.recursive⟩

/-- The loop of `referenceRecords`. -/
def readRecords (root : Dataset) (lineage : Option ID) :
    List Key → List Property → Except Error (List Reference)
  | _, [] => .ok []
  | seen, p :: ps =>
    match decodeReference p root lineage with
    | none => .error (.message "invalid reference proof %s" [.key p.name])
    | some r => do
      require (!seen.contains p.name) (.message "invalid reference proof %s" [.key p.name])
      let rs ← readRecords root lineage (p.name :: seen) ps
      return r :: rs

def recordRows (s : State) (root : Dataset) : List Property :=
  s.properties.filter fun p => p.dataset == .dataset root && p.name.isReference &&
    p.source == .sourceLocal

def referenceRecords (s : State) (root : Dataset) (lineage : Option ID) :
    Except Error (List Reference) := do
  recordsReadable s root
  readRecords root lineage [] (recordRows s root)

/-! ## Scopes -/

/-- The root, each named dataset that still exists, and a whole subtree. -/
def proofScope (pool : State) (root : Dataset) (datasets : List Dataset) (subtree : Dataset) :
    Except Error State := do
  require (pool.hasObject (.dataset root)) (.plain "dataset missing from inventory")
  return pool.restrict fun d => d == root ||
    (datasets.contains d && pool.hasObject (.dataset d)) ||
    (subtree != [] && pool.hasObject (.dataset subtree) && inside d subtree)

/-- What one stored proof involves, under the root's authority. -/
def referenceState (pool : State) (installation : ID) (root : Dataset) (r : Reference) :
    Except Error (State × ID × List ReferenceSource) := do
  require (validDataset root) (.invalidName root)
  let s ← proofScope pool root [r.dataset] r.subtree
  scopeReady s root
  let lineage ← rootAuthority s root installation
  let refs ← referenceRecords s root (some lineage)
  require (refs.contains r) (.plain "reference proof is missing or changed")
  let sources ← r.sources s
  return (s, lineage, sources)

/-! ## Operations -/

/-- The loop of `ProtectSet` over its snapshots, which must be of one instant. -/
def protectInstant (s : State) (lineage : ID) (stream : Dataset) :
    List Name → Option Metadata → List Name → Except Error (Option Metadata)
  | _, m, [] => .ok m
  | seen, m, n :: ns => do
    require (!seen.contains n) (.plain "duplicate source snapshot")
    require (inside n.base stream)
      (.message "source snapshot %s is outside stream %s" [.name n, .name (.dataset stream)])
    let found ← findOwned s n.base n lineage
    require (m.all (· == found.2))
      (.message "source snapshot %s is not of the stream's instant" [.name n])
    protectInstant s lineage stream (n :: seen) (some found.2) ns

/-- The target's text is an identity `ProtectSet` accepts. -/
def canonicalText (target : String) : Bool :=
  !target.toList.all (fun c => blank c) && target.toList.all fun c => !(['\x00', '\r', '\n'].contains c)

/-- `ProtectSet`: the proof is written before any hold. -/
def protectPlan (pool : State) (installation : ID) (root stream : Dataset) (snapshots : List Name)
    (target : String) : Except Error (Reference × List Command) := do
  require (validDataset root) (.invalidName root)
  require (canonicalText target) (.plain "canonical non-secret target identity required")
  require (!snapshots.isEmpty) (.plain "at least one source snapshot is required")
  require (validDataset stream) (.invalidName stream)
  require (inside stream root)
    (.message "stream %s is outside root %s" [.name (.dataset stream), .name (.dataset root)])
  let s ← proofScope pool root (snapshots.map Name.base) []
  scopeReady s root
  let lineage ← rootAuthority s root installation
  match ← protectInstant s lineage stream [] none snapshots with
  | none => throw (.plain "at least one source snapshot is required")
  | some instant =>
    require (snapshots.any (·.base == stream)) (.plain "stream snapshot must be among its sources")
    let r : Reference := ⟨⟨target⟩, stream, instant, snapshots.any (·.base != stream)⟩
    let refs ← referenceRecords s root (some lineage)
    match refs.find? (·.property == r.property) with
    | some prior =>
      -- A recursive proof covers a later stream that asks for part of its subtree.
      require (prior == r ||
          (prior.metadata == r.metadata && prior.dataset == r.dataset && prior.recursive))
        (.plain "conflicting reference proof")
      return (prior, (snapshots.filter (!s.held · prior.hold)).map (.hold prior.hold))
    | none =>
      require (snapshots.all (!s.held · r.hold)) (.plain "unproven existing target hold")
      return (r, .setProperty (.dataset root) r.property (.reference (encodeReference r root)) ::
        snapshots.map (.hold r.hold))

/-- `findOwned` still gives the source's GUID and the proof's metadata. -/
def provenOn (s : State) (lineage : ID) (r : Reference) (source : ReferenceSource) : Bool :=
  match findOwned s source.dataset (r.snapshotOn source.dataset) lineage with
  | .ok (snapshot, m) => snapshot.guid == source.guid && m == r.metadata
  | .error _ => false

/-- One turn of the loop of `CheckpointSet`: the source, if its bookmark is still missing. -/
def checkpointMissing (s : State) (lineage : ID) (r : Reference) (verified : List (Name × Nat))
    (source : ReferenceSource) : Except Error (Option ReferenceSource) := do
  let n := r.snapshotOn source.dataset
  let mismatch : Error := .message "destination snapshot GUID does not match source: %s" [.name n]
  require ((verified.lookup n).all (· == source.guid)) mismatch
  -- An earlier transfer verified a source that has its bookmark.
  if s.hasObject (r.bookmarkOn source.dataset) then return none
  require (verified.lookup n).isSome mismatch
  let found ← findOwned s source.dataset n lineage
  require (found.1.guid == source.guid && found.2 == r.metadata && found.1.holds.contains r.hold)
    (.plain "source GUID or protecting hold changed")
  return some source

/-- `CheckpointSet`. -/
def checkpointPlan (pool : State) (installation : ID) (root : Dataset) (r : Reference)
    (verified : List (Name × Nat)) : Except Error (List Command) := do
  let (s, lineage, sources) ← referenceState pool installation root r
  require ((sources.head?.map ReferenceSource.dataset) == some r.dataset)
    (.message "stream snapshot is not protected: %s" [.name (r.snapshotOn r.dataset)])
  match verified.find? (fun v => !sources.any (fun source => r.snapshotOn source.dataset == v.1)) with
  | some v => throw (.message "reference proof does not protect %s" [.name v.1])
  | none =>
    let missing ← collect (checkpointMissing s lineage r verified) sources
    return missing.map fun source => .bookmark (r.snapshotOn source.dataset) r.mark

/-- `ReleaseCompletedHold` keeps the verified bookmark and record but releases the hold. -/
def completedPlan (pool : State) (installation : ID) (root : Dataset) (r : Reference) :
    Except Error (List Command) := do
  let (s, lineage, sources) ← referenceState pool installation root r
  let held := sources.filter (fun source => s.held (r.snapshotOn source.dataset) r.hold)
  require (held.all (provenOn s lineage r)) (.plain "held snapshot proof changed")
  require (held.all (fun source => s.hasObject (r.bookmarkOn source.dataset)))
    (.plain "verified checkpoint is missing")
  return held.map fun source => .release r.hold (r.snapshotOn source.dataset)

/-- `ReleaseReference` removes only exactly proven references; the record goes last. -/
def releasePlan (pool : State) (installation : ID) (root : Dataset) (r : Reference) :
    Except Error (List Command) := do
  let (s, lineage, sources) ← referenceState pool installation root r
  require ((sources.filter (fun source => s.held (r.snapshotOn source.dataset) r.hold)).all
    (provenOn s lineage r)) (.plain "held snapshot ownership changed")
  return sources.flatMap (fun source =>
      (if s.hasObject (r.bookmarkOn source.dataset) then [.destroyBookmark source.dataset r.mark]
        else []) ++
      (if s.held (r.snapshotOn source.dataset) r.hold then
        [.release r.hold (r.snapshotOn source.dataset)] else [])) ++
    [.inheritProperty (.dataset root) r.property]

end Boomerangz.Lifecycle
