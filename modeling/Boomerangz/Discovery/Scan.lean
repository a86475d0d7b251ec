import Boomerangz.Discovery.Entry
import Boomerangz.Policy.Resolve

/-! # Scans

`Scan` up to the marking of the actor roots. Maps are functions, with the zero value where nothing was put.
-/

namespace Boomerangz.Discovery

open Check Zfs Policy

/-! ## The inventory -/

structure Row where
  name : Dataset
  type : ObjectType
  encryptionRoot : String
deriving DecidableEq, Repr

def Row.encrypted (r : Row) : Bool := r.encryptionRoot != "" && r.encryptionRoot != "-"

def parentName (d : Dataset) : Dataset := d.dropLast

def indexRows : List Dataset → List Row → Except Error Unit
  | _, [] => .ok ()
  | seen, r :: rows => do
    require (validDataset r.name) (.invalidName r.name)
    require (r.type == .filesystem || r.type == .volume) (.plain "invalid dataset type")
    require (!seen.contains r.name) (.message "duplicate dataset %q" [.name (.dataset r.name)])
    indexRows (r.name :: seen) rows

/-- The names in the order of their texts. -/
def indexDatasets (rows : List Row) : Except Error (List Dataset) := do
  indexRows [] rows
  let names := rows.map Row.name
  require (names.all fun d => parentName d == [] || names.contains (parentName d)) (.plain "missing parent")
  return names.insertionSort fun a b => textLe (path a) (path b)

def encryptedIn (rows : List Row) (d : Dataset) : Bool := ((rows.find? (·.name == d)).map Row.encrypted).getD false

/-! ## Stored properties -/

def enabledKey : Key := .policy "enabled"

def rowDataset (row : Property) : Option Dataset :=
  match row.dataset with
  | .dataset d => some d
  | _ => none

/-- `validateRows`. Without a batch every dataset of the inventory is allowed. -/
def validateRows (names : List Dataset) (allowed : Option (List Dataset)) (activation : Bool) :
    List (Name × Key × PropertySource) → List Property → Except Error Unit
  | _, [] => .ok ()
  | seen, row :: rows => do
    require ((rowDataset row).any names.contains)
      (.message "property references unknown dataset %q" [.name row.dataset])
    require (allowed.all fun batch => (rowDataset row).any batch.contains)
      (.message "property outside requested batch: %q" [.name row.dataset])
    require (row.name.isBoomerangz && (!activation || row.name == enabledKey)) (.message "unexpected property %q" [.key row.name])
    require (!seen.contains (row.dataset, row.name, row.source))
      (.message "duplicate stored property %q on %q" [.key row.name, .name row.dataset])
    validateRows names allowed activation ((row.dataset, row.name, row.source) :: seen) rows

/-- `group`. The rows of a dataset keep their order. -/
def group (rows : List Property) (d : Dataset) : List Property := rows.filter fun row => row.dataset == .dataset d

/-- The dataset and everything above it. -/
def addAncestors (set : Dataset → Bool) (d : Dataset) : Dataset → Bool :=
  fun a => set a || (a != [] && a.isPrefixOf d)

/-- What a reader answers; nil for a reader without lifecycle properties. -/
structure Reader where
  listDatasets : Except Error (List Row)
  activationProperties : Except Error (List Property)
  lifecycleProperties : Option (Except Error (List Property))
  storedProperties : List Dataset → Except Error (List Property)

structure Options where
  batchSize : Nat
  maxArgumentBytes : Nat
  remotes : List String

/-! ## Resolution -/

def emptyPolicy : Effective := { Effective.plain Grid.none [] [] with enabled := false }

def Entry.zero : Entry where
  dataset := []
  inspected := false
  coveredBy := []
  member := false
  members := []
  policy := emptyPolicy
  stored := []
  blocked := []
  rest := ""

structure Rows where
  stored : Dataset → List Property
  fetched : Dataset → Bool

def resolveEntry (t : Texts) (rows : List Row) (o : Options) (read : Rows) (entries : Dataset → Entry) (d : Dataset) :
    Entry :=
  { Entry.zero with
    dataset := d
    inspected := read.fetched d
    stored := read.stored d
    policy := resolve t d (encryptedIn rows d)
      (if parentName d == [] then none else some (entries (parentName d)).policy) (read.stored d) o.remotes }

/-- `resolve`: parents come before their children. -/
def resolveEntries (t : Texts) (rows : List Row) (o : Options) (read : Rows) (names : List Dataset) : Dataset → Entry :=
  names.foldl (fun entries d => Function.update entries d (resolveEntry t rows o read entries d)) fun _ => Entry.zero

/-! ## Reading -/

def argumentBytes (d : Dataset) : Nat := (path d).foldl (fun n c => n + c.utf8Size) 1

/-- One batch of `fetch`. An activation edit between the two reads ends the scan. -/
def fetchBatch (r : Reader) (names : List Dataset) (activation : List Property) (batch : List Dataset) (read : Rows) :
    Except Error Rows := do
  let rows ← r.storedProperties batch
  validateRows names (some batch) false [] rows
  let before := activation.filter fun row => (rowDataset row).any batch.contains
  let after := rows.filter fun row => row.name == enabledKey
  require (before.isPerm after) (.plain "activation changed during discovery; retry scan")
  return {
    stored := fun d => if batch.contains d then group rows d else read.stored d
    fetched := fun d => batch.contains d || read.fetched d }

/-- As many names to a batch as its limits allow. -/
def fetch (r : Reader) (o : Options) (names : List Dataset) (activation : List Property) :
    List Dataset → Nat → List Dataset → Rows → Except Error Rows
  | batch, _, [], read => if batch.isEmpty then .ok read else fetchBatch r names activation batch read
  | batch, bytes, d :: pending, read =>
    if batch.length < o.batchSize && bytes + argumentBytes d ≤ o.maxArgumentBytes then
      fetch r o names activation (batch ++ [d]) (bytes + argumentBytes d) pending read
    else do
      -- a name that does not fit a batch of its own never will
      require (!batch.isEmpty) (.message "dataset %q exceeds argument budget" [.name (.dataset d)])
      let read ← fetchBatch r names activation batch read
      require (argumentBytes d ≤ o.maxArgumentBytes)
        (.message "dataset %q exceeds argument budget" [.name (.dataset d)])
      fetch r o names activation [d] (argumentBytes d) pending read

def inspectCovered (entries : Dataset → Entry) (names : List Dataset) (inspect : Dataset → Bool) : Dataset → Bool :=
  (names.foldl (fun (st : (Dataset → Bool) × (Dataset → Bool)) d =>
    let (covered, inspect) := st
    let above := covered (parentName d)
    (Function.update covered d (above || (entries d).policy.enabled), Function.update inspect d (above || inspect d)))
    ((fun _ => false), inspect)).2

/-- The loop of `Scan`. -/
def readAll (t : Texts) (r : Reader) (rows : List Row) (o : Options) (names : List Dataset)
    (activation : List Property) : Nat → (Dataset → Bool) → Rows → Except Error Rows
  | 0, _, read => .ok read
  | fuel + 1, inspect, read =>
    let pending := names.filter fun d => inspect d && !read.fetched d
    if pending.isEmpty then .ok read
    else do
      let read ← fetch r o names activation [] 0 pending read
      let entries := resolveEntries t rows o read names
      readAll t r rows o names activation fuel (inspectCovered entries names inspect) read

/-! ## Actor roots -/

structure Marks where
  within : Dataset → Dataset
  members : Dataset → List Dataset
  entries : Dataset → Entry

def pathText (d : Dataset) : String := String.ofList (path d)

def Entry.warn (e : Entry) (texts : List String) : Entry :=
  { e with policy := { e.policy with warnings := e.policy.warnings ++ texts } }

def differing (values rootValues : List Setting) : List String :=
  let keys := (values.map Setting.name ++ rootValues.map Setting.name).filter (· != "enabled")
  (Lists.compact (keys.insertionSort fun a b => textLe a.toList b.toList)).filter fun key =>
    valueOf values key != valueOf rootValues key

def coverReplicated (root : Dataset) (rootEntry entry : Entry) : Entry :=
  { entry with member := true }.warn
    ((if entry.policy.enabled then [] else ["replication root " ++ pathText root ++
        " sends this dataset although it is disabled here; replicate=on cannot exclude descendants"]) ++
      (differing entry.policy.values rootEntry.policy.values).map
        fun key => "replication root " ++ pathText root ++ " governs differing " ++ key)

def coverMember (root : Dataset) (rootEntry entry : Entry) : Entry :=
  let p := entry.policy
  { entry with
    member := true
    policy := { p with
      send := { p.send with replicate := false }
      discard := rootEntry.policy.discard } }.warn
    ((if p.send.replicate then ["actor root " ++ pathText root ++
        " sends members individually; replicate is ignored here"] else []) ++
      if p.discard != rootEntry.policy.discard then ["actor root " ++ pathText root ++
        " sets the receive path mapping; discard is ignored here"] else [])

/-- The switch of `markRoots`. -/
def cover (root : Dataset) (rootEntry entry : Entry) : Entry × Entry :=
  let entry := { entry with coveredBy := root }
  if rootEntry.policy.send.replicate then (rootEntry, coverReplicated root rootEntry entry)
  else if entry.policy.enabled && entry.inspected && entry.policy.valid then
    (rootEntry, coverMember root rootEntry entry)
  else if entry.policy.enabled then
    (rootEntry.warn ["member " ++ pathText entry.dataset ++ " is excluded while its policy is invalid"], entry)
  else (rootEntry, entry)

def markStep (m : Marks) (d : Dataset) : Marks :=
  let above := m.within (parentName d)
  let root := if above == [] && (m.entries d).policy.enabled then d else above
  let within := Function.update m.within d root
  if root == [] then { m with within := within }
  else if root == d then { m with within := within, members := Function.update m.members d (m.members d ++ [d]) }
  else
    let covered := cover root (m.entries root) (m.entries d)
    { within := within
      members := if covered.2.member then Function.update m.members root (m.members root ++ [d]) else m.members
      entries := Function.update (Function.update m.entries root covered.1) d covered.2 }

/-- The last loop of `markRoots`. -/
def scopeStep (rows : List Row) (st : (Dataset → Bool) × (Dataset → Entry)) (d : Dataset) :
    (Dataset → Bool) × (Dataset → Entry) :=
  let (checked, entries) := st
  let entry := entries d
  let root := entries entry.coveredBy
  if !entry.member || checked entry.coveredBy || !encryptedIn rows d || !root.policy.send.replicate then st
  else (Function.update checked entry.coveredBy true,
    Function.update entries entry.coveredBy
      { root with policy := root.policy.forReplicationScope (encryptedIn rows entry.coveredBy) d })

def markRoots (rows : List Row) (names : List Dataset) (entries : Dataset → Entry) : Dataset → Entry :=
  let m := names.foldl markStep ⟨fun _ => [], fun _ => [], entries⟩
  let listed := fun d => { m.entries d with members := m.members d }
  (names.foldl (scopeStep rows) ((fun _ => false), listed)).2

/-! ## Scan -/

structure Scanned where
  names : List Dataset
  entries : Dataset → Entry

/-- The rows of the sparse reads, and what they say is to be inspected. -/
def sparseRead (t : Texts) (r : Reader) (rows : List Row) (o : Options) (names : List Dataset)
    (activation : List Property) : Except Error ((Dataset → Bool) × Rows) := do
  let lifecycle ← r.lifecycleProperties.getD (.ok [])
  validateRows names none false [] lifecycle
  let own := (lifecycle.filter fun row => row.source == .sourceLocal).filterMap rowDataset
  let read : Rows := ⟨fun d => group activation d ++ group lifecycle d, fun _ => false⟩
  let entries := resolveEntries t rows o read names
  -- an invalid activation must be inspectable, even though it cannot enable work
  let started := names.filter fun d => (entries d).policy.enabled || !(entries d).policy.valid
  return (started.foldl addAncestors (own.foldl addAncestors fun _ => false), read)

/-- `Scan`, up to the marking of the actor roots. -/
def scan (t : Texts) (r : Reader) (o : Options) (retained : List Dataset) : Except Error Scanned := do
  let rows ← r.listDatasets
  let names ← indexDatasets rows
  let activation ← r.activationProperties
  validateRows names none true [] activation
  let (inspect, read) ← sparseRead t r rows o names activation
  require (retained.all names.contains) (.plain "inspection dataset is absent from inventory")
  -- every round but the last fetches a dataset, so there are at most this many
  let read ← readAll t r rows o names activation (names.length + 1) (retained.foldl addAncestors inspect) read
  return ⟨names, markRoots rows names (resolveEntries t rows o read names)⟩

end Boomerangz.Discovery
