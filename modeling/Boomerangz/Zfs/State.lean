import Boomerangz.Lib.Check
import Boomerangz.Zfs.Name

/-! # ZFS state

What `InspectState` returns. The checks an object has passed are fields of its type.
-/

namespace Boomerangz.Zfs

/-! ## Rows -/

inductive ObjectType where
  | filesystem
  | volume
  | snapshot
  | bookmark
deriving DecidableEq, Repr

/-- `(type == "snapshot") == strings.Contains(name, "@")`, and the same for bookmarks. -/
def ObjectType.agrees : ObjectType → Name → Bool
  | filesystem, .dataset _ => true
  | volume, .dataset _ => true
  | snapshot, .snapshot _ _ => true
  | bookmark, .bookmark _ _ => true
  | _, _ => false

structure Object where
  name : Name
  type : ObjectType
  guid : Nat
  createTXG : Nat
  valid : validDataset name.base = true
  agree : type.agrees name = true
  guid_ne : guid ≠ 0
  txg_ne : createTXG ≠ 0
deriving DecidableEq

namespace Object

def rowValid (n : Name) (type : ObjectType) (guid createTXG : Nat) : Bool :=
  validDataset n.base && type.agrees n && guid != 0 && createTXG != 0

def ofRow (n : Name) (type : ObjectType) (guid createTXG : Nat) (h : rowValid n type guid createTXG = true) :
    Object where
  name := n
  type := type
  guid := guid
  createTXG := createTXG
  valid := by simp only [rowValid, Bool.and_eq_true] at h; exact h.1.1.1
  agree := by simp only [rowValid, Bool.and_eq_true] at h; exact h.1.1.2
  guid_ne := by simp only [rowValid, Bool.and_eq_true, bne_iff_ne] at h; exact h.1.2
  txg_ne := by simp only [rowValid, Bool.and_eq_true, bne_iff_ne] at h; exact h.2

def isDataset (o : Object) : Bool := o.type == .filesystem || o.type == .volume

theorem isDataset_iff (o : Object) : o.isDataset = true ↔ ∃ d, o.name = .dataset d := by
  have h := o.agree
  unfold isDataset
  cases hn : o.name <;> cases ht : o.type <;> simp_all [ObjectType.agrees]

theorem type_snapshot_iff (o : Object) : o.type = .snapshot ↔ ∃ d c, o.name = .snapshot d c := by
  have h := o.agree
  cases hn : o.name <;> cases ht : o.type <;> simp_all [ObjectType.agrees]

theorem type_bookmark_iff (o : Object) : o.type = .bookmark ↔ ∃ d m, o.name = .bookmark d m := by
  have h := o.agree
  cases hn : o.name <;> cases ht : o.type <;> simp_all [ObjectType.agrees]

end Object

inductive PropertySource where
  | sourceLocal
  | sourceReceived
deriving DecidableEq, Repr

/-- The stored value of a recovery proof. -/
structure ReferenceRecord where
  stream : Dataset
  created : Time
  recursive : Bool
deriving DecidableEq, Repr

/-- The stored value of a target binding. -/
structure BindingRecord where
  poolGUID : Nat
  mapped : Dataset
  anchorGUID : Nat
  anchor : Dataset
deriving DecidableEq, Repr

/-- `InactiveMarker`. `canonical` says that the stored time is in the form the daemon writes. -/
structure InactiveMarker where
  version : Nat
  since : Time
  canonical : Bool
  datasetGUID : Nat
  lineage : ID
  owner : ID
deriving DecidableEq, Repr

/-- A property name: the keys under `org.boomerangz:`, or any other property. -/
inductive Key where
  | lineage
  | snapshot
  | owner
  | version
  | inactive
  | reference (target : TargetID) (stream : StreamID) (snapshot : ID)
  | badReference (text : String)
  | target (id : TargetID)
  | suspended (id : TargetID)
  | badTarget (text : String)
  | state (text : String)
  | placeholder
  | policy (text : String)
  | native (text : String)
deriving DecidableEq, Repr

namespace Key

/-- `strings.HasPrefix(name, ReferencePrefix)`. -/
def isReference : Key → Bool
  | reference _ _ _ => true
  | badReference _ => true
  | _ => false

/-- `strings.HasPrefix(name, TargetStatePrefix)`. -/
def isTargetState : Key → Bool
  | target _ => true
  | suspended _ => true
  | badTarget _ => true
  | _ => false

/-- `strings.HasPrefix(name, policy.Namespace)`. -/
def isBoomerangz : Key → Bool
  | native _ => false
  | _ => true

/-- `strings.HasPrefix(name, policy.StateNamespace)`. -/
def isState : Key → Bool
  | policy _ => false
  | native _ => false
  | _ => true

def isPublic : Key → Bool
  | policy _ => true
  | _ => false

end Key

/-- A property's value, parsed where the value of some key has that form. -/
inductive Value where
  | id (u : ID)
  | number (n : Nat)
  | reference (r : ReferenceRecord)
  | binding (b : BindingRecord)
  | inactive (m : InactiveMarker)
  | text (s : String)
deriving DecidableEq, Repr

structure Property where
  dataset : Name
  name : Key
  value : Value
  source : PropertySource
deriving DecidableEq, Repr

/-- A receive resume token names the snapshot whose stream was cut off. Only ZFS reads it. -/
structure Token where
  snapshot : Name
  guid : Nat
deriving DecidableEq, Repr

/-! ## States -/

structure State where
  objects : List Object
  properties : List Property
  received : List (Name × Key × Value) := []
  resumeTokens : List (Dataset × Token) := []
  clones : List (Name × Dataset) := []
  holds : List (Name × Tag) := []
  distinct : (objects.map Object.name).Nodup
deriving DecidableEq

namespace State

/-- `objectMap`. -/
def object (s : State) (n : Name) : Option Object := s.objects.find? (·.name == n)

def hasObject (s : State) (n : Name) : Bool := s.objects.any (·.name == n)

/-- `slices.Contains(state.Holds[snapshot], tag)`. -/
def held (s : State) (n : Name) (t : Tag) : Bool := s.holds.contains (n, t)

def localRows (s : State) (d : Dataset) (k : Key) : List Property :=
  s.properties.filter fun p => p.dataset == .dataset d && p.name == k && p.source == .sourceLocal

theorem object_eq_some {s : State} {n : Name} {o : Object} :
    s.object n = some o ↔ o ∈ s.objects ∧ o.name = n := by
  constructor
  · intro h
    exact ⟨List.mem_of_find?_eq_some h, by simpa using List.find?_some h⟩
  · rintro ⟨hmem, rfl⟩
    cases h : s.object o.name with
    | none => exact absurd (List.find?_eq_none.mp h o hmem) (by simp)
    | some p =>
      have hp := List.mem_of_find?_eq_some h
      have hn : p.name = o.name := by simpa using List.find?_some h
      exact congrArg some (List.inj_on_of_nodup_map s.distinct hp hmem hn)

theorem hasObject_iff {s : State} {n : Name} :
    s.hasObject n = true ↔ ∃ o ∈ s.objects, o.name = n := by
  simp [hasObject]

theorem hasObject_of_object {s : State} {n : Name} {o : Object} (h : s.object n = some o) :
    s.hasObject n = true :=
  hasObject_iff.mpr ⟨o, object_eq_some.mp h⟩

theorem object_isSome_iff {s : State} {n : Name} :
    (s.object n).isSome = true ↔ s.hasObject n = true := by
  simp [object, hasObject, List.find?_isSome]

theorem datasets_nodup (s : State) : ((s.objects.filter Object.isDataset).map (·.name.base)).Nodup := by
  refine List.Nodup.map_on ?_ (s.distinct.of_map.filter _)
  intro o ho o' ho' hbase
  obtain ⟨homem, hod⟩ := List.mem_filter.mp ho
  obtain ⟨homem', hod'⟩ := List.mem_filter.mp ho'
  obtain ⟨d, hd⟩ := o.isDataset_iff.mp hod
  obtain ⟨d', hd'⟩ := o'.isDataset_iff.mp hod'
  rw [hd, hd'] at hbase
  exact List.inj_on_of_nodup_map s.distinct homem homem' (by rw [hd, hd']; exact congrArg Name.dataset hbase)

theorem held_iff {s : State} {n : Name} {t : Tag} : s.held n t = true ↔ (n, t) ∈ s.holds := by
  simp [held]

end State

end Boomerangz.Zfs
