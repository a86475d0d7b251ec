import Boomerangz.Zfs.State

/-! # ZFS commands

`restrict` is what an inspection of a scope shows. A refused command changes nothing.
-/

open Check

namespace Boomerangz.Zfs

/-! ## Errors -/

inductive Arg where
  | name (n : Name)
  | key (k : Key)
  | text (s : String)
  | number (n : Nat)
deriving DecidableEq, Repr

/-- An error keeps its format and arguments apart. -/
inductive Error where
  | message (format : String) (args : List Arg)
  | stateChanged
  | preparationChanged (reason : String) (history : Bool)
  | mappingChanged (stored configured : Dataset)
deriving DecidableEq, Repr

def Error.plain (text : String) : Error := .message text []

def Error.invalidName (d : Dataset) : Error := .message "invalid ZFS dataset name %q" [.name (.dataset d)]

/-! ## Inspection -/

namespace State

def restrict (s : State) (p : Dataset → Bool) : State where
  objects := s.objects.filter (fun o => p o.name.base)
  properties := s.properties.filter (fun r => p r.dataset.base)
  received := s.received.filter (fun r => p r.1.base)
  resumeTokens := s.resumeTokens.filter (fun r => p r.1)
  clones := s.clones.filter (fun r => p r.1.base)
  holds := s.holds.filter (fun r => p r.1.base)
  distinct := (List.Sublist.map Object.name List.filter_sublist).nodup s.distinct

section Restrict

variable {s : State} {p : Dataset → Bool}

@[simp] theorem mem_restrict_objects {o : Object} :
    o ∈ (s.restrict p).objects ↔ o ∈ s.objects ∧ p o.name.base = true := by simp [restrict]

@[simp] theorem mem_restrict_properties {r : Property} :
    r ∈ (s.restrict p).properties ↔ r ∈ s.properties ∧ p r.dataset.base = true := by simp [restrict]

@[simp] theorem restrict_held {n : Name} {t : Tag} :
    (s.restrict p).held n t = (s.held n t && p n.base) := by
  rw [Bool.eq_iff_iff]
  simp [held_iff, restrict]

@[simp] theorem restrict_hasObject {n : Name} :
    (s.restrict p).hasObject n = (s.hasObject n && p n.base) := by
  rw [Bool.eq_iff_iff]
  simp only [hasObject_iff, mem_restrict_objects, Bool.and_eq_true]
  constructor
  · rintro ⟨o, ⟨hm, hp⟩, rfl⟩
    exact ⟨⟨o, hm, rfl⟩, hp⟩
  · rintro ⟨⟨o, hm, rfl⟩, hp⟩
    exact ⟨o, ⟨hm, hp⟩, rfl⟩

theorem restrict_object {n : Name} (h : p n.base = true) : (s.restrict p).object n = s.object n := by
  cases hs : s.object n with
  | some o =>
    obtain ⟨hm, rfl⟩ := object_eq_some.mp hs
    exact object_eq_some.mpr ⟨mem_restrict_objects.mpr ⟨hm, h⟩, rfl⟩
  | none =>
    rw [← Option.not_isSome_iff_eq_none, object_isSome_iff] at hs ⊢
    simp [hs]

end Restrict

/-- `InspectState`. -/
def inspect (s : State) (d : Dataset) (recursive : Bool) : Except Error State := do
  require (s.hasObject (.dataset d)) (.plain "dataset missing from inventory")
  return s.restrict (fun x => if recursive then inside x d else x == d)

theorem inspect_eq_ok {s s' : State} {d : Dataset} {recursive : Bool} :
    s.inspect d recursive = .ok s' ↔ s.hasObject (.dataset d) = true ∧
      s' = s.restrict (fun x => if recursive then inside x d else x == d) := by
  simp only [inspect, ok_iff]
  exact and_congr_right fun _ => eq_comm

/-! ## Commands -/

/-- `zfs hold`. -/
def hold (s : State) (t : Tag) (n : Name) : Except Error State := do
  require (s.hasObject n) (.plain "dataset does not exist")
  require (!s.held n t) (.plain "tag already exists on this dataset")
  return { s with holds := s.holds ++ [(n, t)] }

/-- `zfs release`. -/
def release (s : State) (t : Tag) (n : Name) : Except Error State := do
  require (s.held n t) (.plain "no such tag on this dataset")
  return { s with holds := s.holds.filter (· != (n, t)) }

def erase (s : State) (n : Name) : State where
  objects := s.objects.filter (·.name != n)
  properties := s.properties.filter (·.dataset != n)
  received := s.received.filter (·.1 != n)
  resumeTokens := s.resumeTokens
  clones := s.clones.filter (·.1 != n)
  holds := s.holds.filter (·.1 != n)
  distinct := (List.Sublist.map Object.name List.filter_sublist).nodup s.distinct

def without (s : State) (ns : List Name) : State where
  objects := s.objects.filter (!ns.contains ·.name)
  properties := s.properties.filter (!ns.contains ·.dataset)
  received := s.received.filter (!ns.contains ·.1)
  resumeTokens := s.resumeTokens
  clones := s.clones.filter (!ns.contains ·.1)
  holds := s.holds.filter (!ns.contains ·.1)
  distinct := (List.Sublist.map Object.name List.filter_sublist).nodup s.distinct

section Without

variable {s : State} {ns : List Name}

@[simp] theorem mem_without_objects {o : Object} :
    o ∈ (s.without ns).objects ↔ o ∈ s.objects ∧ o.name ∉ ns := by simp [without]

@[simp] theorem without_nil : s.without [] = s := by simp [without]

theorem without_erase (n : Name) : (s.without ns).erase n = s.without (n :: ns) := by
  have h : ∀ x : Name, ((x != n) && !ns.contains x) = !(n :: ns).contains x := by
    intro x
    simp only [List.contains_cons, Bool.not_or]
    rfl
  simp only [erase, without, List.filter_filter, h]

theorem hasObject_without {n : Name} :
    (s.without ns).hasObject n = true ↔ s.hasObject n = true ∧ n ∉ ns := by
  simp only [hasObject_iff, mem_without_objects]
  constructor
  · rintro ⟨o, ⟨hm, hn⟩, rfl⟩
    exact ⟨⟨o, hm, rfl⟩, hn⟩
  · rintro ⟨⟨o, hm, rfl⟩, hn⟩
    exact ⟨o, ⟨hm, hn⟩, rfl⟩

end Without

/-- `zfs destroy` of one bookmark. -/
def destroyBookmark (s : State) (d : Dataset) (m : Mark) : Except Error State := do
  require (s.hasObject (.bookmark d m)) (.plain "bookmark does not exist")
  return s.erase (.bookmark d m)

/-- `zfs destroy` of one snapshot, which ZFS refuses while it is held or cloned. -/
def destroySnapshot (s : State) (n : Name) : Except Error State := do
  require (s.hasObject n) (.plain "dataset does not exist")
  require (!s.holds.any (·.1 == n)) (.plain "dataset is busy")
  require (!s.clones.any (·.1 == n)) (.plain "snapshot has dependent clones")
  return s.erase n

def insert (s : State) (o : Object) (h : s.hasObject o.name = false) : State :=
  { s with
    objects := s.objects ++ [o]
    distinct := by
      have hnot : ∀ p ∈ s.objects, p.name ≠ o.name := by
        intro p hp hn
        have := hasObject_iff.mpr ⟨p, hp, hn⟩
        simp [h] at this
      rw [List.map_append, List.nodup_append]
      refine ⟨s.distinct, by simp, ?_⟩
      simpa using hnot }

/-- `zfs bookmark`: the bookmark keeps its snapshot's GUID and creation transaction. -/
def bookmark (s : State) (n : Name) (m : Mark) : Except Error State :=
  match hn : s.object n with
  | none => .error (.plain "dataset does not exist")
  | some o =>
    if h : s.hasObject (.bookmark n.base m) = false then
      .ok (s.insert ⟨.bookmark n.base m, .bookmark, o.guid, o.createTXG,
        (object_eq_some.mp hn).2 ▸ o.valid, rfl, o.guid_ne, o.txg_ne⟩ h)
    else .error (.plain "bookmark exists")

/-- `zfs set` of one property. -/
def setProperty (s : State) (n : Name) (k : Key) (v : Value) : Except Error State := do
  require (s.hasObject n) (.plain "dataset does not exist")
  return { s with
    properties := s.properties.filter (fun r => !(r.dataset == n && r.name == k)) ++
      [⟨n, k, v, .sourceLocal⟩] }

/-- `zfs set` of several properties in one command. -/
def setProperties (s : State) (n : Name) (values : List (Key × Value)) : Except Error State :=
  values.foldlM (fun s kv => s.setProperty n kv.1 kv.2) s

structure Birth where
  guid : Nat
  createTXG : Nat
  guid_ne : guid ≠ 0
  txg_ne : createTXG ≠ 0

/-- One snapshot of `zfs snapshot`, with the properties set on it. -/
def snapshotOne (s : State) (d : Dataset) (c : Component) (values : List (Key × Value)) (b : Birth) :
    Except Error State :=
  match hn : s.object (.dataset d) with
  | none => .error (.plain "dataset does not exist")
  | some o =>
    if h : s.hasObject (.snapshot d c) = false then
      let t := s.insert ⟨.snapshot d c, .snapshot, b.guid, b.createTXG,
        (congrArg Name.base (object_eq_some.mp hn).2 : o.name.base = d) ▸ o.valid, rfl, b.guid_ne, b.txg_ne⟩ h
      .ok { t with properties := t.properties ++ values.map fun kv => ⟨.snapshot d c, kv.1, kv.2, .sourceLocal⟩ }
    else .error (.plain "dataset already exists")

/-- `zfs snapshot` of several datasets, which makes all of the snapshots or none. -/
def snapshotAll (s : State) (members : List Dataset) (c : Component) (values : List (Key × Value))
    (births : Dataset → Birth) : Except Error State :=
  members.foldlM (fun s d => s.snapshotOne d c values (births d)) s

/-- `zfs inherit`: removes a local value and masks, but does not erase, a received one. -/
def inheritProperty (s : State) (n : Name) (k : Key) : Except Error State := do
  require (s.hasObject n) (.plain "dataset does not exist")
  return { s with properties := s.properties.filter (fun r => !(r.dataset == n && r.name == k)) }

end State

inductive Command where
  | setProperty (n : Name) (k : Key) (v : Value)
  | inheritProperty (n : Name) (k : Key)
  | hold (t : Tag) (n : Name)
  | release (t : Tag) (n : Name)
  | bookmark (n : Name) (m : Mark)
  | destroyBookmark (d : Dataset) (m : Mark)
  | destroySnapshot (n : Name)
deriving DecidableEq, Repr

def Command.run (s : State) : Command → Except Error State
  | .setProperty n k v => s.setProperty n k v
  | .inheritProperty n k => s.inheritProperty n k
  | .hold t n => s.hold t n
  | .release t n => s.release t n
  | .bookmark n m => s.bookmark n m
  | .destroyBookmark d m => s.destroyBookmark d m
  | .destroySnapshot n => s.destroySnapshot n

def runAll (s : State) (cs : List Command) : Except Error State := cs.foldlM Command.run s

/-- What is left of a pool when a list of commands stops, at the first that is refused or after the
`cut`th. -/
def runUntil (s : State) : List Command → Option Nat → State × Option Error
  | [], _ => (s, none)
  | _ :: _, some 0 => (s, some (.plain "interrupted"))
  | c :: cs, cut =>
    match c.run s with
    | .error e => (s, some e)
    | .ok t => runUntil t cs (cut.map (· - 1))

end Boomerangz.Zfs
