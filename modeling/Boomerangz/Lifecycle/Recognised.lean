import Boomerangz.Lib.Calendar
import Boomerangz.Zfs.Text

/-! # Ownership in texts

`NewMetadata`, `Name` and `Ownership` on the texts themselves.
-/

namespace Boomerangz.Lifecycle.Text

open Check Zfs Zfs.Text

/-! ## Identities -/

def hexLower (c : Char) : Bool := c.isDigit || (97 ≤ c.toNat && c.toNat ≤ 102)

def hexGroup (width : Nat) (group : List Char) : Bool := group.length == width && group.all hexLower

/-- `uuidPattern`. -/
def validID (id : List Char) : Bool :=
  match id.splitOn '-' with
  | [a, b, c, d, e] => hexGroup 8 a && hexGroup 4 b && hexGroup 4 c && hexGroup 4 d && hexGroup 12 e &&
      c.head?.any (fun x => 49 ≤ x.toNat && x.toNat ≤ 56) && d.head?.any ("89ab".toList.contains ·)
  | _ => false

def hexByte (b : BitVec 8) : List Char := [Nat.digitChar (b >>> 4).toNat, Nat.digitChar (b &&& 15).toNat]

/-- `identity.New` from its random bytes. -/
def newID (data : Fin 16 → BitVec 8) : List Char :=
  let version := hexByte (data 6 &&& 0x0f ||| 0x40)
  let variant := hexByte (data 8 &&& 0x3f ||| 0x80)
  (hexByte (data 0) ++ hexByte (data 1) ++ hexByte (data 2) ++ hexByte (data 3)) ++ '-' ::
    (hexByte (data 4) ++ hexByte (data 5)) ++ '-' :: (version ++ hexByte (data 7)) ++ '-' ::
    (variant ++ hexByte (data 9)) ++ '-' ::
    (hexByte (data 10) ++ hexByte (data 11) ++ hexByte (data 12) ++ hexByte (data 13) ++ hexByte (data 14) ++
      hexByte (data 15))

/-! ## Times -/

/-- A `time.Time`: nanoseconds from the first moment of the year 1, and seconds east of UTC. -/
structure ZonedTime where
  instant : Int
  offset : Int
deriving DecidableEq, Repr

/-- `nameTimeFormat`: how an instant of UTC is written in a name, and read. -/
structure Layout where
  format : Int → List Char
  parse : List Char → Option Int
  inverse : ∀ instant, yearFits instant = true → parse (format instant) = some instant
  dashless : ∀ instant, yearFits instant = true → '-' ∉ format instant

/-! ## Metadata -/

structure Metadata where
  lineage : List Char
  snapshot : List Char
  created : Int
deriving DecidableEq, Repr

def newMetadata (lineage : List Char) (now : ZonedTime) (data : Fin 16 → BitVec 8) : Except String Metadata := do
  require (validID lineage && now.instant != 0 && yearFits (now.instant + 1000000000 * now.offset))
    "valid lineage and creation time are required"
  return ⟨lineage, newID data, now.instant⟩

def snapshotPrefixText : List Char := "boomerangz-".toList

def Metadata.name (l : Layout) (m : Metadata) : List Char :=
  if validID m.snapshot then snapshotPrefixText ++ (l.format m.created ++ '-' :: m.snapshot.take 8) else []

/-! ## Ownership -/

structure Snapshot where
  name : List Char
  guid : Nat
  properties : List Row
deriving DecidableEq, Repr

structure Values where
  lineage : Option (List Char)
  snapshot : Option (List Char)

/-- The loop of `Ownership` over the properties. -/
def collectValues (name : List Char) : List Row → Values → Except String Values
  | [], values => .ok values
  | p :: ps, values =>
    if p.name != lineageProperty && p.name != snapshotProperty then collectValues name ps values
    else if p.dataset != name || (p.source != "local".toList && p.source != "received".toList) then
      .error "ownership metadata is not stored on snapshot"
    else if p.name == lineageProperty then
      if values.lineage.isSome then .error "ambiguous ownership metadata"
      else collectValues name ps { values with lineage := some p.value }
    else if values.snapshot.isSome then .error "ambiguous ownership metadata"
    else collectValues name ps { values with snapshot := some p.value }

def ownership (l : Layout) (s : Snapshot) (lineage : List Char) : Except String Metadata := do
  require (validID lineage && s.guid != 0) "valid lineage and snapshot GUID are required"
  let dataset := s.name.takeWhile (· != '@')
  let component := (s.name.dropWhile (· != '@')).drop 1
  require (s.name.contains '@' && validateDataset dataset && snapshotPrefixText.isPrefixOf component)
    "snapshot name does not establish ownership"
  let values ← collectValues s.name s.properties ⟨none, none⟩
  let snapshot := values.snapshot.getD []
  require (values.lineage.getD [] == lineage && validID snapshot) "missing or mismatched ownership UUIDs"
  let stamp := (component.drop snapshotPrefixText.length).takeWhile (· != '-')
  match l.parse stamp with
  | none => throw "invalid ownership creation time"
  | some created =>
    require (created != 0 && yearFits created) "invalid ownership creation time"
    let m : Metadata := ⟨lineage, snapshot, created⟩
    require (component == m.name l) "snapshot name does not match its metadata"
    return m

/-! ## What the loop collects -/

def valuesOf (key : List Char) (rows : List Row) : List (List Char) := (rows.filter (·.name == key)).map Row.value

theorem valuesOf_cons (key : List Char) (p : Row) (ps : List Row) :
    valuesOf key (p :: ps) = if p.name = key then p.value :: valuesOf key ps else valuesOf key ps := by
  unfold valuesOf
  by_cases h : p.name = key <;> simp [h]

def StoredOn (name : List Char) (p : Row) : Prop :=
  p.dataset = name ∧ (p.source = "local".toList ∨ p.source = "received".toList)

def AllStored (name : List Char) (rows : List Row) : Prop :=
  ∀ p ∈ rows, p.name = lineageProperty ∨ p.name = snapshotProperty → StoredOn name p

theorem allStored_cons {name : List Char} {p : Row} {ps : List Row} : AllStored name (p :: ps) ↔
    (p.name = lineageProperty ∨ p.name = snapshotProperty → StoredOn name p) ∧ AllStored name ps :=
  List.forall_mem_cons

theorem properties_ne : lineageProperty ≠ snapshotProperty := by decide

theorem toList_append_cons {α : Type} {o o' : Option α} {x : α} {xs : List α} :
    o.toList ++ x :: xs = o'.toList ↔ o = none ∧ (some x).toList ++ xs = o'.toList := by
  cases o with
  | none => simp
  | some y =>
    cases o' with
    | none => simp
    | some z => simp

theorem toList_eq_iff {α : Type} {o o' : Option α} : o.toList = o'.toList ↔ o = o' := by
  cases o <;> cases o' <;> simp

theorem not_storedOn {name : List Char} {p : Row} : (p.dataset != name ||
    (p.source != "local".toList && p.source != "received".toList)) = true ↔ ¬ StoredOn name p := by
  simp only [StoredOn, Bool.or_eq_true, Bool.and_eq_true, bne_iff_ne, not_and_or, not_or]

theorem collectValues_eq_ok {name : List Char} {ps : List Row} {v v' : Values} : collectValues name ps v = .ok v' ↔
    AllStored name ps ∧ v.lineage.toList ++ valuesOf lineageProperty ps = v'.lineage.toList ∧
      v.snapshot.toList ++ valuesOf snapshotProperty ps = v'.snapshot.toList := by
  induction ps generalizing v with
  | nil =>
    have hext : v = v' ↔ v.lineage = v'.lineage ∧ v.snapshot = v'.snapshot := by
      cases v
      cases v'
      simp
    simp only [collectValues, Except.ok.injEq, hext, valuesOf, List.filter_nil, List.map_nil, List.append_nil,
      toList_eq_iff]
    simp [AllStored]
  | cons p ps ih =>
    rw [allStored_cons, valuesOf_cons, valuesOf_cons]
    unfold collectValues
    split
    · rename_i hother
      simp only [Bool.and_eq_true, bne_iff_ne] at hother
      rw [ih, if_neg hother.1, if_neg hother.2]
      simp [hother]
    · rename_i hkey
      simp only [Bool.and_eq_true, bne_iff_ne, not_and_or, not_not] at hkey
      split
      · rename_i hbad
        rw [not_storedOn] at hbad
        simp [hkey, hbad]
      · rename_i hstored
        rw [not_storedOn, not_not] at hstored
        split
        · rename_i hl
          rw [beq_iff_eq] at hl
          have hs : p.name ≠ snapshotProperty := hl ▸ properties_ne
          rw [if_pos hl, if_neg hs, toList_append_cons]
          split
          · rename_i hsome
            obtain ⟨x, hx⟩ := Option.isSome_iff_exists.mp hsome
            simp [hx]
          · rename_i hnone
            rw [ih]
            simp [hstored, Option.not_isSome_iff_eq_none.mp hnone]
        · rename_i hl
          rw [beq_iff_eq] at hl
          have hs := hkey.resolve_left hl
          rw [if_neg hl, if_pos hs, toList_append_cons]
          split
          · rename_i hsome
            obtain ⟨x, hx⟩ := Option.isSome_iff_exists.mp hsome
            simp [hx]
          · rename_i hnone
            rw [ih]
            simp [hstored, Option.not_isSome_iff_eq_none.mp hnone]

/-! ## What is accepted -/

theorem not_mem_of_validateDataset {d : List Char} (h : validateDataset d = true) : '@' ∉ d := by
  simp only [validateDataset, Bool.and_eq_true, Bool.not_eq_true', List.contains_eq_mem, decide_eq_false_iff_not] at h
  exact h.1.1.1.2

theorem takeWhile_of_not_mem {sep : Char} {t : List Char} (h : sep ∉ t) (rest : List Char) :
    (t ++ sep :: rest).takeWhile (· != sep) = t ∧ (t ++ sep :: rest).dropWhile (· != sep) = sep :: rest := by
  have hall : ∀ c ∈ t, (c != sep) = true := fun c hc => bne_iff_ne.mpr fun heq => h (heq ▸ hc)
  rw [List.takeWhile_append_of_pos hall, List.dropWhile_append_of_pos hall]
  simp

theorem eq_takeWhile_append {sep : Char} {t : List Char} (h : sep ∈ t) :
    t = t.takeWhile (· != sep) ++ sep :: (t.dropWhile (· != sep)).drop 1 := by
  obtain ⟨before, after, rfl, hbefore⟩ := List.eq_append_cons_of_mem h
  obtain ⟨htake, hdrop⟩ := takeWhile_of_not_mem hbefore after
  rw [htake, hdrop]
  rfl

structure Carries (l : Layout) (m : Metadata) (d : List Char) (s : Snapshot) : Prop where
  dataset : validateDataset d = true
  guid : s.guid ≠ 0
  name : s.name = d ++ '@' :: m.name l
  stored : AllStored s.name s.properties
  lineage : valuesOf lineageProperty s.properties = [m.lineage]
  snapshot : valuesOf snapshotProperty s.properties = [m.snapshot]

structure Metadata.Valid (m : Metadata) : Prop where
  lineage : validID m.lineage = true
  snapshot : validID m.snapshot = true
  created : m.created ≠ 0 ∧ yearFits m.created = true

theorem Metadata.name_of_valid {l : Layout} {m : Metadata} (h : validID m.snapshot = true) :
    m.name l = snapshotPrefixText ++ (l.format m.created ++ '-' :: m.snapshot.take 8) := if_pos h

section Accepted

variable {l : Layout} {s : Snapshot} {lineage d : List Char} {m : Metadata}

theorem getD_of_validID {o : Option (List Char)} (h : validID (o.getD []) = true) : o = some (o.getD []) := by
  cases o with
  | none => cases h
  | some x => rfl

theorem ownership_eq_ok_iff : ownership l s lineage = .ok m ↔ m.Valid ∧ m.lineage = lineage ∧ ∃ d, Carries l m d s := by
  unfold ownership
  simp only [ok_iff, Bool.and_eq_true, bne_iff_ne, beq_iff_eq, List.contains_iff_mem]
  constructor
  · rintro ⟨⟨hlineage, hguid⟩, ⟨⟨hat, hdataset⟩, -⟩, v, hv, ⟨hsame, hsnapshot⟩, h⟩
    split at h
    · cases h
    · simp only [ok_iff, Bool.and_eq_true, bne_iff_ne, beq_iff_eq] at h
      obtain ⟨hcreated, hcomponent, rfl⟩ := h
      obtain ⟨hstored, hl, hs⟩ := collectValues_eq_ok.mp hv
      have hvl : v.lineage = some lineage := by
        rw [getD_of_validID (o := v.lineage) (by rw [hsame]; exact hlineage), hsame]
      have hvs := getD_of_validID hsnapshot
      refine ⟨⟨hlineage, hsnapshot, hcreated⟩, rfl, _, hdataset, hguid, ?_, hstored, ?_, ?_⟩
      · rw [← hcomponent]
        exact eq_takeWhile_append hat
      · simpa [hvl] using hl
      · rw [hvs] at hs
        simpa using hs
  · rintro ⟨⟨hlineage, hsnapshot, hcreated⟩, rfl, d, hd, hguid, hname, hstored, hl, hs⟩
    obtain ⟨hdataset, hcomponent⟩ := takeWhile_of_not_mem (not_mem_of_validateDataset hd) (m.name l)
    have hstamp := (takeWhile_of_not_mem (l.dashless m.created hcreated.2) (m.snapshot.take 8)).1
    have hv : collectValues s.name s.properties ⟨none, none⟩ = .ok ⟨some m.lineage, some m.snapshot⟩ :=
      collectValues_eq_ok.mpr ⟨hstored, by simp [hl], by simp [hs]⟩
    have hm := Metadata.name_of_valid (l := l) hsnapshot
    refine ⟨⟨hlineage, hguid⟩, ?_, _, hv, ⟨rfl, hsnapshot⟩, ?_⟩
    · rw [hname, hdataset, hcomponent, List.drop_one, List.tail_cons, hm]
      exact ⟨⟨by simp, hd⟩, by simp⟩
    · have hparse : l.parse (((s.name.dropWhile (· != '@')).drop 1).drop snapshotPrefixText.length |>.takeWhile (· != '-')) =
          some m.created := by
        rw [hname, hcomponent, List.drop_one, List.tail_cons, hm, List.drop_left, hstamp]
        exact l.inverse m.created hcreated.2
      simp only [hparse, ok_iff, Bool.and_eq_true, bne_iff_ne, beq_iff_eq]
      refine ⟨hcreated, ?_, rfl⟩
      rw [hname, hcomponent]
      rfl

theorem Carries.component_eq {d' : List Char} {m' : Metadata} (h : Carries l m d s) (h' : Carries l m' d' s) :
    m.name l = m'.name l := by
  have hcut := (takeWhile_of_not_mem (not_mem_of_validateDataset h.dataset) (m.name l)).2
  have hcut' := (takeWhile_of_not_mem (not_mem_of_validateDataset h'.dataset) (m'.name l)).2
  rw [← h.name] at hcut
  rw [← h'.name, hcut] at hcut'
  exact List.tail_eq_of_cons_eq hcut'

theorem ownership_unique {lineage' : List Char} {m' : Metadata} (h : ownership l s lineage = .ok m)
    (h' : ownership l s lineage' = .ok m') : m = m' := by
  obtain ⟨hvalid, -, d, hc⟩ := ownership_eq_ok_iff.mp h
  obtain ⟨hvalid', -, d', hc'⟩ := ownership_eq_ok_iff.mp h'
  have hlineage : m.lineage = m'.lineage := List.singleton_inj.mp (hc.lineage.symm.trans hc'.lineage)
  have hsnapshot : m.snapshot = m'.snapshot := List.singleton_inj.mp (hc.snapshot.symm.trans hc'.snapshot)
  have hname := hc.component_eq hc'
  rw [Metadata.name_of_valid hvalid.snapshot, Metadata.name_of_valid hvalid'.snapshot, List.append_cancel_left_eq] at hname
  have hstamp := (takeWhile_of_not_mem (l.dashless m.created hvalid.created.2) (m.snapshot.take 8)).1
  have hstamp' := (takeWhile_of_not_mem (l.dashless m'.created hvalid'.created.2) (m'.snapshot.take 8)).1
  rw [hname, hstamp'] at hstamp
  have hparse := l.inverse m.created hvalid.created.2
  rw [← hstamp, l.inverse m'.created hvalid'.created.2, Option.some.injEq] at hparse
  cases m
  cases m'
  simp only at hlineage hsnapshot hparse
  rw [hlineage, hsnapshot, hparse]

end Accepted

/-! ## Fresh identities -/

theorem hexLower_hexByte (b : BitVec 8) : (hexByte b).all hexLower = true := by
  revert b
  decide

theorem version_digit (b : BitVec 8) : Nat.digitChar ((b &&& 0x0f ||| 0x40) >>> 4).toNat = '4' := by
  revert b
  decide

theorem variant_digit (b : BitVec 8) :
    "89ab".toList.contains (Nat.digitChar ((b &&& 0x3f ||| 0x80) >>> 4).toNat) = true := by
  revert b
  decide

theorem dash_not_mem {group : List Char} (h : group.all hexLower = true) : '-' ∉ group :=
  fun hdash => absurd (List.all_eq_true.mp h '-' hdash) (by decide)

@[simp] theorem length_hexByte (b : BitVec 8) : (hexByte b).length = 2 := rfl

theorem hexGroup_flatMap (bytes : List (BitVec 8)) :
    (bytes.flatMap hexByte).all hexLower = true ∧ (bytes.flatMap hexByte).length = 2 * bytes.length := by
  induction bytes with
  | nil => exact ⟨rfl, rfl⟩
  | cons b bytes ih =>
    rw [List.flatMap_cons, List.all_append, List.length_append, hexLower_hexByte, ih.1, ih.2, length_hexByte,
      List.length_cons]
    exact ⟨rfl, by omega⟩

theorem validID_newID (data : Fin 16 → BitVec 8) : validID (newID data) = true := by
  have hgroups : newID data =
      [data 0, data 1, data 2, data 3].flatMap hexByte ++ '-' :: ([data 4, data 5].flatMap hexByte ++ '-' ::
        ([data 6 &&& 0x0f ||| 0x40, data 7].flatMap hexByte ++ '-' ::
          ([data 8 &&& 0x3f ||| 0x80, data 9].flatMap hexByte ++ '-' ::
            [data 10, data 11, data 12, data 13, data 14, data 15].flatMap hexByte))) := by
    simp only [newID, List.flatMap_cons, List.flatMap_nil, List.append_nil, List.append_assoc, List.cons_append]
  have hdash := fun bytes => dash_not_mem (hexGroup_flatMap bytes).1
  have hgroup : ∀ bytes : List (BitVec 8), hexGroup (2 * bytes.length) (bytes.flatMap hexByte) = true := by
    intro bytes
    simp only [hexGroup, (hexGroup_flatMap bytes).1, (hexGroup_flatMap bytes).2, beq_self_eq_true, Bool.and_self]
  unfold validID
  rw [hgroups, List.splitOn_append_cons_self_of_not_mem (hdash _), List.splitOn_append_cons_self_of_not_mem (hdash _),
    List.splitOn_append_cons_self_of_not_mem (hdash _), List.splitOn_append_cons_self_of_not_mem (hdash _),
    List.splitOn_eq_singleton (hdash _)]
  simp only [Bool.and_eq_true]
  refine ⟨⟨⟨⟨⟨⟨hgroup _, hgroup _⟩, hgroup _⟩, hgroup _⟩, hgroup _⟩, ?_⟩, ?_⟩
  · simp only [List.flatMap_cons, hexByte, List.cons_append, List.head?_cons, Option.any_some, version_digit]
    decide
  · simp only [List.flatMap_cons, hexByte, List.cons_append, List.head?_cons, Option.any_some, variant_digit]

/-! ## Recognition -/

theorem newMetadata_eq_ok {lineage : List Char} {now : ZonedTime} {data : Fin 16 → BitVec 8} {m : Metadata} :
    newMetadata lineage now data = .ok m ↔ validID lineage = true ∧ now.instant ≠ 0 ∧
      yearFits (now.instant + 1000000000 * now.offset) = true ∧ m = ⟨lineage, newID data, now.instant⟩ := by
  simp only [newMetadata, ok_iff, Bool.and_eq_true, bne_iff_ne, and_assoc, @eq_comm _ m]

/-- A snapshot made with fresh metadata is recognised as exactly that when the year fits in UTC. Whatever is accepted
is named by what is returned, stores it once, and is accepted as nothing else. -/
theorem ownership_recognises (l : Layout) :
    (∀ lineage now data m d s, newMetadata lineage now data = .ok m → Carries l m d s →
      (ownership l s m.lineage = .ok m ↔ yearFits now.instant = true)) ∧
    (∀ s lineage m, ownership l s lineage = .ok m → m.lineage = lineage ∧ (∃ d, Carries l m d s) ∧
      ∀ lineage' m', ownership l s lineage' = .ok m' → m' = m) := by
  refine ⟨?_, fun s lineage m h => ?_⟩
  · intro lineage now data m d s hm hcarries
    obtain ⟨hlineage, hzero, -, rfl⟩ := newMetadata_eq_ok.mp hm
    rw [ownership_eq_ok_iff]
    constructor
    · rintro ⟨hvalid, -, -⟩
      exact hvalid.created.2
    · intro hyear
      exact ⟨⟨hlineage, validID_newID data, hzero, hyear⟩, rfl, d, hcarries⟩
  · obtain ⟨-, hlineage, hcarries⟩ := ownership_eq_ok_iff.mp h
    exact ⟨hlineage, hcarries, fun lineage' m' h' => ownership_unique h' h⟩

/-! ### The layout of the names -/

theorem yearFits_iff {clock : Int} : yearFits clock = true ↔ 0 ≤ clock ∧ clock < 315537897600000000000 := by
  simp only [yearFits, Bool.and_eq_true, decide_eq_true_eq]
  rfl

/-- `20060102T150405.000000000Z`. -/
def nameLayout : Layout where
  format := Calendar.format
  parse := Calendar.parse
  inverse instant h := Calendar.parse_format (yearFits_iff.mp h).1 (yearFits_iff.mp h).2
  dashless instant h hdash := by
    rcases Calendar.mem_format (yearFits_iff.mp h).1 (yearFits_iff.mp h).2 hdash with hdash | hdash | hdash | hdash <;>
      exact absurd hdash (by decide)

def pearlLineage : List Char := "11111111-1111-4111-8111-111111111111".toList

def pearlRows (name : List Char) (source : List Char) : List Row :=
  [⟨name, lineageProperty, pearlLineage, source⟩,
    ⟨name, snapshotProperty, "00000000-0000-4000-8000-000000000000".toList, source⟩]

def pearlSnapshot (name : String) (source : String) : Snapshot := ⟨name.toList, 7, pearlRows name.toList source.toList⟩

theorem pearl_stored (name source : String) (h : source = "local" ∨ source = "received") :
    AllStored name.toList (pearlRows name.toList source.toList) := by
  have hsource : source.toList = "local".toList ∨ source.toList = "received".toList :=
    h.imp (congrArg String.toList) (congrArg String.toList)
  intro p hp _
  simp only [pearlRows, List.mem_cons, List.not_mem_nil, or_false] at hp
  rcases hp with rfl | rfl <;> exact ⟨rfl, hsource⟩

/-- Half an hour before the year 10000 an hour west of Greenwich: the year of the zone is 9999, and the name
has a year that does not fit. -/
theorem last_hour_unrecognised : ∃ m, newMetadata pearlLineage ⟨315537899400000000000, -3600⟩ (fun _ => 0) = .ok m ∧
    Carries nameLayout m "pearl".toList
      (pearlSnapshot "pearl@boomerangz-100000101T003000.000000000Z-00000000" "local") ∧
    ownership nameLayout (pearlSnapshot "pearl@boomerangz-100000101T003000.000000000Z-00000000" "local") pearlLineage =
      .error "invalid ownership creation time" := by
  refine ⟨⟨pearlLineage, newID fun _ => 0, 315537899400000000000⟩, by decide, ?_, by decide⟩
  exact ⟨by decide, by decide, by decide, pearl_stored _ _ (.inl rfl), by decide, by decide⟩

/-- Received on a replica two hours east, an instant of the fourteenth of September is recognised. -/
theorem september_recognised : ∃ m, newMetadata pearlLineage ⟨63925000000123456789, 7200⟩ (fun _ => 0) = .ok m ∧
    ownership nameLayout (pearlSnapshot "pearl@boomerangz-20260914T162640.123456789Z-00000000" "received") m.lineage =
      .ok m := by
  refine ⟨⟨pearlLineage, newID fun _ => 0, 63925000000123456789⟩, by decide, ?_⟩
  refine ((ownership_recognises nameLayout).1 pearlLineage ⟨63925000000123456789, 7200⟩ (fun _ => 0) _ "pearl".toList _
    (by decide) ?_).mpr (by decide)
  exact ⟨by decide, by decide, by decide, pearl_stored _ _ (.inr rfl), by decide, by decide⟩

end Boomerangz.Lifecycle.Text
