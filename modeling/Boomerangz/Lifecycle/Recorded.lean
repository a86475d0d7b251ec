import Boomerangz.Lifecycle.Recognised

/-! # Recovery proofs in texts

The key has a digest of the stream and the value its relative path; `decodeReference` puts the two together.
-/

open Check
open Boomerangz.Zfs (yearFits validateDataset)
open Boomerangz.Zfs.Text

namespace Boomerangz.Lifecycle.Text

/-! ## Records -/

structure Reference where
  targetID : List Char
  dataset : List Char
  metadata : Metadata
  recursive : Bool
deriving DecidableEq, Repr

structure ReferenceRecord where
  stream : List Char
  created : ZonedTime
  recursive : Bool
deriving DecidableEq, Repr

/-- `streamID`: hexadecimal digits of a hash. -/
structure Hash where
  streamID : List Char → List Char
  hex : ∀ d, (streamID d).all hexLower = true

/-- JSON of a record. A time of UTC within the four-digit years is read back as it was. -/
structure Json where
  marshal : ReferenceRecord → Option (List Char)
  unmarshal : List Char → Option ReferenceRecord
  inverse : ∀ r, r.created.offset = 0 → yearFits r.created.instant = true →
    ∃ text, marshal r = some text ∧ unmarshal text = some r

def referencePrefixText : List Char := "org.boomerangz:state:reference:".toList

def Reference.property (h : Hash) (r : Reference) : List Char :=
  referencePrefixText ++ (r.targetID ++ ':' :: (h.streamID r.dataset ++ ':' :: r.metadata.snapshot))

/-- `strings.TrimPrefix`. -/
def trimFront (front t : List Char) : List Char := if front.isPrefixOf t then t.drop front.length else t

def hexDigit (c : Char) : Bool := hexLower c || (65 ≤ c.toNat && c.toNat ≤ 70)

def validTarget (t : List Char) : Bool := t.length == 64 && t.all hexDigit

def ReferenceRecord.streamOn (record : ReferenceRecord) (root : List Char) : List Char :=
  if record.stream = [] then root else root ++ '/' :: record.stream

def decodeReference (h : Hash) (c : Json) (p : Row) (root lineage : List Char) : Except String Reference :=
  match (trimFront referencePrefixText p.name).splitOn ':' with
  | [target, _, id] => do
    require (validID lineage && target.length == 64 && validID id) "invalid reference key"
    require (target.all hexDigit) "encoding/hex: invalid byte"
    match c.unmarshal p.value with
    | none => throw "invalid reference record"
    | some record =>
      let created := record.created.instant
      require (validateDataset (record.streamOn root) && created != 0 && yearFits created) "invalid reference record"
      let r : Reference := ⟨target, record.streamOn root, ⟨lineage, id, created⟩, record.recursive⟩
      require (r.property h == p.name) "reference record names another stream"
      return r
  | _ => .error "invalid reference key"

def Reference.record (r : Reference) (root : List Char) : ReferenceRecord :=
  ⟨if r.dataset = root then [] else trimFront (root ++ ['/']) r.dataset, ⟨r.metadata.created, 0⟩, r.recursive⟩

def encodeReference (c : Json) (r : Reference) (root : List Char) : Option (List Char) := c.marshal (r.record root)

/-! ## Keys -/

/-- A reference of a root: what `Protect` makes proofs of. -/
structure Reference.Of (r : Reference) (root lineage : List Char) : Prop where
  dataset : validateDataset r.dataset = true
  inside : r.dataset = root ∨ ∃ rest, r.dataset = root ++ '/' :: rest
  target : validTarget r.targetID = true
  lineage : validID lineage = true ∧ r.metadata.lineage = lineage
  snapshot : validID r.metadata.snapshot = true
  created : yearFits r.metadata.created = true

section Keys

variable {h : Hash} {r r' : Reference} {root lineage : List Char} {t : List Char}

theorem colon_not_mem_of_hex (ht : t.all hexDigit = true) : ':' ∉ t :=
  fun hcolon => absurd (List.all_eq_true.mp ht ':' hcolon) (by decide)

theorem hexDigit_of_hexLower (ht : t.all hexLower = true) : t.all hexDigit = true := by
  rw [List.all_eq_true] at ht ⊢
  intro c hc
  rw [hexDigit, ht c hc, Bool.true_or]

theorem hexLower_of_validID (ht : validID t = true) : ∀ part ∈ t.splitOn '-', part.all hexLower = true := by
  unfold validID at ht
  split at ht
  · rename_i a b c d e hparts
    simp only [Bool.and_eq_true, hexGroup] at ht
    obtain ⟨⟨⟨⟨⟨⟨⟨-, ha⟩, -, hb⟩, -, hc⟩, -, hd⟩, -, he⟩, -⟩, -⟩ := ht
    rw [hparts]
    simp only [List.forall_mem_cons]
    exact ⟨ha, hb, hc, hd, he, by simp⟩
  · cases ht

theorem colon_not_mem_of_validID (ht : validID t = true) : ':' ∉ t := by
  intro hcolon
  have hjoin : ['-'].intercalate (t.splitOn '-') = t := List.intercalate_splitOn '-'
  rw [← hjoin] at hcolon
  rcases Lists.mem_of_mem_intercalate hcolon with hcolon | ⟨part, hpart, hcolon⟩
  · exact absurd hcolon (by decide)
  · exact colon_not_mem_of_hex (hexDigit_of_hexLower (hexLower_of_validID ht part hpart)) hcolon

theorem splitOn_property (htarget : r.targetID.all hexDigit = true) (hid : validID r.metadata.snapshot = true) :
    (trimFront referencePrefixText (r.property h)).splitOn ':' =
      [r.targetID, h.streamID r.dataset, r.metadata.snapshot] := by
  have hfront : referencePrefixText.isPrefixOf (r.property h) = true := by
    rw [List.isPrefixOf_iff_prefix]
    exact List.prefix_append _ _
  unfold trimFront
  rw [if_pos hfront, Reference.property, List.drop_left,
    List.splitOn_append_cons_self_of_not_mem (colon_not_mem_of_hex htarget),
    List.splitOn_append_cons_self_of_not_mem (colon_not_mem_of_hex (hexDigit_of_hexLower (h.hex r.dataset))),
    List.splitOn_eq_singleton (colon_not_mem_of_validID hid)]

theorem validTarget_iff : validTarget t = true ↔ t.length = 64 ∧ t.all hexDigit = true := by
  simp only [validTarget, Bool.and_eq_true, beq_iff_eq]

theorem property_inj (hr : r.Of root lineage) (hr' : r'.Of root lineage) (heq : r.property h = r'.property h) :
    r.targetID = r'.targetID ∧ h.streamID r.dataset = h.streamID r'.dataset ∧
      r.metadata.snapshot = r'.metadata.snapshot := by
  have hsplit := splitOn_property (h := h) (validTarget_iff.mp hr.target).2 hr.snapshot
  rw [heq, splitOn_property (validTarget_iff.mp hr'.target).2 hr'.snapshot] at hsplit
  simp only [List.cons.injEq, and_true] at hsplit
  exact ⟨hsplit.1.symm, hsplit.2.1.symm, hsplit.2.2.symm⟩

end Keys

/-! ## Values -/

section Values

variable {h : Hash} {c : Json} {r r' : Reference} {root lineage text : List Char} {p : Row}

theorem rest_ne_nil {rest : List Char} (hd : validateDataset (root ++ '/' :: rest) = true) : rest ≠ [] := by
  rintro rfl
  simp only [validateDataset, List.splitOn_append_cons_self, List.all_append, Bool.and_eq_true] at hd
  exact absurd hd.1.2.2 (by decide)

theorem streamOn_record (hr : r.Of root lineage) : (r.record root).streamOn root = r.dataset := by
  unfold ReferenceRecord.streamOn Reference.record
  rcases hr.inside with hroot | ⟨rest, hrest⟩
  · simp [hroot]
  · have hne : r.dataset ≠ root := by
      rw [hrest]
      simp
    have hvalid := hr.dataset
    rw [hrest] at hvalid
    have htrim : trimFront (root ++ ['/']) r.dataset = rest := by
      have hfront : root ++ '/' :: rest = root ++ ['/'] ++ rest := by simp
      rw [hrest, hfront, trimFront, if_pos (by rw [List.isPrefixOf_iff_prefix]; exact List.prefix_append _ _),
        List.drop_left]
    simp only [if_neg hne, htrim, if_neg (rest_ne_nil hvalid)]
    exact hrest.symm

theorem decodeReference_eq_ok : decodeReference h c p root lineage = .ok r ↔
    ∃ record, c.unmarshal p.value = some record ∧ p.name = r.property h ∧ validID lineage = true ∧
      validTarget r.targetID = true ∧ validID r.metadata.snapshot = true ∧ validateDataset r.dataset = true ∧
      (r.metadata.created ≠ 0 ∧ yearFits r.metadata.created = true) ∧ r = ⟨r.targetID, record.streamOn root,
        ⟨lineage, r.metadata.snapshot, record.created.instant⟩, record.recursive⟩ := by
  unfold decodeReference
  constructor
  · intro hok
    split at hok
    · simp only [ok_iff, Bool.and_eq_true, beq_iff_eq] at hok
      obtain ⟨⟨⟨hlineage, hlength⟩, hid⟩, hhex, hok⟩ := hok
      split at hok
      · cases hok
      · rename_i record hrecord
        simp only [ok_iff, Bool.and_eq_true, beq_iff_eq, bne_iff_ne] at hok
        obtain ⟨⟨⟨hdataset, hzero⟩, hyear⟩, hname, rfl⟩ := hok
        exact ⟨record, hrecord, hname.symm, hlineage, validTarget_iff.mpr ⟨hlength, hhex⟩, hid, hdataset,
          ⟨hzero, hyear⟩, rfl⟩
    · cases hok
  · rintro ⟨record, hrecord, hname, hlineage, htarget, hid, hdataset, hcreated, hr⟩
    obtain ⟨hlength, hhex⟩ := validTarget_iff.mp htarget
    have hsplit := splitOn_property (h := h) hhex hid
    rw [← hname] at hsplit
    rw [hsplit]
    simp only [ok_iff, Bool.and_eq_true, beq_iff_eq, hrecord, bne_iff_ne, ← hr]
    have hstream : record.streamOn root = r.dataset := by rw [hr]
    have htime : record.created.instant = r.metadata.created := by rw [hr]
    rw [hstream, htime]
    exact ⟨⟨⟨hlineage, hlength⟩, hid⟩, hhex, ⟨⟨hdataset, hcreated.1⟩, hcreated.2⟩, hname.symm, trivial⟩

theorem decodeReference_encodeReference (hr : r.Of root lineage) (hcreated : r.metadata.created ≠ 0) :
    ∃ text, encodeReference c r root = some text ∧
      decodeReference h c ⟨root, r.property h, text, "local".toList⟩ root lineage = .ok r := by
  obtain ⟨text, hmarshal, hunmarshal⟩ := c.inverse (r.record root) rfl hr.created
  refine ⟨text, hmarshal, decodeReference_eq_ok.mpr ⟨_, hunmarshal, rfl, hr.lineage.1, hr.target, hr.snapshot, hr.dataset,
    ⟨hcreated, hr.created⟩, ?_⟩⟩
  rw [streamOn_record hr, ← hr.lineage.2]
  rfl

theorem encodeReference_ne (hr : r.Of root lineage) (hr' : r'.Of root lineage) (hne : r ≠ r')
    (hhash : h.streamID r.dataset = h.streamID r'.dataset → r.dataset = r'.dataset)
    (hkey : r.property h = r'.property h) :
    (r.targetID = r'.targetID ∧ r.dataset = r'.dataset ∧ r.metadata.lineage = r'.metadata.lineage ∧
      r.metadata.snapshot = r'.metadata.snapshot) ∧
    (r.metadata.created ≠ r'.metadata.created ∨ r.recursive ≠ r'.recursive) ∧
    encodeReference c r root ≠ encodeReference c r' root := by
  obtain ⟨htarget, hstream, hsnapshot⟩ := property_inj hr hr' hkey
  have hdataset := hhash hstream
  have hlineage := hr.lineage.2.trans hr'.lineage.2.symm
  have hdiffer : ¬ (r.metadata.created = r'.metadata.created ∧ r.recursive = r'.recursive) := by
    rintro ⟨hcreated, hrecursive⟩
    apply hne
    obtain ⟨target, dataset, ⟨lin, id, created⟩, recursive⟩ := r
    simp only at htarget hdataset hlineage hsnapshot hcreated hrecursive
    rw [htarget, hdataset, hlineage, hsnapshot, hcreated, hrecursive]
  refine ⟨⟨htarget, hdataset, hlineage, hsnapshot⟩, by rw [← not_and_or]; exact hdiffer, fun hsame => hdiffer ?_⟩
  obtain ⟨text, hmarshal, hunmarshal⟩ := c.inverse (r.record root) rfl hr.created
  obtain ⟨text', hmarshal', hunmarshal'⟩ := c.inverse (r'.record root) rfl hr'.created
  unfold encodeReference at hsame
  rw [hmarshal, hmarshal', Option.some.injEq] at hsame
  rw [hsame, hunmarshal', Option.some.injEq] at hunmarshal
  simp only [Reference.record, ReferenceRecord.mk.injEq, ZonedTime.mk.injEq, and_true] at hunmarshal
  exact ⟨hunmarshal.2.1.symm, hunmarshal.2.2.symm⟩

end Values

/-- Proofs survive storage and cannot be confused. The zero time stands for no time, and is refused. -/
theorem references_recorded (h : Hash) (c : Json) (root lineage : List Char) :
    (∀ r : Reference, r.Of root lineage → r.metadata.created ≠ 0 → ∃ text, encodeReference c r root = some text ∧
      decodeReference h c ⟨root, r.property h, text, "local".toList⟩ root lineage = .ok r) ∧
    (∀ r r' : Reference, r.Of root lineage → r'.Of root lineage → r ≠ r' →
      (h.streamID r.dataset = h.streamID r'.dataset → r.dataset = r'.dataset) → r.property h = r'.property h →
      (r.targetID = r'.targetID ∧ r.dataset = r'.dataset ∧ r.metadata.lineage = r'.metadata.lineage ∧
        r.metadata.snapshot = r'.metadata.snapshot) ∧
      (r.metadata.created ≠ r'.metadata.created ∨ r.recursive ≠ r'.recursive) ∧
      encodeReference c r root ≠ encodeReference c r' root) ∧
    (∀ p r, decodeReference h c p root lineage = .ok r → ∃ record, c.unmarshal p.value = some record ∧
      r.dataset = record.streamOn root ∧ p.name = referencePrefixText ++ (r.targetID ++ ':' ::
        (h.streamID (record.streamOn root) ++ ':' :: r.metadata.snapshot))) := by
  refine ⟨fun r hr hcreated => decodeReference_encodeReference hr hcreated,
    fun r r' hr hr' hne hhash hkey => encodeReference_ne hr hr' hne hhash hkey, fun p r hok => ?_⟩
  obtain ⟨record, hrecord, hname, -, -, -, -, -, hr⟩ := decodeReference_eq_ok.mp hok
  have hstream : r.dataset = record.streamOn root := by rw [hr]
  refine ⟨record, hrecord, hstream, ?_⟩
  rw [hname, Reference.property, hstream]

/-! ### Proofs of a pearl -/

def pearlReference (created : Int) : Reference :=
  ⟨List.replicate 64 'a', "pearl/oyster".toList,
    ⟨pearlLineage, "00000000-0000-4000-8000-000000000000".toList, created⟩, true⟩

theorem pearlReference_of (created : Int) (h : yearFits created = true) :
    (pearlReference created).Of "pearl".toList pearlLineage :=
  ⟨rfl, .inr ⟨"oyster".toList, rfl⟩, rfl, ⟨by decide, rfl⟩, rfl, h⟩

/-- What `json.Marshal` writes for the proof of an instant. -/
def pearlText (created : Int) (time : String) : ReferenceRecord × List Char :=
  ((pearlReference created).record "pearl".toList,
    ("\x7b\"stream\":\"oyster\",\"created\":\"" ++ time ++ "\",\"recursive\":true\x7d").toList)

def pearlTexts : List (ReferenceRecord × List Char) :=
  [pearlText 0 "0001-01-01T00:00:00Z", pearlText 1 "0001-01-01T00:00:00.000000001Z",
    pearlText 2 "0001-01-01T00:00:00.000000002Z"]

deriving instance Countable for ZonedTime, ReferenceRecord

noncomputable def pearlJson : Json where
  marshal r := some (Lists.tabled pearlTexts r)
  unmarshal := Function.partialInv (Lists.tabled pearlTexts)
  inverse r _ _ := ⟨_, rfl, Function.partialInv_left (Lists.tabled_injective (by decide) (by decide)) r⟩

/-- SHA-256 of `pearl/oyster`, its first half. -/
def pearlHash : Hash := ⟨fun _ => "630bdeef90e0f6c086ec37e9b9c1ab2d".toList, fun _ => by decide⟩

/-- The first moment of the year 1 is the zero time. -/
theorem zero_time_refused : (pearlReference 0).Of "pearl".toList pearlLineage ∧
    ∃ text, encodeReference pearlJson (pearlReference 0) "pearl".toList = some text ∧
      decodeReference pearlHash pearlJson ⟨"pearl".toList, (pearlReference 0).property pearlHash, text, "local".toList⟩
        "pearl".toList pearlLineage = .error "invalid reference record" := by
  refine ⟨pearlReference_of 0 (by decide), _, rfl, ?_⟩
  obtain ⟨text, hmarshal, hread⟩ := pearlJson.inverse ((pearlReference 0).record "pearl".toList) rfl (by decide)
  cases hmarshal
  have hsplit : (trimFront referencePrefixText ((pearlReference 0).property pearlHash)).splitOn ':' =
      [List.replicate 64 'a', pearlHash.streamID [], (pearlReference 0).metadata.snapshot] := by decide
  simp only [decodeReference, hsplit, hread]
  rfl

/-- Two instants of one snapshot share a key, but not their value, and each is read back. -/
theorem pearl_recorded : (∃ text, encodeReference pearlJson (pearlReference 1) "pearl".toList = some text ∧
      decodeReference pearlHash pearlJson ⟨"pearl".toList, (pearlReference 1).property pearlHash, text, "local".toList⟩
        "pearl".toList pearlLineage = .ok (pearlReference 1)) ∧
    encodeReference pearlJson (pearlReference 1) "pearl".toList ≠
      encodeReference pearlJson (pearlReference 2) "pearl".toList := by
  obtain ⟨hround, hdistinct, -⟩ := references_recorded pearlHash pearlJson "pearl".toList pearlLineage
  have hone := pearlReference_of 1 (by decide)
  have htwo := pearlReference_of 2 (by decide)
  exact ⟨hround (pearlReference 1) hone (by decide),
    (hdistinct (pearlReference 1) (pearlReference 2) hone htwo (by decide) (fun _ => rfl) rfl).2.2⟩

end Boomerangz.Lifecycle.Text
