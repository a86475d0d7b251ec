import Boomerangz.Lifecycle.Checked
import Boomerangz.Lifecycle.Recorded
import Boomerangz.Lifecycle.Transition

/-! # Parsed states and what is written of them

`Ownership`, `decodeReference` and `cleanTransition` say of parsed rows what they say of the texts.
-/

namespace Boomerangz.Lifecycle

open Check Zfs
open Zfs.Text (lineageProperty snapshotProperty Row ObjectRow)

variable [Digests]

/-- The texts are in the forms that are read. -/
structure Written (l : Text.Layout) (h : Text.Hash) (c : Text.Json) (value : Value → List Char) : Prop where
  target : ∀ t, Text.validTarget (Digests.target t) = true
  stream : ∀ d, Digests.stream ⟨d⟩ = h.streamID (path d)
  uuid : ∀ u, Text.validID (Digests.uuid u) = true
  short : ∀ u : ID, Digests.short u.short = (Digests.uuid u).take 8
  time : ∀ t, Digests.time t = l.format t
  id : ∀ u, value (.id u) = Digests.uuid u
  reference : ∀ r : ReferenceRecord,
    c.unmarshal (value (.reference r)) = some ⟨path r.stream, ⟨r.created, 0⟩, r.recursive⟩

def sourceText : PropertySource → List Char
  | .sourceLocal => "local".toList
  | .sourceReceived => "received".toList

def rowOf (value : Value → List Char) (p : Property) : Row :=
  ⟨p.dataset.text, p.name.text, value p.value, sourceText p.source⟩

def Metadata.text (m : Metadata) : Text.Metadata := ⟨Digests.uuid m.lineage, Digests.uuid m.snapshot, m.created⟩

variable {l : Text.Layout} {h : Text.Hash} {c : Text.Json} {value : Value → List Char}

/-! ## Ownership -/

def Snapshot.text (value : Value → List Char) (s : Snapshot) : Text.Snapshot :=
  ⟨s.name.text, s.guid, s.properties.map (rowOf value)⟩

/-- What the snapshot was parsed to is what has its texts. -/
structure Snapshot.Legible (value : Value → List Char) (s : Snapshot) (lineage : ID) : Prop where
  keys : ∀ p ∈ s.properties, ∀ k ∈ [Key.lineage, .snapshot], p.name.text = k.text → p.name = k
  datasets : ∀ p ∈ s.properties, p.dataset.text = s.name.text → p.dataset = s.name
  lineage : ∀ p ∈ s.properties, value p.value = Digests.uuid lineage → p.value = .id lineage
  snapshot : ∀ p ∈ s.properties, Text.validID (value p.value) = true → ∃ u, p.value = .id u
  name : ∀ p ∈ s.properties, ∀ u, p.value = .id u → ∀ d created, validDataset d = true →
    s.name.text = (Name.snapshot d (.owned created u.short)).text → s.name = .snapshot d (.owned created u.short)

omit [Digests] in
theorem mem_of_valuesAt {k : Key} {rows : List Property} {v : Value} (hv : v ∈ valuesAt k rows) :
    ∃ p ∈ rows, p.value = v := by
  obtain ⟨p, hp, rfl⟩ := List.mem_map.mp hv
  exact ⟨p, List.mem_of_mem_filter hp, rfl⟩

theorem valuesOf_rowOf {k : Key} {rows : List Property} (hk : ∀ p ∈ rows, p.name.text = k.text → p.name = k) :
    Text.valuesOf k.text (rows.map (rowOf value)) = (valuesAt k rows).map value := by
  have hfilter : rows.filter (fun p => (rowOf value p).name == k.text) = rows.filter (·.name == k) := by
    refine List.filter_congr fun p hp => ?_
    rw [Bool.eq_iff_iff, beq_iff_eq, beq_iff_eq]
    exact ⟨hk p hp, congrArg Key.text⟩
  rw [Text.valuesOf, valuesAt, List.filter_map, Function.comp_def, hfilter, List.map_map, List.map_map]
  rfl

theorem Written.name_text (w : Written l h c value) (m : Metadata) : m.text.name l = m.name.text := by
  rw [Text.Metadata.name_of_valid (w.uuid m.snapshot), Metadata.name, Component.text, w.time, w.short, List.append_assoc]
  rfl

theorem storedOn_rowOf {n : List Char} {p : Property} : Text.StoredOn n (rowOf value p) ↔ p.dataset.text = n := by
  rw [Text.StoredOn, and_iff_left]
  · rfl
  · rw [rowOf]
    cases p.source with
    | sourceLocal => exact .inl rfl
    | sourceReceived => exact .inr rfl

theorem ownership_text (w : Written l h c value) {s : Snapshot} {lineage : ID} (hs : s.Legible value lineage)
    {m' : Text.Metadata} : Text.ownership l (s.text value) (Digests.uuid lineage) = .ok m' ↔
      ∃ m, ownership s lineage = .ok m ∧ m.text = m' := by
  have hl : Text.valuesOf lineageProperty (s.text value).properties = (valuesAt .lineage s.properties).map value :=
    valuesOf_rowOf fun p hp => hs.keys p hp .lineage (by simp)
  have hu : Text.valuesOf snapshotProperty (s.text value).properties = (valuesAt .snapshot s.properties).map value :=
    valuesOf_rowOf fun p hp => hs.keys p hp .snapshot (by simp)
  simp only [Text.ownership_eq_ok_iff, ownership_eq_ok_iff]
  constructor
  · rintro ⟨hvalid, hlineage, d, hd, hguid, hname, hstored, hvl, hvs⟩
    rw [hl, List.map_eq_singleton_iff] at hvl
    rw [hu, List.map_eq_singleton_iff] at hvs
    obtain ⟨v, hvl, hv⟩ := hvl
    obtain ⟨v', hvs, hv'⟩ := hvs
    obtain ⟨p, hp, rfl⟩ := mem_of_valuesAt (hvl ▸ List.mem_singleton_self v)
    obtain ⟨p', hp', rfl⟩ := mem_of_valuesAt (hvs ▸ List.mem_singleton_self v')
    have hid := hs.lineage p hp (hv.trans hlineage)
    obtain ⟨u, hu⟩ := hs.snapshot p' hp' (hv' ▸ hvalid.snapshot)
    rw [hid] at hvl
    rw [hu] at hvs hv'
    obtain ⟨t, ht, hpos, hend⟩ : ∃ t : Nat, (t : Int) = m'.created ∧ t ≠ 0 ∧ t < endOfTime := by
      have hcreated := hvalid.created
      simp only [yearFits, Bool.and_eq_true, decide_eq_true_eq] at hcreated
      exact ⟨m'.created.toNat, by omega, by omega, by omega⟩
    obtain rfl : Metadata.text ⟨lineage, u, t⟩ = m' := by
      rw [Metadata.text, ht, ← hlineage, ← w.id u, hv']
    obtain ⟨d, rfl, hvalid⟩ := exists_path hd
    rw [w.name_text] at hname
    exact ⟨⟨lineage, u, t⟩, ⟨hguid, ⟨d, hvalid, hs.name p' hp' u hu d t hvalid hname⟩, fun q hq hkey => hs.datasets q hq (storedOn_rowOf.mp
      (hstored _ (List.mem_map_of_mem hq) (hkey.imp (congrArg Key.text) (congrArg Key.text)))), hvl, hvs, rfl, hpos, hend⟩, rfl⟩
  · rintro ⟨m, ⟨hguid, ⟨d, hd, hname⟩, hstored, hvl, hvs, rfl, hcreated⟩, rfl⟩
    refine ⟨⟨w.uuid _, w.uuid _, by simpa [Metadata.text] using hcreated.1, by simpa [yearFits, Metadata.text] using hcreated.2⟩,
      rfl, path d, (validateDataset_path (slash_not_mem hd)).trans hd, hguid, ?_, fun r hr hkey => ?_, ?_, ?_⟩
    · rw [w.name_text]
      exact congrArg Name.text hname
    · obtain ⟨q, hq, rfl⟩ := List.mem_map.mp hr
      exact storedOn_rowOf.mpr (congrArg Name.text (hstored q hq (hkey.imp (hs.keys q hq .lineage (by simp))
        (hs.keys q hq .snapshot (by simp)))))
    · rw [hl, hvl, List.map_singleton, w.id]
      rfl
    · rw [hu, hvs, List.map_singleton, w.id]
      rfl

/-! ## Recovery proofs -/

def Reference.text (r : Reference) : Text.Reference :=
  ⟨Digests.target r.targetID, path r.dataset, r.metadata.text, r.recursive⟩

theorem Written.property_text (w : Written l h c value) (r : Reference) : r.text.property h = r.property.text := by
  rw [Reference.property, Key.text, w.stream]
  simp only [Text.Reference.property, Reference.text, Metadata.text, List.append_assoc, List.cons_append]
  rfl

omit [Digests] in
theorem streamOn_text {root stream : Dataset} (hroot : root ≠ []) (hstream : "" ∉ stream) (created : Text.ZonedTime)
    (recursive : Bool) :
    Text.ReferenceRecord.streamOn ⟨path stream, created, recursive⟩ (path root) = path (root ++ stream) := by
  unfold Text.ReferenceRecord.streamOn
  cases stream with
  | nil => simp [path]
  | cons a rest =>
    have hne : path (a :: rest) ≠ [] := by
      have ha : a.toList ≠ [] := fun ha => hstream (by simp [String.toList_eq_nil_iff.mp ha])
      cases rest <;> simp [path, ha]
    rw [if_neg hne, path_append hroot (List.cons_ne_nil a rest)]

theorem decodeReference_text (w : Written l h c value) {p : Property} {root : Dataset} {lineage u : ID} {t : TargetID}
    {stream : StreamID} {record : ReferenceRecord} (hname : p.name = .reference t stream u)
    (hvalue : p.value = .reference record) (hroot : root ≠ []) (hblank : "" ∉ record.stream)
    (hslash : ∀ part ∈ root ++ record.stream, '/' ∉ part.toList)
    (hstream : Digests.stream stream = Digests.stream ⟨root ++ record.stream⟩ → stream = ⟨root ++ record.stream⟩)
    {r' : Text.Reference} : Text.decodeReference h c (rowOf value p) (path root) (Digests.uuid lineage) = .ok r' ↔
      ∃ r, decodeReference p root (some lineage) = some r ∧ r.text = r' := by
  have hkey : (rowOf value p).name =
      (Reference.mk t stream.dataset ⟨lineage, u, record.created⟩ record.recursive).text.property h := by
    rw [w.property_text, rowOf, hname]
    rfl
  have hrecord : c.unmarshal (rowOf value p).value = some ⟨path record.stream, ⟨record.created, 0⟩, record.recursive⟩ := by
    rw [rowOf, hvalue, w.reference]
  have hvalid := validateDataset_path hslash
  have hyear : (record.created : Int) ≠ 0 ∧ yearFits record.created = true ↔ record.created ≠ 0 ∧ record.created < endOfTime := by
    simp [yearFits]
  simp only [Text.decodeReference_eq_ok, hrecord, Option.some.injEq, exists_eq_left', streamOn_text hroot hblank]
  simp only [decodeReference, hname, hvalue, Option.ite_none_right_eq_some, Bool.and_eq_true, bne_iff_ne, beq_iff_eq, decide_eq_true_eq, Option.some.injEq]
  constructor
  · rintro ⟨hproperty, -, htarget, hid, hdataset, hcreated, hr⟩
    have hsplit := Text.splitOn_property (h := h) (Text.validTarget_iff.mp htarget).2 hid
    rw [← hproperty, hkey, Text.splitOn_property (Text.validTarget_iff.mp (w.target t)).2 (w.uuid u)] at hsplit
    simp only [List.cons.injEq, and_true] at hsplit
    obtain ⟨ht, hs, hu⟩ := hsplit
    rw [hr] at hs hdataset hcreated
    refine ⟨_, ⟨⟨⟨⟨hvalid.symm.trans hdataset, (hyear.mp hcreated).1⟩, (hyear.mp hcreated).2⟩, ?_⟩, rfl⟩, ?_⟩
    · exact hstream ((w.stream _).trans (hs.trans (w.stream _).symm))
    · rw [hr, ← ht, ← hu]
      rfl
  · rintro ⟨r, ⟨⟨⟨⟨hd, hpos⟩, hend⟩, rfl⟩, rfl⟩, rfl⟩
    exact ⟨hkey, w.uuid _, w.target _, w.uuid _, hvalid.trans hd, hyear.mpr ⟨hpos, hend⟩, rfl⟩

/-! ## The check between two commands -/

def ShowsValues {α : Type} (text : α → List Char) (rows : List (Name × α)) (m : Text.ListMap) : Prop :=
  (∀ r ∈ rows, Text.valuesIn m r.1.text = (valuesOf rows r.1).map text) ∧
    ∀ n, (∀ r ∈ rows, r.1.text ≠ n) → Text.valuesIn m n = []

/-- The inspection in memory holds what is written of the state. -/
structure Shows (value : Value → List Char) (object : Object → ObjectRow) (token : Token → List Char) (s : State)
    (i : Text.Inspected) : Prop where
  named : ∀ o, (object o).name = o.name.text
  objects : i.objects = some (s.objects.map object)
  properties : i.properties.getD [] = s.properties.map (rowOf value)
  received : ∀ n k v, i.receivedAt n k = some v ↔ ∃ r ∈ s.received, r.1.text = n ∧ r.2.1.text = k ∧ value r.2.2 = v
  resumeTokens : ∀ n, i.resumeTokens.get n = (s.resumeTokens.find? (path ·.1 == n)).map (token ·.2)
  clones : ShowsValues path s.clones i.clones
  holds : ShowsValues Tag.text s.holds i.holds
  listed : i.holds.entries ≠ none

def CleanAction.text : CleanAction → Text.Action
  | .destroyBookmark d m _ => ⟨.destroyBookmark, (Name.bookmark d m).text, []⟩
  | .release n t _ => ⟨.release, n.text, t.text⟩
  | .destroySnapshot n _ => ⟨.destroySnapshot, n.text, []⟩
  | .inherit n k => ⟨.inherit, n.text, k.text⟩

/-- In the state only what the action names has the texts of the action. -/
structure CleanAction.Legible (a : CleanAction) (value : Value → List Char) (s : State) : Prop where
  objects : ∀ o ∈ s.objects, a.text.destroys o.name.text = a.command.erases o.name
  properties : ∀ p ∈ s.properties, (a.text.destroys p.dataset.text || a.text.inherits (rowOf value p)) = a.command.drops p
  resumeTokens : ∀ r ∈ s.resumeTokens, a.text.destroys (path r.1) = false
  clones : ∀ r ∈ s.clones, a.text.destroys r.1.text = a.command.erases r.1
  holds : ∀ r ∈ s.holds, (a.text.destroys r.1.text || a.text.releases r.1.text r.2.text) = a.command.frees r

omit [Digests] in
theorem mem_valuesOf {α : Type} {rows : List (Name × α)} {n : Name} {x : α} : x ∈ valuesOf rows n ↔ (n, x) ∈ rows := by
  simp [valuesOf]

omit [Digests] in
theorem mem_iff_of_sameValues {α : Type} [DecidableEq α] {rows rows' : List (Name × α)} {r : Name × α}
    (hsame : sameValues rows rows' = true) : r ∈ rows ↔ r ∈ rows' := by
  simp only [sameValues, List.all_eq_true, beq_iff_eq, List.mem_append] at hsame
  constructor
  · intro hr
    exact mem_valuesOf.mp (hsame r (.inl hr) ▸ mem_valuesOf.mpr hr)
  · intro hr
    exact mem_valuesOf.mp (hsame r (.inr hr) ▸ mem_valuesOf.mpr hr)

theorem ShowsValues.carried {α : Type} [DecidableEq α] {text : α → List Char} {rows rows' : List (Name × α)}
    {m m' : Text.ListMap} {frees : Name × α → Bool} {destroys : List Char → Bool} {releases : List Char → List Char → Bool}
    (hm : ShowsValues text rows m) (hm' : ShowsValues text rows' m')
    (hfrees : ∀ r ∈ rows, (destroys r.1.text || releases r.1.text (text r.2)) = frees r)
    (hsame : sameValues (rows.filter (!frees ·)) rows' = true) (n : List Char) :
    Text.valuesIn m' n = if destroys n then [] else (Text.valuesIn m n).filter (!releases n ·) := by
  have hkept : ∀ r ∈ rows, (valuesOf (rows.filter (!frees ·)) r.1).map text =
      if destroys r.1.text then [] else (Text.valuesIn m r.1.text).filter (!releases r.1.text ·) := by
    intro r hr
    rw [hm.1 r hr, valuesOf, valuesOf, List.filter_filter, List.map_map, List.map_map, List.filter_map]
    cases hd : destroys r.1.text with
    | true =>
      rw [if_pos rfl, List.map_eq_nil_iff, List.filter_eq_nil_iff]
      intro q hq hkeep
      simp only [Bool.and_eq_true, beq_iff_eq, Bool.not_eq_true'] at hkeep
      simp [← hfrees q hq, hkeep.1, hd] at hkeep
    | false =>
      rw [if_neg Bool.false_ne_true, List.filter_filter]
      refine congrArg _ (List.filter_congr fun q hq => ?_)
      rw [← hfrees q hq]
      by_cases hname : q.1 = r.1
      · simp [hname, hd]
      · simp [beq_false_of_ne hname]
  by_cases hn : ∃ r ∈ rows', r.1.text = n
  · obtain ⟨r, hr, rfl⟩ := hn
    have hvalues := beq_iff_eq.mp (List.all_eq_true.mp hsame r (List.mem_append_right _ hr))
    rw [hm'.1 r hr, ← hvalues, hkept r (List.mem_of_mem_filter ((mem_iff_of_sameValues hsame).mpr hr))]
  · have hn : ∀ r ∈ rows', r.1.text ≠ n := fun r hr heq => hn ⟨r, hr, heq⟩
    rw [hm'.2 n hn]
    by_cases hrows : ∃ r ∈ rows, r.1.text = n
    · obtain ⟨r, hr, rfl⟩ := hrows
      rw [← hkept r hr, eq_comm, List.map_eq_nil_iff, valuesOf, List.map_eq_nil_iff, List.filter_eq_nil_iff]
      intro r' hr' hname
      exact hn r' ((mem_iff_of_sameValues hsame).mp hr') (congrArg Name.text (beq_iff_eq.mp hname))
    · rw [hm.2 n fun r hr heq => hrows ⟨r, hr, heq⟩]
      simp

omit [Digests] in
theorem differences_eq_nil {s s' : State} (hd : differences s s' = []) : s'.objects = s.objects ∧
    s'.properties = s.properties ∧ sameValues s.holds s'.holds = true ∧ sameValues s.clones s'.clones = true ∧
      s'.resumeTokens = s.resumeTokens := by
  simp only [differences, List.append_eq_nil_iff, ite_eq_left_iff, ite_eq_right_iff, reduceCtorEq, imp_false, not_not] at hd
  obtain ⟨⟨⟨⟨hlisted, hordered⟩, hholds⟩, hclones⟩, htokens⟩ := hd
  simp only [hlisted, List.append_nil, List.isEmpty_nil, Bool.true_and, Bool.or_eq_true, bne_iff_ne, not_or, not_not] at hordered
  exact ⟨hordered.1.symm, hordered.2.symm, hholds, hclones, (beq_iff_eq.mp htokens).symm⟩

theorem checkTransition_text {object : Object → ObjectRow} {token : Token → List Char} {before after : State}
    {b b' : Text.Inspected} {a : CleanAction} (hb : Shows value object token before b)
    (hb' : Shows value object token after b') (ha : a.Legible value before)
    (hclean : cleanTransition before after a = []) : Text.checkTransition b b' a.text = some [] := by
  unfold cleanTransition at hclean
  split at hclean
  · cases hclean
  · rename_i hreceived
    obtain ⟨hobjects, hproperties, hholds, hclones, htokens⟩ := differences_eq_nil hclean
    rw [expectedAfter_eq] at hobjects hproperties hholds hclones htokens
    have hcarries : Text.CarriesOut b b' a.text := by
      refine ⟨?_, ?_, hb.holds.carried hb'.holds ha.holds (by simpa [State.cleared] using hholds), fun n => ?_, fun n => ?_⟩
      · rw [hb.objects, hb'.objects, hobjects, Option.getD_some, Option.getD_some, List.filter_map]
        refine congrArg _ (List.filter_congr fun o ho => ?_)
        simp [hb.named, ha.objects o ho]
      · rw [hb.properties, hb'.properties, hproperties, List.filter_map]
        refine congrArg _ (List.filter_congr fun p hp => ?_)
        simp [← ha.properties p hp, rowOf]
      · have hcarried := @ShowsValues.carried _ _ _ _ _ _ _ _ (a.command.erases ·.1) a.text.destroys (fun _ _ => false)
          hb.clones hb'.clones (by simpa using ha.clones) (by simpa [State.cleared] using hclones) n
        simpa using hcarried
      · rw [hb.resumeTokens, hb'.resumeTokens, htokens]
        cases hn : a.text.destroys n with
        | false => rfl
        | true =>
          rw [if_pos rfl, Option.map_eq_none_iff, List.find?_eq_none]
          intro r hr hpath
          rw [← beq_iff_eq.mp hpath, ha.resumeTokens r hr] at hn
          cases hn
    have hkeeps : Text.KeepsReceived b b' := by
      intro o k v hv
      obtain ⟨r, hr, hshown⟩ := (hb'.received o k v).mp hv
      have hbefore : r ∈ before.received := by simpa using List.find?_eq_none.mp hreceived r hr
      exact (hb.received o k v).mpr ⟨r, hbefore, hshown⟩
    have hsame : Text.SameNil b b' := by simp [Text.SameNil, hb.objects, hb'.objects]
    obtain ⟨expected, hexpected⟩ := Text.expectedOf_isSome.mpr fun _ => hb.listed
    obtain ⟨found, hcheck, hnil⟩ := @Text.checkTransition_eq_nil b b' expected a.text hexpected
    rw [hcheck, hnil.mpr ⟨hcarries, hsame, hkeeps.reads⟩]

end Boomerangz.Lifecycle
