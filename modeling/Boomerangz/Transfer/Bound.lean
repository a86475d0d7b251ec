import Boomerangz.Transfer.Accepted

/-! # What a binding binds

Only the mapped dataset and the identities are stored; the rest comes from the configuration.
-/

namespace Boomerangz.Transfer

open Check Zfs Lifecycle

section Reading

variable {target b : TargetBinding} {anchor root : Dataset} {poolGUID anchorGUID : Nat} {s s' : State} {v : Value}

theorem anchored_eq_ok : target.anchored anchor poolGUID anchorGUID = .ok b ↔
    inside target.mappedDataset anchor = true ∧ b = { target with
      pool := anchor.take 1, poolGUID := poolGUID, anchor := anchor, anchorGUID := anchorGUID
      relativePath := target.mappedDataset.drop anchor.length } := by
  simp only [TargetBinding.anchored, ok_iff]
  exact and_congr_right fun _ => eq_comm

theorem validDataset_initial {d e : Dataset} (h : validDataset d = true) (hne : e ≠ []) (he : e <+: d) :
    validDataset e = true := by
  obtain ⟨rest, rfl⟩ := he
  cases e with
  | nil => exact absurd rfl hne
  | cons a e =>
    simp only [validDataset, List.cons_append, List.head?_cons, List.all_cons, List.all_append, Bool.and_eq_true] at h ⊢
    exact ⟨⟨by simp, h.1.2⟩, h.2.1, h.2.2.1⟩

structure Completes (target b : TargetBinding) : Prop where
  configured : b.transport = target.transport ∧ b.canonicalTarget = target.canonicalTarget ∧
    b.destinationRoot = target.destinationRoot ∧ b.mappedDataset = target.mappedDataset
  anchor : validDataset b.anchor = true ∧ inside b.mappedDataset b.anchor = true
  pool : b.pool = b.anchor.take 1
  relative : b.anchor ++ b.relativePath = b.mappedDataset

theorem Completes.path_eq (h : Completes target b) : path b.mappedDataset =
    if b.relativePath = [] then path b.anchor else path b.anchor ++ '/' :: path b.relativePath := by
  rw [← h.relative]
  split
  · rename_i hnil
    rw [hnil, List.append_nil]
  · rename_i hne
    exact path_append (ne_nil_of_validDataset h.anchor.1) hne

theorem anchored_completes (hanchor : validDataset anchor = true)
    (h : target.anchored anchor poolGUID anchorGUID = .ok b) : Completes target b := by
  obtain ⟨hinside, rfl⟩ := anchored_eq_ok.mp h
  obtain ⟨rest, hrest⟩ := (inside_iff (ne_nil_of_validDataset hanchor)).mp hinside
  refine ⟨⟨rfl, rfl, rfl, rfl⟩, ⟨hanchor, hinside⟩, rfl, ?_⟩
  rw [← hrest, List.drop_left]

theorem decodeBinding_eq_ok {record : BindingRecord} : decodeBinding target (.binding record) = .ok b ↔
    validDataset record.mapped = true ∧ record.mapped = target.mappedDataset ∧
      (record.anchor = [] ∨ record.anchor ≠ record.mapped ∧ validDataset record.anchor = true) ∧
      target.anchored (if record.anchor = [] then record.mapped else record.anchor) record.poolGUID
        record.anchorGUID = .ok b := by
  simp only [decodeBinding, ok_iff, Bool.or_eq_true, beq_iff_eq, Bool.and_eq_true, bne_iff_ne]

theorem decodeBinding_completes (h : decodeBinding target v = .ok b) : Completes target b := by
  cases v with
  | binding record =>
    obtain ⟨hmapped, -, hanchor, h⟩ := decodeBinding_eq_ok.mp h
    refine anchored_completes ?_ h
    split
    · exact hmapped
    · rename_i hne
      exact (hanchor.resolve_left hne).2
  | _ => cases h

theorem storedTargetBinding_completes (h : storedTargetBinding s root target = .ok (some b)) : Completes target b := by
  unfold storedTargetBinding at h
  split at h
  · cases h
  · simp only [ok_iff, Option.some.injEq] at h
    obtain ⟨-, -, b, hb, rfl⟩ := h
    exact decodeBinding_completes hb
  · cases h

end Reading

/-! ## Storing -/

section Storing

variable {r : Request} {mapped root : Dataset} {identity : DatasetIdentity} {target b : TargetBinding}
  {record : BindingRecord} {s s' : State} {k : Key} {v : Value}

theorem encodeBinding_record (h : encodeBinding b = .ok record) : record =
    ⟨b.poolGUID, b.mappedDataset, b.anchorGUID, if b.anchor = b.mappedDataset then [] else b.anchor⟩ := by
  simp only [encodeBinding, ok_iff, exists_and_right] at h
  exact h.2.symm

theorem currentState_setProperty (h : s.setProperty (.dataset root) k v = .ok s') (hk : k ≠ .version) (d : Dataset) :
    currentState s' d = currentState s d := by
  obtain ⟨-, hs'⟩ := State.setProperty_eq_ok.mp h
  have hrows : s'.localRows d .version = s.localRows d .version := by
    have hnew : (k == Key.version) = false := beq_false_of_ne hk
    rw [hs']
    simp only [State.localRows, List.filter_append, List.filter_filter, List.filter_cons, hnew, Bool.and_false, Bool.false_and,
      Bool.false_eq_true, if_false, List.filter_nil, List.append_nil]
    apply List.filter_congr
    intro p _
    by_cases hp : p.name = .version
    · have hold : (p.name == k) = false := by
        rw [hp]
        exact beq_false_of_ne hk.symm
      rw [hold, Bool.and_false, Bool.not_false, Bool.and_true]
    · rw [beq_false_of_ne hp, Bool.and_false, Bool.false_and, Bool.false_and]
  unfold currentState stateVersion
  rw [hrows]

theorem storedTargetBinding_setProperty
    (h : s.setProperty (.dataset root) (.target ⟨target.canonicalTarget⟩) v = .ok s') :
    storedTargetBinding s' root target = do
      currentState s root
      let b ← decodeBinding target v
      return some b := by
  unfold storedTargetBinding
  rw [State.localRows_setProperty h, currentState_setProperty h (by simp)]

theorem decodeBinding_encodeBinding (hmapped : validDataset mapped = true) (hb : bindingForTarget r mapped identity = .ok b)
    (hrecord : encodeBinding b = .ok record) : decodeBinding (bindingTemplate r mapped) (.binding record) = .ok b := by
  obtain rfl := encodeBinding_record hrecord
  obtain ⟨hinside, hfields⟩ := anchored_eq_ok.mp hb
  have hname : identity.name ≠ [] := by
    intro hnil
    rw [hnil] at hinside
    have hempty : mapped = [] := by simpa [inside, bindingTemplate] using hinside
    exact ne_nil_of_validDataset hmapped hempty
  have hvalid := validDataset_initial hmapped hname ((inside_iff hname).mp hinside)
  have hanchor : b.anchor = identity.name := by rw [hfields]
  have hsame : b.mappedDataset = mapped := by rw [hfields]; rfl
  have hguids : b.poolGUID = identity.poolGUID ∧ b.anchorGUID = identity.guid := by rw [hfields]; exact ⟨rfl, rfl⟩
  rw [decodeBinding_eq_ok]
  simp only [hanchor, hsame, hguids]
  by_cases hself : identity.name = mapped
  · rw [if_pos hself, if_pos rfl, ← hself]
    rw [← hself] at hb
    exact ⟨hvalid, rfl, .inl rfl, hb⟩
  · rw [if_neg hself, if_neg hname]
    exact ⟨hmapped, rfl, .inr ⟨hself, hvalid⟩, hb⟩

theorem decodeBinding_moved (hmapped : validDataset record.mapped = true) (h : target.mappedDataset ≠ record.mapped) :
    decodeBinding target (.binding record) = .error (.mappingChanged record.mapped target.mappedDataset) := by
  unfold decodeBinding
  simp only [hmapped, require, if_true, beq_false_of_ne h.symm, Bool.false_eq_true, if_false]
  rfl

end Storing

/-! ## One mapping -/

/-- The binding of a request, stored on its root. -/
structure Pinned (r : Request) (mapped : Dataset) (b : TargetBinding) (s s' : State) : Prop where
  same : storedTargetBinding s' r.source (bindingTemplate r mapped) = do
    currentState s r.source
    return some b
  moved : ∀ target : TargetBinding, target.canonicalTarget = b.canonicalTarget → target.mappedDataset ≠ mapped →
    storedTargetBinding s' r.source target = do
      currentState s r.source
      throw (.mappingChanged mapped target.mappedDataset)

/-- A stored binding identifies one mapping: the one its request names, and whatever is stored, the one it
is read with. -/
theorem binding_pins_mapping (r : Request) :
    (∀ mapped, mapReceiveDataset r.source r.destinationRoot r.policy.discard = .ok mapped →
      validDataset mapped = true) ∧
    (∀ mapped identity b record s s', validDataset mapped = true → bindingForTarget r mapped identity = .ok b →
      encodeBinding b = .ok record →
      s.setProperty (.dataset r.source) (.target ⟨b.canonicalTarget⟩) (.binding record) = .ok s' →
      Pinned r mapped b s s') ∧
    (∀ s root target b, storedTargetBinding s root target = .ok (some b) → Completes target b ∧
      path b.mappedDataset =
        if b.relativePath = [] then path b.anchor else path b.anchor ++ '/' :: path b.relativePath) := by
  refine ⟨fun mapped => mapReceiveDataset_valid, ?_, fun s root target b h => ?_⟩
  · intro mapped identity b record s s' hmapped hb hrecord hset
    have hfields := (anchored_eq_ok.mp hb).2
    have hcanonical : b.canonicalTarget = (bindingTemplate r mapped).canonicalTarget := by rw [hfields]
    refine ⟨?_, fun target htarget hne => ?_⟩
    · rw [hcanonical] at hset
      rw [storedTargetBinding_setProperty hset, decodeBinding_encodeBinding hmapped hb hrecord]
      rfl
    · rw [← htarget] at hset
      have hstored : record.mapped = mapped := by
        rw [encodeBinding_record hrecord, hfields]
        rfl
      rw [storedTargetBinding_setProperty hset, decodeBinding_moved (by rw [hstored]; exact hmapped)
        (by rw [hstored]; exact hne), hstored]
      rfl
  · have hcompletes := storedTargetBinding_completes h
    exact ⟨hcompletes, hcompletes.path_eq⟩

/-! ### A first receive into `vault` -/

def cutBinding : TargetBinding :=
  ⟨.localHost, "local:vault/cut", ["vault", "cut"], ["vault", "cut"], ["vault"], 5, ["vault"], 3, ["cut"]⟩

/-- `vault/cut` does not exist, so the binding is anchored at `vault`; a mapping to `vault/old` cannot use it. -/
theorem cut_pinned : ∃ s', cutSource.setProperty (.dataset ["cut"]) (.target ⟨"local:vault/cut"⟩)
      (.binding ⟨5, ["vault", "cut"], 3, ["vault"]⟩) = .ok s' ∧
    storedTargetBinding s' ["cut"] (bindingTemplate (cutRequest []) ["vault", "cut"]) = .ok (some cutBinding) ∧
    storedTargetBinding s' ["cut"] (bindingTemplate (cutRequest []) ["vault", "old"]) =
      .error (.mappingChanged ["vault", "cut"] ["vault", "old"]) ∧
    Completes (bindingTemplate (cutRequest []) ["vault", "cut"]) cutBinding := by
  obtain ⟨s', hset⟩ : ∃ s', cutSource.setProperty (.dataset ["cut"]) (.target ⟨"local:vault/cut"⟩)
      (.binding ⟨5, ["vault", "cut"], 3, ["vault"]⟩) = .ok s' := ⟨_, rfl⟩
  obtain ⟨-, hpinned, hread⟩ := binding_pins_mapping (cutRequest [])
  obtain ⟨hsame, hmoved⟩ := hpinned ["vault", "cut"] ⟨["vault"], .filesystem, 3, 5⟩ cutBinding _ cutSource s' (by decide)
    (by decide) rfl hset
  have hcurrent : currentState cutSource (cutRequest []).source = .ok () := by decide
  have hother := hmoved (bindingTemplate (cutRequest []) ["vault", "old"]) (by decide) (by decide)
  exact ⟨s', hset, hsame, hother, (hread s' _ _ _ hsame).1⟩

end Boomerangz.Transfer
