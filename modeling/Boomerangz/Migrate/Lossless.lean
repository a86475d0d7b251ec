import Boomerangz.Migrate.Runs
import Boomerangz.Transfer.Request

/-! # Migration is lossless and restartable

What a finished migration leaves, as the decoders of the second format read it.
-/

namespace Boomerangz.Migrate

open Check Zfs Lifecycle Transfer

/-! ## A root's own rows -/

def ownRows (s : State) (root : Dataset) : List Property :=
  s.properties.filter fun p => p.dataset == .dataset root && p.source == .sourceLocal

section OwnRows

variable {s s' : State} {root : Dataset}

theorem mem_ownRows {p : Property} :
    p ∈ ownRows s root ↔ p ∈ s.properties ∧ p.dataset = .dataset root ∧ p.source = .sourceLocal := by
  simp [ownRows]

theorem filter_eq_of_ownRows {q : Property → Bool} (h : ownRows s root = ownRows s' root)
    (hq : ∀ p, q p = true → p.dataset = .dataset root ∧ p.source = .sourceLocal) :
    s.properties.filter q = s'.properties.filter q := by
  have hown : ∀ t : State, t.properties.filter q = (ownRows t root).filter q := by
    intro t
    rw [ownRows, List.filter_filter]
    refine List.filter_congr fun p _ => ?_
    cases hp : q p with
    | false => rfl
    | true => simp [hq p hp]
  rw [hown s, hown s', h]

theorem localValue_eq_of_ownRows {k : Key} (h : ownRows s root = ownRows s' root) :
    localValue s root k = localValue s' root k := by
  simp only [localValue, ← List.head?_filter]
  rw [filter_eq_of_ownRows h]
  intro p hp
  simp only [Bool.and_eq_true, beq_iff_eq] at hp
  exact ⟨hp.1.1, hp.2⟩

theorem lineageOf_eq_of_ownRows (h : ownRows s root = ownRows s' root) : lineageOf s root = lineageOf s' root := by
  rw [lineageOf, lineageOf, localValue_eq_of_ownRows h]

theorem stateVersion_eq_of_ownRows (h : ownRows s root = ownRows s' root) :
    stateVersion s root = stateVersion s' root := by
  unfold stateVersion State.localRows
  rw [filter_eq_of_ownRows h]
  intro p hp
  simp only [Bool.and_eq_true, beq_iff_eq] at hp
  exact ⟨hp.1.1, hp.2⟩

theorem recordsReadable_eq_of_ownRows (h : ownRows s root = ownRows s' root) :
    recordsReadable s root = recordsReadable s' root := by
  have hkeeps : ∀ t : State, keepsRecords t root =
      (ownRows t root).any fun p => p.name.isReference || p.name.isTargetState := by
    intro t
    rw [keepsRecords, ownRows, List.any_filter]
  rw [recordsReadable, recordsReadable, hkeeps s, hkeeps s', h, currentState, currentState,
    stateVersion_eq_of_ownRows h]

theorem referenceRecords_eq_of_ownRows {lineage : Option ID} (h : ownRows s root = ownRows s' root) :
    referenceRecords s root lineage = referenceRecords s' root lineage := by
  have hrows : recordRows s root = recordRows s' root := by
    refine filter_eq_of_ownRows h fun p hp => ?_
    simp only [Bool.and_eq_true, beq_iff_eq] at hp
    exact ⟨hp.1.1, hp.2⟩
  rw [referenceRecords, referenceRecords, recordsReadable_eq_of_ownRows h, hrows]

theorem ownRows_restrict {p : Dataset → Bool} (hp : p root = true) : ownRows (s.restrict p) root = ownRows s root := by
  rw [ownRows, ownRows, State.restrict, List.filter_filter]
  refine List.filter_congr fun r _ => ?_
  by_cases hr : r.dataset = .dataset root
  · simp [hr, hp]
  · simp [beq_eq_false_iff_ne.mpr hr]

theorem ownRows_applied {actions : List Action} : ownRows (applied s root actions) root = ownRows (written s root actions) root := by
  simp only [ownRows, applied, written, List.filter_append, List.filter_filter]
  congr 1
  refine List.filter_congr fun p _ => ?_
  by_cases hs : p.source = .sourceLocal
  · simp [hs]
  · simp [beq_eq_false_iff_ne.mpr hs]

end OwnRows

/-! ## What the records say -/

def ProofKept (final : State) (root : Dataset) (old : V1Reference) : Prop :=
  ∃ refs, referenceRecords final root (lineageOf final root) = .ok refs ∧ ∃ r ∈ refs,
    r.targetID = ⟨old.target⟩ ∧ r.dataset = old.dataset ∧ Value.id r.metadata.snapshot = old.metadata.snapshot ∧
      r.metadata.created = old.metadata.created ∧ r.recursive = decide (1 < old.sources.length)

def BindingKept (final : State) (root : Dataset) (old : V1Binding) : Prop :=
  ∀ target : TargetBinding, target.canonicalTarget = old.canonicalTarget → target.mappedDataset = old.mappedDataset →
    ∃ b, storedTargetBinding final root target = .ok (some b) ∧ b.poolGUID = old.poolGUID ∧
      b.mappedDataset = old.mappedDataset ∧ b.anchor = old.anchor ∧ b.anchorGUID = old.anchorGUID

def migrates (root : Dataset) (p : Property) : Bool :=
  p.dataset == .dataset root &&
    (p.source == .sourceLocal && (p.name.isReference || isBindingKey p.name) || p.name == .version)

structure Restarts (c : Codec) (root : Dataset) (final stopped : State) : Prop where
  version : stateVersion stopped root = .ok 1
  plan : ∃ plan, planRoot c stopped root = .ok plan ∧ plan.version = 1 ∧ plan.blockers = []
  finishes : ∃ plan, apply c stopped root = (.ok plan, final)

structure Lossless (c : Codec) (pool : State) (root : Dataset) (actions : List Action) (final : State) : Prop where
  finishes : ∃ plan, apply c pool root = (.ok plan, final)
  markerLast : actions.getLast? = some marker
  stopped : ∀ k < actions.length, (applyActions root (actions.take k) pool).1 = .ok ()
  restarts : ∀ k < actions.length, Restarts c root final (applyActions root (actions.take k) pool).2
  proofs : ∀ p ∈ ownRows pool root, p.name.isReference = true → ∀ t old, p.value = .text t → c.reference t = some old →
    ProofKept final root old
  bindings : ∀ p ∈ ownRows pool root, isBindingKey p.name = true → ∀ t old, p.value = .text t →
    c.binding t = some old → BindingKept final root old
  current : ∀ p ∈ ownRows pool root, (p.name.isReference || isBindingKey p.name) = true →
    (p.value matches .reference _ | .binding _) → p ∈ ownRows final root
  frame : final = { pool with properties := final.properties }
  rows : ∀ p, migrates root p = false → (p ∈ final.properties ↔ p ∈ pool.properties)

section Kept

variable {c : Codec} {pool s : State} {root : Dataset} {actions : List Action} {key : Key}

theorem v1Record_eq_ok {old : V1Reference} {record : ReferenceRecord} (h : v1Record s root key old = .ok record) :
    ∃ u, old.metadata.snapshot = .id u ∧ key = .reference ⟨old.target⟩ ⟨old.dataset⟩ u ∧
      record = ⟨old.dataset.drop root.length, old.metadata.created, 1 < old.sources.length⟩ := by
  unfold v1Record at h
  cases hu : old.metadata.snapshot with
  | id u =>
    simp only [hu, ok_iff, beq_iff_eq] at h
    obtain ⟨-, -, hkey, -, -, -, -, hrecord⟩ := h
    exact ⟨u, rfl, hkey, hrecord.symm⟩
  | _ => simp [hu, bind_eq_ok] at h

theorem v1BoundRecord_eq_ok {old : V1Binding} {record : BindingRecord} (h : v1BoundRecord key old = .ok record) :
    key = .target ⟨old.canonicalTarget⟩ ∧ validDataset old.mappedDataset = true ∧ validDataset old.anchor = true ∧
      inside old.mappedDataset old.anchor = true ∧
      record = ⟨old.poolGUID, old.mappedDataset, old.anchorGUID, if old.anchor = old.mappedDataset then [] else old.anchor⟩ := by
  simp only [v1BoundRecord, ok_iff, beq_iff_eq, Bool.and_eq_true] at h
  obtain ⟨-, hkey, ⟨⟨⟨-, hmapped⟩, hanchor⟩, hinside⟩, hrecord⟩ := h
  exact ⟨hkey, hmapped, hanchor, hinside, hrecord.symm⟩

theorem proofKept_of_row {final : State} {old : V1Reference} {record : ReferenceRecord} {refs : List Reference}
    (h : v1Record s root key old = .ok record) (hrefs : referenceRecords final root (lineageOf final root) = .ok refs)
    (hrow : ⟨.dataset root, key, .reference record, .sourceLocal⟩ ∈ final.properties) : ProofKept final root old := by
  obtain ⟨u, hu, rfl, rfl⟩ := v1Record_eq_ok h
  obtain ⟨r, hr, hdec⟩ := (mem_readRecords (readRecords_of_records hrefs)).2 _
    (mem_recordRows.mpr ⟨hrow, rfl, rfl, rfl⟩)
  obtain ⟨hname, hvalue, -⟩ := decodeReference_eq_some hdec
  simp only [Reference.property, Key.reference.injEq] at hname
  simp only [encodeReference, Value.reference.injEq, ReferenceRecord.mk.injEq] at hvalue
  obtain ⟨htarget, hdataset, hsnapshot⟩ := hname
  refine ⟨refs, hrefs, r, hr, htarget.symm, ?_, ?_, hvalue.2.1.symm, hvalue.2.2.symm⟩
  · exact (congrArg StreamID.dataset hdataset).symm
  · rw [hu, hsnapshot]

theorem decodeBinding_v1 {old : V1Binding} {record : BindingRecord} {target : TargetBinding}
    (h : v1BoundRecord key old = .ok record) (hmapped : target.mappedDataset = old.mappedDataset) :
    ∃ b, decodeBinding target (.binding record) = .ok b ∧ b.poolGUID = old.poolGUID ∧
      b.mappedDataset = old.mappedDataset ∧ b.anchor = old.anchor ∧ b.anchorGUID = old.anchorGUID := by
  obtain ⟨-, hvalid, hanchor, hinside, rfl⟩ := v1BoundRecord_eq_ok h
  have hne : old.anchor ≠ [] := by
    intro hnil
    rw [hnil] at hanchor
    exact absurd hanchor (by decide)
  by_cases hsame : old.anchor = old.mappedDataset
  · simp [decodeBinding, TargetBinding.anchored, require, hvalid, hsame, hmapped, inside_self, pure, Except.pure]
  · simp [decodeBinding, TargetBinding.anchored, require, hvalid, hsame, hmapped, hne, hanchor, hinside, pure, Except.pure]

end Kept

/-! ## A finished migration -/

section Finished

variable {c : Codec} {pool : State} {root : Dataset} {actions xs ys : List Action} {p : Property}

theorem row_mem_written {a : Action} (ha : a ∈ actions) : a.row root ∈ (written pool root actions).properties :=
  List.mem_append_right _ (List.mem_map_of_mem ha)

namespace Migrating

variable (h : Migrating c pool root actions)
include h

theorem final_oneValue : OneValue (written pool root (actions ++ [marker])) := written_oneValue h.oneValue h.nodup

theorem final_current : currentState (written pool root (actions ++ [marker])) root = .ok () := by
  have hversion : stateVersion (written pool root (actions ++ [marker])) root = .ok 2 := by
    unfold stateVersion State.localRows
    rw [h.final_oneValue.filter_eq (row_mem_written (List.mem_append_right _ (List.mem_singleton.mpr rfl))) (by
      simp [Action.row, marker])]
    · rfl
    · intro r hr
      simp only [Bool.and_eq_true, beq_iff_eq] at hr
      exact ⟨hr.1.1, hr.1.2⟩
  rw [currentState, hversion]
  rfl

theorem final_reads : ∃ refs, referenceRecords (written pool root (actions ++ [marker])) root
    (lineageOf (written pool root (actions ++ [marker])) root) = .ok refs := by
  obtain ⟨refs, hrefs⟩ := h.pending.reads
  have hrow : ∀ a ∈ actions, ∃ p ∈ (pool.restrict (inside · root)).properties,
      p.dataset = .dataset root ∧ p.source = .sourceLocal ∧ p.name = a.property := by
    intro a ha
    obtain ⟨p, hp, hd, hs, hname, -⟩ := h.pending.row ha
    exact ⟨p, hp, hd, hs, hname⟩
  have hown : ownRows (applied (applied (pool.restrict (inside · root)) root actions) root [marker]) root =
      ownRows (written pool root (actions ++ [marker])) root := by
    rw [ownRows_applied, applied_eq_written h.oneValue.restrict hrow, written_append h.nodup,
      ← written_restrict (p := (inside · root)) (inside_self root), ownRows_restrict (p := (inside · root)) (inside_self root)]
  rw [referenceRecords_eq_of_ownRows hown, lineageOf_eq_of_ownRows hown] at hrefs
  exact ⟨refs, hrefs⟩

theorem rewritten_own (hp : p ∈ ownRows pool root) :
    p ∈ (pool.restrict (inside · root)).properties ∧
      ∃ v, rewritten c (pool.restrict (inside · root)) root p = .ok v := by
  obtain ⟨hmem, hd, -⟩ := mem_ownRows.mp hp
  have hmem' : p ∈ (pool.restrict (inside · root)).properties := by
    refine List.mem_filter.mpr ⟨hmem, ?_⟩
    rw [hd]
    exact inside_self root
  exact ⟨hmem', h.pending.unblocked hmem'⟩

theorem final_proof {t : String} {old : V1Reference} (hp : p ∈ ownRows pool root) (hkey : p.name.isReference = true)
    (ht : p.value = .text t) (hold : c.reference t = some old) :
    ProofKept (written pool root (actions ++ [marker])) root old := by
  obtain ⟨hmem, v, hv⟩ := h.rewritten_own hp
  obtain ⟨-, hd, hs⟩ := mem_ownRows.mp hp
  have hv' := hv
  simp only [rewritten, hd, hs, hkey, v1Proof, ht, hold, bne_self_eq_false, Bool.or_self, Bool.false_eq_true,
    if_false, if_true, ok_iff] at hv'
  obtain ⟨record, hrecord, rfl⟩ := hv'
  obtain ⟨refs, hrefs⟩ := h.final_reads
  exact proofKept_of_row hrecord hrefs (row_mem_written (List.mem_append_left _ (h.pending.mem_of_rewritten hmem hv)))

theorem final_binding {t : String} {old : V1Binding} (hp : p ∈ ownRows pool root) (hkey : isBindingKey p.name = true)
    (ht : p.value = .text t) (hold : c.binding t = some old) :
    BindingKept (written pool root (actions ++ [marker])) root old := by
  intro target hcanonical hmapped
  obtain ⟨hmem, v, hv⟩ := h.rewritten_own hp
  obtain ⟨-, hd, hs⟩ := mem_ownRows.mp hp
  have href : p.name.isReference = false := by
    cases hk : p.name <;> simp_all [isBindingKey, Key.isReference]
  have hv' := hv
  simp only [rewritten, hd, hs, href, hkey, v1BindingRecord, ht, hold, bne_self_eq_false, Bool.or_self,
    Bool.false_eq_true, if_false, if_true, ok_iff] at hv'
  obtain ⟨record, hrecord, rfl⟩ := hv'
  have hrow : ⟨.dataset root, p.name, .binding record, .sourceLocal⟩ ∈
      (written pool root (actions ++ [marker])).properties :=
    row_mem_written (List.mem_append_left _ (h.pending.mem_of_rewritten hmem hv))
  obtain ⟨b, hb, hfields⟩ := decodeBinding_v1 hrecord hmapped
  have hname : p.name = .target ⟨target.canonicalTarget⟩ := by
    rw [(v1BoundRecord_eq_ok hrecord).1, hcanonical]
  refine ⟨b, ?_, hfields⟩
  unfold storedTargetBinding State.localRows
  rw [h.final_oneValue.filter_eq hrow]
  · simp only [h.final_current, hb]
    rfl
  · simp [hname]
  · intro r hr
    simp only [Bool.and_eq_true, beq_iff_eq] at hr
    exact ⟨hr.1.1, hr.1.2.trans hname.symm⟩

theorem untouched (hp : p ∈ pool.properties) (hd : p.dataset = .dataset root) (hversion : p.name ≠ .version)
    (hrow : ∀ t, p.value ≠ .text t) : p ∈ (written pool root (actions ++ [marker])).properties := by
  refine List.mem_append_left _ (List.mem_filter.mpr ⟨hp, ?_⟩)
  simp only [hd, beq_self_eq_true, Bool.true_and, Bool.not_eq_true', List.any_eq_false, beq_iff_eq]
  intro a ha hname
  rcases List.mem_append.mp ha with ha | ha
  · obtain ⟨q, hq, haction⟩ := h.pending.mem_iff.mp ha
    obtain ⟨hvalue, hqname, -⟩ := rewriteAction_eq_some.mp haction
    obtain ⟨hqd, -, -, t, ht⟩ := rewritten_some hvalue
    obtain rfl := h.oneValue.eq hp (List.mem_of_mem_filter hq) (hd.trans hqd.symm) (hname.symm.trans hqname)
    exact hrow t ht
  · rw [List.mem_singleton.mp ha] at hname
    exact hversion hname.symm

theorem final_rows (hp : migrates root p = false) :
    p ∈ (written pool root (actions ++ [marker])).properties ↔ p ∈ pool.properties := by
  have hrow : ∀ a ∈ actions ++ [marker], p.dataset = .dataset root → p.name = a.property → p.source = .sourceLocal → False := by
    intro a ha hd hname hs
    rcases List.mem_append.mp ha with ha | ha
    · rcases h.pending.recorded ha with ⟨hkey, -⟩ | ⟨-, hkey, -⟩ <;> simp [migrates, hd, hs, hname, hkey] at hp
    · simp [migrates, hd, hname, List.mem_singleton.mp ha, marker] at hp
  constructor
  · intro hmem
    rcases List.mem_append.mp hmem with hmem | hmem
    · exact List.mem_of_mem_filter hmem
    · obtain ⟨a, ha, rfl⟩ := List.mem_map.mp hmem
      exact absurd rfl (hrow a ha rfl rfl)
  · intro hmem
    refine List.mem_append_left _ (List.mem_filter.mpr ⟨hmem, ?_⟩)
    simp only [Bool.not_eq_true', Bool.and_eq_false_iff, beq_eq_false_iff_ne, List.any_eq_false, beq_iff_eq]
    by_contra hcon
    simp only [not_or, not_not, not_forall, exists_prop] at hcon
    obtain ⟨hd, a, ha, hname⟩ := hcon
    rcases List.mem_append.mp ha with ha' | ha'
    · obtain ⟨q, hq, hqd, hqs, hqname, -⟩ := h.pending.row ha'
      obtain rfl := h.oneValue.eq hmem (List.mem_of_mem_filter hq) (hd.trans hqd.symm) (hname.symm.trans hqname.symm)
      exact hrow a ha hd hname.symm hqs
    · simp [migrates, hd, ← hname, List.mem_singleton.mp ha', marker] at hp

end Migrating

theorem Migrating.restarts (h : Migrating c pool root (xs ++ ys)) (hmarker : localValue pool root .version = none) :
    Restarts c root (written pool root (xs ++ ys ++ [marker])) (written pool root xs) where
  version := by
    rw [← stateVersion_eq_of_ownRows (ownRows_restrict (p := (inside · root)) (inside_self root))]
    exact h.resume.pending.version
  plan := ⟨_, h.resume.plan, rfl, rfl⟩
  finishes := by
    have hfinal : written (written pool root xs) root (ys ++ [marker]) = written pool root (xs ++ ys ++ [marker]) := by
      have hnodup := h.nodup
      rw [List.append_assoc] at hnodup ⊢
      exact written_append hnodup
    have happly := h.resume.apply (h.version_written.trans hmarker)
    rw [hfinal] at happly
    exact ⟨_, happly⟩

theorem Migrating.lossless (h : Migrating c pool root actions) (hmarker : localValue pool root .version = none) :
    Lossless c pool root (actions ++ [marker]) (written pool root (actions ++ [marker])) := by
  have hstop : ∀ k < (actions ++ [marker]).length,
      applyActions root ((actions ++ [marker]).take k) pool = (.ok (), written pool root (actions.take k)) ∧
        Migrating c pool root (actions.take k ++ actions.drop k) := by
    intro k hk
    have h' : Migrating c pool root (actions.take k ++ actions.drop k) := by rwa [List.take_append_drop]
    rw [List.length_append, List.length_singleton] at hk
    rw [List.take_append_of_le_length (Nat.le_of_lt_succ hk)]
    exact ⟨h'.records_written, h'⟩
  refine ⟨⟨_, h.apply hmarker⟩, by simp, ?_, ?_, ?_, ?_, ?_, rfl, fun p => h.final_rows⟩
  · intro k hk
    rw [(hstop k hk).1]
  · intro k hk
    rw [(hstop k hk).1]
    have := (hstop k hk).2.restarts hmarker
    rwa [List.take_append_drop] at this
  · intro p hp hkey t old ht hold
    exact h.final_proof hp hkey ht hold
  · intro p hp hkey t old ht hold
    exact h.final_binding hp hkey ht hold
  · intro p hp hkey hvalue
    obtain ⟨hmem, hd, hs⟩ := mem_ownRows.mp hp
    refine mem_ownRows.mpr ⟨h.untouched hmem hd ?_ ?_, hd, hs⟩
    · intro hversion
      simp [hversion, Key.isReference, isBindingKey] at hkey
    · intro t ht
      simp [ht] at hvalue

end Finished

/-- The marker's writer expects no marker, so one of the first format stops every run. -/
theorem migration_lossless_iff (c : Codec) (pool : State) (root : Dataset) (plan : Plan) (hone : OneValue pool)
    (hplan : planRoot c pool root = .ok plan) (hversion : plan.version = 1) (hblockers : plan.blockers = []) :
    Lossless c pool root plan.actions (apply c pool root).2 ↔ localValue pool root .version = none := by
  obtain ⟨hvalid, hroot, actions, hactions, hpending⟩ := pending_of_planRoot hplan hversion hblockers
  have h : Migrating c pool root actions := ⟨hvalid, hroot, hone, hpending⟩
  rw [hactions]
  constructor
  · intro hlossless
    by_contra hmarker
    obtain ⟨e, he⟩ := h.apply_marked hmarker
    obtain ⟨done, hdone⟩ := hlossless.finishes
    rw [hdone] at he
    cases he
  · intro hmarker
    rw [h.apply hmarker]
    exact h.lossless hmarker

/-! ### The proof of a silo -/

deriving instance Countable for ID, TargetID, StreamID, Key

def siloLineage : ID := ⟨1, 0x40008000000000000001⟩

def siloSnapshot : ID := ⟨2, 0x40008000000000000002⟩

def siloKey : Key := .reference ⟨"vault"⟩ ⟨["silo"]⟩ siloSnapshot

def siloReference : V1Reference :=
  let metadata : V1Metadata := ⟨.id siloLineage, .id siloSnapshot, 9⟩
  ⟨"vault", ["silo"], metadata, [⟨["silo"], 6, metadata⟩]⟩

/-- What the first format writes for `siloReference`. -/
def siloText : String :=
  let metadata := "\x7b\"lineage\":\"00000001-0000-4000-8000-000000000001\"," ++
    "\"snapshot\":\"00000002-0000-4000-8000-000000000002\",\"created\":\"0001-01-01T00:00:00.000000009Z\"\x7d"
  "\x7b\"target\":\"vault\",\"dataset\":\"silo\",\"metadata\":" ++ metadata ++
    ",\"sources\":[\x7b\"dataset\":\"silo\",\"guid\":6,\"metadata\":" ++ metadata ++ "\x7d]\x7d"

def siloKeys : List (Key × List Char) :=
  [(.lineage, "org.boomerangz:state:lineage".toList), (.version, "org.boomerangz:state:version".toList),
    (siloKey, "org.boomerangz:state:reference:".toList ++
      "e6f0a1fbb43c89196dcfcbef85908f19ab4c5f7cc4f4c452284697757683d7ef:".toList ++
      "30ec2f855071fb404f5ced96a5b0743d:00000002-0000-4000-8000-000000000002".toList)]

noncomputable def siloCodec : Codec where
  reference t := if t = siloText then some siloReference else none
  binding _ := none
  keyText := Lists.tabled siloKeys
  injective := Lists.tabled_injective (by decide) (by decide)

def silo (markers : List Property) : State where
  objects := [.ofRow (.dataset ["silo"]) .filesystem 5 1 (by decide)]
  properties := [⟨.dataset ["silo"], .lineage, .id siloLineage, .sourceLocal⟩,
    ⟨.dataset ["silo"], siloKey, .text siloText, .sourceLocal⟩] ++ markers
  distinct := by decide

theorem silo_migrates : ∃ plan, planRoot siloCodec (silo []) ["silo"] = .ok plan ∧ plan.actions.length = 2 ∧
    Lossless siloCodec (silo []) ["silo"] plan.actions (apply siloCodec (silo []) ["silo"]).2 := by
  have hplanned : (planRoot siloCodec (silo []) ["silo"]).map (fun plan => (plan.actions.length, plan.version, plan.blockers)) =
      .ok (2, 1, []) := by decide +kernel
  obtain ⟨plan, hplan, hfields⟩ := map_eq_ok.mp hplanned
  simp only [Prod.mk.injEq] at hfields
  have hone : OneValue (silo []) := by
    unfold OneValue
    decide +kernel
  exact ⟨plan, hplan, hfields.1, (migration_lossless_iff siloCodec (silo []) ["silo"] plan hone hplan hfields.2.1
    hfields.2.2).mpr (by decide +kernel)⟩

def firstMarker : Property := ⟨.dataset ["silo"], .version, .number 1, .sourceLocal⟩

/-- The run rewrites the proof and stops at the marker, and so does every later one. -/
theorem silo_marked_stops : ∃ plan e stopped, planRoot siloCodec (silo [firstMarker]) ["silo"] = .ok plan ∧
    plan.version = 1 ∧ plan.blockers = [] ∧ apply siloCodec (silo [firstMarker]) ["silo"] = (.error e, stopped) ∧
    apply siloCodec stopped ["silo"] = (.error e, stopped) ∧
    ¬Lossless siloCodec (silo [firstMarker]) ["silo"] plan.actions stopped := by
  have hplanned : (planRoot siloCodec (silo [firstMarker]) ["silo"]).map (fun plan => (plan.version, plan.blockers)) =
      .ok (1, []) := by decide +kernel
  obtain ⟨plan, hplan, hfields⟩ := map_eq_ok.mp hplanned
  simp only [Prod.mk.injEq] at hfields
  have hstops : (apply siloCodec (silo [firstMarker]) ["silo"]).1.toOption = none ∧
      apply siloCodec (apply siloCodec (silo [firstMarker]) ["silo"]).2 ["silo"] =
        apply siloCodec (silo [firstMarker]) ["silo"] := by decide +kernel
  rcases hfirst : apply siloCodec (silo [firstMarker]) ["silo"] with ⟨e | done, stopped⟩
  · rw [hfirst] at hstops
    refine ⟨plan, e, stopped, hplan, hfields.1, hfields.2, rfl, hstops.2, fun hlossless => ?_⟩
    obtain ⟨done, hdone⟩ := hlossless.finishes
    rw [hfirst] at hdone
    cases hdone
  · rw [hfirst] at hstops
    cases hstops.1

end Boomerangz.Migrate
