import Boomerangz.Lifecycle.Ledger

/-! # What the reference operations plan

Each operation's plan, dataset by dataset, and the checks under which it is made.
-/

namespace Boomerangz.Lifecycle

open Check Lists Zfs

/-! ## Standing proofs -/

namespace Reference

variable {pool : State} {root : Dataset} {r : Reference} {d : Dataset}

def reach (r : Reference) (pool : State) (root : Dataset) : List Dataset :=
  r.candidates (pool.restrict (proofDatasets pool root [r.dataset] r.subtree))

theorem candidates_nodup {s : State} : (r.candidates s).Nodup :=
  (compact_sublist _).nodup ((List.perm_insertionSort _ _).nodup_iff.mpr (s.datasets_nodup.filter _))

theorem inScope_of_reach (h : d ∈ r.reach pool root) : proofDatasets pool root [r.dataset] r.subtree d = true := by
  obtain ⟨⟨o, ho, -, rfl⟩, -⟩ := mem_candidates.mp h
  exact (State.mem_restrict_objects.mp ho).2

theorem readable_iff : (∃ x, r.sourceOn pool d = .ok x) ↔
    (∀ o b, pool.object (r.snapshotOn d) = some o → pool.object (r.bookmarkOn d) = some b → b.guid = o.guid) ∧
      (pool.held (r.snapshotOn d) r.hold = true →
        pool.hasObject (r.snapshotOn d) = true ∨ pool.hasObject (r.bookmarkOn d) = true) := by
  simp only [← State.object_isSome_iff, sourceOn]
  cases pool.object (r.snapshotOn d) with
  | some o =>
    cases pool.object (r.bookmarkOn d) with
    | some b => by_cases h : b.guid = o.guid <;> simp [h]
    | none => simp
  | none =>
    cases pool.object (r.bookmarkOn d) with
    | some b => simp
    | none => cases pool.held (r.snapshotOn d) r.hold <;> simp

/-- What a turn of the loop of `Sources` adds. -/
def source (r : Reference) (pool : State) (d : Dataset) : List ReferenceSource :=
  ((r.sourceOn pool d).toOption.getD none).toList

theorem source_eq (h : ∃ o, r.sourceOn pool d = .ok o) : ∃ guid,
    r.source pool d = (if pool.hasObject (r.bookmarkOn d) || pool.held (r.snapshotOn d) r.hold then [⟨d, guid⟩] else []) ∧
      ∀ o, pool.object (r.snapshotOn d) = some o → guid = o.guid := by
  obtain ⟨x, hx⟩ := h
  have hmark := State.object_isSome_iff (s := pool) (n := r.bookmarkOn d)
  simp only [source, hx, Except.toOption, Option.getD_some]
  simp only [sourceOn] at hx
  split at hx
  · rename_i o b ho hb
    simp only [hb, Option.isSome_some, true_iff] at hmark
    split at hx
    · cases hx
      exact ⟨o.guid, by simp [hmark], by simp [ho]⟩
    · cases hx
  · rename_i b ho hb
    simp only [hb, Option.isSome_some, true_iff] at hmark
    cases hx
    exact ⟨b.guid, by simp [hmark], by simp [ho]⟩
  · rename_i o ho hb
    simp only [hb, Option.isSome_none, Bool.false_eq_true, false_iff, Bool.not_eq_true] at hmark
    cases hx
    refine ⟨o.guid, ?_, by simp [ho]⟩
    rw [hmark, Bool.false_or]
    split <;> rfl
  · rename_i ho hb
    simp only [hb, Option.isSome_none, Bool.false_eq_true, false_iff, Bool.not_eq_true] at hmark
    split at hx
    · cases hx
    · rename_i hheld
      cases hx
      exact ⟨0, by simp [hmark, hheld], by simp [ho]⟩

end Reference

structure Standing (pool : State) (installation : ID) (root : Dataset) (r : Reference) (lineage : ID) : Prop where
  valid : validDataset root = true
  hasRoot : pool.hasObject (.dataset root) = true
  ready : (pool.restrict (proofDatasets pool root [r.dataset] r.subtree)).resumeTokens = []
  authority : rootAuthority pool root installation = .ok lineage
  stored : ∃ refs, referenceRecords pool root (some lineage) = .ok refs ∧ r ∈ refs
  readable : ∀ d ∈ r.reach pool root, ∃ o, r.sourceOn pool d = .ok o

theorem rootAuthority_restrict {pool : State} {p : Dataset → Bool} {root : Dataset} (installation : ID)
    (hp : p root = true) : rootAuthority (pool.restrict p) root installation = rootAuthority pool root installation := by
  refine rootAuthority_congr installation (filter_rows Property.dataset hp ?_) (filter_rows Prod.fst hp ?_)
  · simp +contextual [isAuthority]
  · simp +contextual

theorem scopeReady_eq_ok {s : State} {d : Dataset} {u : Unit} :
    scopeReady s d = .ok u ↔ s.resumeTokens = [] ∧ s.hasObject (.dataset d) = true := by
  simp [scopeReady]

theorem referenceState_eq_ok {pool s : State} {installation lineage : ID} {root : Dataset} {r : Reference}
    {sources : List ReferenceSource} : referenceState pool installation root r = .ok (s, lineage, sources) ↔
      Standing pool installation root r lineage ∧
        pool.restrict (proofDatasets pool root [r.dataset] r.subtree) = s ∧
        (r.reach pool root).flatMap (r.source pool) = sources := by
  have hroot := proofDatasets_root pool root [r.dataset] r.subtree
  have hon : ∀ d ∈ r.reach pool root,
      r.sourceOn (pool.restrict (proofDatasets pool root [r.dataset] r.subtree)) d = r.sourceOn pool d :=
    fun d hd => Reference.sourceOn_restrict (Reference.inScope_of_reach hd)
  simp only [referenceState, ok_iff, proofScope_eq_ok]
  constructor
  · rintro ⟨hvalid, _, ⟨hhas, rfl⟩, _, hready, l, hl, refs, hrefs, hr, srcs, hsources, heq⟩
    simp only [Prod.mk.injEq] at heq
    obtain ⟨rfl, rfl, rfl⟩ := heq
    obtain ⟨htotal, rfl⟩ := collect_eq_ok.mp hsources
    rw [rootAuthority_restrict _ hroot] at hl
    rw [referenceRecords_restrict hroot] at hrefs
    refine ⟨⟨hvalid, hhas, (scopeReady_eq_ok.mp hready).1, hl, ⟨refs, hrefs, by simpa using hr⟩, ?_⟩, rfl, ?_⟩
    · intro d hd
      rw [← hon d hd]
      exact htotal d hd
    · refine List.flatMap_congr fun d hd => ?_
      rw [Reference.source, ← hon d hd]
  · rintro ⟨h, rfl, rfl⟩
    obtain ⟨refs, hrefs, hr⟩ := h.stored
    refine ⟨h.valid, _, ⟨h.hasRoot, rfl⟩, ⟨⟩, scopeReady_eq_ok.mpr ⟨h.ready, ?_⟩, lineage, ?_, refs, ?_, ?_, _, ?_, rfl⟩
    · simp [h.hasRoot, hroot]
    · rw [rootAuthority_restrict _ hroot, h.authority]
    · rw [referenceRecords_restrict hroot, hrefs]
    · simpa using hr
    · refine collect_eq_ok.mpr ⟨?_, ?_⟩
      · intro d hd
        rw [hon d hd]
        exact h.readable d hd
      · refine List.flatMap_congr fun d hd => ?_
        rw [Reference.source, hon d hd]

theorem Standing.valid_dataset {pool : State} {installation lineage : ID} {root : Dataset} {r : Reference}
    (h : Standing pool installation root r lineage) : validDataset r.dataset = true := by
  obtain ⟨refs, hrefs, hr⟩ := h.stored
  obtain ⟨p, -, hp⟩ := (mem_readRecords (readRecords_of_records hrefs)).1 r hr
  exact (decodeReference_eq_some hp).2.2.2.1

theorem Standing.mem_reach {pool : State} {installation lineage : ID} {root d : Dataset} {r : Reference}
    (h : Standing pool installation root r lineage) (hreal : Real pool) (hd : pool.hasObject (.dataset d) = true)
    (hcovers : r.covers d = true) : d ∈ r.reach pool root := by
  have hne := ne_nil_of_validDataset h.valid_dataset
  obtain ⟨o, ho, hname⟩ := State.hasObject_iff.mp hd
  have hscope : proofDatasets pool root [r.dataset] r.subtree d = true := by
    simp only [Reference.covers, Bool.or_eq_true, beq_iff_eq, Bool.and_eq_true] at hcovers
    rcases hcovers with rfl | ⟨hrec, hin⟩
    · simp [proofDatasets, hd]
    · have hroot := hreal.parent d r.dataset hd hne ((inside_iff hne).mp hin)
      simp [proofDatasets, Reference.subtree, hrec, hin, hne, hroot]
  refine Reference.mem_candidates.mpr ⟨⟨o, State.mem_restrict_objects.mpr ⟨ho, ?_⟩, ?_, by rw [hname]; rfl⟩, hcovers⟩
  · rw [hname]
    exact hscope
  · exact o.isDataset_iff.mpr ⟨d, hname⟩

/-! ## What is planned -/

theorem owns_restrict {pool : State} {p : Dataset → Bool} {o : Object} (lineage : ID) (hp : p o.name.base = true) :
    owns (pool.restrict p) o lineage = owns pool o lineage := by
  refine owns_congr lineage (State.filter_restrict fun x hx => ?_)
  simp only [isOwnership, Bool.and_eq_true, beq_iff_eq] at hx
  rw [hx.1]
  exact hp

theorem findOwned_restrict {pool : State} {p : Dataset → Bool} {n : Name} {lineage : ID} {x : Snapshot} {m : Metadata} :
    findOwned (pool.restrict p) n.base n lineage = .ok (x, m) ↔ p n.base = true ∧ ∃ o, pool.object n = some o ∧
      o.type = .snapshot ∧ owns pool o lineage = .ok m ∧ x = snapshotOf (pool.restrict p) o := by
  rw [findOwned_eq_ok]
  constructor
  · rintro ⟨o, ho, rfl, htype, -, hm, rfl⟩
    obtain ⟨hmem, hbase⟩ := State.mem_restrict_objects.mp ho
    exact ⟨hbase, o, State.object_eq_some.mpr ⟨hmem, rfl⟩, htype, by rwa [← owns_restrict _ hbase], rfl⟩
  · rintro ⟨hbase, o, ho, htype, hm, rfl⟩
    obtain ⟨hmem, rfl⟩ := State.object_eq_some.mp ho
    exact ⟨o, State.mem_restrict_objects.mpr ⟨hmem, hbase⟩, rfl, htype, rfl, by rwa [owns_restrict _ hbase], rfl⟩

namespace Reference

variable {pool : State} {root : Dataset} {r : Reference} {lineage : ID} {d : Dataset}

@[simp] theorem base_snapshotOn : (r.snapshotOn d).base = d := rfl

@[simp] theorem base_bookmarkOn : (r.bookmarkOn d).base = d := rfl

def Proven (r : Reference) (pool : State) (lineage : ID) (d : Dataset) : Prop :=
  ∃ o, pool.object (r.snapshotOn d) = some o ∧ owns pool o lineage = .ok r.metadata

theorem findOwned_proven {p : Dataset → Bool} {x : Snapshot} {m : Metadata} (hp : p d = true) :
    findOwned (pool.restrict p) d (r.snapshotOn d) lineage = .ok (x, m) ↔
      ∃ o, pool.object (r.snapshotOn d) = some o ∧ owns pool o lineage = .ok m ∧ x = snapshotOf (pool.restrict p) o := by
  refine findOwned_restrict.trans ?_
  constructor
  · rintro ⟨-, o, ho, -, hm⟩
    exact ⟨o, ho, hm⟩
  · rintro ⟨o, ho, hm⟩
    exact ⟨hp, o, ho, o.type_snapshot_iff.mpr ⟨_, _, (State.object_eq_some.mp ho).2⟩, hm⟩

theorem mem_source {x : ReferenceSource} (h : ∃ o, r.sourceOn pool d = .ok o) (hx : x ∈ r.source pool d) :
    x.dataset = d ∧ ∀ o, pool.object (r.snapshotOn d) = some o → x.guid = o.guid := by
  obtain ⟨guid, hsource, hguid⟩ := source_eq h
  rw [hsource] at hx
  split at hx
  · obtain rfl := List.mem_singleton.mp hx
    exact ⟨rfl, hguid⟩
  · simp at hx

theorem held_of_unmarked {x : ReferenceSource} (h : ∃ o, r.sourceOn pool d = .ok o) (hx : x ∈ r.source pool d)
    (hmark : pool.hasObject (r.bookmarkOn d) = false) : pool.held (r.snapshotOn d) r.hold = true := by
  obtain ⟨guid, hsource, -⟩ := source_eq h
  by_contra hno
  simp [hsource, hmark, hno] at hx

theorem provenOn_iff {p : Dataset → Bool} {x : ReferenceSource} (hp : p d = true)
    (h : ∃ o, r.sourceOn pool d = .ok o) (hx : x ∈ r.source pool d) :
    provenOn (pool.restrict p) lineage r x = true ↔ r.Proven pool lineage d := by
  obtain ⟨rfl, hguid⟩ := mem_source h hx
  unfold provenOn
  constructor
  · intro hproven
    split at hproven
    · rename_i y m hfound
      obtain ⟨o, ho, hm, -⟩ := (findOwned_proven hp).mp hfound
      simp only [Bool.and_eq_true, beq_iff_eq] at hproven
      exact ⟨o, ho, hproven.2 ▸ hm⟩
    · cases hproven
  · rintro ⟨o, ho, hm⟩
    rw [(findOwned_proven hp).mpr ⟨o, ho, hm, rfl⟩]
    simp [snapshotOf, hguid o ho]

/-- What `ReleaseReference` does on one dataset. -/
def releases (r : Reference) (pool : State) (d : Dataset) : List Command :=
  (if pool.hasObject (r.bookmarkOn d) then [.destroyBookmark d r.mark] else []) ++
    (if pool.held (r.snapshotOn d) r.hold then [.release r.hold (r.snapshotOn d)] else [])

/-- What `ReleaseCompletedHold` does on one dataset. -/
def completes (r : Reference) (pool : State) (d : Dataset) : List Command :=
  if pool.held (r.snapshotOn d) r.hold then [.release r.hold (r.snapshotOn d)] else []

/-- What `CheckpointSet` does on one dataset. -/
def checkpoints (r : Reference) (pool : State) (d : Dataset) : List Command :=
  if pool.held (r.snapshotOn d) r.hold && !pool.hasObject (r.bookmarkOn d) then [.bookmark (r.snapshotOn d) r.mark] else []

end Reference

section Plans

variable {pool : State} {installation : ID} {root : Dataset} {r : Reference} {commands : List Command}

theorem held_sources {lineage : ID} (h : Standing pool installation root r lineage) {q : ReferenceSource → Bool}
    {P : Dataset → Prop}
    (hq : ∀ d ∈ r.reach pool root, ∀ x ∈ r.source pool d, pool.held (r.snapshotOn d) r.hold = true →
      (q x = true ↔ P d)) :
    (((r.reach pool root).flatMap (r.source pool)).filter (fun x =>
        (pool.restrict (proofDatasets pool root [r.dataset] r.subtree)).held (r.snapshotOn x.dataset) r.hold)).all q = true ↔
      ∀ d ∈ r.reach pool root, pool.held (r.snapshotOn d) r.hold = true → P d := by
  simp only [List.all_eq_true, List.mem_filter, List.mem_flatMap, State.restrict_held, Bool.and_eq_true]
  constructor
  · intro hall d hd hheld
    obtain ⟨guid, hsource, -⟩ := Reference.source_eq (h.readable d hd)
    have hx : ⟨d, guid⟩ ∈ r.source pool d := by simp [hsource, hheld]
    exact (hq d hd _ hx hheld).mp (hall _ ⟨⟨d, hd, hx⟩, hheld, Reference.inScope_of_reach hd⟩)
  · rintro hall x ⟨⟨d, hd, hx⟩, hheld, -⟩
    obtain ⟨rfl, -⟩ := Reference.mem_source (h.readable d hd) hx
    exact (hq _ hd x hx hheld).mpr (hall _ hd hheld)

theorem flatMap_sources {lineage : ID} (h : Standing pool installation root r lineage)
    {f : ReferenceSource → List Command} {g : Dataset → List Command}
    (hsome : ∀ d ∈ r.reach pool root, ∀ x ∈ r.source pool d, f x = g d)
    (hnone : ∀ d ∈ r.reach pool root, pool.hasObject (r.bookmarkOn d) = false →
      pool.held (r.snapshotOn d) r.hold = false → g d = []) :
    ((r.reach pool root).flatMap (r.source pool)).flatMap f = (r.reach pool root).flatMap g := by
  rw [List.flatMap_assoc]
  refine List.flatMap_congr fun d hd => ?_
  obtain ⟨guid, hsource, -⟩ := Reference.source_eq (h.readable d hd)
  have hsome' := hsome d hd
  rw [hsource] at hsome' ⊢
  split
  · rename_i hthere
    simpa [hthere] using hsome'
  · rename_i hthere
    simp only [Bool.or_eq_true, not_or, Bool.not_eq_true] at hthere
    rw [hnone d hd hthere.1 hthere.2]
    rfl

theorem held_proven {lineage : ID} (h : Standing pool installation root r lineage) :
    (((r.reach pool root).flatMap (r.source pool)).filter (fun x =>
        (pool.restrict (proofDatasets pool root [r.dataset] r.subtree)).held (r.snapshotOn x.dataset) r.hold)).all
          (provenOn (pool.restrict (proofDatasets pool root [r.dataset] r.subtree)) lineage r) = true ↔
      ∀ d ∈ r.reach pool root, pool.held (r.snapshotOn d) r.hold = true → r.Proven pool lineage d :=
  held_sources h fun d hd _ hx _ => Reference.provenOn_iff (Reference.inScope_of_reach hd) (h.readable d hd) hx

theorem releasePlan_eq_ok : releasePlan pool installation root r = .ok commands ↔ ∃ lineage,
    Standing pool installation root r lineage ∧
      (∀ d ∈ r.reach pool root, pool.held (r.snapshotOn d) r.hold = true → r.Proven pool lineage d) ∧
      (r.reach pool root).flatMap (r.releases pool) ++ [.inheritProperty (.dataset root) r.property] = commands := by
  have hcommands : ∀ lineage, Standing pool installation root r lineage →
      ((r.reach pool root).flatMap (r.source pool)).flatMap (fun x =>
        (if (pool.restrict (proofDatasets pool root [r.dataset] r.subtree)).hasObject (r.bookmarkOn x.dataset) then
          [Command.destroyBookmark x.dataset r.mark] else []) ++
        (if (pool.restrict (proofDatasets pool root [r.dataset] r.subtree)).held (r.snapshotOn x.dataset) r.hold then
          [.release r.hold (r.snapshotOn x.dataset)] else [])) = (r.reach pool root).flatMap (r.releases pool) := by
    intro lineage h
    refine flatMap_sources h ?_ ?_
    · intro d hd x hx
      obtain ⟨rfl, -⟩ := Reference.mem_source (h.readable d hd) hx
      simp only [Reference.releases, State.restrict_hasObject, State.restrict_held, Reference.base_snapshotOn,
        Reference.base_bookmarkOn, Reference.inScope_of_reach hd, Bool.and_true]
    · intro d _ hmark hheld
      simp [Reference.releases, hmark, hheld]
  simp only [releasePlan, ok_iff, Prod.exists, referenceState_eq_ok]
  constructor
  · rintro ⟨_, lineage, _, ⟨h, rfl, rfl⟩, hproven, rfl⟩
    exact ⟨lineage, h, (held_proven h).mp hproven, by rw [hcommands lineage h]⟩
  · rintro ⟨lineage, h, hproven, rfl⟩
    exact ⟨_, lineage, _, ⟨h, rfl, rfl⟩, (held_proven h).mpr hproven, by rw [hcommands lineage h]⟩

theorem completedPlan_eq_ok : completedPlan pool installation root r = .ok commands ↔ ∃ lineage,
    Standing pool installation root r lineage ∧
      (∀ d ∈ r.reach pool root, pool.held (r.snapshotOn d) r.hold = true → r.Proven pool lineage d) ∧
      (∀ d ∈ r.reach pool root, pool.held (r.snapshotOn d) r.hold = true → pool.hasObject (r.bookmarkOn d) = true) ∧
      (r.reach pool root).flatMap (r.completes pool) = commands := by
  have hcommands : ∀ lineage, Standing pool installation root r lineage →
      (((r.reach pool root).flatMap (r.source pool)).filter (fun x =>
        (pool.restrict (proofDatasets pool root [r.dataset] r.subtree)).held (r.snapshotOn x.dataset) r.hold)).map
          (fun x => .release r.hold (r.snapshotOn x.dataset)) = (r.reach pool root).flatMap (r.completes pool) := by
    intro lineage h
    rw [map_filter_eq_flatMap]
    refine flatMap_sources h ?_ ?_
    · intro d hd x hx
      obtain ⟨rfl, -⟩ := Reference.mem_source (h.readable d hd) hx
      simp only [Reference.completes, State.restrict_held, Reference.base_snapshotOn, Reference.inScope_of_reach hd,
        Bool.and_true]
    · intro d _ _ hheld
      simp [Reference.completes, hheld]
  have hmarked : ∀ lineage, Standing pool installation root r lineage → (_ ↔ _) := fun lineage h =>
    held_sources h (q := fun x => (pool.restrict (proofDatasets pool root [r.dataset] r.subtree)).hasObject
      (r.bookmarkOn x.dataset)) (P := fun d => pool.hasObject (r.bookmarkOn d) = true) (by
        intro d hd x hx _
        obtain ⟨rfl, -⟩ := Reference.mem_source (h.readable d hd) hx
        simp only [State.restrict_hasObject, Reference.base_bookmarkOn, Reference.inScope_of_reach hd, Bool.and_true])
  simp only [completedPlan, ok_iff, Prod.exists, referenceState_eq_ok]
  constructor
  · rintro ⟨_, lineage, _, ⟨h, rfl, rfl⟩, hproven, hmarks, rfl⟩
    exact ⟨lineage, h, (held_proven h).mp hproven, (hmarked lineage h).mp hmarks, (hcommands lineage h).symm⟩
  · rintro ⟨lineage, h, hproven, hmarks, rfl⟩
    exact ⟨_, lineage, _, ⟨h, rfl, rfl⟩, (held_proven h).mpr hproven, (hmarked lineage h).mpr hmarks, hcommands lineage h⟩

structure Checkable (pool : State) (r : Reference) (lineage : ID) (verified : List (Name × Nat))
    (sources : List ReferenceSource) : Prop where
  stream : sources.head?.map ReferenceSource.dataset = some r.dataset
  known : ∀ v ∈ verified, ∃ x ∈ sources, r.snapshotOn x.dataset = v.1
  guids : ∀ x ∈ sources, (verified.lookup (r.snapshotOn x.dataset)).all (· == x.guid) = true
  fresh : ∀ x ∈ sources, pool.hasObject (r.bookmarkOn x.dataset) = false →
    (verified.lookup (r.snapshotOn x.dataset)).isSome = true ∧ r.Proven pool lineage x.dataset

theorem holds_snapshotOf {s : State} {o : Object} {t : Tag} :
    (snapshotOf s o).holds.contains t = s.held o.name t := by
  rw [Bool.eq_iff_iff, State.held_iff]
  simp [snapshotOf]

theorem checkpointMissing_eq_ok {lineage : ID} {verified : List (Name × Nat)} {d : Dataset} {x : ReferenceSource}
    {y : Option ReferenceSource} (h : Standing pool installation root r lineage) (hd : d ∈ r.reach pool root)
    (hx : x ∈ r.source pool d) :
    checkpointMissing (pool.restrict (proofDatasets pool root [r.dataset] r.subtree)) lineage r verified x = .ok y ↔
      (verified.lookup (r.snapshotOn d)).all (· == x.guid) = true ∧
        (pool.hasObject (r.bookmarkOn d) = false →
          (verified.lookup (r.snapshotOn d)).isSome = true ∧ r.Proven pool lineage d) ∧
        y = if pool.hasObject (r.bookmarkOn d) then none else some x := by
  have hp := Reference.inScope_of_reach hd
  obtain ⟨rfl, hguid⟩ := Reference.mem_source (h.readable d hd) hx
  simp only [checkpointMissing, ok_iff, State.restrict_hasObject, Reference.base_bookmarkOn, hp, Bool.and_true]
  refine and_congr_right fun _ => ?_
  cases hmark : pool.hasObject (r.bookmarkOn x.dataset) with
  | true =>
    simp only [if_true, pure_eq_ok, Bool.true_eq_false, false_imp_iff, true_and]
    exact eq_comm
  | false =>
    have hheld := Reference.held_of_unmarked (h.readable _ hd) hx hmark
    simp only [Bool.false_eq_true, if_false, ok_iff, Prod.exists, Reference.findOwned_proven hp, forall_const,
      and_assoc]
    refine and_congr_right fun _ => ?_
    constructor
    · rintro ⟨snapshot, m, ⟨o, ho, hm, rfl⟩, hsame, rfl⟩
      simp only [Bool.and_eq_true, beq_iff_eq] at hsame
      exact ⟨⟨o, ho, hsame.1.2 ▸ hm⟩, rfl⟩
    · rintro ⟨⟨o, ho, hm⟩, rfl⟩
      refine ⟨_, _, ⟨o, ho, hm, rfl⟩, ?_, rfl⟩
      obtain ⟨-, hname⟩ := State.object_eq_some.mp ho
      rw [holds_snapshotOf, hname]
      simp [snapshotOf, hguid o ho, hheld, Reference.base_snapshotOn, hp]

theorem checkpointPlan_eq_ok {verified : List (Name × Nat)} :
    checkpointPlan pool installation root r verified = .ok commands ↔ ∃ lineage,
      Standing pool installation root r lineage ∧
        Checkable pool r lineage verified ((r.reach pool root).flatMap (r.source pool)) ∧
        (r.reach pool root).flatMap (r.checkpoints pool) = commands := by
  simp only [checkpointPlan, ok_iff, Prod.exists, referenceState_eq_ok]
  have hcommands : ∀ lineage, Standing pool installation root r lineage →
      Checkable pool r lineage verified ((r.reach pool root).flatMap (r.source pool)) →
      (((r.reach pool root).flatMap (r.source pool)).flatMap (fun x => ((checkpointMissing (pool.restrict
        (proofDatasets pool root [r.dataset] r.subtree)) lineage r verified x).toOption.getD none).toList)).map
          (fun x => .bookmark (r.snapshotOn x.dataset) r.mark) = (r.reach pool root).flatMap (r.checkpoints pool) := by
    intro lineage h hcheck
    rw [List.map_flatMap]
    refine flatMap_sources h ?_ ?_
    · intro d hd x hx
      have hmem := List.mem_flatMap.mpr ⟨d, hd, hx⟩
      obtain ⟨rfl, -⟩ := Reference.mem_source (h.readable d hd) hx
      rw [(checkpointMissing_eq_ok h hd hx).mpr ⟨hcheck.guids x hmem, hcheck.fresh x hmem, rfl⟩]
      cases hmark : pool.hasObject (r.bookmarkOn x.dataset) with
      | true => simp [Except.toOption, Reference.checkpoints, hmark]
      | false => simp [Except.toOption, Reference.checkpoints, hmark, Reference.held_of_unmarked (h.readable _ hd) hx hmark]
    · intro d _ _ hheld
      simp [Reference.checkpoints, hheld]
  constructor
  · rintro ⟨_, lineage, _, ⟨h, rfl, rfl⟩, hhead, hrest⟩
    split at hrest
    · simp at hrest
    · rename_i hfind
      simp only [ok_iff] at hrest
      obtain ⟨missing, hmissing, rfl⟩ := hrest
      obtain ⟨htotal, rfl⟩ := collect_eq_ok.mp hmissing
      have hcheck : Checkable pool r lineage verified ((r.reach pool root).flatMap (r.source pool)) := by
        refine ⟨by simpa using hhead, ?_, ?_, ?_⟩
        · intro v hv
          have hany := List.find?_eq_none.mp hfind v hv
          simp only [Bool.not_eq_true', Bool.not_eq_false, List.any_eq_true, beq_iff_eq] at hany
          exact hany
        all_goals
          intro x hx
          obtain ⟨d, hd, hxd⟩ := List.mem_flatMap.mp hx
          obtain ⟨y, hy⟩ := htotal x hx
          have hy' := (checkpointMissing_eq_ok h hd hxd).mp hy
          obtain ⟨rfl, -⟩ := Reference.mem_source (h.readable d hd) hxd
        · exact hy'.1
        · exact hy'.2.1
      exact ⟨lineage, h, hcheck, (hcommands lineage h hcheck).symm⟩
  · rintro ⟨lineage, h, hcheck, rfl⟩
    refine ⟨_, lineage, _, ⟨h, rfl, rfl⟩, by simpa using hcheck.stream, ?_⟩
    have hfind : verified.find? (fun v => !((r.reach pool root).flatMap (r.source pool)).any
        (fun x => r.snapshotOn x.dataset == v.1)) = none := by
      rw [List.find?_eq_none]
      intro v hv
      obtain ⟨x, hx, hname⟩ := hcheck.known v hv
      simp only [Bool.not_eq_true', Bool.not_eq_false, List.any_eq_true, beq_iff_eq]
      exact ⟨x, hx, hname⟩
    simp only [hfind, ok_iff]
    refine ⟨_, collect_eq_ok.mpr ⟨?_, rfl⟩, hcommands lineage h hcheck⟩
    intro x hx
    obtain ⟨d, hd, hxd⟩ := List.mem_flatMap.mp hx
    have hguid := hcheck.guids x hx
    have hfresh := hcheck.fresh x hx
    obtain ⟨rfl, -⟩ := Reference.mem_source (h.readable d hd) hxd
    exact ⟨_, (checkpointMissing_eq_ok h hd hxd).mpr ⟨hguid, hfresh, rfl⟩⟩

end Plans

/-! ## Protecting -/

section Protect

variable {pool : State} {installation lineage : ID} {root stream : Dataset} {snapshots : List Name} {target : String}
  {instant : Metadata} {r : Reference} {commands : List Command}

theorem protectInstant_eq_ok {s : State} {seen ns : List Name} {m : Option Metadata} :
    protectInstant s lineage stream seen m ns = .ok (some instant) ↔
      (ns.Nodup ∧ ∀ n ∈ ns, n ∉ seen) ∧
        (∀ n ∈ ns, inside n.base stream = true ∧ ∃ x, findOwned s n.base n lineage = .ok (x, instant)) ∧
        m.all (· == instant) = true ∧ (ns = [] → m = some instant) := by
  induction ns generalizing seen m with
  | nil =>
    simp only [protectInstant, Except.ok.injEq]
    constructor
    · rintro rfl
      simp
    · rintro ⟨-, -, -, h⟩
      exact h trivial
  | cons n ns ih =>
    simp only [protectInstant, ok_iff, ih, Prod.exists]
    constructor
    · rintro ⟨hseen, hin, x, m', hfound, hsame, ⟨hnodup, hns⟩, hall, hlast, -⟩
      obtain rfl : m' = instant := by simpa using hlast
      simp only [List.mem_cons, not_or] at hns
      refine ⟨⟨List.nodup_cons.mpr ⟨fun hn => (hns n hn).1 rfl, hnodup⟩, ?_⟩, ?_, hsame, by simp⟩
      · intro b hb
        rcases List.mem_cons.mp hb with rfl | hb
        · simpa using hseen
        · exact (hns b hb).2
      · intro b hb
        rcases List.mem_cons.mp hb with rfl | hb
        · exact ⟨hin, x, hfound⟩
        · exact hall b hb
    · rintro ⟨⟨hnodup, hseen⟩, hall, hsame, -⟩
      obtain ⟨hn, hnodup⟩ := List.nodup_cons.mp hnodup
      obtain ⟨hin, x, hfound⟩ := hall n (by simp)
      refine ⟨by simpa using hseen n (by simp), hin, x, instant, hfound, hsame, ⟨hnodup, ?_⟩,
        fun b hb => hall b (by simp [hb]), by simp, by simp⟩
      intro b hb
      simp only [List.mem_cons, not_or]
      exact ⟨fun h => hn (h ▸ hb), hseen b (by simp [hb])⟩

structure Protectable (pool : State) (installation : ID) (root stream : Dataset) (snapshots : List Name)
    (target : String) (lineage : ID) (instant : Metadata) : Prop where
  valid : validDataset root = true
  canonical : canonicalText target = true
  validStream : validDataset stream = true
  inRoot : inside stream root = true
  hasRoot : pool.hasObject (.dataset root) = true
  ready : (pool.restrict (proofDatasets pool root (snapshots.map Name.base) [])).resumeTokens = []
  authority : rootAuthority pool root installation = .ok lineage
  distinct : snapshots.Nodup
  inStream : ∀ n ∈ snapshots, inside n.base stream = true
  onDataset : ∀ n ∈ snapshots, n.base = root ∨ pool.hasObject (.dataset n.base) = true
  owned : ∀ n ∈ snapshots, ∃ o, pool.object n = some o ∧ o.type = .snapshot ∧ owns pool o lineage = .ok instant
  own : ∃ n ∈ snapshots, n.base = stream

def protectReference (stream : Dataset) (snapshots : List Name) (target : String) (instant : Metadata) : Reference :=
  ⟨⟨target⟩, stream, instant, snapshots.any (·.base != stream)⟩

def Reference.serves (prior r : Reference) : Bool :=
  prior == r || (prior.metadata == r.metadata && prior.dataset == r.dataset && prior.recursive)

theorem Reference.serves_iff {prior r : Reference} (h : prior.serves r = true) :
    prior.metadata = r.metadata ∧ prior.dataset = r.dataset ∧ (r.recursive = true → prior.recursive = true) := by
  simp only [serves, Bool.or_eq_true, beq_iff_eq, Bool.and_eq_true] at h
  rcases h with rfl | ⟨⟨hmetadata, hdataset⟩, hrecursive⟩
  · exact ⟨rfl, rfl, id⟩
  · exact ⟨hmetadata, hdataset, fun _ => hrecursive⟩

theorem Protectable.named (h : Protectable pool installation root stream snapshots target lineage instant)
    (hserves : r.serves (protectReference stream snapshots target instant) = true) {n : Name} (hn : n ∈ snapshots) :
    n = r.snapshotOn n.base ∧ r.covers n.base = true := by
  obtain ⟨hmetadata, hdataset, hrecursive⟩ := Reference.serves_iff hserves
  obtain ⟨o, ho, -, hm⟩ := h.owned n hn
  obtain ⟨-, rfl⟩ := State.object_eq_some.mp ho
  refine ⟨?_, ?_⟩
  · rw [Reference.snapshotOn, hmetadata]
    exact (owns_eq_ok hm).1
  · simp only [Reference.covers, hdataset, protectReference, Bool.or_eq_true, beq_iff_eq, Bool.and_eq_true]
    by_cases hbase : o.name.base = stream
    · exact .inl hbase
    · refine .inr ⟨hrecursive ?_, h.inStream _ hn⟩
      exact List.any_eq_true.mpr ⟨_, hn, by simpa using hbase⟩

theorem proofDatasets_named {n : Name} (hn : n ∈ snapshots) :
    proofDatasets pool root (snapshots.map Name.base) [] n.base = true ↔
      n.base = root ∨ pool.hasObject (.dataset n.base) = true := by
  simp only [proofDatasets, bne_self_eq_false, Bool.false_and, Bool.or_false, Bool.or_eq_true, beq_iff_eq,
    Bool.and_eq_true, List.contains_iff_mem, List.mem_map]
  exact or_congr_right (and_iff_right ⟨n, hn, rfl⟩)

theorem protectChoice_eq_ok {s : State} {a : Reference} {refs : List Reference}
    (hheld : ∀ n ∈ snapshots, ∀ t, s.held n t = pool.held n t) :
    (match refs.find? (·.property == a.property) with
      | some prior => do
        require (prior == a ||
            (prior.metadata == a.metadata && prior.dataset == a.dataset && prior.recursive))
          (.plain "conflicting reference proof")
        return (prior, (snapshots.filter (!s.held · prior.hold)).map (.hold prior.hold))
      | none => do
        require (snapshots.all (!s.held · a.hold)) (.plain "unproven existing target hold")
        return (a, .setProperty (.dataset root) a.property (.reference (encodeReference a root)) ::
          snapshots.map (.hold a.hold)) : Except Error (Reference × List Command)) = .ok (r, commands) ↔
      match refs.find? (·.property == a.property) with
      | some prior => prior.serves a = true ∧ r = prior ∧
          commands = (snapshots.filter (!pool.held · prior.hold)).map (.hold prior.hold)
      | none => (∀ n ∈ snapshots, pool.held n a.hold = false) ∧ r = a ∧
          commands = .setProperty (.dataset root) r.property (.reference (encodeReference r root)) ::
            snapshots.map (.hold r.hold) := by
  cases refs.find? (·.property == a.property) with
  | some prior =>
    have hfilter : snapshots.filter (!s.held · prior.hold) = snapshots.filter (!pool.held · prior.hold) :=
      List.filter_congr fun n hn => by rw [hheld n hn]
    simp only [ok_iff, Prod.mk.injEq, hfilter]
    exact and_congr_right fun _ => and_congr eq_comm eq_comm
  | none =>
    have hfree : (snapshots.all (!s.held · a.hold)) = true ↔ ∀ n ∈ snapshots, pool.held n a.hold = false := by
      rw [List.all_eq_true]
      refine forall₂_congr fun n hn => ?_
      rw [hheld n hn, Bool.not_eq_true']
    simp only [ok_iff, Prod.mk.injEq, hfree]
    refine and_congr_right fun _ => ⟨?_, ?_⟩
    · rintro ⟨rfl, rfl⟩
      exact ⟨rfl, rfl⟩
    · rintro ⟨rfl, rfl⟩
      exact ⟨rfl, rfl⟩

theorem protectPlan_eq_ok : protectPlan pool installation root stream snapshots target = .ok (r, commands) ↔
    ∃ lineage instant, Protectable pool installation root stream snapshots target lineage instant ∧
      ∃ refs, referenceRecords pool root (some lineage) = .ok refs ∧
      match refs.find? (·.property == (protectReference stream snapshots target instant).property) with
      | some prior => prior.serves (protectReference stream snapshots target instant) = true ∧ r = prior ∧
          commands = (snapshots.filter (!pool.held · prior.hold)).map (.hold prior.hold)
      | none => (∀ n ∈ snapshots, pool.held n (.target ⟨target⟩) = false) ∧
          r = protectReference stream snapshots target instant ∧
          commands = .setProperty (.dataset root) r.property (.reference (encodeReference r root)) ::
            snapshots.map (.hold r.hold) := by
  have hroot := proofDatasets_root pool root (snapshots.map Name.base) []
  have hheld : ∀ lineage instant, Protectable pool installation root stream snapshots target lineage instant →
      ∀ n ∈ snapshots, ∀ t,
        (pool.restrict (proofDatasets pool root (snapshots.map Name.base) [])).held n t = pool.held n t := by
    intro lineage instant h n hn t
    rw [State.restrict_held, (proofDatasets_named hn).mpr (h.onDataset n hn), Bool.and_true]
  simp only [protectPlan, ok_iff, proofScope_eq_ok]
  constructor
  · rintro ⟨hvalid, htext, hne, hstream, hin, _, ⟨hhas, rfl⟩, _, hready, lineage, hl, m, hm, hrest⟩
    rw [rootAuthority_restrict _ hroot] at hl
    cases m with
    | none => simp at hrest
    | some instant =>
      simp only [ok_iff, List.any_eq_true, beq_iff_eq] at hrest
      obtain ⟨hown, refs, hrefs, hprior⟩ := hrest
      rw [referenceRecords_restrict hroot] at hrefs
      obtain ⟨⟨hnodup, -⟩, hall, -, -⟩ := protectInstant_eq_ok.mp hm
      have h : Protectable pool installation root stream snapshots target lineage instant := by
        refine ⟨hvalid, htext, hstream, hin, hhas, (scopeReady_eq_ok.mp hready).1, hl, hnodup, fun n hn => (hall n hn).1,
          fun n hn => ?_, fun n hn => ?_, hown⟩
        all_goals
          obtain ⟨-, x, hx⟩ := hall n hn
          obtain ⟨hscope, o, ho, htype, hm, -⟩ := findOwned_restrict.mp hx
        · exact (proofDatasets_named hn).mp hscope
        · exact ⟨o, ho, htype, hm⟩
      refine ⟨lineage, instant, h, refs, hrefs, ?_⟩
      exact (protectChoice_eq_ok (a := protectReference stream snapshots target instant)
        (hheld lineage instant h)).mp hprior
  · rintro ⟨lineage, instant, h, refs, hrefs, hprior⟩
    obtain ⟨n, hn, hbase⟩ := h.own
    refine ⟨h.valid, h.canonical, ?_, h.validStream, h.inRoot, _, ⟨h.hasRoot, rfl⟩, ⟨⟩,
      scopeReady_eq_ok.mpr ⟨h.ready, by simp [h.hasRoot, hroot]⟩, lineage, ?_, some instant, ?_, ?_⟩
    · simpa using List.ne_nil_of_mem hn
    · rw [rootAuthority_restrict _ hroot, h.authority]
    · refine protectInstant_eq_ok.mpr ⟨⟨h.distinct, by simp⟩, ?_, rfl, by simp [List.ne_nil_of_mem hn]⟩
      intro n hn
      obtain ⟨o, ho, htype, hm⟩ := h.owned n hn
      exact ⟨h.inStream n hn, _, findOwned_restrict.mpr
        ⟨(proofDatasets_named hn).mpr (h.onDataset n hn), o, ho, htype, hm, rfl⟩⟩
    · simp only [ok_iff, List.any_eq_true, beq_iff_eq]
      refine ⟨⟨n, hn, hbase⟩, refs, by rw [referenceRecords_restrict hroot, hrefs], ?_⟩
      exact (protectChoice_eq_ok (a := protectReference stream snapshots target instant)
        (hheld lineage instant h)).mpr hprior

end Protect

end Boomerangz.Lifecycle
