import Boomerangz.Lifecycle.CarriedOut

/-! # What forgetting a target leaves

An unblocked forget plan takes away its targets' holds, bookmarks, proofs, bindings and markers, and nothing else.
-/

namespace Boomerangz.Lifecycle

open Check Zfs

/-! ## The state of a target -/

def isProofOf (t : TargetID) : Key → Bool
  | .reference t' _ _ => t' == t
  | _ => false

/-- As ZFS has it, a bookmark has no properties, no holds and no clones. -/
structure BareBookmarks (s : State) : Prop where
  listed : Listed s
  holds : ∀ r ∈ s.holds, r.1.isBookmark = false
  clones : ∀ r ∈ s.clones, r.1.isBookmark = false

section Kept

variable [Digests]

def isRowOf (d : Dataset) (targets : List TargetID) (p : Property) : Bool :=
  p.dataset == .dataset d && p.source == .sourceLocal &&
    targets.any fun t => isProofOf t p.name || isStateOf t p.name

def isHoldOf (d : Dataset) (targets : List TargetID) (r : Name × Tag) : Bool :=
  inside r.1.base d && targets.any (r.2 == .target ·)

def isBookmarkOf (d : Dataset) (targets : List TargetID) : Name → Bool
  | .bookmark x m => inside x d && targets.any (isMarkOf · m)
  | _ => false

def forgotten (pool : State) (d : Dataset) (targets : List TargetID) : State where
  objects := pool.objects.filter fun o => !isBookmarkOf d targets o.name
  properties := pool.properties.filter fun p => !isRowOf d targets p
  received := pool.received
  resumeTokens := pool.resumeTokens
  clones := pool.clones
  holds := pool.holds.filter fun r => !isHoldOf d targets r
  distinct := (List.Sublist.map Object.name List.filter_sublist).nodup pool.distinct

structure Forgets (pool : State) (d : Dataset) (targets : List TargetID) (pool' : State) : Prop where
  whole : pool' = forgotten pool d targets
  rows : ∀ p ∈ pool'.properties, p.dataset = .dataset d → p.source = .sourceLocal → ∀ t ∈ targets,
    isProofOf t p.name = false ∧ isStateOf t p.name = false
  holds : ∀ n t, inside n.base d = true → t ∈ targets → pool'.held n (.target t) = false
  bookmarks : ∀ x m t, inside x d = true → t ∈ targets → isMarkOf t m = true → pool'.hasObject (.bookmark x m) = false
  objects : ∀ n, n.isBookmark = false → pool'.object n = pool.object n
  keys : ∀ p, (∀ t ∈ targets, isProofOf t p.name = false ∧ isStateOf t p.name = false) →
    (p ∈ pool'.properties ↔ p ∈ pool.properties)
  otherHolds : ∀ n tag, (∀ t ∈ targets, tag ≠ .target t) → pool'.held n tag = pool.held n tag
  otherMarks : ∀ x m, (∀ t ∈ targets, isMarkOf t m = false) → pool'.object (.bookmark x m) = pool.object (.bookmark x m)
  received : pool'.received = pool.received

theorem object_forgotten {pool : State} {d : Dataset} {targets : List TargetID} {n : Name}
    (h : isBookmarkOf d targets n = false) : (forgotten pool d targets).object n = pool.object n := by
  simp only [State.object, forgotten, List.find?_filter]
  congr 1
  funext o
  by_cases ho : o.name = n
  · simp [ho, h]
  · simp [ho]

theorem forgotten_forgets (pool : State) (d : Dataset) (targets : List TargetID) :
    Forgets pool d targets (forgotten pool d targets) where
  whole := rfl
  rows p hp hd hsource t ht := by
    have hkept := (List.mem_filter.mp hp).2
    simp only [isRowOf, hd, hsource, beq_self_eq_true, Bool.true_and, Bool.not_eq_true', List.any_eq_false] at hkept
    simpa using hkept t ht
  holds n t hn ht := by
    rw [Bool.eq_false_iff, Ne, State.held_iff]
    intro hmem
    have hkept := (List.mem_filter.mp hmem).2
    simp only [isHoldOf, hn, Bool.true_and, Bool.not_eq_true', List.any_eq_false] at hkept
    exact hkept t ht (beq_self_eq_true _)
  bookmarks x m t hx ht hm := by
    rw [Bool.eq_false_iff, Ne, State.hasObject_iff]
    rintro ⟨o, ho, hname⟩
    have hkept := (List.mem_filter.mp ho).2
    simp only [hname, isBookmarkOf, hx, Bool.true_and, Bool.not_eq_true', List.any_eq_false] at hkept
    exact hkept t ht hm
  objects n hn := by
    refine object_forgotten ?_
    cases n with
    | bookmark x m => cases hn
    | _ => rfl
  keys p hp := by
    refine ⟨List.mem_of_mem_filter, fun hmem => List.mem_filter.mpr ⟨hmem, ?_⟩⟩
    have hno : (targets.any fun t => isProofOf t p.name || isStateOf t p.name) = false := by
      rw [List.any_eq_false]
      intro t ht
      simp [hp t ht]
    simp only [isRowOf, hno, Bool.and_false, Bool.not_false]
  otherHolds n tag htag := by
    have hno : targets.any (tag == .target ·) = false := by
      rw [List.any_eq_false]
      intro t ht
      simpa using htag t ht
    rw [Bool.eq_iff_iff, State.held_iff, State.held_iff]
    simp only [forgotten, List.mem_filter, isHoldOf, hno, Bool.and_false, Bool.not_false, and_true]
  otherMarks x m hm := by
    refine object_forgotten ?_
    have hno : targets.any (isMarkOf · m) = false := by
      rw [List.any_eq_false]
      intro t ht
      simp [hm t ht]
    rw [isBookmarkOf, hno, Bool.and_false]
  received := rfl

end Kept

/-! ## The plan -/

section Plan

variable {s : State} {d : Dataset} {targets : List TargetID} {lineage : ID} {refs : List Reference}

theorem Forgettable.mem_refs (h : Forgettable s d targets lineage refs) {r : Reference} (hr : r ∈ refs) :
    r.targetID ∈ targets := by
  obtain ⟨all, -, rfl⟩ := h.records
  exact List.contains_iff_mem.mp (List.mem_filter.mp hr).2

theorem mem_forgottenKeys [Digests] (h : Forgettable s d targets lineage refs) (hone : OneValue s) {p : Property}
    (hp : p ∈ s.properties) (hd : p.dataset = .dataset d) :
    p.name ∈ forgottenKeys s d targets refs ↔ isRowOf d targets p = true := by
  obtain ⟨all, hall, hrefs⟩ := h.records
  obtain ⟨hfound, hread⟩ := mem_readRecords (readRecords_of_records hall)
  simp only [isRowOf, hd, beq_self_eq_true, Bool.true_and, Bool.and_eq_true, beq_iff_eq, List.any_eq_true,
    Bool.or_eq_true, forgottenKeys, List.mem_append, List.mem_map]
  constructor
  · rintro (⟨r, hr, hname⟩ | ⟨q, hq, hname⟩)
    · obtain ⟨q, hq, hdecode⟩ := hfound r (List.mem_of_mem_filter (hrefs ▸ hr))
      obtain ⟨hmem, hqd, -, hsource⟩ := mem_recordRows.mp hq
      obtain rfl : p = q := hone.eq hp hmem (hd.trans hqd.symm)
        (hname.symm.trans (decodeReference_eq_some hdecode).1.symm)
      exact ⟨hsource, r.targetID, h.mem_refs hr, .inl (by rw [← hname, Reference.property, isProofOf, beq_self_eq_true])⟩
    · obtain ⟨hmem, hrow⟩ := List.mem_filter.mp hq
      simp only [Bool.and_eq_true, beq_iff_eq, List.any_eq_true] at hrow
      obtain ⟨⟨hqd, hsource⟩, t, ht, hstate⟩ := hrow
      obtain rfl : p = q := hone.eq hp hmem (hd.trans hqd.symm) hname.symm
      exact ⟨hsource, t, ht, .inr hstate⟩
  · rintro ⟨hsource, t, ht, hproof | hstate⟩
    · have hkey : p.name.isReference = true := by
        cases hname : p.name <;> simp [isProofOf, hname, Key.isReference] at hproof ⊢
      obtain ⟨r, hr, hdecode⟩ := hread p (mem_recordRows.mpr ⟨hp, hd, hkey, hsource⟩)
      have hname := (decodeReference_eq_some hdecode).1
      rw [hname, Reference.property, isProofOf, beq_iff_eq] at hproof
      refine .inl ⟨r, hrefs ▸ List.mem_filter.mpr ⟨hr, ?_⟩, hname.symm⟩
      rw [hproof]
      exact List.contains_iff_mem.mpr ht
    · refine .inr ⟨p, List.mem_filter.mpr ⟨hp, ?_⟩, rfl⟩
      simp only [hd, hsource, beq_self_eq_true, Bool.and_self, Bool.true_and, List.any_eq_true]
      exact ⟨t, ht, hstate⟩

theorem unforgottenBlockers_eq_nil [Digests] {actions : List CleanAction} : unforgottenBlockers s targets actions = [] ↔
    (∀ n t, t ∈ targets → s.held n (.target t) = true → .release (.target t) n ∈ actions.map CleanAction.command) ∧
    ∀ x m, targets.any (isMarkOf · m) = true → s.hasObject (.bookmark x m) = true →
      .destroyBookmark x m ∈ actions.map CleanAction.command := by
  simp only [unforgottenBlockers, List.append_eq_nil_iff, List.map_eq_nil_iff, List.filter_eq_nil_iff]
  refine and_congr ⟨fun h n t ht hheld => ?_, fun h r hr => ?_⟩ unprovenMarks_eq_nil
  · simpa [ht, releases] using h (n, .target t) (State.held_iff.mp hheld)
  · obtain ⟨n, tag⟩ := r
    cases tag with
    | target t =>
      have := fun ht => h n t ht (State.held_iff.mpr hr)
      simpa [releases] using this
    | _ => simp

section Commands

variable [Digests] {c : Command} {n : Name}

theorem mem_forget_of_proofs (hc : c ∈ (forgetProofs s d targets).1.map CleanAction.command) :
    c ∈ (sortCleanActions (forgetActions s d targets)).map CleanAction.command := by
  obtain ⟨a, ha, rfl⟩ := List.mem_map.mp hc
  exact List.mem_map_of_mem (mem_sortCleanActions.mpr (List.mem_append_left _ ha))

variable (h : Forgettable s d targets lineage refs)
include h

theorem mem_forgetCommands :
    c ∈ (sortCleanActions (forgetActions s d targets)).map CleanAction.command ↔
      (∃ r ∈ refs, c ∈ (proofActions s r).map CleanAction.command) ∨
        ∃ k ∈ forgottenKeys s d targets refs, c = .inheritProperty (.dataset d) k := by
  have hsorted : (sortCleanActions (forgetActions s d targets)).Perm (forgetActions s d targets) :=
    List.perm_insertionSort _ _
  rw [((hsorted.trans (forgetActions_perm h)).map CleanAction.command).mem_iff, List.map_append, List.map_flatMap, List.map_map, List.mem_append,
    List.mem_flatMap, List.mem_map]
  simp only [Function.comp_apply, CleanAction.command, eq_comm]

theorem forgetCommands_removes
    (hc : c ∈ (sortCleanActions (forgetActions s d targets)).map CleanAction.command) : c.removes = true := by
  rcases (mem_forgetCommands h).mp hc with ⟨r, -, hc⟩ | ⟨k, -, rfl⟩
  · obtain ⟨x, -, ⟨-, rfl⟩ | ⟨-, rfl⟩⟩ := mem_proofActions.mp hc <;> rfl
  · rfl

theorem inherit_forget_iff {k : Key} :
    .inheritProperty n k ∈ (sortCleanActions (forgetActions s d targets)).map CleanAction.command ↔
      n = .dataset d ∧ k ∈ forgottenKeys s d targets refs := by
  rw [mem_forgetCommands h]
  constructor
  · rintro (⟨r, -, hc⟩ | ⟨k', hk, hc⟩)
    · obtain ⟨x, -, ⟨-, hc⟩ | ⟨-, hc⟩⟩ := mem_proofActions.mp hc <;> cases hc
    · cases hc
      exact ⟨rfl, hk⟩
  · rintro ⟨rfl, hk⟩
    exact .inr ⟨k, hk, rfl⟩

variable (hnone : unforgottenBlockers s targets (forgetProofs s d targets).1 = [])
include hnone

theorem release_mem_iff {tag : Tag} :
    .release tag n ∈ (sortCleanActions (forgetActions s d targets)).map CleanAction.command ↔
      s.held n tag = true ∧ ∃ t ∈ targets, tag = .target t := by
  constructor
  · rw [mem_forgetCommands h]
    rintro (⟨r, hr, hc⟩ | ⟨k, -, hc⟩)
    · obtain ⟨x, -, ⟨hheld, hc⟩ | ⟨-, hc⟩⟩ := mem_proofActions.mp hc
      · cases hc
        exact ⟨hheld, r.targetID, h.mem_refs hr, rfl⟩
      · cases hc
    · cases hc
  · rintro ⟨hheld, t, ht, rfl⟩
    exact mem_forget_of_proofs ((unforgottenBlockers_eq_nil.mp hnone).1 n t ht hheld)

theorem destroyBookmark_mem_iff {x : Dataset} {m : Mark} :
    .destroyBookmark x m ∈ (sortCleanActions (forgetActions s d targets)).map CleanAction.command ↔
      s.hasObject (.bookmark x m) = true ∧ targets.any (isMarkOf · m) = true := by
  constructor
  · rw [mem_forgetCommands h]
    rintro (⟨r, hr, hc⟩ | ⟨k, -, hc⟩)
    · obtain ⟨x, -, ⟨-, hc⟩ | ⟨hmarked, hc⟩⟩ := mem_proofActions.mp hc
      · cases hc
      · cases hc
        refine ⟨hmarked, List.any_eq_true.mpr ⟨r.targetID, h.mem_refs hr, ?_⟩⟩
        rw [Reference.mark, isMarkOf, beq_self_eq_true]
    · cases hc
  · rintro ⟨hmarked, hm⟩
    exact mem_forget_of_proofs ((unforgottenBlockers_eq_nil.mp hnone).2 x m hm hmarked)

theorem forgetCommands_erases :
    ((sortCleanActions (forgetActions s d targets)).map CleanAction.command).any (·.erases n) = true ↔
      ∃ x m, n = .bookmark x m ∧ s.hasObject n = true ∧ targets.any (isMarkOf · m) = true := by
  rw [List.any_eq_true]
  constructor
  · rintro ⟨c, hc, herases⟩
    cases c with
    | destroyBookmark x m =>
      obtain rfl := beq_iff_eq.mp herases
      exact ⟨x, m, rfl, (destroyBookmark_mem_iff h hnone).mp hc⟩
    | destroySnapshot y =>
      rcases (mem_forgetCommands h).mp hc with ⟨r, -, hc⟩ | ⟨k, -, hc⟩
      · obtain ⟨z, -, ⟨-, hc⟩ | ⟨-, hc⟩⟩ := mem_proofActions.mp hc <;> cases hc
      · cases hc
    | _ => cases herases
  · rintro ⟨x, m, rfl, hmarked, hm⟩
    exact ⟨_, (destroyBookmark_mem_iff h hnone).mpr ⟨hmarked, hm⟩, beq_self_eq_true _⟩

end Commands

end Plan

/-! ## The whole of it -/

section Carried

variable [Digests] {pool pool' : State} {d : Dataset} {targets : List TargetID} {lineage : ID} {refs : List Reference}

theorem cleared_forgotten (hbare : BareBookmarks pool) {s : State} (hs : pool.inspect d true = .ok s)
    (h : Forgettable s d targets lineage refs)
    (hnone : unforgottenBlockers s targets (forgetProofs s d targets).1 = []) :
    pool.cleared ((sortCleanActions (forgetActions s d targets)).map CleanAction.command) =
      forgotten pool d targets := by
  obtain ⟨-, hscope⟩ := State.inspect_eq_ok.mp hs
  simp only [if_true] at hscope
  set cs := (sortCleanActions (forgetActions s d targets)).map CleanAction.command with hcs
  have hone : OneValue s := hscope ▸ hbare.listed.oneValue.restrict
  have hspares : ∀ n : Name, n.isBookmark = false → cs.any (·.erases n) = false := by
    intro n hn
    rw [Bool.eq_false_iff, Ne, forgetCommands_erases h hnone]
    rintro ⟨x, m, rfl, -⟩
    cases hn
  have hobjects : ∀ o ∈ pool.objects, (!cs.any (·.erases o.name)) = !isBookmarkOf d targets o.name := by
    intro o ho
    have hthere : s.hasObject o.name = inside o.name.base d := by
      rw [hscope, State.restrict_hasObject, State.hasObject_iff.mpr ⟨o, ho, rfl⟩, Bool.true_and]
    refine congrArg (!·) ?_
    rw [Bool.eq_iff_iff, forgetCommands_erases h hnone, hthere]
    cases o.name with
    | bookmark x m => simp [isBookmarkOf, Name.base]
    | _ => simp [isBookmarkOf]
  have hrows : ∀ p ∈ pool.properties, (!cs.any (·.drops p)) = !isRowOf d targets p := by
    intro p hp
    refine congrArg (!·) ?_
    rw [Bool.eq_iff_iff, Command.any_drops_iff, hspares _ (hbare.listed.rows p hp).2, inherit_forget_iff h]
    simp only [Bool.false_eq_true, or_false]
    by_cases hd : p.dataset = .dataset d
    · have hmem : p ∈ s.properties := by
        rw [hscope]
        exact State.mem_restrict_properties.mpr ⟨hp, by rw [hd]; exact inside_self d⟩
      rw [← mem_forgottenKeys h hone hmem hd]
      exact and_iff_right hd
    · simp [isRowOf, hd]
  have hholds : ∀ r ∈ pool.holds, (!cs.any (·.frees r)) = !isHoldOf d targets r := by
    intro r hr
    have hheld : s.held r.1 r.2 = inside r.1.base d := by
      rw [hscope, State.restrict_held, State.held_iff.mpr hr, Bool.true_and]
    refine congrArg (!·) ?_
    rw [Bool.eq_iff_iff, Command.any_frees_iff, hspares _ (hbare.holds r hr), release_mem_iff h hnone, hheld]
    simp [isHoldOf]
  simp only [State.cleared, forgotten, State.mk.injEq, true_and]
  refine ⟨List.filter_congr hobjects, List.filter_congr hrows, ?_, ?_, List.filter_congr hholds⟩
  · refine List.filter_eq_self.mpr fun r hr => ?_
    rw [hspares r.1 (hbare.listed.received r hr).2, Bool.not_false]
  · refine List.filter_eq_self.mpr fun r hr => ?_
    rw [hspares r.1 (hbare.clones r hr), Bool.not_false]

/-- A forget plan without blockers, carried out to its end, removes the targets and nothing else. -/
theorem forget_removes_targets (hbare : BareBookmarks pool) {options : CleanOptions} {safety : CleanSafety}
    {given : List TargetText} {plan : CleanPlan} (htargets : readTargets given = .ok targets)
    (hplan : forgetPlan pool d options safety given = .ok plan) (hblockers : plan.blockers = [])
    (happlied : carryOut d true plan.actions pool = .ok pool') : Forgets pool d targets pool' := by
  simp only [forgetPlan, htargets, ok_iff, Except.ok.injEq, exists_eq_left'] at hplan
  obtain ⟨-, -, s, hs, rfl⟩ := hplan
  simp only [forgetBlockers, List.append_eq_nil_iff, blocker_eq_nil, forgetProofs_unblocked] at hblockers
  obtain ⟨⟨⟨⟨⟨⟨_, hready⟩, -⟩, -⟩, lineage, refs, hforget⟩, hnone⟩, -⟩ := hblockers
  have hremoves : ∀ c ∈ (sortCleanActions (forgetActions s d targets)).map CleanAction.command, c.removes = true :=
    fun c hc => forgetCommands_removes hforget hc
  rw [carryOut_ok_iff hs (scopeReady_tokens hready) fun a ha => hremoves _ (List.mem_map_of_mem ha),
    runAll_cleared_iff hremoves] at happlied
  obtain ⟨rfl, -⟩ := happlied
  rw [cleared_forgotten hbare hs hforget hnone]
  exact forgotten_forgets pool d targets

end Carried

/-! A root that is sent to two targets, one of them gone for good. -/

section Sample

attribute [local instance] symbolicDigests

def wreckProof : Reference := ⟨⟨"local:wreck"⟩, ["tank"], sampleMetadata, true⟩

def rescueProof : Reference := ⟨⟨"local:rescue"⟩, ["tank"], sampleMetadata, false⟩

def yardMarks : List Object :=
  [.ofRow (wreckProof.bookmarkOn ["tank", "a"]) .bookmark 4 10 (by decide),
    .ofRow (rescueProof.bookmarkOn ["tank"]) .bookmark 3 10 (by decide)]

def wreckYard : State where
  objects := protectedSubtree.objects ++ yardMarks
  properties := authorityRows ["tank"] ⟨9, 9⟩ ⟨1, 1⟩ ++ sampleMetadata.rows ["tank"] ++
    sampleMetadata.rows ["tank", "a"] ++
    [⟨.dataset ["tank"], wreckProof.property, .reference (encodeReference wreckProof ["tank"]), .sourceLocal⟩,
      ⟨.dataset ["tank"], rescueProof.property, .reference (encodeReference rescueProof ["tank"]), .sourceLocal⟩,
      ⟨.dataset ["tank"], .suspended wreckProof.targetID, .text "on", .sourceLocal⟩,
      ⟨.dataset ["tank"], .target rescueProof.targetID, .text "vault/tank", .sourceLocal⟩]
  received := [(.dataset ["tank"], .target wreckProof.targetID, .text "vault/tank")]
  holds := [(wreckProof.snapshotOn ["tank"], wreckProof.hold), (rescueProof.snapshotOn ["tank"], rescueProof.hold)]
  distinct := by decide

theorem wreckYard_bare : BareBookmarks wreckYard :=
  ⟨⟨by unfold OneValue; decide, by decide, by decide⟩, by decide, by decide⟩

/-- Forgetting the target that is gone leaves everything of the other one. -/
theorem wreckYard_forgets : ∃ plan pool',
    forgetPlan wreckYard ["tank"] ⟨false, false⟩ anySafety [.id wreckProof.targetID] = .ok plan ∧ plan.blockers = [] ∧
      carryOut ["tank"] true plan.actions wreckYard = .ok pool' ∧
      Forgets wreckYard ["tank"] [wreckProof.targetID] pool' ∧
      pool'.held (rescueProof.snapshotOn ["tank"]) rescueProof.hold = true := by
  obtain ⟨plan, hplan, hblockers, pool', happlied⟩ : ∃ plan,
      forgetPlan wreckYard ["tank"] ⟨false, false⟩ anySafety [.id wreckProof.targetID] = .ok plan ∧
        plan.blockers = [] ∧ ∃ pool', carryOut ["tank"] true plan.actions wreckYard = .ok pool' :=
    ⟨_, rfl, by decide, _, rfl⟩
  have hforgets := forget_removes_targets wreckYard_bare rfl hplan hblockers happlied
  refine ⟨plan, pool', hplan, hblockers, happlied, hforgets, ?_⟩
  rw [hforgets.otherHolds _ _ (by decide)]
  decide

end Sample

end Boomerangz.Lifecycle
