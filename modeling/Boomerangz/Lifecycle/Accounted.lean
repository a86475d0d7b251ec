import Boomerangz.Lifecycle.Clean
import Boomerangz.Zfs.Effect

/-! # Protections and their proofs

A target's hold or bookmark is accounted for while a proof stored on the root names it.
-/

namespace Boomerangz.Lifecycle

open Check Zfs

/-! ## Sources -/

namespace Reference

variable {r : Reference} {s : State} {d : Dataset}

theorem mem_candidates : d ∈ r.candidates s ↔
    (∃ o ∈ s.objects, o.isDataset = true ∧ o.name.base = d) ∧ r.covers d = true := by
  simp [candidates, and_assoc]

theorem sourceOn_dataset {source : ReferenceSource} (h : r.sourceOn s d = .ok (some source)) :
    source.dataset = d := by
  unfold sourceOn at h
  simp only at h
  split at h
  · split at h
    · cases h; rfl
    · cases h
  · cases h; rfl
  · split at h <;> cases h; rfl
  · split at h <;> cases h

theorem mem_sources {sources : List ReferenceSource} {source : ReferenceSource} (h : r.sources s = .ok sources) :
    source ∈ sources ↔ source.dataset ∈ r.candidates s ∧ r.sourceOn s source.dataset = .ok (some source) := by
  rw [mem_collect h]
  constructor
  · rintro ⟨d, hd, hs⟩
    obtain rfl := sourceOn_dataset hs
    exact ⟨hd, hs⟩
  · rintro ⟨hd, hs⟩
    exact ⟨_, hd, hs⟩

end Reference

/-! ## Protections -/

inductive Protection where
  | hold (d : Dataset) (c : Component) (t : TargetID)
  | bookmark (d : Dataset) (t : TargetID) (u : ID)
deriving DecidableEq, Repr

namespace Protection

def on : Protection → Dataset
  | hold d _ _ => d
  | bookmark d _ _ => d

def present (s : State) : Protection → Bool
  | hold d c t => s.held (.snapshot d c) (.target t)
  | bookmark d t u => s.hasObject (.bookmark d (.target t u))

def namedBy (r : Reference) : Protection → Bool
  | hold _ c t => r.targetID == t && r.metadata.name == c
  | bookmark _ t u => r.targetID == t && r.metadata.snapshot == u

theorem present_restrict {s : State} {p : Dataset → Bool} {x : Protection} (h : p x.on = true) :
    x.present (s.restrict p) = x.present s := by
  cases x with
  | hold d c t => simp [present, show p d = true from h]
  | bookmark d t u => simp [present, show p d = true from h]

end Protection

def storedProofs (s : State) (root : Dataset) : Except Error (List Reference) := do
  let lineage ← storedLineage s root
  referenceRecords s root lineage

def accounted (s : State) (root : Dataset) (x : Protection) : Prop :=
  ∃ refs, storedProofs s root = .ok refs ∧ ∃ r ∈ refs, x.namedBy r = true ∧
    ∃ sources, r.sources s = .ok sources ∧ ∃ source ∈ sources, source.dataset = x.on

def AllAccounted (s : State) (root : Dataset) : Prop :=
  ∀ x : Protection, inside x.on root = true → x.present s = true → accounted s root x

section Rows

variable {s : State} {p : Dataset → Bool} {root : Dataset}

theorem filter_rows {α : Type} {l : List α} (f : α → Name) {q : α → Bool} (hp : p root = true)
    (hq : ∀ x, q x = true → f x = .dataset root) :
    (l.filter (fun x => p (f x).base)).filter q = l.filter q :=
  State.filter_restrict fun x hx => by rw [hq x hx]; exact hp

theorem storedLineage_restrict (hp : p root = true) : storedLineage (s.restrict p) root = storedLineage s root := by
  simp only [storedLineage, State.restrict]
  rw [filter_rows Property.dataset hp (by simp +contextual),
    filter_rows Prod.fst hp (by simp +contextual)]

theorem currentState_restrict (hp : p root = true) : currentState (s.restrict p) root = currentState s root := by
  simp only [currentState, stateVersion, State.localRows, State.restrict]
  rw [filter_rows Property.dataset hp (by simp +contextual)]

theorem keepsRecords_restrict (hp : p root = true) : keepsRecords (s.restrict p) root = keepsRecords s root := by
  simp only [keepsRecords, State.restrict, List.any_filter]
  refine congrArg (List.any s.properties) (funext fun r => ?_)
  by_cases hr : r.dataset = .dataset root
  · simp [hr, hp]
  · simp [hr]

theorem referenceRecords_restrict (hp : p root = true) (lineage : Option ID) :
    referenceRecords (s.restrict p) root lineage = referenceRecords s root lineage := by
  simp only [referenceRecords, recordsReadable, keepsRecords_restrict hp, currentState_restrict hp, recordRows]
  rw [State.restrict, filter_rows Property.dataset hp (by simp +contextual)]

theorem storedProofs_restrict (hp : p root = true) : storedProofs (s.restrict p) root = storedProofs s root := by
  simp only [storedProofs, storedLineage_restrict hp, referenceRecords_restrict hp]

end Rows

/-! ## What a clean does -/

def CleanAction.within (a : CleanAction) (p : Dataset → Bool) : Prop :=
  a.command.removes = true ∧ p a.command.base = true

section Plan

variable {s : State} {d : Dataset} {options : CleanOptions} {safety : CleanSafety} {p : Dataset → Bool}

theorem cleanSource_within {lineage : Option ID} {r : Reference} {source : ReferenceSource} {a : CleanAction}
    (hp : p source.dataset = true) (h : a ∈ (cleanSource s lineage r source).1) : a.within p := by
  simp only [cleanSource, List.mem_append] at h
  rcases h with h | h
  · split at h
    · split at h
      · obtain rfl := List.mem_singleton.mp h
        exact ⟨rfl, hp⟩
      · simp at h
    · simp at h
  · split at h
    · obtain rfl := List.mem_singleton.mp h
      exact ⟨rfl, hp⟩
    · simp at h

theorem cleanDataset_within {name : Dataset} {a : CleanAction} (hs : ∀ o ∈ s.objects, p o.name.base = true)
    (h : a ∈ (cleanDataset s d options safety name).1) : a.within p := by
  unfold cleanDataset at h
  split at h
  · simp at h
  · simp only at h
    split at h
    · simp at h
    · obtain ⟨r, -, hr⟩ := List.mem_flatMap.mp h
      unfold cleanReference at hr
      simp only at hr
      split at hr
      · simp at hr
      · rename_i sources hsources
        obtain ⟨source, hsource, ha⟩ := List.mem_flatMap.mp hr
        obtain ⟨⟨o, ho, -, hb⟩, -⟩ := Reference.mem_candidates.mp ((Reference.mem_sources hsources).mp hsource).1
        exact cleanSource_within (hb ▸ hs o ho) ha

theorem ownedSnapshots_within {datasets : List Dataset} {actions : List CleanAction} {x : Snapshot × Bool}
    (hs : ∀ o ∈ s.objects, p o.name.base = true) (h : x ∈ ownedSnapshots s d datasets actions) :
    (CleanAction.destroySnapshot x.1.name x.1.guid).within p := by
  obtain ⟨name, -, hx⟩ := List.mem_flatMap.mp h
  split at hx
  · obtain ⟨y, hy, hxy⟩ := List.mem_filterMap.mp hx
    obtain ⟨o, ho, ht, -, rfl⟩ := mem_snapshotsIn.mp hy
    obtain ⟨d', c, hn⟩ := o.type_snapshot_iff.mp ht
    have hname : x.1.name = .snapshot d' c := by
      split at hxy
      · cases hxy
      · cases hxy
        exact hn
    refine ⟨by rw [CleanAction.command, hname]; rfl, ?_⟩
    have := hs o ho
    rw [hn] at this
    rwa [CleanAction.command, Command.base, hname]
  · simp at hx

theorem inheritKeys_within {retirement : Bool} {destroyed : List Name} {x : Name × Key}
    (hprops : ∀ r ∈ s.properties, p r.dataset.base = true) (hreceived : ∀ r ∈ s.received, p r.1.base = true)
    (h : x ∈ inheritKeys s retirement destroyed) : (CleanAction.inherit x.1 x.2).within p := by
  refine ⟨rfl, ?_⟩
  simp only [inheritKeys, List.mem_dedup, List.mem_filter, List.mem_append, List.mem_map] at h
  rcases h.1 with ⟨r, hr, rfl⟩ | ⟨r, hr, rfl⟩
  · exact hprops r hr
  · exact hreceived r hr

theorem mem_inheritKeys {retirement : Bool} {destroyed : List Name} {r : Property} {name : Dataset}
    (hr : r ∈ s.properties) (hd : r.dataset = .dataset name) (hk : r.name.isReference = true)
    (hdestroyed : Name.dataset name ∉ destroyed) :
    (r.dataset, r.name) ∈ inheritKeys s retirement destroyed := by
  simp only [inheritKeys, List.mem_dedup, List.mem_filter, List.mem_append, List.mem_map]
  refine ⟨.inl ⟨r, hr, rfl⟩, ?_⟩
  have hkey : r.name.isPublic = false ∧ r.name.isBoomerangz = true := by
    revert hk
    cases r.name <;> simp [Key.isReference, Key.isPublic, Key.isBoomerangz]
  simp [hd, hkey, hdestroyed]

end Plan

structure Cleaned (pool pool' : State) (p : Dataset → Bool) : Prop where
  holds : ∀ n t, p n.base = true → isOwnTag t = true → pool'.held n t = false
  marks : ∀ d m, p d = true → isOwnMark m = true → pool'.hasObject (.bookmark d m) = false
  records : ∀ d, p d = true → recordRows pool' d = []
  outside : pool'.restrict (fun d => !p d) = pool.restrict (fun d => !p d)
  datasets : pool'.objects.filter Object.isDataset = pool.objects.filter Object.isDataset

def CleanOptions.scope (options : CleanOptions) (d x : Dataset) : Bool :=
  if options.recursive then inside x d else x == d

section Actions

variable {pool : State} {d : Dataset} {options : CleanOptions} {safety : CleanSafety} {retirement : Bool}

theorem cleanActions_within {a : CleanAction}
    (h : a ∈ cleanActions (pool.restrict (options.scope d)) d options safety retirement) :
    a.within (options.scope d) := by
  have hobjs : ∀ o ∈ (pool.restrict (options.scope d)).objects, options.scope d o.name.base = true :=
    fun o ho => (State.mem_restrict_objects.mp ho).2
  simp only [cleanActions, List.mem_append, List.mem_map] at h
  rcases h with (h | ⟨x, hx, rfl⟩) | ⟨x, hx, rfl⟩
  · obtain ⟨name, -, ha⟩ := List.mem_flatMap.mp h
    exact cleanDataset_within hobjs ha
  · unfold cleanSnapshots at hx
    split at hx
    · obtain ⟨y, hy, rfl⟩ := List.mem_map.mp hx
      exact ownedSnapshots_within hobjs (List.mem_filter.mp hy).1
    · simp at hx
  · refine inheritKeys_within (fun r hr => (State.mem_restrict_properties.mp hr).2) (fun r hr => ?_) hx
    simp only [State.restrict, List.mem_filter] at hr
    exact hr.2

theorem unprovenMarks_eq_nil {s : State} {actions : List CleanAction} {own : Mark → Bool} :
    unprovenMarks s actions own = [] ↔ ∀ x m, own m = true → s.hasObject (.bookmark x m) = true →
      .destroyBookmark x m ∈ actions.map CleanAction.command := by
  simp only [unprovenMarks, List.map_eq_nil_iff, List.filter_eq_nil_iff]
  refine ⟨fun h x m hm hx => ?_, fun h o ho => ?_⟩
  · obtain ⟨o, ho, hn⟩ := State.hasObject_iff.mp hx
    simpa [hn, hm, unmarks] using h o ho
  · cases hn : o.name with
    | bookmark x m =>
      have := fun hm => h x m hm (State.hasObject_iff.mpr ⟨o, ho, hn⟩)
      simpa [unmarks] using this
    | _ => simp

theorem unprovenBlockers_eq_nil {s : State} {actions : List CleanAction} : unprovenBlockers s actions = [] ↔
    (∀ n t, isOwnTag t = true → s.held n t = true → .release t n ∈ actions.map CleanAction.command) ∧
    ∀ x m, isOwnMark m = true → s.hasObject (.bookmark x m) = true →
      .destroyBookmark x m ∈ actions.map CleanAction.command := by
  simp only [unprovenBlockers, List.append_eq_nil_iff, List.map_eq_nil_iff, List.filter_eq_nil_iff]
  refine and_congr ⟨fun h n t ht hheld => ?_, fun h r hr => ?_⟩ unprovenMarks_eq_nil
  · simpa [ht, releases] using h (n, t) (State.held_iff.mp hheld)
  · have := h r.1 r.2
    simp only [State.held_iff, List.mem_map] at this
    simpa [releases] using fun ht => this ht hr

theorem cleanSnapshots_name {s : State} {dependent : Bool} {name : Dataset} :
    Name.dataset name ∉ (cleanSnapshots s d options safety dependent).map Snapshot.name := by
  intro h
  obtain ⟨x, hx, hn⟩ := List.mem_map.mp h
  unfold cleanSnapshots at hx
  split at hx
  · obtain ⟨y, hy, rfl⟩ := List.mem_map.mp hx
    have := (ownedSnapshots_within (p := fun _ => true) (by simp) (List.mem_filter.mp hy).1).1
    simp [CleanAction.command, hn, Command.removes] at this
  · simp at hx

theorem record_inherited {s : State} {r : Property} {name : Dataset} (hr : r ∈ s.properties)
    (hd : r.dataset = .dataset name) (hk : r.name.isReference = true) :
    .inherit r.dataset r.name ∈ cleanActions s d options safety retirement :=
  List.mem_append_right _ (List.mem_map.mpr ⟨_, mem_inheritKeys hr hd hk cleanSnapshots_name, rfl⟩)

end Actions

theorem clean_cleaned [Digests] {pool pool' : State} {installation : ID} {d : Dataset} {options : CleanOptions}
    {safety : CleanSafety} {retirement : Option Retirement}
    (h : clean pool installation d options safety retirement = .ok pool') :
    Cleaned pool pool' (options.scope d) := by
  simp only [clean, cleanPlan, ok_iff] at h
  obtain ⟨_, ⟨-, s, hs, rfl⟩, hb, hrun⟩ := h
  obtain ⟨-, hscope⟩ := State.inspect_eq_ok.mp hs
  obtain rfl : s = pool.restrict (options.scope d) := hscope
  simp only [List.isEmpty_iff] at hb
  simp only [cleanBlockers, List.append_eq_nil_iff] at hb
  obtain ⟨⟨-, hunproven⟩, -⟩ := hb
  obtain ⟨hholds, hmarks⟩ := unprovenBlockers_eq_nil.mp hunproven
  set actions := cleanActions (pool.restrict (options.scope d)) d options safety retirement.isSome with hactions
  have hmem : ∀ c, c ∈ (sortCleanActions actions).map CleanAction.command ↔ ∃ a ∈ actions, a.command = c := by
    simp [sortCleanActions]
  have hwithin : ∀ c ∈ (sortCleanActions actions).map CleanAction.command,
      c.removes = true ∧ options.scope d c.base = true := by
    intro c hc
    obtain ⟨a, ha, rfl⟩ := (hmem c).mp hc
    exact cleanActions_within ha
  have hproofs : ∀ c ∈ (cleanProofs (pool.restrict (options.scope d)) d options safety).map CleanAction.command,
      c ∈ (sortCleanActions actions).map CleanAction.command := by
    intro c hc
    obtain ⟨a, ha, rfl⟩ := List.mem_map.mp hc
    exact (hmem _).mpr ⟨a, by simp [hactions, cleanActions, ha], rfl⟩
  have hsub := runAll_within hrun fun c hc => (hwithin c hc).1
  have hdone := fun c hc => runAll_done hrun (fun c hc => (hwithin c hc).1) (c := c) hc
  refine ⟨?_, ?_, ?_, runAll_restrict hrun fun c hc => by simp [(hwithin c hc).2], hsub.datasets⟩
  · intro n t hn ht
    cases hheld : pool.held n t with
    | false => exact hsub.held hheld
    | true => exact hdone _ (hproofs _ (hholds n t ht (by simp [hheld, hn])))
  · intro x m hx hm
    cases hobj : pool.hasObject (.bookmark x m) with
    | false => exact hsub.hasObject hobj
    | true => exact hdone _ (hproofs _ (hmarks x m hm (by simp [hobj, hx])))
  · intro x hx
    rw [recordRows, List.filter_eq_nil_iff]
    intro r hr hrow
    simp only [Bool.and_eq_true, beq_iff_eq] at hrow
    obtain ⟨⟨hd, hk⟩, -⟩ := hrow
    have hr' : r ∈ (pool.restrict (options.scope d)).properties :=
      State.mem_restrict_properties.mpr ⟨hsub.properties hr, by rw [hd]; exact hx⟩
    exact hdone _ ((hmem _).mpr ⟨_, record_inherited hr' hd hk, rfl⟩) r hr ⟨rfl, rfl⟩

/-! ## What stays accounted for -/

theorem Reference.sourceOn_restrict {r : Reference} {s : State} {p : Dataset → Bool} {d : Dataset}
    (hp : p d = true) : r.sourceOn (s.restrict p) d = r.sourceOn s d := by
  have hsnap : (s.restrict p).object (r.snapshotOn d) = s.object (r.snapshotOn d) := State.restrict_object hp
  have hmark : (s.restrict p).object (r.bookmarkOn d) = s.object (r.bookmarkOn d) := State.restrict_object hp
  have hheld : (s.restrict p).held (r.snapshotOn d) r.hold = s.held (r.snapshotOn d) r.hold := by
    simp [Reference.snapshotOn, hp]
  simp only [sourceOn, hsnap, hmark, hheld]

namespace Cleaned

variable {pool pool' : State} {p : Dataset → Bool}

theorem present_outside (h : Cleaned pool pool' p) {x : Protection} (hx : p x.on = false) :
    x.present pool' = x.present pool := by
  have hout : ∀ s : State, x.present (s.restrict fun d => !p d) = x.present s :=
    fun s => Protection.present_restrict (by simp [hx])
  rw [← hout, h.outside, hout]

theorem absent_inside (h : Cleaned pool pool' p) {x : Protection} (hx : p x.on = true) :
    x.present pool' = false := by
  cases x with
  | hold d c t => exact h.holds _ _ hx rfl
  | bookmark d t u => exact h.marks _ _ hx rfl

theorem storedProofs_outside (h : Cleaned pool pool' p) {root : Dataset} (hroot : p root = false) :
    storedProofs pool' root = storedProofs pool root := by
  have hout : ∀ s : State, storedProofs (s.restrict fun d => !p d) root = storedProofs s root :=
    fun s => storedProofs_restrict (by simp [hroot])
  rw [← hout, h.outside, hout]

theorem sourceOn_outside (h : Cleaned pool pool' p) {r : Reference} {d : Dataset} (hd : p d = false) :
    r.sourceOn pool' d = r.sourceOn pool d := by
  have hout : ∀ s : State, r.sourceOn (s.restrict fun d => !p d) d = r.sourceOn s d :=
    fun s => Reference.sourceOn_restrict (by simp [hd])
  rw [← hout, h.outside, hout]

theorem sourceOn_inside (h : Cleaned pool pool' p) {r : Reference} {d : Dataset} (hd : p d = true) :
    r.sourceOn pool' d = .ok none := by
  have hmark : pool'.object (r.bookmarkOn d) = none := by
    rw [← Option.not_isSome_iff_eq_none, State.object_isSome_iff, Bool.not_eq_true]
    exact h.marks d r.mark hd rfl
  have hheld : pool'.held (r.snapshotOn d) r.hold = false := h.holds _ _ hd rfl
  simp only [Reference.sourceOn, hmark, hheld]
  cases pool'.object (r.snapshotOn d) <;> rfl

theorem sources (h : Cleaned pool pool' p) {r : Reference} {sources : List ReferenceSource}
    (hs : r.sources pool = .ok sources) : ∃ sources', r.sources pool' = .ok sources' ∧
      ∀ source ∈ sources, p source.dataset = false → source ∈ sources' := by
  have hcand : r.candidates pool' = r.candidates pool := by
    simp only [Reference.candidates, h.datasets]
  have htotal : ∀ d ∈ r.candidates pool', ∃ o, r.sourceOn pool' d = .ok o := by
    intro d hd
    cases hp : p d with
    | true => exact ⟨none, h.sourceOn_inside hp⟩
    | false =>
      rw [h.sourceOn_outside hp]
      exact collect_total hs (hcand ▸ hd)
  obtain ⟨sources', hs'⟩ := collect_ok htotal
  refine ⟨sources', hs', fun source hsource hp => ?_⟩
  obtain ⟨hd, hon⟩ := (Reference.mem_sources hs).mp hsource
  exact (Reference.mem_sources hs').mpr ⟨hcand ▸ hd, (h.sourceOn_outside hp).trans hon⟩

end Cleaned

/-- A clean that is carried out keeps every protection accounted for exactly when it is not an exact
clean of a root that has protections on its descendants. -/
theorem clean_accounted_iff [Digests] (pool pool' : State) (installation : ID) (root d : Dataset)
    (options : CleanOptions) (safety : CleanSafety) (retirement : Option Retirement)
    (hbefore : AllAccounted pool root)
    (h : clean pool installation d options safety retirement = .ok pool') :
    AllAccounted pool' root ↔ (d = root → options.recursive = false →
      ∀ x : Protection, x.on ≠ root → inside x.on root = true → x.present pool = false) := by
  have hc := clean_cleaned h
  constructor
  · rintro hafter rfl hexact x hne hin
    have hout : options.scope d x.on = false := by simp [CleanOptions.scope, hexact, hne]
    by_contra hpresent
    rw [Bool.not_eq_false] at hpresent
    obtain ⟨refs, hrefs, r, hr, -⟩ := hafter x hin ((hc.present_outside hout).trans hpresent)
    -- No record is left on the root, so it stores no proof.
    have hrows : recordRows pool' d = [] := hc.records d (by simp [CleanOptions.scope, hexact])
    simp only [storedProofs, referenceRecords, hrows, readRecords, bind_eq_ok, Except.ok.injEq] at hrefs
    obtain ⟨_, -, _, -, rfl⟩ := hrefs
    simp at hr
  · intro hcond x hin hpresent
    cases hscope : options.scope d x.on with
    | true => simp [hc.absent_inside hscope] at hpresent
    | false =>
      have hwas : x.present pool = true := (hc.present_outside hscope).symm.trans hpresent
      have hroot : options.scope d root = false := by
        rw [← Bool.not_eq_true]
        intro hroot
        cases hrec : options.recursive with
        | true =>
          simp only [CleanOptions.scope, hrec, if_true] at hroot hscope
          simp [inside_trans hin hroot] at hscope
        | false =>
          simp only [CleanOptions.scope, hrec, Bool.false_eq_true, if_false, beq_iff_eq] at hroot
          subst hroot
          have hne : x.on ≠ root := by simpa [CleanOptions.scope, hrec] using hscope
          simp [hcond rfl hrec x hne hin] at hwas
      obtain ⟨refs, hrefs, r, hr, hnamed, sources, hsources, source, hmem, hon⟩ := hbefore x hin hwas
      obtain ⟨sources', hsources', hkept⟩ := hc.sources hsources
      exact ⟨refs, (hc.storedProofs_outside hroot).trans hrefs, r, hr, hnamed, sources', hsources', source,
        hkept source hmem (hon ▸ hscope), hon⟩

/-! A root and one descendant whose snapshots a recursive proof protects. -/

section Sample

attribute [local instance] symbolicDigests

def sampleMetadata : Metadata := ⟨⟨1, 1⟩, ⟨7, 7⟩, 100⟩

def sampleProof : Reference := ⟨⟨"local:backup"⟩, ["tank"], sampleMetadata, true⟩

def protectedSubtree : State where
  objects := [.ofRow (.dataset ["tank"]) .filesystem 1 1 (by decide),
    .ofRow (.dataset ["tank", "a"]) .filesystem 2 2 (by decide),
    .ofRow (.snapshot ["tank"] sampleMetadata.name) .snapshot 3 10 (by decide),
    .ofRow (.snapshot ["tank", "a"] sampleMetadata.name) .snapshot 4 10 (by decide)]
  properties := authorityRows ["tank"] ⟨9, 9⟩ ⟨1, 1⟩ ++ sampleMetadata.rows ["tank"] ++
    sampleMetadata.rows ["tank", "a"] ++
    [⟨.dataset ["tank"], sampleProof.property, .reference (encodeReference sampleProof ["tank"]), .sourceLocal⟩]
  holds := [(sampleProof.snapshotOn ["tank"], sampleProof.hold),
    (sampleProof.snapshotOn ["tank", "a"], sampleProof.hold)]
  distinct := by decide

def anySafety : CleanSafety := ⟨fun _ => .ok (), fun _ _ => .ok ()⟩

theorem protectedSubtree_accounted : AllAccounted protectedSubtree ["tank"] := by
  have hsources : sampleProof.sources protectedSubtree = .ok [⟨["tank"], 3⟩, ⟨["tank", "a"], 4⟩] := by decide
  have hproofs : storedProofs protectedSubtree ["tank"] = .ok [sampleProof] := by decide
  rintro x - hx
  have hcases : x = .hold ["tank"] sampleMetadata.name sampleProof.targetID ∨
      x = .hold ["tank", "a"] sampleMetadata.name sampleProof.targetID := by
    cases x with
    | hold d c t => simpa [Protection.present, State.held, protectedSubtree, Reference.snapshotOn,
        Reference.hold, sampleProof, and_assoc] using hx
    | bookmark d t u => simp [Protection.present, State.hasObject, protectedSubtree, Object.ofRow] at hx
  rcases hcases with rfl | rfl
  · exact ⟨_, hproofs, sampleProof, by simp, by decide, _, hsources, _, List.mem_cons_self, rfl⟩
  · exact ⟨_, hproofs, sampleProof, by simp, by decide, _, hsources, _,
      List.mem_cons_of_mem _ List.mem_cons_self, rfl⟩

def memberHold : Protection := .hold ["tank", "a"] sampleMetadata.name sampleProof.targetID

/-- An exact clean of the root leaves the descendant's hold with no proof. -/
theorem clean_orphans_member_hold : AllAccounted protectedSubtree ["tank"] ∧
    ∃ pool', clean protectedSubtree ⟨9, 9⟩ ["tank"] ⟨false, false⟩ anySafety none = .ok pool' ∧
      inside memberHold.on ["tank"] = true ∧ memberHold.present pool' = true ∧
      storedProofs pool' ["tank"] = .ok [] := by
  refine ⟨protectedSubtree_accounted, ?_⟩
  obtain ⟨pool', h⟩ : ∃ pool', clean protectedSubtree ⟨9, 9⟩ ["tank"] ⟨false, false⟩ anySafety none = .ok pool' :=
    ⟨_, rfl⟩
  exact ⟨pool', h, by decide, by cases h; decide, by cases h; decide⟩

/-- A recursive clean of it leaves nothing unaccounted for. -/
theorem clean_recursive_accounted : ∃ pool',
    clean protectedSubtree ⟨9, 9⟩ ["tank"] ⟨true, false⟩ anySafety none = .ok pool' ∧
      AllAccounted pool' ["tank"] := by
  obtain ⟨pool', h⟩ : ∃ pool', clean protectedSubtree ⟨9, 9⟩ ["tank"] ⟨true, false⟩ anySafety none = .ok pool' :=
    ⟨_, rfl⟩
  exact ⟨pool', h, (clean_accounted_iff protectedSubtree pool' ⟨9, 9⟩ ["tank"] ["tank"] ⟨true, false⟩ anySafety none
    protectedSubtree_accounted h).mpr (by simp)⟩

end Sample

end Boomerangz.Lifecycle
