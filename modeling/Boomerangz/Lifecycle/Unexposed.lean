import Boomerangz.Discovery.Nearest
import Boomerangz.Lifecycle.Executable

/-! # Cleaning activates nothing

When a clean has taken activation rows away, the rows above decide. Nothing comes to be enabled by it.
-/

open Check Boomerangz.Zfs Boomerangz.Policy
open Boomerangz.Discovery (Resolution Reads OfDatasets Clear nearestRow rowsAbove mem_rowsAbove saysOn
  nearestRow_exposed locallyActive_eq scan_resolves)

namespace Boomerangz.Lifecycle

def Placed (pool : State) : Prop :=
  ∀ p ∈ activationProperties pool, ∃ d, d ≠ [] ∧ p.dataset = .dataset d ∧ pool.hasObject (.dataset d) = true

theorem Placed.ofDatasets {pool : State} (h : Placed pool) : OfDatasets (activationProperties pool) := by
  intro p hp
  obtain ⟨d, hd, hname, -⟩ := h p hp
  exact ⟨d, hd, hname⟩

/-! ## The rows that are left -/

theorem mem_activationProperties {pool : State} {p : Property} :
    p ∈ activationProperties pool ↔ ∃ d, p.dataset = .dataset d ∧ p.name = enabledKey ∧ p ∈ pool.properties := by
  obtain ⟨n, k, v, source⟩ := p
  cases n <;> simp [activationProperties, and_comm]

theorem activationProperties_cleared {pool : State} {cs : List Command} : activationProperties (pool.cleared cs) =
    (activationProperties pool).filter fun p => !cs.any (·.drops p) := by
  simp only [activationProperties, State.cleared, List.filter_filter, Bool.and_comm]

section Scope

variable {pool : State} {d : Dataset} {options : CleanOptions}

theorem mem_scopeDatasets_restrict {f : Dataset → Bool} {x : Dataset} :
    x ∈ scopeDatasets (pool.restrict f) ↔ pool.hasObject (.dataset x) = true ∧ f x = true := by
  have hname : ∀ o : Object, o.isDataset = true ∧ o.name.base = x ↔ o.name = .dataset x := by
    intro o
    rw [o.isDataset_iff]
    refine ⟨fun ⟨⟨y, hy⟩, hbase⟩ => ?_, fun ho => ⟨⟨x, ho⟩, by rw [ho, Name.base]⟩⟩
    rw [hy, Name.base] at hbase
    rw [hy, hbase]
  simp only [mem_scopeDatasets, hname]
  rw [← State.hasObject_iff, State.restrict_hasObject, Bool.and_eq_true, Name.base]

theorem exposedActivation_eq (hplaced : Placed pool) {x : Dataset} (hx : options.scope d x = true) :
    exposedActivation (activationProperties pool) (scopeDatasets (pool.restrict (options.scope d))) x =
      nearestRow ((activationProperties pool).filter fun p => !options.scope d p.dataset.base) x := by
  rw [exposedActivation, nearestRow, rowsAbove, List.filter_filter]
  congr 1
  refine List.filter_congr fun p hp => ?_
  obtain ⟨y, -, hname, hobject⟩ := hplaced p hp
  rw [hname]
  cases hscope : options.scope d y with
  | true =>
    have hin : (scopeDatasets (pool.restrict (options.scope d))).contains y = true :=
      List.contains_iff_mem.mpr (mem_scopeDatasets_restrict.mpr ⟨hobject, hscope⟩)
    simp only [Name.base, hscope, hin, Bool.not_true, Bool.and_false, Bool.false_and]
  | false =>
    have hout : (scopeDatasets (pool.restrict (options.scope d))).contains y = false := by
      rw [Bool.eq_false_iff, Ne, List.contains_iff_mem, mem_scopeDatasets_restrict, hscope]
      simp
    have hne : (y != x) = true := by
      rw [bne_iff_ne]
      rintro rfl
      simp [hx] at hscope
    simp only [Name.base, hscope, hout, hne, Bool.not_false, Bool.and_true]
    rfl

end Scope

section Cleaned

variable [Digests] {pool pool' : State} {installation : ID} {d : Dataset} {options : CleanOptions}
  {safety : CleanSafety}

theorem clean_cleared (h : clean pool installation d options safety none = .ok pool') :
    Unblocked (pool.restrict (options.scope d)) d options safety ∧
      activationBlockers (activationProperties pool) (scopeDatasets (pool.restrict (options.scope d))) = [] ∧
      pool' = pool.cleared
        ((sortCleanActions (cleanActions (pool.restrict (options.scope d)) d options safety false)).map
          CleanAction.command) := by
  simp only [clean, cleanPlan, ok_iff] at h
  obtain ⟨_, ⟨-, s, hs, rfl⟩, hb, hrun⟩ := h
  obtain ⟨-, hscope⟩ := State.inspect_eq_ok.mp hs
  obtain rfl : s = pool.restrict (options.scope d) := hscope
  simp only [List.isEmpty_iff, cleanBlockers_eq_nil] at hb
  refine ⟨hb.1, hb.2.1, ?_⟩
  rw [runAll_cleared_iff fun c hc => ?_] at hrun
  · exact hrun.1
  · obtain ⟨a, ha, rfl⟩ := List.mem_map.mp hc
    exact (cleanActions_within (mem_sortCleanActions.mp ha)).1

theorem inherit_mem_iff {s : State} {n : Name} {k : Key} (h : Unblocked s d options safety) :
    .inheritProperty n k ∈ (sortCleanActions (cleanActions s d options safety false)).map CleanAction.command ↔
      storedOn s n k = true ∧ k.isBoomerangz = true ∧
        n ∉ (cleanSnapshots s d options safety false).map Snapshot.name := by
  have hcleared : .inherit n k ∈ cleanActions s d options safety false ↔
      (n, k) ∈ inheritKeys s false ((cleanSnapshots s d options safety false).map Snapshot.name) := by
    rw [cleanActions_eq h]
    constructor
    · intro ha
      obtain ⟨x, -, ha⟩ | ⟨n', k', hk, ha⟩ := mem_afterProofs.mp (mem_of_rank ha (inherit_rank _ _).le)
      · cases ha
      · cases ha
        exact hk
    · exact fun hk => List.mem_append_right _ (mem_afterProofs.mpr (.inr ⟨n, k, hk, rfl⟩))
  rw [mem_inheritKeys_iff] at hcleared
  simp only [Bool.false_eq_true, false_imp_iff, and_true] at hcleared
  rw [← hcleared, List.mem_map]
  constructor
  · rintro ⟨a, ha, hcommand⟩
    cases a with
    | inherit n' k' =>
      cases hcommand
      exact mem_sortCleanActions.mp ha
    | _ => cases hcommand
  · exact fun ha => ⟨_, mem_sortCleanActions.mpr ha, rfl⟩

theorem clean_rows (h : clean pool installation d options safety none = .ok pool') :
    activationProperties pool' =
      (activationProperties pool).filter (fun p => !options.scope d p.dataset.base) ∧
    ∀ x, pool'.hasObject (.dataset x) = pool.hasObject (.dataset x) := by
  obtain ⟨hunblocked, -, rfl⟩ := clean_cleared h
  have hremoves : ∀ c ∈ (sortCleanActions (cleanActions (pool.restrict (options.scope d)) d options safety false)).map
      CleanAction.command, c.removes = true := by
    intro c hc
    obtain ⟨a, ha, rfl⟩ := List.mem_map.mp hc
    exact (cleanActions_within (mem_sortCleanActions.mp ha)).1
  have hkeeps := Command.any_erases_dataset hremoves
  refine ⟨?_, fun x => by rw [State.hasObject_cleared, hkeeps, Bool.not_false, Bool.and_true]⟩
  rw [activationProperties_cleared]
  refine List.filter_congr fun p hp => congrArg (!·) ?_
  obtain ⟨x, hname, hkey, hmem⟩ := mem_activationProperties.mp hp
  rw [Bool.eq_iff_iff, Command.any_drops_iff, inherit_mem_iff hunblocked, hname, hkeeps, hkey]
  simp only [storedOn, State.restrict, Bool.or_eq_true, List.any_eq_true, List.mem_filter, Bool.and_eq_true,
    beq_iff_eq, cleanSnapshots_name, not_false_eq_true, and_true, Bool.false_eq_true, or_false]
  constructor
  · rintro ⟨⟨r, ⟨-, hr⟩, hrname, -⟩ | ⟨r, ⟨-, hr⟩, hrname, -⟩, -⟩
    · rwa [hrname] at hr
    · rwa [hrname] at hr
  · exact fun hx => ⟨.inl ⟨p, ⟨hmem, by rwa [hname]⟩, hname, hkey⟩, rfl⟩

theorem scope_unexposed (hplaced : Placed pool) (h : clean pool installation d options safety none = .ok pool')
    {x : Dataset} (hx : options.scope d x = true) (hobject : pool.hasObject (.dataset x) = true) :
    (nearestRow (activationProperties pool') x).any saysOn = false := by
  obtain ⟨-, hblockers, -⟩ := clean_cleared h
  rw [activationBlockers, List.flatMap_eq_nil_iff] at hblockers
  have hnone := hblockers x (mem_scopeDatasets_restrict.mpr ⟨hobject, hx⟩)
  rw [exposedActivation_eq hplaced hx] at hnone
  rw [(clean_rows h).1]
  cases hrow : nearestRow ((activationProperties pool).filter fun p => !options.scope d p.dataset.base) x with
  | none => rfl
  | some p =>
    rw [hrow] at hnone
    rw [Option.any_some, saysOn]
    by_contra hon
    simp only [Bool.not_eq_false] at hon
    simp [hon] at hnone

end Cleaned

/-- Cleaning never activates anything, as every scan of the pool resolves it, and the activation check of a retirement
agrees with that wherever the values are clear. -/
theorem clean_never_activates [Digests] (t : Texts) (ht : ∀ x, t.render (.text x) = x) (pool : State)
    (hplaced : Placed pool) :
    (∀ r o retained g, Reads r pool → Discovery.scan t r o retained = .ok g →
      Resolution t pool fun x => (g.entries x).policy.enabled) ∧
    (∀ enabled, Resolution t pool enabled → ∀ x, pool.hasObject (.dataset x) = true →
      Clear (activationProperties pool) x → locallyActive (activationProperties pool) x = .ok (enabled x)) ∧
    ((∀ x, Clear (activationProperties pool) x) →
      ∀ installation d options safety pool', clean pool installation d options safety none = .ok pool' →
      ∀ before after, Resolution t pool before → Resolution t pool' after →
        (∀ x, options.scope d x = true → after x = false) ∧ ∀ x, after x = true → before x = true) := by
  have hof := hplaced.ofDatasets
  refine ⟨fun r o retained g hr hscan => scan_resolves hr hscan, fun enabled henabled x hx hclear => ?_,
    fun hclear installation d options safety pool' hclean before after hbefore hafter => ?_⟩
  · rw [locallyActive_eq hof hclear, henabled.nearest ht hof hclear hx]
  · obtain ⟨hrows, hobjects⟩ := clean_rows hclean
    have hof' : OfDatasets (activationProperties pool') := by
      rw [hrows]
      exact fun p hp => hof p (List.mem_of_mem_filter hp)
    have hclear' : ∀ x, Clear (activationProperties pool') x := by
      rw [hrows]
      exact fun x => (hclear x).sublist List.filter_sublist
    have hresolved : ∀ x, after x = true → pool.hasObject (.dataset x) = true ∧
        (nearestRow (activationProperties pool') x).any saysOn = true := by
      intro x hx
      cases hobject : pool'.hasObject (.dataset x) with
      | false => rw [hafter.absent hobject] at hx; cases hx
      | true => exact ⟨by rw [← hobjects, hobject], by rw [← hafter.nearest ht hof' (hclear' x) hobject, hx]⟩
    refine ⟨fun x hx => ?_, fun x hx => ?_⟩
    · by_contra hon
      obtain ⟨hobject, hrow⟩ := hresolved x (by simpa using hon)
      rw [scope_unexposed hplaced hclean hx hobject] at hrow
      cases hrow
    · obtain ⟨hobject, hrow⟩ := hresolved x hx
      rw [hbefore.nearest ht hof (hclear x) hobject]
      obtain ⟨p, hp, hon⟩ := (Option.any_eq_true _ _).mp hrow
      rw [hrows] at hp
      rcases nearestRow_exposed (fun y => !options.scope d y) hof (hclear x).once hp with
        hp' | ⟨q, hq, hgone, -, hp'⟩
      · rw [hp', Option.any_some, hon]
      · -- the row that decided was in the scope, and what decides there now is on
        obtain ⟨y, -, hname, hy⟩ := hplaced q hq
        rw [hname] at hgone hp'
        have hnot := scope_unexposed hplaced hclean (x := y) (by simpa using hgone) hy
        rw [hrows, show nearestRow _ y = some p from hp', Option.any_some, hon] at hnot
        cases hnot

/-! A dataset that is switched on below one that is switched off. -/

section Sample

attribute [local instance] symbolicDigests

def slipway : State where
  objects := [.ofRow (.dataset ["quay"]) .filesystem 1 1 (by decide),
    .ofRow (.dataset ["quay", "slip"]) .filesystem 2 2 (by decide),
    .ofRow (.dataset ["quay", "slip", "hull"]) .filesystem 3 3 (by decide)]
  properties := [⟨.dataset ["quay"], enabledKey, .text "off", .sourceLocal⟩,
    ⟨.dataset ["quay", "slip"], enabledKey, .text "on", .sourceLocal⟩]
  distinct := by decide

def slipwayReader (pool : State) : Discovery.Reader where
  listDatasets := .ok [⟨["quay"], .filesystem, ""⟩, ⟨["quay", "slip"], .filesystem, ""⟩,
    ⟨["quay", "slip", "hull"], .filesystem, ""⟩]
  activationProperties := .ok (activationProperties pool)
  lifecycleProperties := none
  storedProperties := fun batch =>
    .ok ((activationProperties pool).filter fun row => (Discovery.rowDataset row).any batch.contains)

theorem slipwayReader_reads {pool : State} (h : ∀ d, pool.hasObject (.dataset d) = slipway.hasObject (.dataset d)) :
    Reads (slipwayReader pool) pool where
  listed rows hrows d := by
    cases hrows
    rw [h, State.hasObject_iff]
    simp only [slipway, Object.ofRow, List.map_cons, List.map_nil, List.mem_cons, List.not_mem_nil, or_false,
      exists_eq_or_imp, exists_eq_left, Name.dataset.injEq]
    exact or_congr eq_comm (or_congr eq_comm eq_comm)
  activation act hact := (Except.ok.inj hact).symm

theorem slipway_placed : Placed slipway := by
  intro p hp
  obtain ⟨d, hname, -, hmem⟩ := mem_activationProperties.mp hp
  rcases List.mem_cons.mp hmem with rfl | hmem
  · cases hname
    exact ⟨_, by decide, rfl, rfl⟩
  · obtain rfl := List.mem_singleton.mp hmem
    cases hname
    exact ⟨_, by decide, rfl, rfl⟩

theorem slipway_clear (x : Dataset) : Clear (activationProperties slipway) x where
  once := (List.filter_sublist.map _).nodup (by decide)
  value p hp := by
    have hall : ∀ p ∈ activationProperties slipway, p.value = .text "on" ∨ p.value = .text "off" := by decide
    exact hall p (mem_rowsAbove.mp hp).1

/-- Cleaning the one that is switched on switches off what is inside it. -/
theorem slipway_never_activates : ∃ pool' g g',
    clean slipway ⟨9, 9⟩ ["quay", "slip"] ⟨false, false⟩ anySafety none = .ok pool' ∧
      Discovery.scan plainTexts (slipwayReader slipway) ⟨128, 32768, []⟩ [] = .ok g ∧
      Discovery.scan plainTexts (slipwayReader pool') ⟨128, 32768, []⟩ [] = .ok g' ∧
      (g.entries ["quay", "slip", "hull"]).policy.enabled = true ∧
      locallyActive (activationProperties slipway) ["quay", "slip", "hull"] = .ok true ∧
      (g'.entries ["quay", "slip"]).policy.enabled = false ∧
      ∀ x, (g'.entries x).policy.enabled = true → (g.entries x).policy.enabled = true := by
  obtain ⟨pool', hclean⟩ : ∃ pool', clean slipway ⟨9, 9⟩ ["quay", "slip"] ⟨false, false⟩ anySafety none = .ok pool' :=
    ⟨_, rfl⟩
  obtain ⟨g, hg, hhull⟩ : ∃ g, Discovery.scan plainTexts (slipwayReader slipway) ⟨128, 32768, []⟩ [] = .ok g ∧
      (g.entries ["quay", "slip", "hull"]).policy.enabled = true := ⟨_, rfl, by decide⟩
  obtain ⟨g', hg'⟩ : ∃ g', Discovery.scan plainTexts (slipwayReader pool') ⟨128, 32768, []⟩ [] = .ok g' := by
    cases hclean
    exact ⟨_, rfl⟩
  obtain ⟨hscans, hagrees, hnever⟩ := clean_never_activates plainTexts (fun _ => rfl) slipway slipway_placed
  have hbefore := hscans _ _ _ _ (slipwayReader_reads fun _ => rfl) hg
  have hafter := scan_resolves (slipwayReader_reads (clean_rows hclean).2) hg'
  obtain ⟨hscope, hkept⟩ := hnever slipway_clear _ _ _ _ _ hclean _ _ hbefore hafter
  have hcheck := hagrees _ hbefore ["quay", "slip", "hull"] rfl (slipway_clear _)
  exact ⟨pool', g, g', hclean, hg, hg', hhull, by rw [hcheck, hhull], hscope _ rfl, hkept⟩

end Sample

end Boomerangz.Lifecycle
