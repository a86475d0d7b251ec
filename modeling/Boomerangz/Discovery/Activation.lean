import Boomerangz.Discovery.Scan

/-! # Activation in a scan

Which datasets are enabled is decided by the first read, whatever the later reads find.
-/

namespace Boomerangz.Discovery

open Check Zfs Policy

variable {inspect : Dataset → Bool}

/-! ## Activation rows -/

def activationRow (d : Dataset) (row : Property) : Bool :=
  row.dataset == .dataset d && row.name == enabledKey && row.source == .sourceLocal

theorem settingOf_enabled (t : Texts) (d : Dataset) (row : Property) :
    (settingOf t d row).filter (·.name == "enabled") =
      if activationRow d row then some ⟨"enabled", t.render row.value, d⟩ else none := by
  unfold settingOf activationRow enabledKey
  cases row.name with
  | policy name =>
    by_cases hrow : row.dataset = .dataset d ∧ row.source = .sourceLocal
    · by_cases hname : name = "enabled" <;> simp [hrow, hname]
    · simp only
      rw [if_neg hrow, if_neg, Option.filter_none]
      simp only [Bool.and_eq_true, beq_iff_eq]
      exact fun h => hrow ⟨h.1.1, h.2⟩
  | _ => simp

theorem ownActivation_eq (t : Texts) (d : Dataset) (stored : List Property) :
    ownActivation t d stored =
      ((stored.filter (activationRow d)).map fun row => (⟨"enabled", t.render row.value, d⟩ : Setting)).getLast? := by
  unfold ownActivation
  congr 1
  induction stored with
  | nil => rfl
  | cons row stored ih =>
    have hrow := settingOf_enabled t d row
    cases hs : settingOf t d row with
    | none =>
      split at hrow <;> simp_all
    | some s =>
      by_cases hname : s.name = "enabled"
      · split at hrow <;> simp_all [Option.filter]
      · split at hrow <;> simp_all [Option.filter]

theorem filter_group (rows : List Property) (d : Dataset) :
    (group rows d).filter (activationRow d) = rows.filter (activationRow d) := by
  unfold group
  rw [List.filter_filter]
  refine List.filter_congr fun row _ => ?_
  unfold activationRow
  cases row.dataset == Name.dataset d <;> simp

theorem validateRows_nodup {names : List Dataset} {allowed : Option (List Dataset)} {activation : Bool}
    {seen : List (Name × Key × PropertySource)} {rows : List Property}
    (h : validateRows names allowed activation seen rows = .ok ()) :
    (rows.map fun row => (row.dataset, row.name, row.source)).Nodup ∧
      ∀ row ∈ rows, (row.dataset, row.name, row.source) ∉ seen := by
  induction rows generalizing seen with
  | nil => simp
  | cons row rows ih =>
    simp only [validateRows, ok_iff] at h
    obtain ⟨-, -, -, hfresh, hrest⟩ := h
    obtain ⟨hnodup, hseen⟩ := ih hrest
    refine ⟨?_, ?_⟩
    · rw [List.map_cons, List.nodup_cons]
      refine ⟨fun hmem => ?_, hnodup⟩
      obtain ⟨row', hrow', hkey⟩ := List.mem_map.mp hmem
      exact hseen row' hrow' (hkey ▸ List.mem_cons_self)
    · intro row' hrow'
      rcases List.mem_cons.mp hrow' with rfl | hrow'
      · simpa using hfresh
      · exact fun hmem => hseen row' hrow' (List.mem_cons_of_mem _ hmem)

theorem activationRow_unique {names : List Dataset} {allowed : Option (List Dataset)} {activation : Bool}
    {rows : List Property} (h : validateRows names allowed activation [] rows = .ok ()) (d : Dataset) :
    (rows.filter (activationRow d)).length ≤ 1 := by
  have hnodup := (validateRows_nodup h).1
  have hcount := List.nodup_iff_count_le_one.mp hnodup (.dataset d, enabledKey, .sourceLocal)
  rw [List.count_eq_countP, List.countP_map, List.countP_eq_length_filter] at hcount
  refine le_trans (le_of_eq (congrArg List.length (List.filter_congr fun row _ => ?_))) hcount
  simp only [activationRow, Function.comp]
  rw [Bool.eq_iff_iff]
  simp [and_assoc]

theorem rowDataset_of_activationRow {d : Dataset} {row : Property} (h : activationRow d row = true) :
    rowDataset row = some d := by
  simp only [activationRow, Bool.and_eq_true, beq_iff_eq] at h
  simp [rowDataset, h.1.1]

/-! ## Reading -/

variable {t : Texts} {r : Reader} {rows : List Row} {o : Options} {names batch pending : List Dataset}
  {act : List Property} {read read' : Rows} {d : Dataset}

def Rows.Agrees (act : List Property) (read : Rows) : Prop :=
  ∀ d, read.fetched d = true → (read.stored d).filter (activationRow d) = act.filter (activationRow d)

structure ReadMore (act : List Property) (set : List Dataset) (read read' : Rows) : Prop where
  fetched : ∀ d, read'.fetched d = (set.contains d || read.fetched d)
  stored : ∀ d ∉ set, read'.stored d = read.stored d
  agrees : ∀ d ∈ set, (read'.stored d).filter (activationRow d) = act.filter (activationRow d)

theorem ReadMore.trans {set set' : List Dataset} {read'' : Rows} (h : ReadMore act set read read')
    (h' : ReadMore act set' read' read'') : ReadMore act (set ++ set') read read'' where
  fetched d := by
    rw [h'.fetched, h.fetched, List.contains_append, Bool.or_left_comm, Bool.or_assoc]
  stored d hd := by
    rw [List.mem_append, not_or] at hd
    rw [h'.stored d hd.2, h.stored d hd.1]
  agrees d hd := by
    by_cases hd' : d ∈ set'
    · exact h'.agrees d hd'
    · rw [h'.stored d hd']
      exact h.agrees d ((List.mem_append.mp hd).resolve_right hd')

theorem fetchBatch_readMore (hact : ∀ d, (act.filter (activationRow d)).length ≤ 1)
    (h : fetchBatch r names act batch read = .ok read') : ReadMore act batch read read' := by
  simp only [fetchBatch, ok_iff] at h
  obtain ⟨found, -, ⟨⟨⟩, -, hperm, rfl⟩⟩ := h
  refine ⟨fun d => rfl, fun d hd => by simp [hd], fun d hd => ?_⟩
  have hbefore : (act.filter fun row => (rowDataset row).any batch.contains).filter (activationRow d) =
      act.filter (activationRow d) := by
    rw [List.filter_filter]
    refine List.filter_congr fun row _ => ?_
    cases hrow : activationRow d row with
    | false => rfl
    | true => simp [rowDataset_of_activationRow hrow, hd]
  have hafter : (found.filter fun row => row.name == enabledKey).filter (activationRow d) =
      found.filter (activationRow d) := by
    rw [List.filter_filter]
    refine List.filter_congr fun row _ => ?_
    unfold activationRow
    cases row.name == enabledKey <;> simp
  have hrows : (act.filter (activationRow d)).Perm (found.filter (activationRow d)) := by
    rw [← hbefore, ← hafter]
    exact (List.isPerm_iff.mp hperm).filter _
  simp only [List.contains_iff_mem, hd, if_true, filter_group]
  -- at most one row each, so a permutation is an equality
  cases hl : act.filter (activationRow d) with
  | nil => exact List.nil_perm.mp (hl ▸ hrows)
  | cons row rest =>
    have hrest : rest = [] := List.length_eq_zero_iff.mp (by have := hact d; rw [hl] at this; simpa using this)
    subst hrest
    exact (List.singleton_perm.mp (hl ▸ hrows)).symm

theorem fetch_readMore (hact : ∀ d, (act.filter (activationRow d)).length ≤ 1) {bytes : Nat}
    (h : fetch r o names act batch bytes pending read = .ok read') : ReadMore act (batch ++ pending) read read' := by
  induction pending generalizing batch bytes read with
  | nil =>
    simp only [fetch] at h
    rw [List.append_nil]
    split at h
    · rename_i hempty
      cases h
      rw [List.isEmpty_iff.mp hempty]
      exact ⟨fun _ => by simp, fun _ _ => rfl, by simp⟩
    · exact fetchBatch_readMore hact h
  | cons d pending ih =>
    simp only [fetch] at h
    split at h
    · simpa using ih h
    · simp only [ok_iff] at h
      obtain ⟨-, mid, hbatch, -, hrest⟩ := h
      exact (fetchBatch_readMore hact hbatch).trans (ih hrest)

theorem ReadMore.preserves_agrees {set : List Dataset} (h : ReadMore act set read read') (ha : read.Agrees act) :
    read'.Agrees act := by
  intro d hd
  by_cases hmem : d ∈ set
  · exact h.agrees d hmem
  · rw [h.stored d hmem]
    rw [h.fetched] at hd
    exact ha d (by simpa [hmem] using hd)

theorem inspectCovered_mono (entries : Dataset → Entry) (h : inspect d = true) :
    inspectCovered entries names inspect d = true := by
  suffices ∀ st : (Dataset → Bool) × (Dataset → Bool), st.2 d = true → (names.foldl (fun st d =>
      (Function.update st.1 d (st.1 (parentName d) || (entries d).policy.enabled),
        Function.update st.2 d (st.1 (parentName d) || st.2 d))) st).2 d = true from this _ h
  induction names with
  | nil => exact fun _ => id
  | cons a names ih =>
    intro st hst
    refine ih _ ?_
    by_cases ha : d = a
    · subst ha
      simp [hst]
    · simp [Function.update_of_ne ha, hst]

structure ReadOut (act : List Property) (names : List Dataset) (inspect : Dataset → Bool) (read read' : Rows) : Prop where
  agrees : read'.Agrees act
  fetched : ∀ d, read.fetched d = true → read'.fetched d = true
  inspected : ∀ d ∈ names, inspect d = true → read'.fetched d = true
  stored : ∀ d, read'.fetched d = false → read'.stored d = read.stored d

theorem ReadMore.fewer
    (h : ReadMore act (names.filter fun d => inspect d && !read.fetched d) read read')
    (hne : (names.filter fun d => inspect d && !read.fetched d) ≠ []) :
    (names.filter fun d => !read'.fetched d).length < (names.filter fun d => !read.fetched d).length := by
  set pending := names.filter fun d => inspect d && !read.fetched d with hpending
  have hsplit : names.filter (fun d => !read'.fetched d) =
      (names.filter fun d => !read.fetched d).filter fun d => !pending.contains d := by
    rw [List.filter_filter]
    refine List.filter_congr fun d _ => ?_
    rw [h.fetched, Bool.not_or]
  obtain ⟨x, hx⟩ := List.exists_mem_of_ne_nil _ hne
  have hunread : x ∈ names.filter fun d => !read.fetched d := by
    have := List.mem_filter.mp (hpending ▸ hx)
    rw [Bool.and_eq_true] at this
    exact List.mem_filter.mpr ⟨this.1, this.2.2⟩
  rw [hsplit]
  exact List.length_filter_lt_length_iff_exists.mpr ⟨x, hunread, by simpa using hx⟩

theorem readAll_readOut (hact : ∀ d, (act.filter (activationRow d)).length ≤ 1) {fuel : Nat}
    (hfuel : (names.filter fun d => !read.fetched d).length < fuel) (ha : read.Agrees act)
    (h : readAll t r rows o names act fuel inspect read = .ok read') : ReadOut act names inspect read read' := by
  induction fuel generalizing inspect read with
  | zero => omega
  | succ fuel ih =>
    simp only [readAll] at h
    split at h
    · rename_i hpending
      cases h
      refine ⟨ha, fun _ => id, fun d hd hi => ?_, fun _ _ => rfl⟩
      have := List.filter_eq_nil_iff.mp (List.isEmpty_iff.mp hpending) d hd
      simpa [hi] using this
    · rename_i hpending
      rw [bind_eq_ok] at h
      obtain ⟨mid, hfetch, hrest⟩ := h
      have hmore := fetch_readMore hact hfetch
      have hfewer := hmore.fewer (by simpa using hpending)
      have hout := ih (by omega) (hmore.preserves_agrees ha) hrest
      refine ⟨hout.agrees, fun d hd => hout.fetched d (by simp [hmore.fetched, hd]),
        fun d hd hi => hout.inspected d hd (inspectCovered_mono _ hi), fun d hd => ?_⟩
      have hunread : mid.fetched d = false := by
        by_contra hread
        simp [hout.fetched d (by simpa using hread)] at hd
      rw [hmore.fetched, Bool.or_eq_false_iff] at hunread
      rw [hout.stored d hd, hmore.stored d (by simpa using hunread.1)]

/-! ## The sparse read -/

theorem addAncestors_foldl_mono {set : Dataset → Bool} {ds : List Dataset} (h : set d = true) :
    ds.foldl addAncestors set d = true := by
  induction ds generalizing set with
  | nil => exact h
  | cons a ds ih =>
    refine ih ?_
    simp [addAncestors, h]

theorem addAncestors_foldl_mem {set : Dataset → Bool} {ds : List Dataset} (hne : d ≠ []) (h : d ∈ ds) :
    ds.foldl addAncestors set d = true := by
  induction ds generalizing set with
  | nil => cases h
  | cons a ds ih =>
    rcases List.mem_cons.mp h with rfl | h
    · rw [List.foldl_cons]
      refine addAncestors_foldl_mono ?_
      simp [addAncestors, hne]
    · exact ih h

theorem sparseRead_spec (h : sparseRead t r rows o names act = .ok (inspect, read)) :
    (∀ d, read.fetched d = false) ∧ ∀ d, d ≠ [] → inspect d = false →
      (read.stored d).filter (activationRow d) = act.filter (activationRow d) := by
  simp only [sparseRead, ok_iff, Prod.mk.injEq] at h
  obtain ⟨lifecycle, -, -, -, hinspect, rfl⟩ := h
  refine ⟨fun _ => rfl, fun d hne hd => ?_⟩
  rw [List.filter_append, filter_group, filter_group]
  have hnone : lifecycle.filter (activationRow d) = [] := by
    rw [List.filter_eq_nil_iff]
    intro row hrow hact
    have hown : d ∈ (lifecycle.filter fun row => row.source == .sourceLocal).filterMap rowDataset := by
      rw [List.mem_filterMap]
      refine ⟨row, List.mem_filter.mpr ⟨hrow, ?_⟩, rowDataset_of_activationRow hact⟩
      simp only [activationRow, Bool.and_eq_true] at hact
      exact hact.2
    rw [← hinspect, addAncestors_foldl_mono (addAncestors_foldl_mem hne hown)] at hd
    cases hd
  rw [hnone, List.append_nil]

/-! ## Resolution -/

theorem resolveEntries_concat (names : List Dataset) (a : Dataset) :
    resolveEntries t rows o read (names ++ [a]) =
      Function.update (resolveEntries t rows o read names) a
        (resolveEntry t rows o read (resolveEntries t rows o read names) a) := by
  simp [resolveEntries, List.foldl_append]

theorem resolveEntries_of_not_mem (h : d ∉ names) : resolveEntries t rows o read names d = Entry.zero := by
  induction names using List.reverseRecOn with
  | nil => rfl
  | append_singleton names a ih =>
    rw [List.mem_append, List.mem_singleton, not_or] at h
    rw [resolveEntries_concat, Function.update_of_ne h.2, ih h.1]

theorem resolveEntries_resolved (h : d ∈ names) :
    ∃ entries, resolveEntries t rows o read names d = resolveEntry t rows o read entries d := by
  induction names using List.reverseRecOn with
  | nil => cases h
  | append_singleton names a ih =>
    rw [resolveEntries_concat]
    by_cases ha : d = a
    · subst ha
      exact ⟨_, Function.update_self ..⟩
    · rw [Function.update_of_ne ha]
      exact ih ((List.mem_append.mp h).resolve_right (by simpa using ha))

theorem resolveEntries_fresh (d : Dataset) : (resolveEntries t rows o read names d).coveredBy = [] ∧
    (resolveEntries t rows o read names d).member = false := by
  by_cases h : d ∈ names
  · obtain ⟨entries, he⟩ := resolveEntries_resolved (t := t) (o := o) h
    rw [he]
    exact ⟨rfl, rfl⟩
  · rw [resolveEntries_of_not_mem h]
    exact ⟨rfl, rfl⟩

variable {o' : Options}

theorem resolveEntries_activation (hne : ∀ d ∈ names, d ≠ [])
    (h : ∀ d ∈ names, (read.stored d).filter (activationRow d) = (read'.stored d).filter (activationRow d))
    (d : Dataset) :
    activation (some (resolveEntries t rows o read names d).policy) =
        activation (some (resolveEntries t rows o' read' names d).policy) ∧
      (resolveEntries t rows o read names d).policy.enabled =
        (resolveEntries t rows o' read' names d).policy.enabled := by
  induction names using List.reverseRecOn generalizing d with
  | nil => exact ⟨rfl, rfl⟩
  | append_singleton names a ih =>
    have ih := ih (fun d hd => hne d (by simp [hd])) fun d hd => h d (by simp [hd])
    rw [resolveEntries_concat, resolveEntries_concat]
    by_cases ha : d = a
    · subst ha
      have hown : ownActivation t d (read.stored d) = ownActivation t d (read'.stored d) := by
        rw [ownActivation_eq, ownActivation_eq, h d (by simp)]
      simp only [Function.update_self, resolveEntry, activation_resolve (hne d (by simp)), resolve_enabled, hown]
      split
      · exact ⟨rfl, rfl⟩
      · rw [(ih (parentName d)).1]
        exact ⟨rfl, rfl⟩
    · rw [Function.update_of_ne ha, Function.update_of_ne ha]
      exact ih d

end Boomerangz.Discovery
