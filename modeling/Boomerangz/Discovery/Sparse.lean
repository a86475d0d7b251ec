import Boomerangz.Discovery.Collision
import Boomerangz.Discovery.Partition

/-! # Sparse scans

A scan reads only the datasets whose entry depends on more than activation, and finds what a full scan would.
-/

namespace Boomerangz.Discovery

open Check Topmost Zfs Policy

def scanTargets (t : Texts) (r : Reader) (o : Options) (destinations : String → Option RemoteDestination)
    (retained : List Dataset) : Except Error Scanned := do
  let g ← scan t r o retained
  return ⟨g.names, markCollisions destinations g.entries g.names⟩

def fullScan (t : Texts) (rows : List Row) (props : Dataset → List Property) (o : Options)
    (destinations : String → Option RemoteDestination) (names : List Dataset) : Dataset → Entry :=
  markCollisions destinations (markRoots rows names (resolveEntries t rows o ⟨props, fun _ => true⟩ names)) names

structure Reader.Answers (r : Reader) (props : Dataset → List Property) : Prop where
  activation : ∀ l, r.activationProperties = .ok l → ∀ d, group l d = (props d).filter (·.name == enabledKey)
  lifecycle : ∀ l, r.lifecycleProperties = some (.ok l) → ∀ row ∈ l, row.name ≠ enabledKey
  stored : ∀ batch l, r.storedProperties batch = .ok l → ∀ d ∈ batch, group l d = props d

variable {t : Texts} {r : Reader} {rows : List Row} {o : Options} {names : List Dataset} {act : List Property}
  {props : Dataset → List Property} {read read' : Rows} {d : Dataset}

/-! ## Reading -/

theorem fetchBatch_props {batch : List Dataset} (ha : r.Answers props)
    (h : fetchBatch r names act batch read = .ok read') : ∀ d ∈ batch, read'.stored d = props d := by
  simp only [fetchBatch, ok_iff] at h
  obtain ⟨found, hfound, -, -, -, rfl⟩ := h
  intro d hd
  simp [hd, ha.stored batch found hfound d hd]

theorem fetch_props {batch pending : List Dataset} {bytes : Nat} (ha : r.Answers props)
    (hact : ∀ d, (act.filter (activationRow d)).length ≤ 1)
    (h : fetch r o names act batch bytes pending read = .ok read') :
    ∀ d ∈ batch ++ pending, read'.stored d = props d := by
  induction pending generalizing batch bytes read with
  | nil =>
    simp only [fetch] at h
    rw [List.append_nil]
    split at h
    · rename_i hempty
      simp [List.isEmpty_iff.mp hempty]
    · exact fetchBatch_props ha h
  | cons a pending ih =>
    simp only [fetch] at h
    split at h
    · simpa using ih h
    · simp only [ok_iff] at h
      obtain ⟨-, mid, hbatch, -, hrest⟩ := h
      intro d hd
      by_cases hlater : d ∈ [a] ++ pending
      · exact ih hrest d hlater
      · rw [(fetch_readMore hact hrest).stored d hlater]
        exact fetchBatch_props ha hbatch d ((List.mem_append.mp hd).resolve_right (by simpa using hlater))

def coverStep (p : Dataset → Bool) (st : (Dataset → Bool) × (Dataset → Bool)) (d : Dataset) :
    (Dataset → Bool) × (Dataset → Bool) :=
  (Function.update st.1 d (st.1 (parentName d) || p d), Function.update st.2 d (st.1 (parentName d) || st.2 d))

theorem foldl_coverStep {p inspect : Dataset → Bool} (ho : Ordered names) (hp : p [] = false) (d : Dataset) :
    (names.foldl (coverStep p) ((fun _ => false), inspect)).1 d = (decide (d ∈ names) && (topmost p d).isSome) ∧
      (names.foldl (coverStep p) ((fun _ => false), inspect)).2 d =
        (inspect d || (decide (d ∈ names) && (topmost p (parentName d)).isSome)) := by
  induction names using List.reverseRecOn generalizing d with
  | nil => simp
  | append_singleton names a ih =>
    have ih := ih ho.init
    have hparent : (decide (parentName a ∈ names) && (topmost p (parentName a)).isSome) =
        (topmost p (parentName a)).isSome := by
      rcases ho.parent_mem with hnil | hmem
      · simp [hnil, hp]
      · simp [hmem]
    have htop : (topmost p a).isSome = ((topmost p (parentName a)).isSome || p a) := by
      rw [topmost_dropLast (ho.nonempty a (by simp)), parentName]
      cases topmost p a.dropLast <;> cases p a <;> simp
    rw [List.foldl_append, List.foldl_cons, List.foldl_nil, coverStep]
    simp only [(ih (parentName a)).1, hparent]
    by_cases hd : d = a
    · subst hd
      simp [htop, (ih d).2, ho.not_mem, Bool.or_comm]
    · simp [hd, ih d]

theorem inspectCovered_eq {entries : Dataset → Entry} {inspect : Dataset → Bool} (ho : Ordered names)
    (hp : (entries []).policy.enabled = false) (d : Dataset) :
    inspectCovered entries names inspect d = (inspect d ||
      (decide (d ∈ names) && (topmost (fun d => (entries d).policy.enabled) (parentName d)).isSome)) :=
  (foldl_coverStep ho hp d).2

structure Reading (props sparse : Dataset → List Property) (p : Dataset → Bool) (names : List Dataset)
    (inspect : Dataset → Bool) (read : Rows) : Prop where
  fetched : ∀ d, read.fetched d = true → read.stored d = props d ∧ inspect d = true
  unread : ∀ d, read.fetched d = false → read.stored d = sparse d
  closed : ∀ d ∈ names, inspect d = true → parentName d = [] ∨ inspect (parentName d) = true
  started : ∀ d ∈ names, p d = true → inspect d = true

def Whole (p : Dataset → Bool) (names : List Dataset) (inspect : Dataset → Bool) : Prop :=
  ∀ d ∈ names, (topmost p (parentName d)).isSome = true → inspect d = true

section Rounds

variable {sparse : Dataset → List Property} {p inspect : Dataset → Bool}

theorem topmost_parent (hd : d ≠ []) (h : (topmost p d).isSome = true) :
    p d = true ∨ (topmost p (parentName d)).isSome = true := by
  rw [topmost_dropLast hd] at h
  rw [parentName]
  cases hp : topmost p d.dropLast with
  | some r => exact .inr rfl
  | none =>
    rw [hp] at h
    cases hpd : p d with
    | true => exact .inl rfl
    | false => simp [hpd] at h

theorem Reading.fetch (h : Reading props sparse p names inspect read) (ha : r.Answers props)
    (hact : ∀ d, (act.filter (activationRow d)).length ≤ 1)
    (hfetch : fetch r o names act [] 0 (names.filter fun d => inspect d && !read.fetched d) read = .ok read') :
    Reading props sparse p names inspect read' := by
  have hmore := fetch_readMore hact hfetch
  have hprops := fetch_props ha hact hfetch
  rw [List.nil_append] at hmore hprops
  refine ⟨fun d hd => ?_, fun d hd => ?_, h.closed, h.started⟩
  · by_cases hpending : d ∈ names.filter fun d => inspect d && !read.fetched d
    · exact ⟨hprops d hpending, (Bool.and_eq_true _ _ ▸ (List.mem_filter.mp hpending).2).1⟩
    · rw [hmore.stored d hpending]
      rw [hmore.fetched] at hd
      exact h.fetched d (by simpa [hpending] using hd)
  · rw [hmore.fetched, Bool.or_eq_false_iff] at hd
    rw [hmore.stored d (by simpa using hd.1)]
    exact h.unread d hd.2

theorem Reading.cover {inspect' : Dataset → Bool} (h : Reading props sparse p names inspect read) (ho : Ordered names)
    (hinspect : ∀ d, inspect' d = (inspect d || (decide (d ∈ names) && (topmost p (parentName d)).isSome))) :
    Reading props sparse p names inspect' read ∧ Whole p names inspect' := by
  refine ⟨⟨fun d hd => ?_, h.unread, fun d hd hi => ?_, fun d hd hpd => ?_⟩, fun d hd htop => ?_⟩
  · obtain ⟨hstored, hi⟩ := h.fetched d hd
    exact ⟨hstored, by simp [hinspect, hi]⟩
  · by_cases hroot : parentName d = []
    · exact .inl hroot
    · refine .inr ?_
      have hparent : parentName d ∈ names := (ho.closed d hd).resolve_left hroot
      rw [hinspect, Bool.or_eq_true] at hi
      rw [hinspect, Bool.or_eq_true]
      rcases hi with hi | hi
      · exact .inl ((h.closed d hd hi).resolve_left hroot)
      · simp only [hd, decide_true, Bool.true_and] at hi
        rcases topmost_parent hroot hi with hpd | habove
        · exact .inl (h.started _ hparent hpd)
        · exact .inr (by simp [hparent, habove])
  · simp [hinspect, h.started d hd hpd]
  · simp [hinspect, hd, htop]

def enabledIn (t : Texts) (rows : List Row) (o : Options) (props : Dataset → List Property) (names : List Dataset)
    (d : Dataset) : Bool := (resolveEntries t rows o ⟨props, fun _ => true⟩ names d).policy.enabled

theorem Reading.enabled (h : Reading props sparse p names inspect read) (hne : ∀ d ∈ names, d ≠ [])
    (hsparse : ∀ d ∈ names, (sparse d).filter (activationRow d) = (props d).filter (activationRow d)) (d : Dataset) :
    (resolveEntries t rows o read names d).policy.enabled = enabledIn t rows o props names d := by
  refine (resolveEntries_activation hne (fun d hd => ?_) d).2
  cases hf : read.fetched d with
  | true => rw [(h.fetched d hf).1]
  | false => rw [h.unread d hf, hsparse d hd]

theorem readAll_reading {fuel : Nat} (ho : Ordered names) (ha : r.Answers props)
    (hact : ∀ d, (act.filter (activationRow d)).length ≤ 1)
    (hsparse : ∀ d ∈ names, (sparse d).filter (activationRow d) = (props d).filter (activationRow d))
    (hfuel : (names.filter fun d => !read.fetched d).length < fuel)
    (h : Reading props sparse (enabledIn t rows o props names) names inspect read)
    (hwhole : (∃ d, read.fetched d = true) → Whole (enabledIn t rows o props names) names inspect)
    (hread : readAll t r rows o names act fuel inspect read = .ok read') :
    ∃ inspect', Reading props sparse (enabledIn t rows o props names) names inspect' read' ∧
      ((∃ d, read'.fetched d = true) → Whole (enabledIn t rows o props names) names inspect') ∧
      (∀ d ∈ names, inspect' d = true → read'.fetched d = true) ∧ ∀ d, inspect d = true → inspect' d = true := by
  induction fuel generalizing inspect read with
  | zero => omega
  | succ fuel ih =>
    simp only [readAll] at hread
    split at hread
    · rename_i hpending
      cases hread
      refine ⟨inspect, h, hwhole, fun d hd hi => ?_, fun _ => id⟩
      have := List.filter_eq_nil_iff.mp (List.isEmpty_iff.mp hpending) d hd
      simpa [hi] using this
    · rename_i hpending
      rw [bind_eq_ok] at hread
      obtain ⟨mid, hfetch, hrest⟩ := hread
      have hmore := fetch_readMore hact hfetch
      rw [List.nil_append] at hmore
      have hfewer := hmore.fewer (by simpa using hpending)
      have hmid := h.fetch ha hact hfetch
      have henabled : (fun d => (resolveEntries t rows o mid names d).policy.enabled) = enabledIn t rows o props names :=
        funext fun d => hmid.enabled ho.nonempty hsparse d
      have hnil : (resolveEntries t rows o mid names []).policy.enabled = false := resolved_nil ho
      have hcover : ∀ d, inspectCovered (resolveEntries t rows o mid names) names inspect d = _ :=
        inspectCovered_eq ho hnil
      rw [henabled] at hcover
      obtain ⟨hnext, hall⟩ := hmid.cover ho hcover
      obtain ⟨inspect', hlast, hlastWhole, hdone, hkept⟩ := ih (by omega) hnext (fun _ => hall) hrest
      exact ⟨inspect', hlast, hlastWhole, hdone, fun d hd => hkept d (inspectCovered_mono _ hd)⟩

end Rounds

theorem foldl_addAncestors {set : Dataset → Bool} {ds : List Dataset} {a : Dataset} :
    ds.foldl addAncestors set a = true ↔ set a = true ∨ ∃ x ∈ ds, a ≠ [] ∧ a <+: x := by
  induction ds generalizing set with
  | nil => simp
  | cons x ds ih =>
    rw [List.foldl_cons, ih]
    simp [addAncestors, or_assoc]

theorem closed_addAncestors {set : Dataset → Bool} {ds : List Dataset}
    (h : ∀ d, set d = true → parentName d = [] ∨ set (parentName d) = true) (d : Dataset)
    (hd : ds.foldl addAncestors set d = true) :
    parentName d = [] ∨ ds.foldl addAncestors set (parentName d) = true := by
  by_cases hroot : parentName d = []
  · exact .inl hroot
  · rw [foldl_addAncestors] at hd ⊢
    rcases hd with hd | ⟨x, hx, -, hdx⟩
    · exact .inr (.inl ((h d hd).resolve_left hroot))
    · exact .inr (.inr ⟨x, hx, hroot, (List.dropLast_prefix d).trans hdx⟩)

theorem sparseRead_activation {inspect : Dataset → Bool} (ha : r.Answers props)
    (hact : r.activationProperties = .ok act) (h : sparseRead t r rows o names act = .ok (inspect, read)) (d : Dataset) :
    (read.stored d).filter (activationRow d) = (props d).filter (activationRow d) := by
  simp only [sparseRead, ok_iff, Prod.mk.injEq] at h
  obtain ⟨lifecycle, hlifecycle, -, -, -, rfl⟩ := h
  have hnone : (group lifecycle d).filter (activationRow d) = [] := by
    rw [List.filter_eq_nil_iff]
    intro row hrow hset
    have hname : row.name ≠ enabledKey := by
      cases hl : r.lifecycleProperties with
      | none =>
        rw [hl] at hlifecycle
        cases hlifecycle
        cases hrow
      | some l =>
        rw [hl] at hlifecycle
        obtain rfl : l = .ok lifecycle := hlifecycle
        exact ha.lifecycle lifecycle hl row (List.mem_of_mem_filter hrow)
    simp [activationRow, hname] at hset
  rw [List.filter_append, hnone, List.append_nil, ha.activation act hact d, List.filter_filter]
  refine List.filter_congr fun row _ => ?_
  unfold activationRow
  cases row.name == enabledKey <;> simp

theorem sparseRead_reading {inspect : Dataset → Bool} {retained : List Dataset} (ha : r.Answers props)
    (ho : Ordered names) (hact : r.activationProperties = .ok act)
    (h : sparseRead t r rows o names act = .ok (inspect, read)) :
    Reading props read.stored (enabledIn t rows o props names) names (retained.foldl addAncestors inspect) read := by
  have hunread := (sparseRead_spec h).1
  have hrows := sparseRead_activation ha hact h
  simp only [sparseRead, ok_iff, Prod.mk.injEq] at h
  obtain ⟨lifecycle, -, -, -, rfl, hread⟩ := h
  refine ⟨fun d hd => ?_, fun _ _ => rfl, fun d _ hd => ?_, fun d hd hp => ?_⟩
  · rw [hunread] at hd
    cases hd
  · refine closed_addAncestors ?_ d hd
    refine closed_addAncestors ?_
    refine closed_addAncestors ?_
    intro d hd
    cases hd
  · refine addAncestors_foldl_mono (addAncestors_foldl_mem (ho.nonempty d hd) (List.mem_filter.mpr ⟨hd, ?_⟩))
    have henabled : (resolveEntries t rows o read names d).policy.enabled = enabledIn t rows o props names d :=
      (resolveEntries_activation ho.nonempty (fun d _ => hrows d) d).2
    rw [hread, henabled, hp]
    rfl

structure ReadThrough (t : Texts) (rows : List Row) (o : Options) (props : Dataset → List Property)
    (names retained : List Dataset) (read : Rows) : Prop where
  stored : ∀ d, read.fetched d = true → read.stored d = props d
  activation : ∀ d ∈ names, (read.stored d).filter (activationRow d) = (props d).filter (activationRow d)
  closed : ∀ d ∈ names, read.fetched d = true → parentName d = [] ∨ read.fetched (parentName d) = true
  inside : ∀ d ∈ names, (topmost (enabledIn t rows o props names) d).isSome = true → read.fetched d = true
  retained : ∀ d ∈ retained, d ∈ names ∧ read.fetched d = true

theorem scan_reads {retained : List Dataset} {g : Scanned} (hlist : r.listDatasets = .ok rows) (ha : r.Answers props)
    (h : scan t r o retained = .ok g) : ∃ read, Ordered g.names ∧ ReadThrough t rows o props g.names retained read ∧
      g.entries = markRoots rows g.names (resolveEntries t rows o read g.names) := by
  simp only [scan, ok_iff] at h
  obtain ⟨rows', hrows, names, hnames, act, hact, ⟨⟨⟩, hvalid, ⟨inspect, sparse⟩, hsparse, hretained, read, hread, rfl⟩⟩ := h
  obtain rfl : rows = rows' := Except.ok.inj (hlist.symm.trans hrows)
  have ho := indexDatasets_ordered hnames
  have hrows := sparseRead_activation ha hact hsparse
  have hunread := (sparseRead_spec hsparse).1
  obtain ⟨inspect', hlast, hwhole, hdone, hkept⟩ := readAll_reading ho ha (fun d => activationRow_unique hvalid d)
    (fun d _ => hrows d) (Nat.lt_succ_of_le (List.length_filter_le ..)) (sparseRead_reading ha ho hact hsparse)
    (fun hsome => by simp [hunread] at hsome) hread
  refine ⟨read, ho, ⟨fun d hd => (hlast.fetched d hd).1, fun d hd => ?_, fun d hd hf => ?_, fun d hd htop => ?_,
    fun d hd => ?_⟩, rfl⟩
  · cases hf : read.fetched d with
    | true => rw [(hlast.fetched d hf).1]
    | false => rw [hlast.unread d hf, hrows d]
  · by_cases hroot : parentName d = []
    · exact .inl hroot
    · have hparent := (ho.closed d hd).resolve_left hroot
      exact .inr (hdone _ hparent ((hlast.closed d hd (hlast.fetched d hf).2).resolve_left hroot))
  · -- the enabled dataset around it is fetched, so there was a round
    obtain ⟨e, he⟩ := Option.isSome_iff_exists.mp htop
    have hp := (topmost_eq_some.mp he).1
    have hmem : e ∈ names := RootsMarked.root_mem (g := ⟨names, fun _ => Entry.zero⟩) (resolved_nil ho) ho hd he
    have hround : ∃ d, read.fetched d = true := ⟨e, hdone e hmem (hlast.started e hmem hp)⟩
    rcases topmost_parent (ho.nonempty d hd) htop with hpd | habove
    · exact hdone d hd (hlast.started d hd hpd)
    · exact hdone d hd (hwhole hround d hd habove)
  · have hd' : d ∈ names := by simpa using List.all_eq_true.mp hretained d hd
    exact ⟨hd', hdone d hd' (hkept d (addAncestors_foldl_mem (ho.nonempty d hd') hd))⟩

/-! ## Resolution -/

theorem resolveEntries_agree (ho : Ordered names) (hstored : ∀ d, read.fetched d = true → read.stored d = props d)
    (hclosed : ∀ d ∈ names, read.fetched d = true → parentName d = [] ∨ read.fetched (parentName d) = true)
    (hd : d ∈ names) (hf : read.fetched d = true) :
    resolveEntries t rows o read names d = resolveEntries t rows o ⟨props, fun _ => true⟩ names d := by
  induction names using List.reverseRecOn generalizing d with
  | nil => cases hd
  | append_singleton names a ih =>
    have ih : ∀ b ∈ names, read.fetched b = true → resolveEntries t rows o read names b =
        resolveEntries t rows o ⟨props, fun _ => true⟩ names b :=
      fun b => ih ho.init fun d hd => hclosed d (by simp [hd])
    rw [resolveEntries_concat, resolveEntries_concat]
    by_cases ha : d = a
    · subst ha
      have hparent : (if parentName d == [] then none
          else some (resolveEntries t rows o read names (parentName d)).policy) =
          if parentName d == [] then none
          else some (resolveEntries t rows o ⟨props, fun _ => true⟩ names (parentName d)).policy := by
        by_cases hroot : parentName d = []
        · simp [hroot]
        · rw [ih (parentName d) (ho.parent_mem.resolve_left hroot) ((hclosed d hd hf).resolve_left hroot)]
      rw [Function.update_self, Function.update_self, resolveEntry, resolveEntry, hparent, hstored d hf, hf]
    · rw [Function.update_of_ne ha, Function.update_of_ne ha]
      exact ih d ((List.mem_append.mp hd).resolve_right (by simpa using ha)) hf

/-! ## Marking -/

section Marking

variable {S : Dataset → Prop} {p : Dataset → Bool} {done : List Dataset} {m m' : Marks}

def AgreeOn (S : Dataset → Prop) (e e' : Dataset → Entry) : Prop := ∀ d, d = [] ∨ S d → e d = e' d

theorem AgreeOn.update {e e' : Dataset → Entry} (h : AgreeOn S e e') (a : Dataset) (x : Entry) :
    AgreeOn S (Function.update e a x) (Function.update e' a x) := by
  intro d hd
  by_cases ha : d = a
  · simp [ha]
  · simp [ha, h d hd]

structure MarkedAlike (S : Dataset → Prop) (m m' : Marks) : Prop where
  entries : AgreeOn S m.entries m'.entries
  members : m.members = m'.members
  quiet : ∀ a, ¬ S a → (m.entries a).member = false ∧ (m'.entries a).member = false

theorem MarkedAlike.step (h : MarkedAlike S m m') (hm : Marked p done m) (hm' : Marked p done m') (hp : p [] = false)
    (ho : Ordered (done ++ [d])) (hS : ∀ r, topmost p d = some r → S d ∧ S r) :
    MarkedAlike S (markStep m d) (markStep m' d) := by
  unfold markStep
  simp only [hm.root_eq hp ho, hm'.root_eq hp ho]
  cases htop : topmost p d with
  | none =>
    simp only [Option.getD_none, beq_self_eq_true, if_true]
    exact ⟨h.entries, h.members, h.quiet⟩
  | some r =>
    obtain ⟨hd, hr⟩ := hS r htop
    have hne : r ≠ [] := topmost_ne_nil hp htop
    simp only [Option.getD_some, beq_iff_eq, hne, if_false]
    by_cases hrd : r = d
    · simp only [hrd, if_true, h.members]
      exact ⟨h.entries, rfl, h.quiet⟩
    · simp only [hrd, if_false, h.members, h.entries d (.inr hd), h.entries r (.inr hr)]
      refine ⟨(h.entries.update _ _).update _ _, rfl, fun a ha => ?_⟩
      have had : a ≠ d := by rintro rfl; exact ha hd
      have har : a ≠ r := by rintro rfl; exact ha hr
      simp only [Function.update_of_ne had, Function.update_of_ne har]
      exact h.quiet a ha

structure ScopedAlike (S : Dataset → Prop) (st st' : (Dataset → Bool) × (Dataset → Entry)) : Prop where
  checked : st.1 = st'.1
  entries : AgreeOn S st.2 st'.2
  quiet : ∀ a, ¬ S a → (st.2 a).member = false ∧ (st'.2 a).member = false
  covered : ∀ a, (st.2 a).coveredBy = [] ∨ S (st.2 a).coveredBy

theorem ScopedAlike.step {st st' : (Dataset → Bool) × (Dataset → Entry)} (h : ScopedAlike S st st') (d : Dataset) :
    ScopedAlike S (scopeStep rows st d) (scopeStep rows st' d) := by
  have hsame := scopeStep_same rows st d
  have hsame' := scopeStep_same rows st' d
  have hboth : (scopeStep rows st d).1 = (scopeStep rows st' d).1 ∧
      AgreeOn S (scopeStep rows st d).2 (scopeStep rows st' d).2 := by
    by_cases hd : S d
    · simp only [scopeStep, ← h.entries d (.inr hd), ← h.entries _ (h.covered d), ← h.checked]
      split
      · exact ⟨h.checked, h.entries⟩
      · exact ⟨rfl, h.entries.update _ _⟩
    · simp only [scopeStep, (h.quiet d hd).1, (h.quiet d hd).2, Bool.not_false, Bool.true_or, if_true]
      exact ⟨h.checked, h.entries⟩
  refine ⟨hboth.1, hboth.2, fun a ha => ?_, fun a => ?_⟩
  · rw [(hsame a).member, (hsame' a).member]
    exact h.quiet a ha
  · rw [(hsame a).coveredBy]
    exact h.covered a

theorem ScopedAlike.foldl {st st' : (Dataset → Bool) × (Dataset → Entry)} (h : ScopedAlike S st st')
    (names : List Dataset) : ScopedAlike S (names.foldl (scopeStep rows) st) (names.foldl (scopeStep rows) st') := by
  induction names generalizing st st' with
  | nil => exact h
  | cons d names ih => exact ih (h.step d)

variable {e e' : Dataset → Entry} (ho : Ordered names)
  (henabled : ∀ d, (e' d).policy.enabled = (e d).policy.enabled) (hnil : (e []).policy.enabled = false)
  (hfresh : ∀ d, (e d).coveredBy = []) (hfresh' : ∀ d, (e' d).coveredBy = [])
  (hquiet : ∀ d, (e d).member = false ∧ (e' d).member = false)
  (hS : ∀ d ∈ names, ∀ r, topmost (fun d => (e d).policy.enabled) d = some r → S d ∧ S r) (hagree : AgreeOn S e e')

include ho henabled hnil hfresh hfresh' hquiet hS hagree

theorem markedAlike_foldl :
    MarkedAlike S (names.foldl markStep ⟨fun _ => [], fun _ => [], e⟩)
      (names.foldl markStep ⟨fun _ => [], fun _ => [], e'⟩) := by
  induction names using List.reverseRecOn with
  | nil => exact ⟨hagree, rfl, fun a _ => hquiet a⟩
  | append_singleton names d ih =>
    have hm := marked_foldl ho.init hnil hfresh
    have hm' := marked_foldl ho.init ((henabled []).trans hnil) hfresh'
    rw [funext henabled] at hm'
    rw [List.foldl_append, List.foldl_append]
    exact (ih ho.init fun a ha => hS a (by simp [ha])).step hm hm' hnil ho (hS d (by simp))

theorem markRoots_agree : AgreeOn S (markRoots rows names e) (markRoots rows names e') := by
  have halike := markedAlike_foldl ho henabled hnil hfresh hfresh' hquiet hS hagree
  have hm := marked_foldl ho hnil hfresh
  unfold markRoots
  simp only
  refine ScopedAlike.entries (ScopedAlike.foldl ?_ names)
  refine ⟨rfl, fun d hd => ?_, halike.quiet, fun d => ?_⟩
  · simp only [halike.entries d hd, halike.members]
  · simp only [hm.coveredBy d]
    split
    · rename_i hd
      cases htop : topmost (fun d => (e d).policy.enabled) d with
      | none => exact .inl rfl
      | some r => exact .inr (hS d hd.1 r htop).2
    · exact .inl rfl

end Marking

/-! ## Targets -/

section Targets

variable {S : Dataset → Prop} {e e' : Dataset → Entry} {destinations : String → Option RemoteDestination}

theorem replicaOf_congr (h : e d = e' d) : replicaOf destinations e d = replicaOf destinations e' d := by
  funext target
  rw [replicaOf, replicaOf, h]

theorem plannedTargets_congr (h : e d = e' d) (hmembers : ∀ m ∈ (e d).members, e m = e' m) :
    plannedTargets e d = plannedTargets e' d := by
  have hpolicies : streamPolicies e d = streamPolicies e' d := by
    unfold streamPolicies
    rw [← h]
    congr 1
    split
    · rfl
    · refine List.map_congr_left fun m hm => ?_
      rw [hmembers m (List.mem_of_mem_filter hm)]
  rw [plannedTargets, plannedTargets, hpolicies]

theorem markCollisions_agree (hagree : ∀ d, S d → e d = e' d)
    (hroots : ∀ d ∈ names, (e d).policy.enabled = true ∨ (e' d).policy.enabled = true → S d)
    (hmembers : ∀ d ∈ names, ∀ m ∈ (e d).members, S m) (hd : S d) :
    markCollisions destinations e names d = markCollisions destinations e' names d := by
  have hactors : actorRoots e names = actorRoots e' names := by
    refine List.filter_congr fun a ha => ?_
    by_cases hSa : S a
    · rw [isActorRoot, isActorRoot, hagree a hSa]
    · obtain ⟨hoff, hoff'⟩ := not_or.mp fun h => hSa (hroots a ha h)
      simp [isActorRoot, hoff, hoff']
  have hreplicas : plannedReplicas destinations e names = plannedReplicas destinations e' names := by
    unfold plannedReplicas
    rw [← hactors]
    refine List.flatMap_congr fun a ha => ?_
    obtain ⟨hmem, hactor⟩ := List.mem_filter.mp ha
    have hSa : S a := hroots a hmem (.inl (by simpa [isActorRoot] using (Bool.and_eq_true _ _ ▸ hactor).2))
    rw [plannedTargets_congr (hagree a hSa) fun m hm => hagree m (hmembers a hmem m hm), replicaOf_congr (hagree a hSa)]
  unfold markCollisions
  rw [hactors, hreplicas, hagree d hd]

end Targets

/-! ## Inspected datasets -/

theorem resolveEntries_inspected (hd : d ∈ names) :
    (resolveEntries t rows o read names d).inspected = read.fetched d := by
  obtain ⟨entries, he⟩ := resolveEntries_resolved (t := t) (o := o) hd
  rw [he]
  rfl

theorem cover_inspected (root : Dataset) (rootEntry entry : Entry) :
    (cover root rootEntry entry).1.inspected = rootEntry.inspected ∧
      (cover root rootEntry entry).2.inspected = entry.inspected := by
  unfold cover
  simp only
  split_ifs <;> exact ⟨rfl, rfl⟩

theorem markStep_inspected (m : Marks) (a d : Dataset) :
    ((markStep m d).entries a).inspected = (m.entries a).inspected := by
  unfold markStep
  simp only
  generalize (if m.within (parentName d) == [] && (m.entries d).policy.enabled then d
    else m.within (parentName d)) = root
  obtain ⟨hroot, hd⟩ := cover_inspected root (m.entries root) (m.entries d)
  split
  · rfl
  · split
    · rfl
    · by_cases had : a = d
      · simp [had, hd]
      · by_cases har : a = root
        · simp [har, hroot, show root ≠ d from har ▸ had]
        · simp [had, har]

theorem scopeStep_inspected (st : (Dataset → Bool) × (Dataset → Entry)) (a d : Dataset) :
    ((scopeStep rows st d).2 a).inspected = (st.2 a).inspected := by
  simp only [scopeStep]
  split
  · rfl
  · by_cases ha : a = (st.2 d).coveredBy
    · simp [ha]
    · simp [ha]

theorem markRoots_inspected (names : List Dataset) (e : Dataset → Entry) (a : Dataset) :
    (markRoots rows names e a).inspected = (e a).inspected := by
  have hscopes : ∀ st, ((names.foldl (scopeStep rows) st).2 a).inspected = (st.2 a).inspected := by
    induction names with
    | nil => exact fun _ => rfl
    | cons d names ih => exact fun st => (ih _).trans (scopeStep_inspected st a d)
  refine (hscopes _).trans ?_
  have hmarks : ∀ m, ((names.foldl markStep m).entries a).inspected = (m.entries a).inspected := by
    clear hscopes
    induction names with
    | nil => exact fun _ => rfl
    | cons d names ih => exact fun m => (ih _).trans (markStep_inspected m a d)
  exact hmarks _

/-! ## Scans -/

structure Sparse (full : Dataset → Entry) (retained : List Dataset) (g : Scanned) : Prop where
  same : ∀ d ∈ g.names, (g.entries d).inspected = true → g.entries d = full d
  enabled : ∀ d, (g.entries d).policy.enabled = (full d).policy.enabled
  below : ∀ e, (g.entries e).policy.enabled = true → ∀ d ∈ g.names, e <+: d → (g.entries d).inspected = true
  above : ∀ e ∈ g.names, (g.entries e).policy.enabled = true → ∀ d, d ≠ [] → d <+: e → (g.entries d).inspected = true
  retained : ∀ d ∈ retained, (g.entries d).inspected = true

variable {destinations : String → Option RemoteDestination} {retained : List Dataset} {g : Scanned}

section Read

variable (h : ReadThrough t rows o props names retained read)
include h

theorem ReadThrough.below (hd : d ∈ names) {e : Dataset}
    (he : enabledIn t rows o props names e = true) (hed : e <+: d) : read.fetched d = true := by
  refine h.inside d hd ?_
  by_contra hnone
  rw [Bool.not_eq_true, Option.isSome_eq_false_iff, Option.isNone_iff_eq_none] at hnone
  simp [topmost_eq_none.mp hnone e hed] at he

variable (ho : Ordered names)
include ho

theorem ReadThrough.enabled (d : Dataset) :
    (resolveEntries t rows o read names d).policy.enabled = enabledIn t rows o props names d :=
  (resolveEntries_activation ho.nonempty h.activation d).2

theorem ReadThrough.above (hd : d ∈ names)
    (hf : read.fetched d = true) {a : Dataset} (ha : a ≠ []) (hp : a <+: d) : read.fetched a = true := by
  induction d using List.reverseRecOn with
  | nil => exact absurd (List.prefix_nil.mp hp) ha
  | append_singleton above label ih =>
    rcases List.prefix_concat_iff.mp hp with rfl | habove
    · exact hf
    · have hne : above ≠ [] := by
        rintro rfl
        exact ha (List.prefix_nil.mp habove)
      have hparent : parentName (above ++ [label]) = above := List.dropLast_concat
      have hmem := ho.prefix_mem hd hne (List.prefix_append _ _)
      have hup := (h.closed _ hd hf).resolve_left (by rwa [hparent])
      rw [hparent] at hup
      exact ih hmem hup habove

theorem ReadThrough.covered (hd : d ∈ names)
    {e : Dataset} (he : topmost (enabledIn t rows o props names) d = some e) :
    (d ∈ names ∧ read.fetched d = true) ∧ e ∈ names ∧ read.fetched e = true := by
  obtain ⟨hpe, hed, -⟩ := topmost_eq_some.mp he
  have hmem : e ∈ names := ho.prefix_mem hd (topmost_ne_nil (resolved_nil ho) he) hed
  exact ⟨⟨hd, h.below hd hpe hed⟩, hmem, h.below hmem hpe List.prefix_rfl⟩

theorem ReadThrough.agree :
    AgreeOn (fun d => d ∈ names ∧ read.fetched d = true) (markRoots rows names (resolveEntries t rows o read names))
      (markRoots rows names (resolveEntries t rows o ⟨props, fun _ => true⟩ names)) := by
  refine markRoots_agree ho (fun d => (h.enabled ho d).symm) (resolved_nil ho) (fun d => (resolveEntries_fresh d).1)
    (fun d => (resolveEntries_fresh d).1) (fun d => ⟨(resolveEntries_fresh d).2, (resolveEntries_fresh d).2⟩) ?_ ?_
  · rw [funext (h.enabled ho)]
    exact fun d hd e he => h.covered ho hd he
  · rintro d (rfl | ⟨hd, hf⟩)
    · have hnil : [] ∉ names := fun hmem => ho.nonempty [] hmem rfl
      rw [resolveEntries_of_not_mem hnil, resolveEntries_of_not_mem hnil]
    · exact resolveEntries_agree ho h.stored h.closed hd hf

end Read

theorem scanTargets_sparse (hlist : r.listDatasets = .ok rows) (ha : r.Answers props)
    (h : scanTargets t r o destinations retained = .ok g) :
    Sparse (fullScan t rows props o destinations g.names) retained g := by
  rw [scanTargets, bind_eq_ok] at h
  obtain ⟨scanned, hscan, hg⟩ := h
  cases hg
  obtain ⟨read, ho, hread, hentries⟩ := scan_reads hlist ha hscan
  have hmarked := resolved_marked (t := t) (o := o) rows read ho
  have hagree := hread.agree ho
  rw [← hentries] at hmarked hagree
  rw [funext (hread.enabled ho)] at hmarked
  have hfull := resolved_marked (t := t) (o := o) rows ⟨props, fun _ => true⟩ ho
  have hinspected : ∀ d ∈ scanned.names, (scanned.entries d).inspected = read.fetched d := by
    intro d hd
    rw [hentries, markRoots_inspected, resolveEntries_inspected hd]
  refine ⟨fun d hd hi => ?_, fun d => ?_, fun e he d hd hed => ?_, fun e hmem he d hne hde => ?_, fun d hd => ?_⟩
  · refine markCollisions_agree (fun a ha => hagree a (.inr ha)) (fun a ha hon => ?_) (fun a ha m hm => ?_)
      ⟨hd, (hinspected d hd).symm.trans hi⟩
    · rw [hmarked.enabled, hfull.enabled] at hon
      exact ⟨ha, hread.below ha (hon.elim id id) List.prefix_rfl⟩
    · obtain ⟨hm, htop, -⟩ := hmarked.mem_members.mp hm
      exact (hread.covered ho hm htop).1
  · exact (hmarked.enabled d).trans (hfull.enabled d).symm
  · exact (hinspected d hd).trans (hread.below hd ((hmarked.enabled e).symm.trans he) hed)
  · have hf := hread.below hmem ((hmarked.enabled e).symm.trans he) List.prefix_rfl
    exact (hinspected d (ho.prefix_mem hmem hne hde)).trans (hread.above ho hmem hf hne hde)
  · obtain ⟨hd, hf⟩ := hread.retained d hd
    exact (hinspected d hd).trans hf

theorem scanTargets_names (hlist : r.listDatasets = .ok rows) (h : scanTargets t r o destinations retained = .ok g) :
    indexDatasets rows = .ok g.names := by
  rw [scanTargets, bind_eq_ok] at h
  obtain ⟨scanned, hscan, hg⟩ := h
  cases hg
  obtain ⟨rows', -, -, hrows, hnames, -⟩ := scan_eq_ok hscan
  obtain rfl : rows = rows' := Except.ok.inj (hlist.symm.trans hrows)
  exact hnames

theorem fullScan_remotes {o' : Options} (h : o'.remotes = o.remotes) :
    fullScan t rows props o' destinations names = fullScan t rows props o destinations names := by
  have hentry : resolveEntry t rows o' = resolveEntry t rows o := by
    unfold resolveEntry
    rw [h]
  unfold fullScan resolveEntries
  rw [hentry]

/-- A sparse scan finds what a scan of everything would, which is what a scan finds that retains
every dataset. -/
theorem sparse_scan_complete (hlist : r.listDatasets = .ok rows) (ha : r.Answers props)
    (h : scanTargets t r o destinations retained = .ok g) :
    Sparse (fullScan t rows props o destinations g.names) retained g ∧
      ∀ o' retained' g', o'.remotes = o.remotes → scanTargets t r o' destinations retained' = .ok g' →
        g.names ⊆ retained' →
        g'.names = g.names ∧ ∀ d ∈ g.names, g'.entries d = fullScan t rows props o destinations g.names d := by
  refine ⟨scanTargets_sparse hlist ha h, fun o' retained' g' hremotes h' hall => ?_⟩
  have hnames : g'.names = g.names :=
    Except.ok.inj ((scanTargets_names hlist h').symm.trans (scanTargets_names hlist h))
  refine ⟨hnames, fun d hd => ?_⟩
  have hsparse := scanTargets_sparse hlist ha h'
  rw [hsparse.same d (hnames ▸ hd) (hsparse.retained d (hall hd)), hnames, fullScan_remotes hremotes]

def storedReader (rows : List Row) (stored : List Property) : Reader where
  listDatasets := .ok rows
  activationProperties := .ok (stored.filter fun row => row.name == enabledKey)
  lifecycleProperties := some (.ok (stored.filter fun row => row.name ∈ [.owner, .lineage, .inactive]))
  storedProperties := fun batch => .ok (stored.filter fun row => (rowDataset row).any batch.contains)

theorem storedReader_answers (rows : List Row) (stored : List Property) :
    (storedReader rows stored).Answers (group stored) where
  activation l hl d := by
    cases hl
    exact List.filter_comm ..
  lifecycle l hl row hrow hname := by
    cases hl
    simp [List.mem_filter, hname, enabledKey] at hrow
  stored batch l hl d hd := by
    cases hl
    unfold group
    rw [List.filter_filter]
    refine List.filter_congr fun row _ => ?_
    by_cases hrow : row.dataset = .dataset d
    · simp [rowDataset, hrow, hd]
    · simp [hrow]

def atollRows : List Row :=
  [⟨["atoll"], .filesystem, ""⟩, ⟨["atoll", "isle"], .filesystem, ""⟩, ⟨["atoll", "isle", "hut"], .volume, ""⟩,
    ⟨["lagoon"], .filesystem, ""⟩]

def atollStored : List Property :=
  [⟨.dataset ["atoll", "isle"], enabledKey, .text "on", .sourceLocal⟩,
    ⟨.dataset ["atoll", "isle", "hut"], .policy "remote", .text "harbour", .sourceLocal⟩,
    ⟨.dataset ["lagoon"], .policy "remote", .text "harbour", .sourceLocal⟩]

theorem atoll_complete :
    ∃ g, scanTargets plainTexts (storedReader atollRows atollStored) ⟨2, 32768, []⟩ (fun _ => none) [] = .ok g ∧
      g.names.map (fun d => (g.entries d).inspected) = [true, true, true, false] ∧
      Sparse (fullScan plainTexts atollRows (group atollStored) ⟨2, 32768, []⟩ (fun _ => none) g.names) [] g := by
  obtain ⟨g, hg⟩ : ∃ g, scanTargets plainTexts (storedReader atollRows atollStored) ⟨2, 32768, []⟩ (fun _ => none) [] =
    .ok g := ⟨_, rfl⟩
  refine ⟨g, hg, ?_, (sparse_scan_complete rfl (storedReader_answers _ _) hg).1⟩
  cases hg
  decide

end Boomerangz.Discovery
