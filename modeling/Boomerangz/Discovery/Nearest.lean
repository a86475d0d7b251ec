import Boomerangz.Discovery.Partition
import Boomerangz.Lifecycle.Inactive

/-! # The nearest activation

What a scan hands down from parent to child comes to the nearest local row above a dataset.
-/

namespace Boomerangz.Discovery

open Check Lists Zfs Policy Lifecycle

/-! ## Rows above a dataset -/

def rowsAbove (act : List Property) (d : Dataset) : List Property :=
  act.filter fun p => p.name == enabledKey && p.source == .sourceLocal && inside d p.dataset.base

def nearestRow (act : List Property) (d : Dataset) : Option Property :=
  greatest (·.dataset.base.length) (rowsAbove act d)

def saysOn (p : Property) : Bool := p.value == .text "on"

def OfDatasets (act : List Property) : Prop := ∀ p ∈ act, ∃ d, d ≠ [] ∧ p.dataset = .dataset d

structure Clear (act : List Property) (d : Dataset) : Prop where
  once : ((rowsAbove act d).map (·.dataset.base)).Nodup
  value : ∀ p ∈ rowsAbove act d, p.value = .text "on" ∨ p.value = .text "off"

section Rows

variable {act : List Property} {d : Dataset} {p q : Property}

theorem mem_rowsAbove : p ∈ rowsAbove act d ↔
    p ∈ act ∧ p.name = enabledKey ∧ p.source = .sourceLocal ∧ inside d p.dataset.base = true := by
  simp [rowsAbove, and_assoc]

theorem above_of_mem (hof : OfDatasets act) (h : p ∈ rowsAbove act d) : p.dataset.base <+: d := by
  obtain ⟨hp, -, -, hin⟩ := mem_rowsAbove.mp h
  obtain ⟨x, hx, hname⟩ := hof p hp
  rw [hname] at hin ⊢
  exact (inside_iff hx).mp hin

theorem eq_of_base (hone : ((rowsAbove act d).map (·.dataset.base)).Nodup) (hp : p ∈ rowsAbove act d)
    (hq : q ∈ rowsAbove act d) (hbase : p.dataset.base = q.dataset.base) : p = q :=
  List.inj_on_of_nodup_map hone hp hq hbase

theorem eq_of_length (hof : OfDatasets act) (hone : ((rowsAbove act d).map (·.dataset.base)).Nodup) :
    ∀ p ∈ rowsAbove act d, ∀ q ∈ rowsAbove act d, p.dataset.base.length = q.dataset.base.length → p = q := by
  intro p hp q hq hlen
  refine eq_of_base hone hp hq ?_
  exact (List.prefix_of_prefix_length_le (above_of_mem hof hp) (above_of_mem hof hq) hlen.le).eq_of_length hlen

theorem nearestRow_eq_some (hof : OfDatasets act) (hone : ((rowsAbove act d).map (·.dataset.base)).Nodup) :
    nearestRow act d = some p ↔
      p ∈ rowsAbove act d ∧ ∀ q ∈ rowsAbove act d, q.dataset.base.length ≤ p.dataset.base.length :=
  greatest_eq_some (eq_of_length hof hone)

theorem activationRow_iff (hof : OfDatasets act) (hp : p ∈ act) :
    activationRow d p = true ↔ p ∈ rowsAbove act d ∧ p.dataset.base = d := by
  obtain ⟨x, -, hname⟩ := hof p hp
  simp only [activationRow, mem_rowsAbove, hname, Name.base, Bool.and_eq_true, beq_iff_eq, Name.dataset.injEq, hp,
    true_and]
  constructor
  · rintro ⟨⟨rfl, hkey⟩, hlocal⟩
    exact ⟨⟨hkey, hlocal, inside_self x⟩, rfl⟩
  · rintro ⟨⟨hkey, hlocal, -⟩, rfl⟩
    exact ⟨⟨rfl, hkey⟩, hlocal⟩

theorem inside_parent {x : Dataset} (hx : x ≠ []) (hne : x ≠ d) (hd : d ≠ []) :
    inside d x = inside (parentName d) x := by
  rw [Bool.eq_iff_iff, inside_iff hx, inside_iff hx, parentName]
  conv_lhs => rw [← List.dropLast_append_getLast hd, List.prefix_concat_iff, List.dropLast_append_getLast hd]
  simp [hne]

theorem nearestRow_parent (hof : OfDatasets act) (hone : ((rowsAbove act d).map (·.dataset.base)).Nodup) (hd : d ≠ []) :
    nearestRow act d = ((act.filter (activationRow d)).getLast?).or (nearestRow act (parentName d)) := by
  cases hown : (act.filter (activationRow d)).getLast? with
  | none =>
    rw [List.getLast?_eq_none_iff, List.filter_eq_nil_iff] at hown
    have hsame : rowsAbove act d = rowsAbove act (parentName d) := by
      refine List.filter_congr fun p hp => ?_
      obtain ⟨x, hx, hname⟩ := hof p hp
      by_cases hrow : p.name = enabledKey ∧ p.source = .sourceLocal
      · have hne : x ≠ d := by
          rintro rfl
          exact hown p hp (by simp [activationRow, hname, hrow])
        simp [hrow, hname, Name.base, inside_parent hx hne hd]
      · have hno : (p.name == enabledKey && p.source == .sourceLocal) = false := by simpa using hrow
        simp only [hno, Bool.false_and]
    rw [Option.none_or, nearestRow, nearestRow, hsame]
  | some p =>
    have hp := List.mem_of_getLast? hown
    rw [List.mem_filter] at hp
    obtain ⟨habove, hbase⟩ := (activationRow_iff hof hp.1).mp hp.2
    rw [Option.some_or, nearestRow_eq_some hof hone, hbase]
    exact ⟨habove, fun q hq => (above_of_mem hof hq).length_le⟩

theorem nearestRow_nil (hof : OfDatasets act) : nearestRow act [] = none := by
  rw [nearestRow, greatest_eq_none, List.eq_nil_iff_forall_not_mem]
  intro p hp
  obtain ⟨x, hx, hname⟩ := hof p (mem_rowsAbove.mp hp).1
  have habove := above_of_mem hof hp
  rw [hname] at habove
  exact hx (List.prefix_nil.mp habove)

theorem rowsAbove_mono {e : Dataset} (hof : OfDatasets act) (hed : e <+: d) :
    (rowsAbove act e).Sublist (rowsAbove act d) := by
  have hsplit : rowsAbove act e = (rowsAbove act d).filter fun p => inside e p.dataset.base := by
    rw [rowsAbove, rowsAbove, List.filter_filter]
    refine List.filter_congr fun p hp => ?_
    obtain ⟨x, hx, hname⟩ := hof p hp
    cases hin : inside e p.dataset.base with
    | false => simp
    | true =>
      have hin' : inside d p.dataset.base = true := by
        rw [hname] at hin ⊢
        exact (inside_iff hx).mpr (((inside_iff hx).mp hin).trans hed)
      simp [hin']
  rw [hsplit]
  exact List.filter_sublist

theorem Clear.parent (h : Clear act d) (hof : OfDatasets act) : Clear act (parentName d) :=
  have hsub := rowsAbove_mono hof (List.dropLast_prefix d)
  ⟨(hsub.map _).nodup h.once, fun p hp => h.value p (hsub.subset hp)⟩

theorem Clear.sublist {act' : List Property} (h : Clear act d) (hsub : act'.Sublist act) : Clear act' d :=
  ⟨((hsub.filter _).map _).nodup h.once, fun p hp => h.value p ((hsub.filter _).subset hp)⟩

theorem nearestRow_exposed (kept : Dataset → Bool) (hof : OfDatasets act)
    (hone : ((rowsAbove act d).map (·.dataset.base)).Nodup)
    (h : nearestRow (act.filter fun p => kept p.dataset.base) d = some p) : nearestRow act d = some p ∨
      ∃ q ∈ act, kept q.dataset.base = false ∧ q.dataset.base <+: d ∧
        nearestRow (act.filter fun p => kept p.dataset.base) q.dataset.base = some p := by
  set act' := act.filter fun p => kept p.dataset.base with hact'
  have hof' : OfDatasets act' := fun p hp => hof p (List.mem_of_mem_filter hp)
  have hsub : (rowsAbove act' d).Sublist (rowsAbove act d) := List.filter_sublist.filter _
  obtain ⟨hp, hmax⟩ := greatest_spec h
  cases hq : nearestRow act d with
  | none =>
    rw [nearestRow, greatest_eq_none] at hq
    exact absurd (hsub.subset hp) (hq ▸ List.not_mem_nil)
  | some q =>
    obtain ⟨hq, hqmax⟩ := greatest_spec hq
    have hlen := hqmax p (hsub.subset hp)
    cases hkept : kept q.dataset.base with
    | true =>
      have hq' : q ∈ rowsAbove act' d := by
        rw [mem_rowsAbove] at hq ⊢
        exact ⟨List.mem_filter.mpr ⟨hq.1, hkept⟩, hq.2⟩
      exact .inl (congrArg some (eq_of_length hof hone q hq p (hsub.subset hp) (le_antisymm (hmax q hq') hlen)))
    | false =>
      have hqd := above_of_mem hof hq
      have hpq : p.dataset.base <+: q.dataset.base :=
        List.prefix_of_prefix_length_le (above_of_mem hof' hp) hqd hlen
      have hsub' := rowsAbove_mono hof' hqd
      refine .inr ⟨q, (mem_rowsAbove.mp hq).1, hkept, hqd, ?_⟩
      refine (nearestRow_eq_some hof' (((hsub'.trans hsub).map _).nodup hone)).mpr ⟨?_, fun r hr => hmax r (hsub'.subset hr)⟩
      obtain ⟨x, hx, hname⟩ := hof' p (mem_rowsAbove.mp hp).1
      rw [hname] at hpq
      have hin : inside q.dataset.base p.dataset.base = true := by rwa [hname, Name.base, inside_iff hx]
      exact mem_rowsAbove.mpr ⟨(mem_rowsAbove.mp hp).1, (mem_rowsAbove.mp hp).2.1, (mem_rowsAbove.mp hp).2.2.1, hin⟩

end Rows

/-! ## The loop of the retirement check -/

section Check

variable {act : List Property} {d : Dataset}

def heldOf : Option Property → Dataset × Bool
  | none => ([], false)
  | some p => (p.dataset.base, saysOn p)

theorem nearestActivation_eq {seen : List Dataset} (best : Option Property)
    (hne : ∀ p ∈ rowsAbove act d, p.dataset.base ≠ []) (hnew : ∀ p ∈ rowsAbove act d, p.dataset.base ∉ seen)
    (hclear : Clear act d) : nearestActivation d seen (heldOf best) act =
      .ok ((greatest (·.dataset.base.length) (best.toList ++ rowsAbove act d)).any saysOn) := by
  induction act generalizing seen best with
  | nil => cases best <;> rfl
  | cons p act ih =>
    by_cases hrow : p.name = enabledKey ∧ p.source = .sourceLocal ∧ inside d p.dataset.base = true
    · obtain ⟨hkey, hlocal, hin⟩ := hrow
      have hskip : (p.name != Lifecycle.enabledKey || p.source != .sourceLocal || !inside d p.dataset.base) = false := by
        simp [show p.name = Lifecycle.enabledKey from hkey, hlocal, hin]
      have hcons : rowsAbove (p :: act) d = p :: rowsAbove act d := by simp [rowsAbove, hkey, hlocal, hin]
      rw [hcons] at hne hnew
      obtain ⟨honce, hvalue⟩ := hclear
      rw [hcons] at honce hvalue
      rw [List.map_cons, List.nodup_cons] at honce
      have hvalid : (p.value == .text "on" || p.value == .text "off") = true := by
        simpa using hvalue p List.mem_cons_self
      have hfresh : (!seen.contains p.dataset.base) = true := by simpa using hnew p List.mem_cons_self
      have hnext : (if (heldOf best).1.length < p.dataset.base.length then (p.dataset.base, p.value == .text "on")
          else heldOf best) = heldOf (some (best.elim p fun b =>
            if b.dataset.base.length < p.dataset.base.length then p else b)) := by
        cases best with
        | none => exact if_pos (List.length_pos_iff.mpr (hne p List.mem_cons_self))
        | some b =>
          rw [Option.elim_some, apply_ite (fun x => heldOf (some x))]
          rfl
      rw [nearestActivation, hskip, if_neg Bool.false_ne_true, hfresh, hvalid, Bool.true_and]
      refine (congrArg (fun held => nearestActivation d (p.dataset.base :: seen) held act) hnext).trans ?_
      rw [ih _ (fun q hq => hne q (List.mem_cons_of_mem _ hq)) (fun q hq => ?_)
        ⟨honce.2, fun q hq => hvalue q (List.mem_cons_of_mem _ hq)⟩, hcons]
      · cases best with
        | none => rfl
        | some b => exact congrArg (fun x => Except.ok (Option.any saysOn x)) (greatest_cons_cons _ b p _).symm
      · rw [List.mem_cons, not_or]
        exact ⟨fun heq => honce.1 (List.mem_map.mpr ⟨q, hq, heq⟩), hnew q (List.mem_cons_of_mem _ hq)⟩
    · have hskip : (p.name != Lifecycle.enabledKey || p.source != .sourceLocal || !inside d p.dataset.base) = true := by
        rw [not_and_or, not_and_or] at hrow
        simp only [Bool.or_eq_true, bne_iff_ne, Bool.not_eq_true', or_assoc]
        exact hrow.imp_right (Or.imp_right Bool.eq_false_of_not_eq_true)
      have hcons : rowsAbove (p :: act) d = rowsAbove act d := by
        refine List.filter_cons_of_neg ?_
        simpa [and_assoc] using hrow
      rw [hcons] at hne hnew
      rw [nearestActivation, if_pos hskip, hcons]
      exact ih best hne hnew ⟨hcons ▸ hclear.once, hcons ▸ hclear.value⟩

theorem locallyActive_eq (hof : OfDatasets act) (hclear : Clear act d) :
    locallyActive act d = .ok ((nearestRow act d).any saysOn) := by
  refine nearestActivation_eq none (fun p hp => ?_) (fun _ _ => List.not_mem_nil) hclear
  obtain ⟨x, hx, hname⟩ := hof p (mem_rowsAbove.mp hp).1
  rw [hname]
  exact hx

end Check

/-! ## What a scan resolves -/

section Resolution

variable {t : Texts} {rows : List Row} {o : Options} {read : Rows} {names : List Dataset} {act : List Property}
  {d : Dataset}

theorem resolveEntries_of_mem (ho : Ordered names) (hd : d ∈ names) :
    resolveEntries t rows o read names d = resolveEntry t rows o read (resolveEntries t rows o read names) d := by
  induction names using List.reverseRecOn with
  | nil => exact absurd hd List.not_mem_nil
  | append_singleton names a ih =>
    have hparent : parentName d ≠ a := by
      intro heq
      rcases List.mem_append.mp hd with hd | hd
      · exact (List.pairwise_append.mp ho.ordered).2.2 d hd a (by simp) (heq ▸ List.dropLast_prefix d)
      · obtain rfl := List.mem_singleton.mp hd
        have hlen := congrArg List.length heq
        have hpos := List.length_pos_iff.mpr (ho.nonempty d (by simp))
        simp only [parentName, List.length_dropLast] at hlen
        omega
    have hsame : ∀ e, resolveEntry t rows o read (Function.update (resolveEntries t rows o read names) a e) d =
        resolveEntry t rows o read (resolveEntries t rows o read names) d := by
      intro e
      simp only [resolveEntry, Function.update_of_ne hparent]
    rw [resolveEntries_concat, hsame]
    by_cases ha : d = a
    · subst ha
      rw [Function.update_self]
    · rw [Function.update_of_ne ha]
      exact ih ho.init ((List.mem_append.mp hd).resolve_right fun hd => ha (List.mem_singleton.mp hd))

theorem resolved_nearest (ho : Ordered names) (hof : OfDatasets act)
    (hread : ∀ d ∈ names, (read.stored d).filter (activationRow d) = act.filter (activationRow d))
    (hd : d ∈ names) (hclear : Clear act d) :
    activation (some (resolveEntries t rows o read names d).policy) =
        (nearestRow act d).map (fun p => ⟨"enabled", t.render p.value, p.dataset.base⟩) ∧
      (resolveEntries t rows o read names d).policy.enabled = (nearestRow act d).any (t.render ·.value == "on") := by
  -- along the parents, as the policies are handed down
  induction d using List.reverseRecOn with
  | nil => exact absurd rfl (ho.nonempty _ hd)
  | append_singleton parent c ih =>
    have hne := ho.nonempty _ hd
    have hparent : parentName (parent ++ [c]) = parent := List.dropLast_concat
    have hown : ownActivation t (parent ++ [c]) (read.stored (parent ++ [c])) =
        ((act.filter (activationRow (parent ++ [c]))).getLast?).map
          fun p => ⟨"enabled", t.render p.value, p.dataset.base⟩ := by
      rw [ownActivation_eq, hread _ hd, List.getLast?_map]
      refine Option.map_congr fun p hp => ?_
      have hp := List.mem_filter.mp (List.mem_of_getLast? hp)
      rw [((activationRow_iff hof hp.1).mp hp.2).2]
    have habove : activation (if parent == [] then none else some (resolveEntries t rows o read names parent).policy) =
        (nearestRow act parent).map fun p => ⟨"enabled", t.render p.value, p.dataset.base⟩ := by
      by_cases hnil : parent = []
      · subst hnil
        rw [nearestRow_nil hof]
        rfl
      · have hmem := (ho.closed _ hd).resolve_left (by rwa [hparent])
        rw [hparent] at hmem
        rw [if_neg (by simpa using hnil)]
        exact (ih hmem (hparent ▸ hclear.parent hof)).1
    rw [resolveEntries_of_mem ho hd, nearestRow_parent hof hclear.once hne, hparent]
    simp only [resolveEntry, activation_resolve hne, resolve_enabled, hown, hparent, habove, ← Option.map_or,
      Option.any_map, and_self]

theorem mem_indexDatasets (h : indexDatasets rows = .ok names) : d ∈ names ↔ d ∈ rows.map Row.name := by
  simp only [indexDatasets, ok_iff] at h
  obtain ⟨-, -, -, rfl⟩ := h
  exact List.mem_insertionSort _

end Resolution

/-! ## Resolutions of a pool -/

/-- What some reading of the pool resolves to. -/
def Resolution (t : Texts) (pool : State) (enabled : Dataset → Bool) : Prop :=
  ∃ (rows : List Row) (o : Options) (read : Rows) (names : List Dataset), Ordered names ∧
    (∀ d, d ∈ names ↔ pool.hasObject (.dataset d) = true) ∧
    (∀ d ∈ names, (read.stored d).filter (activationRow d) = (activationProperties pool).filter (activationRow d)) ∧
    ∀ d, enabled d = (resolveEntries t rows o read names d).policy.enabled

structure Reads (r : Reader) (pool : State) : Prop where
  listed : ∀ rows, r.listDatasets = .ok rows → ∀ d, d ∈ rows.map Row.name ↔ pool.hasObject (.dataset d) = true
  activation : ∀ act, r.activationProperties = .ok act → act = activationProperties pool

section Pool

variable {t : Texts} {pool : State} {enabled : Dataset → Bool} {d : Dataset}

theorem scan_resolves {r : Reader} {o : Options} {retained : List Dataset} {g : Scanned} (hr : Reads r pool)
    (h : scan t r o retained = .ok g) : Resolution t pool fun d => (g.entries d).policy.enabled := by
  obtain ⟨rows, act, read, hrows, hnames, hact, hread, hentries⟩ := scan_eq_ok h
  obtain rfl := hr.activation act hact
  have ho := indexDatasets_ordered hnames
  refine ⟨rows, o, read, g.names, ho, fun d => ?_, hread, fun d => ?_⟩
  · rw [mem_indexDatasets hnames, hr.listed rows hrows]
  · rw [hentries]
    exact (resolved_marked rows read ho).enabled d

theorem Resolution.absent (h : Resolution t pool enabled) (hd : pool.hasObject (.dataset d) = false) :
    enabled d = false := by
  obtain ⟨rows, o, read, names, -, hnames, -, henabled⟩ := h
  rw [henabled, resolveEntries_of_not_mem fun hmem => by simp [(hnames d).mp hmem] at hd]
  rfl

theorem Resolution.nearest (h : Resolution t pool enabled) (ht : ∀ x, t.render (.text x) = x)
    (hof : OfDatasets (activationProperties pool)) (hclear : Clear (activationProperties pool) d)
    (hd : pool.hasObject (.dataset d) = true) :
    enabled d = (nearestRow (activationProperties pool) d).any saysOn := by
  obtain ⟨rows, o, read, names, ho, hnames, hread, henabled⟩ := h
  rw [henabled, (resolved_nearest ho hof hread ((hnames d).mpr hd) hclear).2]
  cases hrow : nearestRow (activationProperties pool) d with
  | none => rfl
  | some p =>
    rw [Option.any_some, Option.any_some, saysOn]
    rcases hclear.value p (greatest_spec hrow).1 with hp | hp <;> rw [hp, ht] <;> simp

end Pool

end Boomerangz.Discovery
