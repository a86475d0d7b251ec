import Boomerangz.Zfs.Command

/-! # What commands change

A command touches one dataset's rows, and what only removes things is done for good.
-/

open Check

namespace Boomerangz.Zfs

variable {s s' : State} {cs : List Command} {c : Command}

/-! ## Footprints -/

def Command.base : Command → Dataset
  | .setProperty n _ _ => n.base
  | .inheritProperty n _ => n.base
  | .hold _ n => n.base
  | .release _ n => n.base
  | .bookmark n _ => n.base
  | .destroyBookmark d _ => d
  | .destroySnapshot n => n.base

namespace State

variable {s s' : State}

section Restrict

variable {s : State} {p : Dataset → Bool}

theorem filter_restrict {α : Type} {q r : α → Bool} {l : List α} (h : ∀ x, q x = true → r x = true) :
    (l.filter r).filter q = l.filter q := by
  rw [List.filter_filter]
  refine List.filter_congr fun x _ => ?_
  cases hq : q x with
  | false => rfl
  | true => rw [h x hq, Bool.and_self]

theorem restrict_erase {n : Name} (h : p n.base = false) : (s.erase n).restrict p = s.restrict p := by
  have hne : ∀ m : Name, p m.base = true → (m != n) = true := by
    intro m hm
    have : m ≠ n := by
      rintro rfl
      simp [h] at hm
    simpa using this
  simp only [restrict, erase, State.mk.injEq, true_and]
  exact ⟨filter_restrict fun o => hne o.name, filter_restrict fun r => hne r.dataset,
    filter_restrict fun r => hne r.1, filter_restrict fun r => hne r.1, filter_restrict fun r => hne r.1⟩

theorem filter_key {n : Name} (k : Key) (l : List Property) (h : p n.base = false) :
    (l.filter (fun r => !(r.dataset == n && r.name == k))).filter (fun r => p r.dataset.base) =
      l.filter (fun r => p r.dataset.base) := by
  refine filter_restrict fun r hr => ?_
  have : r.dataset ≠ n := by
    rintro rfl
    simp [h] at hr
  simp [this]

theorem restrict_insert {o : Object} (h : s.hasObject o.name = false) (hp : p o.name.base = false) :
    (s.insert o h).restrict p = s.restrict p := by
  simp [restrict, insert, List.filter_append, hp]

end Restrict

theorem hold_eq_ok {t : Tag} {n : Name} :
    s.hold t n = .ok s' ↔ s.hasObject n = true ∧ s.held n t = false ∧
      s' = { s with holds := s.holds ++ [(n, t)] } := by
  simp only [hold, ok_iff, Bool.not_eq_eq_eq_not, Bool.not_true]
  tauto

theorem release_eq_ok {t : Tag} {n : Name} :
    s.release t n = .ok s' ↔ s.held n t = true ∧
      s' = { s with holds := s.holds.filter (· != (n, t)) } := by
  simp only [release, ok_iff]
  tauto

theorem destroyBookmark_eq_ok {d : Dataset} {m : Mark} :
    s.destroyBookmark d m = .ok s' ↔ s.hasObject (.bookmark d m) = true ∧ s' = s.erase (.bookmark d m) := by
  simp only [destroyBookmark, ok_iff]
  tauto

theorem destroySnapshot_eq_ok {n : Name} :
    s.destroySnapshot n = .ok s' ↔ s.hasObject n = true ∧ s.holds.any (·.1 == n) = false ∧
      s.clones.any (·.1 == n) = false ∧ s' = s.erase n := by
  simp only [destroySnapshot, ok_iff, Bool.not_eq_eq_eq_not, Bool.not_true]
  tauto

theorem setProperty_eq_ok {n : Name} {k : Key} {v : Value} :
    s.setProperty n k v = .ok s' ↔ s.hasObject n = true ∧ s' = { s with
      properties := s.properties.filter (fun r => !(r.dataset == n && r.name == k)) ++
        [⟨n, k, v, .sourceLocal⟩] } := by
  simp only [setProperty, ok_iff]
  tauto

theorem localRows_eq_nil {d : Dataset} {k : Key} (h : ∀ r ∈ s.properties, r.dataset = .dataset d → r.name ≠ k) :
    s.localRows d k = [] := by
  rw [localRows, List.filter_eq_nil_iff]
  intro r hr hrow
  simp only [Bool.and_eq_true, beq_iff_eq] at hrow
  exact h r hr hrow.1.1 hrow.1.2

theorem localRows_setProperty {d : Dataset} {k : Key} {v : Value} (h : s.setProperty (.dataset d) k v = .ok s') :
    s'.localRows d k = [⟨.dataset d, k, v, .sourceLocal⟩] := by
  obtain ⟨-, rfl⟩ := setProperty_eq_ok.mp h
  rw [localRows, List.filter_append]
  have hnone : localRows { s with properties := s.properties.filter fun r => !(r.dataset == .dataset d && r.name == k) }
      d k = [] := localRows_eq_nil fun r hr hd hk => by simp [hd, hk] at hr
  rw [localRows] at hnone
  rw [hnone]
  simp

theorem inheritProperty_eq_ok {n : Name} {k : Key} :
    s.inheritProperty n k = .ok s' ↔ s.hasObject n = true ∧ s' = { s with
      properties := s.properties.filter (fun r => !(r.dataset == n && r.name == k)) } := by
  simp only [inheritProperty, ok_iff]
  tauto

theorem bookmark_eq_ok {n : Name} {m : Mark} (h : s.bookmark n m = .ok s') :
    ∃ o b, s.object n = some o ∧ b.name = .bookmark n.base m ∧ b.guid = o.guid ∧
      b.createTXG = o.createTXG ∧ ∃ hb : s.hasObject b.name = false, s' = s.insert b hb := by
  unfold bookmark at h
  split at h
  · cases h
  · rename_i o ho
    split at h
    · rename_i hb
      exact ⟨o, ⟨.bookmark n.base m, .bookmark, o.guid, o.createTXG, _, rfl, o.guid_ne, o.txg_ne⟩, ho, rfl,
        rfl, rfl, hb, (Except.ok.inj h).symm⟩
    · cases h

theorem bookmark_ok {n : Name} {m : Mark} {o : Object} (ho : s.object n = some o)
    (hfree : s.hasObject (.bookmark n.base m) = false) : ∃ t, s.bookmark n m = .ok t := by
  unfold State.bookmark
  split
  · rename_i hnone
    rw [hnone] at ho
    cases ho
  · rw [dif_pos hfree]
    exact ⟨_, rfl⟩

end State

theorem run_restrict {p : Dataset → Bool} (h : c.run s = .ok s')
    (hp : p c.base = false) : s'.restrict p = s.restrict p := by
  cases c with
  | setProperty n k v =>
    obtain ⟨-, rfl⟩ := State.setProperty_eq_ok.mp h
    have hnew : p n.base = false := hp
    simp only [State.restrict, List.filter_append, State.filter_key k s.properties hnew]
    simp [hnew]
  | inheritProperty n k =>
    obtain ⟨-, rfl⟩ := State.inheritProperty_eq_ok.mp h
    simp only [State.restrict, State.filter_key k s.properties hp]
  | hold t n =>
    obtain ⟨-, -, rfl⟩ := State.hold_eq_ok.mp h
    have hnew : p n.base = false := hp
    simp [State.restrict, List.filter_append, hnew]
  | release t n =>
    obtain ⟨-, rfl⟩ := State.release_eq_ok.mp h
    have hkeep : ∀ r : Name × Tag, p r.1.base = true → (r != (n, t)) = true := by
      intro r hr
      have : r ≠ (n, t) := by
        rintro rfl
        simp [Command.base, hr] at hp
      simpa using this
    simp [State.restrict, State.filter_restrict hkeep]
  | bookmark n m =>
    obtain ⟨o, b, -, hb, -, -, hnew, rfl⟩ := State.bookmark_eq_ok h
    exact State.restrict_insert hnew (by rw [hb]; exact hp)
  | destroyBookmark d m =>
    obtain ⟨-, rfl⟩ := State.destroyBookmark_eq_ok.mp h
    exact State.restrict_erase hp
  | destroySnapshot n =>
    obtain ⟨-, -, -, rfl⟩ := State.destroySnapshot_eq_ok.mp h
    exact State.restrict_erase hp

/-! ## Lists of commands -/

theorem runAll_cons :
    runAll s (c :: cs) = .ok s' ↔ ∃ t, c.run s = .ok t ∧ runAll t cs = .ok s' := by
  simp only [runAll, List.foldlM_cons, bind_eq_ok]

theorem runAll_nil : runAll s [] = .ok s' ↔ s = s' := by
  simp only [runAll, List.foldlM_nil, pure_eq_ok]

theorem runAll_invariant {I : State → Prop} (h : runAll s cs = .ok s')
    (hs : I s) (hstep : ∀ c ∈ cs, ∀ t t', I t → c.run t = .ok t' → I t') : I s' :=
  foldlM_invariant h hs hstep

theorem runAll_restrict {p : Dataset → Bool} (h : runAll s cs = .ok s')
    (hp : ∀ c ∈ cs, p c.base = false) : s'.restrict p = s.restrict p :=
  runAll_invariant (I := fun t => t.restrict p = s.restrict p) h rfl
    fun c hc _ _ ht hrun => (run_restrict hrun (hp c hc)).trans ht

theorem runUntil_invariant {I : State → Prop} {s : State} {cut : Option Nat} (hs : I s)
    (hstep : ∀ c ∈ cs, ∀ t t', I t → c.run t = .ok t' → I t') : I (runUntil s cs cut).1 := by
  fun_induction runUntil s cs cut with
  | case1 s cut => exact hs
  | case2 s c cs => exact hs
  | case3 s c cs cut hne e he => exact hs
  | case4 s c cs cut hne t ht ih =>
    exact ih (hstep c (by simp) s t hs ht) fun c' hc' => hstep c' (by simp [hc'])

/-! ## Removals -/

def Command.removes : Command → Bool
  | .inheritProperty _ _ => true
  | .release _ _ => true
  | .destroyBookmark _ _ => true
  | .destroySnapshot (.snapshot _ _) => true
  | _ => false

def Command.done (s : State) : Command → Prop
  | .inheritProperty n k => ∀ r ∈ s.properties, ¬ (r.dataset = n ∧ r.name = k)
  | .release t n => s.held n t = false
  | .destroyBookmark d m => s.hasObject (.bookmark d m) = false
  | .destroySnapshot n => s.hasObject n = false
  | _ => False

structure Within (s' s : State) : Prop where
  objects : s'.objects ⊆ s.objects
  properties : s'.properties ⊆ s.properties
  holds : s'.holds ⊆ s.holds
  datasets : s'.objects.filter Object.isDataset = s.objects.filter Object.isDataset

theorem Within.refl (s : State) : Within s s := ⟨fun _ => id, fun _ => id, fun _ => id, rfl⟩

theorem Within.trans {s s' s'' : State} (h : Within s'' s') (h' : Within s' s) : Within s'' s :=
  ⟨fun _ hx => h'.objects (h.objects hx), fun _ hx => h'.properties (h.properties hx),
    fun _ hx => h'.holds (h.holds hx), h.datasets.trans h'.datasets⟩

theorem within_erase {s : State} {n : Name} (h : ∀ d, n ≠ .dataset d) : Within (s.erase n) s where
  objects := List.filter_subset_self _
  properties := List.filter_subset_self _
  holds := List.filter_subset_self _
  datasets := by
    refine State.filter_restrict fun o ho => ?_
    obtain ⟨d, hd⟩ := o.isDataset_iff.mp ho
    have : o.name ≠ n := by
      rw [hd]
      exact (h d).symm
    simpa using this

theorem hasObject_erase (s : State) (n : Name) : (s.erase n).hasObject n = false := by
  simp [State.hasObject, State.erase]

theorem run_removes (hc : c.removes = true) (h : c.run s = .ok s') :
    Within s' s ∧ c.done s' := by
  cases c with
  | inheritProperty n k =>
    obtain ⟨-, rfl⟩ := State.inheritProperty_eq_ok.mp h
    refine ⟨⟨fun _ => id, List.filter_subset_self _, fun _ => id, rfl⟩, ?_⟩
    rintro r hr ⟨rfl, rfl⟩
    simp at hr
  | release t n =>
    obtain ⟨-, rfl⟩ := State.release_eq_ok.mp h
    exact ⟨⟨fun _ => id, fun _ => id, List.filter_subset_self _, rfl⟩, by simp [Command.done, State.held]⟩
  | destroyBookmark d m =>
    obtain ⟨-, rfl⟩ := State.destroyBookmark_eq_ok.mp h
    exact ⟨within_erase (by simp), hasObject_erase _ _⟩
  | destroySnapshot n =>
    obtain ⟨-, -, -, rfl⟩ := State.destroySnapshot_eq_ok.mp h
    cases n with
    | snapshot d c => exact ⟨within_erase (by simp), hasObject_erase _ _⟩
    | dataset d => cases hc
    | bookmark d m => cases hc
  | setProperty n k v => cases hc
  | hold t n => cases hc
  | bookmark n m => cases hc

theorem Within.held (h : Within s' s) {n : Name} {t : Tag} (hs : s.held n t = false) :
    s'.held n t = false := by
  rw [← Bool.not_eq_true, State.held_iff] at hs ⊢
  exact fun hm => hs (h.holds hm)

theorem Within.hasObject (h : Within s' s) {n : Name} (hs : s.hasObject n = false) :
    s'.hasObject n = false := by
  rw [← Bool.not_eq_true, State.hasObject_iff] at hs ⊢
  rintro ⟨o, ho, hn⟩
  exact hs ⟨o, h.objects ho, hn⟩

theorem Within.done (h : Within s' s) (hc : c.done s) : c.done s' := by
  cases c with
  | inheritProperty n k => exact fun r hr => hc r (h.properties hr)
  | release t n => exact h.held hc
  | destroyBookmark d m => exact h.hasObject hc
  | destroySnapshot n => exact h.hasObject hc
  | setProperty n k v => cases hc
  | hold t n => cases hc
  | bookmark n m => cases hc

theorem runAll_within (h : runAll s cs = .ok s')
    (hcs : ∀ c ∈ cs, c.removes = true) : Within s' s :=
  runAll_invariant (I := fun t => Within t s) h (.refl s)
    fun c hc _ _ ht hrun => (run_removes (hcs c hc) hrun).1.trans ht

theorem runAll_done (h : runAll s cs = .ok s')
    (hcs : ∀ c ∈ cs, c.removes = true) (hc : c ∈ cs) : c.done s' := by
  induction cs generalizing s with
  | nil => simp at hc
  | cons c' cs ih =>
    obtain ⟨t, hrun, hrest⟩ := runAll_cons.mp h
    have hrest' := fun x (hx : x ∈ cs) => hcs x (by simp [hx])
    rcases List.mem_cons.mp hc with rfl | hc
    · exact (runAll_within hrest hrest').done (run_removes (hcs c (by simp)) hrun).2
    · exact ih hrest hrest' hc

structure Thinned (s' s : State) : Prop where
  properties : ∃ keep : Name → Key → Bool, s'.properties = s.properties.filter (fun r => keep r.dataset r.name)
  received : ∀ d, s'.received.filter (·.1 == .dataset d) = s.received.filter (·.1 == .dataset d)
  dataset : ∀ d, s'.object (.dataset d) = s.object (.dataset d)

theorem Thinned.refl (s : State) : Thinned s s := ⟨⟨fun _ _ => true, by simp⟩, fun _ => rfl, fun _ => rfl⟩

theorem Thinned.trans {s s' s'' : State} (h : Thinned s'' s') (h' : Thinned s' s) : Thinned s'' s := by
  obtain ⟨⟨keep, hp⟩, hr, ho⟩ := h
  obtain ⟨⟨keep', hp'⟩, hr', ho'⟩ := h'
  refine ⟨⟨fun n k => keep n k && keep' n k, ?_⟩, fun d => (hr d).trans (hr' d), fun d => (ho d).trans (ho' d)⟩
  rw [hp, hp', List.filter_filter]

theorem thinned_erase {s : State} {n : Name} (h : ∀ d, n ≠ .dataset d) : Thinned (s.erase n) s where
  properties := ⟨fun m _ => m != n, rfl⟩
  received := by
    intro d
    refine State.filter_restrict fun r hr => ?_
    have : r.1 ≠ n := by
      rw [beq_iff_eq.mp hr]
      exact (h d).symm
    simpa using this
  dataset := by
    intro d
    simp only [State.object, State.erase, List.find?_filter]
    congr 1
    funext o
    by_cases ho : o.name = .dataset d
    · simp [ho, (h d).symm]
    · simp [ho]

theorem run_thinned (hc : c.removes = true) (h : c.run s = .ok s') :
    Thinned s' s := by
  cases c with
  | inheritProperty n k =>
    obtain ⟨-, rfl⟩ := State.inheritProperty_eq_ok.mp h
    exact ⟨⟨fun m l => !(m == n && l == k), rfl⟩, fun _ => rfl, fun _ => rfl⟩
  | release t n =>
    obtain ⟨-, rfl⟩ := State.release_eq_ok.mp h
    exact ⟨⟨fun _ _ => true, by simp⟩, fun _ => rfl, fun _ => rfl⟩
  | destroyBookmark d m =>
    obtain ⟨-, rfl⟩ := State.destroyBookmark_eq_ok.mp h
    exact thinned_erase (by simp)
  | destroySnapshot n =>
    obtain ⟨-, -, -, rfl⟩ := State.destroySnapshot_eq_ok.mp h
    cases n with
    | snapshot d c => exact thinned_erase (by simp)
    | dataset d => cases hc
    | bookmark d m => cases hc
  | setProperty n k v => cases hc
  | hold t n => cases hc
  | bookmark n m => cases hc

theorem runUntil_thinned {s : State} {cut : Option Nat} (hcs : ∀ c ∈ cs, c.removes = true) :
    Thinned (runUntil s cs cut).1 s :=
  runUntil_invariant (I := fun t => Thinned t s) (.refl s)
    fun c hc _ _ ht hrun => (run_thinned (hcs c hc) hrun).trans ht

end Boomerangz.Zfs
