import Boomerangz.Zfs.Effect

/-! # Removals

What removals leave depends only on which they are, not on their order.
-/

namespace Boomerangz.Zfs

namespace Command

def erases (n : Name) : Command → Bool
  | destroyBookmark d m => n == .bookmark d m
  | destroySnapshot m => n == m
  | _ => false

def drops (p : Property) : Command → Bool
  | inheritProperty n k => p.dataset == n && p.name == k
  | c => c.erases p.dataset

def frees (r : Name × Tag) : Command → Bool
  | release t n => r == (n, t)
  | c => c.erases r.1

theorem any_drops_iff {cs : List Command} {p : Property} : cs.any (·.drops p) = true ↔
    .inheritProperty p.dataset p.name ∈ cs ∨ cs.any (·.erases p.dataset) = true := by
  simp only [List.any_eq_true]
  constructor
  · rintro ⟨c, hc, hdrops⟩
    cases c with
    | inheritProperty n k =>
      simp only [drops, Bool.and_eq_true, beq_iff_eq] at hdrops
      exact .inl (hdrops.1 ▸ hdrops.2 ▸ hc)
    | _ => exact .inr ⟨_, hc, hdrops⟩
  · rintro (hc | ⟨c, hc, herases⟩)
    · exact ⟨_, hc, by simp [drops]⟩
    · refine ⟨c, hc, ?_⟩
      cases c with
      | inheritProperty n k => cases herases
      | _ => exact herases

theorem any_frees_iff {cs : List Command} {r : Name × Tag} : cs.any (·.frees r) = true ↔
    .release r.2 r.1 ∈ cs ∨ cs.any (·.erases r.1) = true := by
  simp only [List.any_eq_true]
  constructor
  · rintro ⟨c, hc, hfrees⟩
    cases c with
    | release t n =>
      obtain rfl := beq_iff_eq.mp hfrees
      exact .inl hc
    | _ => exact .inr ⟨_, hc, hfrees⟩
  · rintro (hc | ⟨c, hc, herases⟩)
    · exact ⟨_, hc, beq_self_eq_true r⟩
    · refine ⟨c, hc, ?_⟩
      cases c with
      | release t n => cases herases
      | _ => exact herases

def ready (s : State) : Command → Bool
  | inheritProperty n _ => s.hasObject n
  | release t n => s.held n t
  | destroyBookmark d m => s.hasObject (.bookmark d m)
  | destroySnapshot n => s.hasObject n && !s.holds.any (·.1 == n) && !s.clones.any (·.1 == n)
  | _ => false

def once : Command → Bool
  | inheritProperty _ _ => false
  | _ => true

theorem erases_dataset {c : Command} (hc : c.removes = true) (d : Dataset) : c.erases (.dataset d) = false := by
  cases c with
  | destroySnapshot n =>
    cases n with
    | snapshot e c => rfl
    | dataset e => cases hc
    | bookmark e m => cases hc
  | _ => rfl

theorem any_erases_dataset {cs : List Command} (hcs : ∀ c ∈ cs, c.removes = true) (d : Dataset) :
    cs.any (·.erases (.dataset d)) = false := by
  rw [List.any_eq_false]
  intro c hc
  rw [erases_dataset (hcs c hc)]
  decide

end Command

namespace State

def cleared (s : State) (cs : List Command) : State where
  objects := s.objects.filter fun o => !cs.any (·.erases o.name)
  properties := s.properties.filter fun p => !cs.any (·.drops p)
  received := s.received.filter fun r => !cs.any (·.erases r.1)
  resumeTokens := s.resumeTokens
  clones := s.clones.filter fun r => !cs.any (·.erases r.1)
  holds := s.holds.filter fun r => !cs.any (·.frees r)
  distinct := (List.Sublist.map Object.name List.filter_sublist).nodup s.distinct

section Cleared

variable {s s' : State} {c : Command} {cs xs ys : List Command} {n : Name}

@[simp] theorem cleared_nil : s.cleared [] = s := by simp [cleared]

theorem cleared_append : (s.cleared xs).cleared ys = s.cleared (xs ++ ys) := by
  simp only [cleared, List.filter_filter, List.any_append, Bool.not_or, Bool.and_comm]

theorem restrict_cleared {p : Dataset → Bool} : (s.cleared cs).restrict p = (s.restrict p).cleared cs := by
  simp only [cleared, restrict, List.filter_filter, Bool.and_comm]

theorem hasObject_cleared : (s.cleared cs).hasObject n = (s.hasObject n && !cs.any (·.erases n)) := by
  rw [Bool.eq_iff_iff]
  simp only [hasObject_iff, cleared, List.mem_filter, Bool.and_eq_true]
  constructor
  · rintro ⟨o, ⟨hmem, hkeep⟩, rfl⟩
    exact ⟨⟨o, hmem, rfl⟩, hkeep⟩
  · rintro ⟨⟨o, hmem, rfl⟩, hkeep⟩
    exact ⟨o, ⟨hmem, hkeep⟩, rfl⟩

theorem held_cleared {t : Tag} : (s.cleared cs).held n t = (s.held n t && !cs.any (·.frees (n, t))) := by
  rw [Bool.eq_iff_iff]
  simp only [held_iff, cleared, List.mem_filter, Bool.and_eq_true]

theorem cleared_inherit (s : State) (n : Name) (k : Key) : s.cleared [.inheritProperty n k] =
    { s with properties := s.properties.filter fun r => !(r.dataset == n && r.name == k) } := by
  simp [cleared, Command.erases, Command.drops, Command.frees]

theorem cleared_release (s : State) (t : Tag) (n : Name) : s.cleared [.release t n] =
    { s with holds := s.holds.filter (· != (n, t)) } := by
  simp only [cleared, List.any_cons, List.any_nil, Command.erases, Command.drops, Command.frees, Bool.or_false,
    Bool.not_false, List.filter_true]
  rfl

theorem cleared_erase (s : State) (herases : ∀ x, c.erases x = (x == n)) (hdrops : ∀ p, c.drops p = (p.dataset == n))
    (hfrees : ∀ r, c.frees r = (r.1 == n)) : s.cleared [c] = s.erase n := by
  simp only [cleared, List.any_cons, List.any_nil, herases, hdrops, hfrees, Bool.or_false]
  rfl

theorem cleared_destroyBookmark (s : State) (d : Dataset) (m : Mark) :
    s.cleared [.destroyBookmark d m] = s.erase (.bookmark d m) :=
  s.cleared_erase (fun _ => rfl) (fun _ => rfl) (fun _ => rfl)

theorem cleared_destroySnapshot (s : State) (n : Name) : s.cleared [.destroySnapshot n] = s.erase n :=
  s.cleared_erase (fun _ => rfl) (fun _ => rfl) (fun _ => rfl)

end Cleared

end State

section Run

variable {s s' : State} {c : Command} {cs : List Command}

theorem run_removal (hc : c.removes = true) : c.run s = .ok s' ↔ c.ready s = true ∧ s' = s.cleared [c] := by
  cases c with
  | inheritProperty n k =>
    rw [State.cleared_inherit]
    exact State.inheritProperty_eq_ok
  | release t n =>
    rw [State.cleared_release]
    exact State.release_eq_ok
  | destroyBookmark d m =>
    rw [State.cleared_destroyBookmark]
    exact State.destroyBookmark_eq_ok
  | destroySnapshot n =>
    simp only [State.cleared_destroySnapshot, Command.ready, Bool.and_eq_true, Bool.not_eq_true', and_assoc]
    exact State.destroySnapshot_eq_ok
  | setProperty n k v => cases hc
  | hold t n => cases hc
  | bookmark n m => cases hc

theorem not_mem_of_ready {xs : List Command} (honce : c.once = true) (hready : c.ready (s.cleared xs) = true) :
    c ∉ xs := by
  intro hc
  cases c with
  | release t n =>
    simp only [Command.ready, State.held_cleared, Bool.and_eq_true, Bool.not_eq_true', List.any_eq_false] at hready
    exact hready.2 _ hc (beq_self_eq_true (n, t))
  | destroyBookmark d m =>
    simp only [Command.ready, State.hasObject_cleared, Bool.and_eq_true, Bool.not_eq_true', List.any_eq_false] at hready
    exact hready.2 _ hc (beq_self_eq_true (Name.bookmark d m))
  | destroySnapshot n =>
    simp only [Command.ready, State.hasObject_cleared, Bool.and_eq_true, Bool.not_eq_true', List.any_eq_false] at hready
    exact hready.1.1.2 _ hc (beq_self_eq_true n)
  | inheritProperty n k => cases honce
  | setProperty n k v => cases hready
  | hold t n => cases hready
  | bookmark n m => cases hready

theorem runAll_cleared_iff (hcs : ∀ c ∈ cs, c.removes = true) : runAll s cs = .ok s' ↔
    s' = s.cleared cs ∧ ∀ xs c ys, cs = xs ++ c :: ys → c.ready (s.cleared xs) = true := by
  induction cs generalizing s with
  | nil =>
    rw [runAll_nil, State.cleared_nil]
    refine ⟨fun h => ⟨h.symm, fun xs c ys hsplit => ?_⟩, fun h => h.1.symm⟩
    simp at hsplit
  | cons c cs ih =>
    have hc := hcs c List.mem_cons_self
    have hpeel : ∀ zs, (s.cleared [c]).cleared zs = s.cleared (c :: zs) := fun _ => State.cleared_append
    have ih := fun t => @ih t fun x hx => hcs x (List.mem_cons_of_mem _ hx)
    rw [runAll_cons]
    constructor
    · rintro ⟨t, hrun, hrest⟩
      obtain ⟨hfirst, rfl⟩ := (run_removal hc).mp hrun
      obtain ⟨rfl, hready⟩ := (ih _).mp hrest
      refine ⟨hpeel cs, ?_⟩
      intro xs x ys hsplit
      cases xs with
      | nil =>
        obtain ⟨rfl, -⟩ := List.cons.inj hsplit
        rw [State.cleared_nil]
        exact hfirst
      | cons z xs =>
        obtain ⟨rfl, rfl⟩ := List.cons.inj hsplit
        have := hready xs x ys rfl
        rwa [hpeel] at this
    · rintro ⟨rfl, hready⟩
      have hfirst := hready [] c cs rfl
      rw [State.cleared_nil] at hfirst
      refine ⟨_, (run_removal hc).mpr ⟨hfirst, rfl⟩, (ih _).mpr ⟨(hpeel cs).symm, ?_⟩⟩
      rintro xs x ys rfl
      rw [hpeel]
      exact hready (c :: xs) x ys rfl

theorem runUntil_cleared (hcs : ∀ c ∈ cs, c.removes = true) (cut : Option Nat) : ∃ xs ys, cs = xs ++ ys ∧
    (runUntil s cs cut).1 = s.cleared xs ∧
    ∀ c zs, ys = c :: zs → cut = some xs.length ∨ c.ready (s.cleared xs) = false := by
  induction cs generalizing s cut with
  | nil => exact ⟨[], [], rfl, State.cleared_nil.symm, by simp⟩
  | cons c cs ih =>
    have hc := hcs c List.mem_cons_self
    by_cases hcut : cut = some 0
    · subst hcut
      exact ⟨[], c :: cs, rfl, State.cleared_nil.symm, fun _ _ _ => .inl rfl⟩
    by_cases hready : c.ready s = true
    · obtain ⟨xs, ys, rfl, hstate, hstuck⟩ :=
        @ih (s.cleared [c]) (fun x hx => hcs x (List.mem_cons_of_mem _ hx)) (cut.map (· - 1))
      rw [State.cleared_append] at hstate hstuck
      refine ⟨c :: xs, ys, rfl, ?_, fun x zs hx => (hstuck x zs hx).imp_left fun hlength => ?_⟩
      · rw [runUntil.eq_3 _ _ _ _ hcut, (run_removal hc).mpr ⟨hready, rfl⟩]
        exact hstate
      · obtain ⟨k, rfl, hk⟩ := Option.map_eq_some_iff.mp hlength
        have hpos : k ≠ 0 := fun h => hcut (by rw [h])
        rw [List.length_cons]
        congr 1
        omega
    · refine ⟨[], c :: cs, rfl, ?_, fun x zs hx => .inr ?_⟩
      · rw [State.cleared_nil, runUntil.eq_3 _ _ _ _ hcut]
        cases hrun : c.run s with
        | error e => rfl
        | ok t => exact absurd ((run_removal hc).mp hrun).1 hready
      · obtain ⟨rfl, -⟩ := List.cons.inj hx
        rw [State.cleared_nil]
        exact Bool.not_eq_true _ ▸ hready

theorem once_nodup_of_runAll (hcs : ∀ c ∈ cs, c.removes = true) (h : runAll s cs = .ok s') :
    (cs.filter Command.once).Nodup :=
  Lists.nodup_filter_of_fresh fun xs c ys hsplit honce =>
    not_mem_of_ready honce (((runAll_cleared_iff hcs).mp h).2 xs c ys hsplit)

end Run

end Boomerangz.Zfs
