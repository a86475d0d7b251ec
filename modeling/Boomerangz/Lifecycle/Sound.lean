import Boomerangz.Lifecycle.Unblocked
import Boomerangz.Zfs.Listed

/-! # Sound plans

Each action of a sound plan names something that is there, and what is in its way is removed by another.
-/

namespace Boomerangz.Lifecycle

open Zfs

/-! ## The order of actions -/

section Order

variable [Digests] {a b c : CleanAction} {actions xs ys : List CleanAction}

namespace CleanAction

theorem before_iff : a.before b = true ↔ a.rank < b.rank ∨ (a.rank = b.rank ∧
    (a.object.text ≠ b.object.text ∧ textLe a.object.text b.object.text = true ∨
      a.object.text = b.object.text ∧ textLe a.detail b.detail = true)) := by
  unfold before
  by_cases hrank : a.rank = b.rank
  · by_cases htext : a.object.text = b.object.text <;> simp [hrank, htext]
  · simp [hrank]

theorem before_total (a b : CleanAction) : a.before b = true ∨ b.before a = true := by
  rw [before_iff, before_iff]
  rcases lt_trichotomy a.rank b.rank with hlt | heq | hgt
  · exact .inl (.inl hlt)
  · by_cases htext : a.object.text = b.object.text
    · exact (textLe_total a.detail b.detail).imp (fun h => .inr ⟨heq, .inr ⟨htext, h⟩⟩)
        (fun h => .inr ⟨heq.symm, .inr ⟨htext.symm, h⟩⟩)
    · exact (textLe_total a.object.text b.object.text).imp (fun h => .inr ⟨heq, .inl ⟨htext, h⟩⟩)
        (fun h => .inr ⟨heq.symm, .inl ⟨Ne.symm htext, h⟩⟩)
  · exact .inr (.inl hgt)

theorem before_trans (hab : a.before b = true) (hbc : b.before c = true) : a.before c = true := by
  rw [before_iff] at hab hbc ⊢
  rcases hab with hab | ⟨hab, htab⟩
  · exact .inl (hab.trans_le (hbc.elim (·.le) (·.1.le)))
  · rcases hbc with hbc | ⟨hbc, htbc⟩
    · exact .inl (hab.trans_lt hbc)
    · refine .inr ⟨hab.trans hbc, ?_⟩
      rcases htab with ⟨hne, hle⟩ | ⟨heq, hle⟩
      · rcases htbc with ⟨hne', hle'⟩ | ⟨heq', -⟩
        · refine .inl ⟨?_, textLe_trans hle hle'⟩
          intro heq
          exact hne (textLe_antisymm hle (heq ▸ hle'))
        · rw [← heq']
          exact .inl ⟨hne, hle⟩
      · rw [heq]
        exact htbc.imp_right fun h => ⟨h.1, textLe_trans hle h.2⟩

theorem rank_le (h : a.before b = true) : a.rank ≤ b.rank := (before_iff.mp h).elim (·.le) (·.1.le)

end CleanAction

theorem mem_sortCleanActions : a ∈ sortCleanActions actions ↔ a ∈ actions := List.mem_insertionSort _

theorem sortCleanActions_sorted (actions : List CleanAction) :
    (sortCleanActions actions).Pairwise fun a b => a.before b = true := by
  have : Std.Total fun a b : CleanAction => a.before b = true := ⟨CleanAction.before_total⟩
  have : IsTrans CleanAction fun a b => a.before b = true := ⟨fun _ _ _ => CleanAction.before_trans⟩
  exact List.pairwise_insertionSort _ _

theorem before_of_split (h : sortCleanActions actions = xs ++ ys) (ha : a ∈ xs) (hb : b ∈ ys) : a.before b = true :=
  (List.pairwise_append.mp (h ▸ sortCleanActions_sorted actions)).2.2 a ha b hb

theorem mem_of_split (h : sortCleanActions actions = xs ++ ys) : a ∈ actions ↔ a ∈ xs ∨ a ∈ ys := by
  rw [← mem_sortCleanActions, h, List.mem_append]

theorem mem_of_rank_lt (h : sortCleanActions actions = xs ++ ys) (ha : a ∈ xs) (hb : b ∈ actions)
    (hrank : b.rank < a.rank) : b ∈ xs := by
  rcases (mem_of_split h).mp hb with hb | hb
  · exact hb
  · exact absurd (CleanAction.rank_le (before_of_split h ha hb)) (by omega)

end Order

/-! ## Soundness -/

def storedOn (s : State) (n : Name) (k : Key) : Bool :=
  s.properties.any (fun p => p.dataset == n && p.name == k) || s.received.any (fun r => r.1 == n && r.2.1 == k)

def CleanAction.found (s : State) (a : CleanAction) : Bool :=
  a.command.ready s && match a with
    | .inherit n k => storedOn s n k
    | _ => true

structure Sound (s : State) (actions : List CleanAction) : Prop where
  marked : ∀ {x m g}, .destroyBookmark x m g ∈ actions → s.hasObject (.bookmark x m) = true
  held : ∀ {n t g}, .release n t g ∈ actions → n.isSnapshot = true ∧ s.held n t = true
  destroyed : ∀ {n g}, .destroySnapshot n g ∈ actions → n.isSnapshot = true ∧ s.hasObject n = true ∧
    s.clones.any (·.1 == n) = false ∧ ∀ t, s.held n t = true → ∃ g', .release n t g' ∈ actions
  inherited : ∀ {n k}, .inherit n k ∈ actions → s.hasObject n = true ∧ n.isBookmark = false ∧
    storedOn s n k = true ∧ ∀ g, .destroySnapshot n g ∉ actions
  nodup : (actions.map CleanAction.command).Nodup

namespace Sound

variable {s : State} {actions : List CleanAction} {a : CleanAction}

theorem removes (h : Sound s actions) (ha : a ∈ actions) : a.command.removes = true := by
  cases a with
  | destroySnapshot n g =>
    obtain ⟨hn, -⟩ := h.destroyed ha
    cases n with
    | snapshot d c => rfl
    | dataset d => cases hn
    | bookmark d m => cases hn
  | _ => rfl

theorem perm {actions' : List CleanAction} (h : Sound s actions) (hperm : actions'.Perm actions) :
    Sound s actions' where
  marked ha := h.marked (hperm.subset ha)
  held ha := h.held (hperm.subset ha)
  destroyed ha := by
    obtain ⟨hsnapshot, hobject, hclones, hholds⟩ := h.destroyed (hperm.subset ha)
    exact ⟨hsnapshot, hobject, hclones, fun t ht => (hholds t ht).imp fun _ hr => hperm.symm.subset hr⟩
  inherited ha := by
    obtain ⟨hobject, hbookmark, hstored, hkept⟩ := h.inherited (hperm.subset ha)
    exact ⟨hobject, hbookmark, hstored, fun g hg => hkept g (hperm.subset hg)⟩
  nodup := (hperm.map _).nodup_iff.mpr h.nodup

theorem erases_iff {cs : List CleanAction} {n : Name} : (cs.map CleanAction.command).any (·.erases n) = true ↔
    (∃ x m g, n = .bookmark x m ∧ .destroyBookmark x m g ∈ cs) ∨ ∃ g, .destroySnapshot n g ∈ cs := by
  rw [List.any_map, List.any_eq_true]
  constructor
  · rintro ⟨b, hb, herases⟩
    cases b with
    | destroyBookmark x m g => exact .inl ⟨x, m, g, beq_iff_eq.mp herases, hb⟩
    | destroySnapshot n' g =>
      obtain rfl : n = n' := beq_iff_eq.mp herases
      exact .inr ⟨g, hb⟩
    | release n' t g => cases herases
    | inherit n' k => cases herases
  · rintro (⟨x, m, g, rfl, hb⟩ | ⟨g, hb⟩)
    · exact ⟨_, hb, beq_self_eq_true _⟩
    · exact ⟨_, hb, beq_self_eq_true _⟩

variable [Digests] {xs ys : List CleanAction}

theorem fresh (h : Sound s actions) (hsplit : sortCleanActions actions = xs ++ a :: ys) :
    a.command ∉ xs.map CleanAction.command := by
  have hnodup : ((sortCleanActions actions).map CleanAction.command).Nodup :=
    ((List.perm_insertionSort _ actions).map _).nodup_iff.mpr h.nodup
  rw [hsplit, List.map_append, List.map_cons, List.nodup_append] at hnodup
  exact fun hmem => hnodup.2.2 _ hmem _ List.mem_cons_self rfl

theorem mem_taken (hsplit : sortCleanActions actions = xs ++ a :: ys) {b : CleanAction} (hb : b ∈ xs) : b ∈ actions :=
  (mem_of_split hsplit).mpr (.inl hb)

theorem mem_next (hsplit : sortCleanActions actions = xs ++ a :: ys) : a ∈ actions :=
  (mem_of_split hsplit).mpr (.inr List.mem_cons_self)

omit [Digests] in
theorem not_erased {n : Name} (hbookmark : ∀ x m, n ≠ .bookmark x m) (hkept : ∀ g, .destroySnapshot n g ∉ xs) :
    (xs.map CleanAction.command).any (·.erases n) = false := by
  rw [Bool.eq_false_iff, Ne, erases_iff]
  rintro (⟨x, m, -, hn, -⟩ | ⟨g, hb⟩)
  · exact hbookmark x m hn
  · exact hkept g hb

theorem found_bookmark {x : Dataset} {m : Mark} {g : Nat} (h : Sound s actions)
    (hsplit : sortCleanActions actions = xs ++ .destroyBookmark x m g :: ys) :
    (CleanAction.destroyBookmark x m g).found (s.cleared (xs.map CleanAction.command)) = true := by
  have hkept : (xs.map CleanAction.command).any (·.erases (.bookmark x m)) = false := by
    rw [Bool.eq_false_iff, Ne, erases_iff]
    rintro (⟨x', m', g', hn, hb⟩ | ⟨g', hb⟩)
    · obtain ⟨rfl, rfl⟩ := Name.bookmark.inj hn
      exact h.fresh hsplit (List.mem_map.mpr ⟨_, hb, rfl⟩)
    · cases (h.destroyed (mem_taken hsplit hb)).1
  simp [CleanAction.found, CleanAction.command, Command.ready, State.hasObject_cleared, hkept,
    h.marked (mem_next hsplit)]

theorem found_release {n : Name} {t : Tag} {g : Nat} (h : Sound s actions)
    (hsplit : sortCleanActions actions = xs ++ .release n t g :: ys) :
    (CleanAction.release n t g).found (s.cleared (xs.map CleanAction.command)) = true := by
  obtain ⟨hsnapshot, hheld⟩ := h.held (mem_next hsplit)
  have hkept : (xs.map CleanAction.command).any (·.frees (n, t)) = false := by
    rw [Bool.eq_false_iff, Ne, Command.any_frees_iff, erases_iff]
    rintro (hb | ⟨x, m, g', rfl, -⟩ | ⟨g', hb⟩)
    · exact h.fresh hsplit hb
    · cases hsnapshot
    -- a snapshot is destroyed only after its holds are released
    · exact absurd (CleanAction.rank_le (before_of_split hsplit hb List.mem_cons_self)) (by simp [CleanAction.rank])
  simp [CleanAction.found, CleanAction.command, Command.ready, State.held_cleared, hkept, hheld]

theorem found_snapshot {n : Name} {g : Nat} (h : Sound s actions)
    (hsplit : sortCleanActions actions = xs ++ .destroySnapshot n g :: ys) :
    (CleanAction.destroySnapshot n g).found (s.cleared (xs.map CleanAction.command)) = true := by
  obtain ⟨hsnapshot, hobject, hclones, hholds⟩ := h.destroyed (mem_next hsplit)
  have hkept := not_erased (fun x m => by rintro rfl; cases hsnapshot) fun g' hb =>
    h.fresh hsplit (List.mem_map.mpr ⟨.destroySnapshot n g', hb, rfl⟩)
  have hfree : (s.cleared (xs.map CleanAction.command)).holds.any (·.1 == n) = false := by
    rw [List.any_eq_false]
    rintro ⟨n', t⟩ hr hn
    obtain rfl : n' = n := beq_iff_eq.mp hn
    obtain ⟨hmem, hnot⟩ := List.mem_filter.mp hr
    obtain ⟨g', hrelease⟩ := hholds t (State.held_iff.mpr hmem)
    have hdone : CleanAction.release n' t g' ∈ xs := by
      have hnext : sortCleanActions actions = (xs ++ [.destroySnapshot n' g]) ++ ys := by simpa using hsplit
      have := mem_of_rank_lt hnext (List.mem_append_right _ (List.mem_singleton.mpr rfl)) hrelease
        (by simp [CleanAction.rank])
      simpa using this
    have hfrees : (xs.map CleanAction.command).any (·.frees (n', t)) = true :=
      Command.any_frees_iff.mpr (.inl (List.mem_map.mpr ⟨_, hdone, rfl⟩))
    rw [hfrees] at hnot
    cases hnot
  have hclones' : (s.cleared (xs.map CleanAction.command)).clones.any (·.1 == n) = false := by
    rw [List.any_eq_false] at hclones ⊢
    exact fun r hr => hclones r (List.mem_of_mem_filter hr)
  simp [CleanAction.found, CleanAction.command, Command.ready, State.hasObject_cleared, hkept, hobject, hfree, hclones']

theorem found_inherit {n : Name} {k : Key} (h : Sound s actions)
    (hsplit : sortCleanActions actions = xs ++ .inherit n k :: ys) :
    (CleanAction.inherit n k).found (s.cleared (xs.map CleanAction.command)) = true := by
  obtain ⟨hobject, hbookmark, hstored, hnot⟩ := h.inherited (mem_next hsplit)
  have hkept := not_erased (fun x m => by rintro rfl; cases hbookmark) fun g' hb => hnot g' (mem_taken hsplit hb)
  have hstored' : storedOn (s.cleared (xs.map CleanAction.command)) n k = true := by
    simp only [storedOn, Bool.or_eq_true, List.any_eq_true] at hstored ⊢
    refine hstored.imp ?_ ?_
    · rintro ⟨p, hp, hkey⟩
      refine ⟨p, List.mem_filter.mpr ⟨hp, ?_⟩, hkey⟩
      simp only [Bool.and_eq_true, beq_iff_eq] at hkey
      rw [Bool.not_eq_true', Bool.eq_false_iff, Ne, Command.any_drops_iff, hkey.1, hkey.2, hkept]
      rintro (hb | hb)
      · exact h.fresh hsplit hb
      · cases hb
    · rintro ⟨r, hr, hkey⟩
      refine ⟨r, List.mem_filter.mpr ⟨hr, ?_⟩, hkey⟩
      simp only [Bool.and_eq_true, beq_iff_eq] at hkey
      rw [hkey.1, hkept]
      rfl
  simp [CleanAction.found, CleanAction.command, Command.ready, State.hasObject_cleared, hkept, hobject, hstored']

theorem found (h : Sound s actions) (hsplit : sortCleanActions actions = xs ++ a :: ys) :
    a.found (s.cleared (xs.map CleanAction.command)) = true := by
  cases a with
  | destroyBookmark x m g => exact h.found_bookmark hsplit
  | release n t g => exact h.found_release hsplit
  | destroySnapshot n g => exact h.found_snapshot hsplit
  | inherit n k => exact h.found_inherit hsplit

theorem runs (h : Sound s actions) (hsplit : sortCleanActions actions = xs ++ ys) :
    runAll s (xs.map CleanAction.command) = .ok (s.cleared (xs.map CleanAction.command)) := by
  refine (runAll_cleared_iff fun c hc => ?_).mpr ⟨rfl, ?_⟩
  · obtain ⟨b, hb, rfl⟩ := List.mem_map.mp hc
    exact h.removes ((mem_of_split hsplit).mpr (.inl hb))
  · intro cs c cs' hcs
    obtain ⟨zs, rest, rfl, rfl, hrest⟩ := List.map_eq_append_iff.mp hcs
    obtain ⟨b, zs', rfl, rfl, -⟩ := List.map_eq_cons_iff.mp hrest
    have := h.found (hsplit.trans (by rw [List.append_assoc, List.cons_append]))
    simp only [CleanAction.found, Bool.and_eq_true] at this
    exact this.1

end Sound

end Boomerangz.Lifecycle
