import Boomerangz.Zfs.Effect

/-! # Facts that commands spare

A command takes away only what it names: ZFS keeps a held snapshot, and every other row stays.
-/

namespace Boomerangz.Zfs

inductive Fact where
  | hold (d : Dataset) (c : Component) (t : Tag)
  | mark (d : Dataset) (m : Mark)
  | row (d : Dataset) (k : Key) (v : Value)
  | dataset (d : Dataset)
deriving DecidableEq, Repr

def Fact.isIn (s : State) : Fact → Bool
  | hold d c t => s.hasObject (.snapshot d c) && s.held (.snapshot d c) t
  | mark d m => s.hasObject (.bookmark d m)
  | row d k v => s.properties.contains ⟨.dataset d, k, v, .sourceLocal⟩
  | dataset d => s.hasObject (.dataset d)

def Command.spares : Command → Fact → Bool
  | .release t n, .hold d c t' => !(t == t' && n == .snapshot d c)
  | .destroyBookmark d m, .mark d' m' => !(d == d' && m == m')
  | .destroySnapshot n, .mark _ _ => n.isSnapshot
  | .destroySnapshot n, .row _ _ _ => n.isSnapshot
  | .destroySnapshot n, .dataset _ => n.isSnapshot
  | .setProperty n k _, .row d k' _ => !(n == .dataset d && k == k')
  | .inheritProperty n k, .row d k' _ => !(n == .dataset d && k == k')
  | _, _ => true

section Erase

variable {s : State} {n m : Name}

theorem hasObject_erase_ne (h : m ≠ n) : (s.erase n).hasObject m = s.hasObject m := by
  rw [Bool.eq_iff_iff, State.hasObject_iff, State.hasObject_iff]
  constructor
  · rintro ⟨o, ho, rfl⟩
    exact ⟨o, (List.mem_filter.mp ho).1, rfl⟩
  · rintro ⟨o, ho, rfl⟩
    exact ⟨o, List.mem_filter.mpr ⟨ho, by simpa using h⟩, rfl⟩

theorem held_erase_ne {t : Tag} (h : m ≠ n) : (s.erase n).held m t = s.held m t := by
  rw [Bool.eq_iff_iff, State.held_iff, State.held_iff]
  simp [State.erase, h]

theorem Fact.isIn_erase {f : Fact} (hf : f.isIn s = true)
    (h : match f with
      | .hold d c _ => n ≠ .snapshot d c
      | .mark d m => n ≠ .bookmark d m
      | .row d _ _ => n ≠ .dataset d
      | .dataset d => n ≠ .dataset d) : f.isIn (s.erase n) = true := by
  cases f with
  | hold d c t => simpa only [isIn, hasObject_erase_ne h.symm, held_erase_ne h.symm] using hf
  | mark d m => simpa only [isIn, hasObject_erase_ne h.symm] using hf
  | dataset d => simpa only [isIn, hasObject_erase_ne h.symm] using hf
  | row d k v =>
    simp only [isIn, List.contains_iff_mem] at hf ⊢
    exact List.mem_filter.mpr ⟨hf, by simpa using h.symm⟩

end Erase

theorem hasObject_insert {s : State} {o : Object} {n : Name} (h : s.hasObject o.name = false)
    (hn : s.hasObject n = true) : (s.insert o h).hasObject n = true := by
  obtain ⟨p, hp, hname⟩ := State.hasObject_iff.mp hn
  exact State.hasObject_iff.mpr ⟨p, List.mem_append_left _ hp, hname⟩

theorem run_spares {s s' : State} {c : Command} {f : Fact} (h : c.run s = .ok s')
    (hc : c.spares f = true) (hf : f.isIn s = true) : f.isIn s' = true := by
  cases c with
  | setProperty n k v =>
    obtain ⟨-, rfl⟩ := State.setProperty_eq_ok.mp h
    cases f with
    | row d k' v' =>
      simp only [Fact.isIn, List.contains_iff_mem] at hf ⊢
      refine List.mem_append_left _ (List.mem_filter.mpr ⟨hf, ?_⟩)
      simp only [Command.spares, Bool.not_eq_true', Bool.and_eq_false_iff, beq_eq_false_iff_ne] at hc ⊢
      exact hc.imp Ne.symm Ne.symm
    | _ => exact hf
  | inheritProperty n k =>
    obtain ⟨-, rfl⟩ := State.inheritProperty_eq_ok.mp h
    cases f with
    | row d k' v' =>
      simp only [Fact.isIn, List.contains_iff_mem] at hf ⊢
      refine List.mem_filter.mpr ⟨hf, ?_⟩
      simp only [Command.spares, Bool.not_eq_true', Bool.and_eq_false_iff, beq_eq_false_iff_ne] at hc ⊢
      exact hc.imp Ne.symm Ne.symm
    | _ => exact hf
  | hold t n =>
    obtain ⟨-, -, rfl⟩ := State.hold_eq_ok.mp h
    cases f with
    | hold d c t' =>
      simp only [Fact.isIn, Bool.and_eq_true, State.held_iff] at hf ⊢
      exact ⟨hf.1, List.mem_append_left _ hf.2⟩
    | _ => exact hf
  | release t n =>
    obtain ⟨-, rfl⟩ := State.release_eq_ok.mp h
    cases f with
    | hold d c t' =>
      simp only [Fact.isIn, Bool.and_eq_true, State.held_iff] at hf ⊢
      refine ⟨hf.1, List.mem_filter.mpr ⟨hf.2, ?_⟩⟩
      simp only [Command.spares, Bool.not_eq_true', Bool.and_eq_false_iff, beq_eq_false_iff_ne] at hc
      simp only [bne_iff_ne, ne_eq, Prod.mk.injEq, not_and]
      intro hn ht
      exact hc.elim (fun h => h ht.symm) fun h => h hn.symm
    | _ => exact hf
  | bookmark n m =>
    obtain ⟨o, b, -, -, -, -, hnew, rfl⟩ := State.bookmark_eq_ok h
    cases f with
    | row d k v => exact hf
    | hold d c t =>
      simp only [Fact.isIn, Bool.and_eq_true] at hf ⊢
      exact ⟨hasObject_insert hnew hf.1, hf.2⟩
    | mark d m => exact hasObject_insert hnew hf
    | dataset d => exact hasObject_insert hnew hf
  | destroyBookmark d m =>
    obtain ⟨-, rfl⟩ := State.destroyBookmark_eq_ok.mp h
    refine Fact.isIn_erase hf ?_
    cases f with
    | mark d' m' =>
      simp only [Command.spares, Bool.not_eq_true', Bool.and_eq_false_iff, beq_eq_false_iff_ne] at hc
      simp only [ne_eq, Name.bookmark.injEq, not_and]
      intro hd hm
      exact hc.elim (fun h => h hd) fun h => h hm
    | _ => simp
  | destroySnapshot n =>
    obtain ⟨-, hheld, -, rfl⟩ := State.destroySnapshot_eq_ok.mp h
    refine Fact.isIn_erase hf ?_
    cases f with
    | hold d c t =>
      -- ZFS refuses to destroy a held snapshot.
      rintro rfl
      simp only [Fact.isIn, Bool.and_eq_true, State.held_iff] at hf
      simp only [List.any_eq_false, beq_iff_eq] at hheld
      exact hheld _ hf.2 rfl
    | mark d m | row d k v | dataset d =>
      rintro rfl
      cases hc

/-! ## Pools as ZFS has them -/

/-- A snapshot or bookmark has its dataset, a dataset its parents, a hold its snapshot. -/
structure Real (s : State) : Prop where
  dataset : ∀ o ∈ s.objects, s.hasObject (.dataset o.name.base) = true
  parent : ∀ d e, s.hasObject (.dataset d) = true → e ≠ [] → e <+: d → s.hasObject (.dataset e) = true
  held : ∀ h ∈ s.holds, s.hasObject h.1 = true

theorem real_iff {s : State} : Real s ↔ (∀ o ∈ s.objects, s.hasObject (.dataset o.name.base) = true ∧
    ∀ e ∈ o.name.base.inits, e ≠ [] → s.hasObject (.dataset e) = true) ∧ ∀ h ∈ s.holds, s.hasObject h.1 = true := by
  constructor
  · rintro ⟨hdataset, hparent, hheld⟩
    exact ⟨fun o ho => ⟨hdataset o ho, fun e he hne => hparent _ e (hdataset o ho) hne ((List.mem_inits _ _).mp he)⟩, hheld⟩
  · rintro ⟨hobjects, hheld⟩
    refine ⟨fun o ho => (hobjects o ho).1, fun d e hd hne he => ?_, hheld⟩
    obtain ⟨o, ho, hname⟩ := State.hasObject_iff.mp hd
    have := (hobjects o ho).2
    rw [hname] at this
    exact this e ((List.mem_inits _ _).mpr he) hne

instance (s : State) : Decidable (Real s) := decidable_of_iff _ real_iff.symm

theorem Real.erase {s : State} {n : Name} (h : Real s) (hn : ∀ d, n ≠ .dataset d) : Real (s.erase n) where
  dataset o ho := by
    rw [hasObject_erase_ne (hn _).symm]
    exact h.dataset o (List.mem_filter.mp ho).1
  parent d e hd he hp := by
    rw [hasObject_erase_ne (hn _).symm] at hd ⊢
    exact h.parent d e hd he hp
  held x hx := by
    obtain ⟨hx, hne⟩ := List.mem_filter.mp hx
    rw [hasObject_erase_ne (by simpa using hne)]
    exact h.held x hx

theorem Real.run {s s' : State} {c : Command} (h : Real s) (hc : ∀ d, c.spares (.dataset d) = true)
    (hrun : c.run s = .ok s') : Real s' := by
  cases c with
  | setProperty n k v =>
    obtain ⟨-, rfl⟩ := State.setProperty_eq_ok.mp hrun
    exact ⟨h.dataset, h.parent, h.held⟩
  | inheritProperty n k =>
    obtain ⟨-, rfl⟩ := State.inheritProperty_eq_ok.mp hrun
    exact ⟨h.dataset, h.parent, h.held⟩
  | hold t n =>
    obtain ⟨hn, -, rfl⟩ := State.hold_eq_ok.mp hrun
    refine ⟨h.dataset, h.parent, ?_⟩
    intro x hx
    rcases List.mem_append.mp hx with hx | hx
    · exact h.held x hx
    · rw [List.mem_singleton.mp hx]
      exact hn
  | release t n =>
    obtain ⟨-, rfl⟩ := State.release_eq_ok.mp hrun
    exact ⟨h.dataset, h.parent, fun x hx => h.held x (List.mem_filter.mp hx).1⟩
  | bookmark n m =>
    obtain ⟨o, b, ho, hb, -, -, hnew, rfl⟩ := State.bookmark_eq_ok hrun
    obtain ⟨homem, honame⟩ := State.object_eq_some.mp ho
    have hdataset : ∀ d, (s.insert b hnew).hasObject (.dataset d) = s.hasObject (.dataset d) := by
      intro d
      simp [State.hasObject, State.insert, hb]
    refine ⟨?_, ?_, fun x hx => hasObject_insert hnew (h.held x hx)⟩
    · intro x hx
      rw [hdataset]
      rcases List.mem_append.mp hx with hx | hx
      · exact h.dataset x hx
      · rw [List.mem_singleton.mp hx, hb, Name.base_bookmark, ← honame]
        exact h.dataset o homem
    · intro d e hd he hp
      rw [hdataset] at hd ⊢
      exact h.parent d e hd he hp
  | destroyBookmark d m =>
    obtain ⟨-, rfl⟩ := State.destroyBookmark_eq_ok.mp hrun
    exact h.erase (by simp)
  | destroySnapshot n =>
    obtain ⟨-, -, -, rfl⟩ := State.destroySnapshot_eq_ok.mp hrun
    refine h.erase ?_
    rintro d rfl
    cases hc d

end Boomerangz.Zfs
