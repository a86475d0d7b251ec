import Mathlib.Data.List.Basic

/-! # Depth-first expansion

Inner items stand for what they lead to, possibly in cycles. An expansion finds what is reachable, and ends.
-/

namespace Expansion

universe u

variable {α : Type u} {inner : α → Bool} {next : α → List α} {l m : List α} {marks : List α} {x a : α}

inductive Reach (inner : α → Bool) (next : α → List α) : List α → α → Prop where
  | leaf {l : List α} {x : α} : x ∈ l → inner x = false → Reach inner next l x
  | step {l : List α} {x a : α} : a ∈ l → inner a = true → Reach inner next (next a) x → Reach inner next l x

inductive Avoids (inner : α → Bool) (next : α → List α) : List α → List α → α → Prop where
  | leaf {marks l : List α} {x : α} : x ∈ l → inner x = false → Avoids inner next marks l x
  | step {marks l : List α} {x a : α} : a ∈ l → inner a = true → a ∉ marks →
      Avoids inner next (a :: marks) (next a) x → Avoids inner next marks l x

def Path (inner : α → Bool) (next : α → List α) : List α → List α → α → Prop
  | [], l, x => x ∈ l ∧ inner x = false
  | a :: way, l, x => a ∈ l ∧ inner a = true ∧ Path inner next way (next a) x

theorem Reach.path (h : Reach inner next l x) : ∃ way, Path inner next way l x := by
  induction h with
  | leaf hx hleaf => exact ⟨[], hx, hleaf⟩
  | step ha hinner _ ih =>
    obtain ⟨way, hway⟩ := ih
    exact ⟨_ :: way, ha, hinner, hway⟩

theorem Path.after {before after : List α} (h : Path inner next (before ++ a :: after) l x) :
    Path inner next after (next a) x := by
  induction before generalizing l with
  | nil => exact h.2.2
  | cons b before ih => exact ih h.2.2

theorem Path.avoids {way : List α} (h : Path inner next way l x) (hmarks : ∀ a ∈ way, a ∉ marks) :
    Avoids inner next marks l x := by
  induction hn : way.length using Nat.strongRecOn generalizing way l marks with
  | ind n ih =>
    cases way with
    | nil => exact .leaf h.1 h.2
    | cons a way =>
      obtain ⟨ha, hinner, hrest⟩ := h
      by_cases hback : a ∈ way
      · obtain ⟨before, after, rfl⟩ := List.append_of_mem hback
        have hshort : Path inner next (a :: after) l x := ⟨ha, hinner, hrest.after⟩
        refine ih _ ?_ hshort (fun b hb => hmarks b ?_) rfl
        · simp only [← hn, List.length_cons, List.length_append]
          omega
        · exact List.mem_cons_of_mem _ (List.mem_append_right _ hb)
      · refine .step ha hinner (hmarks a List.mem_cons_self) (ih _ ?_ hrest (fun b hb => ?_) rfl)
        · simp only [← hn, List.length_cons]
          omega
        · rw [List.mem_cons, not_or]
          refine ⟨?_, hmarks b (List.mem_cons_of_mem _ hb)⟩
          rintro rfl
          exact hback hb

theorem Avoids.reach (h : Avoids inner next marks l x) : Reach inner next l x := by
  induction h with
  | leaf hx hleaf => exact .leaf hx hleaf
  | step ha hinner _ _ ih => exact .step ha hinner ih

theorem avoids_nil : Avoids inner next [] l x ↔ Reach inner next l x := by
  refine ⟨Avoids.reach, fun h => ?_⟩
  obtain ⟨way, hway⟩ := h.path
  exact hway.avoids fun _ _ => List.not_mem_nil

theorem avoids_cons : Avoids inner next marks (a :: l) x ↔ Avoids inner next marks [a] x ∨ Avoids inner next marks l x := by
  constructor
  · intro h
    cases h with
    | leaf hx hleaf =>
      rcases List.mem_cons.mp hx with rfl | hx
      · exact .inl (.leaf List.mem_cons_self hleaf)
      · exact .inr (.leaf hx hleaf)
    | step hb hinner hmark hrest =>
      rcases List.mem_cons.mp hb with rfl | hb
      · exact .inl (.step List.mem_cons_self hinner hmark hrest)
      · exact .inr (.step hb hinner hmark hrest)
  · rintro (h | h)
    · cases h with
      | leaf hx hleaf => exact .leaf (by simp_all) hleaf
      | step hb hinner hmark hrest => exact .step (by simp_all) hinner hmark hrest
    · cases h with
      | leaf hx hleaf => exact .leaf (List.mem_cons_of_mem _ hx) hleaf
      | step hb hinner hmark hrest => exact .step (List.mem_cons_of_mem _ hb) hinner hmark hrest

theorem avoids_single : Avoids inner next marks [a] x ↔
    (x = a ∧ inner a = false) ∨ (inner a = true ∧ a ∉ marks ∧ Avoids inner next (a :: marks) (next a) x) := by
  constructor
  · rintro (⟨hx, hleaf⟩ | ⟨hb, hinner, hmark, hrest⟩)
    · obtain rfl := List.mem_singleton.mp hx
      exact .inl ⟨rfl, hleaf⟩
    · obtain rfl := List.mem_singleton.mp hb
      exact .inr ⟨hinner, hmark, hrest⟩
  · rintro (⟨rfl, hleaf⟩ | ⟨hinner, hmark, hrest⟩)
    · exact .leaf List.mem_cons_self hleaf
    · exact .step List.mem_cons_self hinner hmark hrest

theorem not_avoids_nil : ¬ Avoids inner next marks [] x := by
  rintro (⟨hx, -⟩ | ⟨hb, -⟩)
  · cases hx
  · cases hb

/-! ## The expansion -/

structure Walk (α : Type u) where
  found : List α
  marks : List α

def Adds (inner : α → Bool) (next : α → List α) (l : List α) (w w' : Walk α) : Prop :=
  w'.marks = w.marks ∧ ∀ x, x ∈ w'.found ↔ x ∈ w.found ∨ Avoids inner next w.marks l x

theorem Adds.cons {w w' w'' : Walk α} (h : Adds inner next [a] w w') (h' : Adds inner next l w' w'') :
    Adds inner next (a :: l) w w'' := by
  refine ⟨h'.1.trans h.1, fun x => ?_⟩
  rw [h'.2, h.2, h.1, avoids_cons (l := l), or_assoc]

theorem adds_foldlM {go : Walk α → α → Option (Walk α)} {w w' : Walk α}
    (hturn : ∀ a ∈ l, ∀ v v', go v a = some v' → Adds inner next [a] v v') (h : l.foldlM go w = some w') :
    Adds inner next l w w' := by
  induction l generalizing w with
  | nil =>
    cases h
    exact ⟨rfl, fun x => by simp [not_avoids_nil]⟩
  | cons a l ih =>
    rw [List.foldlM_cons, Option.bind_eq_bind, Option.bind_eq_some_iff] at h
    obtain ⟨v, hv, h⟩ := h
    exact (hturn a List.mem_cons_self _ _ hv).cons (ih (fun b hb => hturn b (List.mem_cons_of_mem _ hb)) h)

theorem foldlM_ends {β : Type u} {go : β → α → Option β} {P : β → Prop} {v : β}
    (h : ∀ a ∈ l, ∀ v, P v → ∃ v', go v a = some v' ∧ P v') (hv : P v) : ∃ v', l.foldlM go v = some v' ∧ P v' := by
  induction l generalizing v with
  | nil => exact ⟨v, rfl, hv⟩
  | cons a l ih =>
    obtain ⟨v', hgo, hv'⟩ := h a List.mem_cons_self v hv
    obtain ⟨v'', hrest, hv''⟩ := ih (fun b hb => h b (List.mem_cons_of_mem _ hb)) hv'
    exact ⟨v'', by rw [List.foldlM_cons, hgo]; exact hrest, hv''⟩

variable [DecidableEq α]

def turn (inner : α → Bool) (go : α → Walk α → Option (Walk α)) (w : Walk α) (a : α) : Option (Walk α) :=
  if inner a = false then some { w with found := a :: w.found }
  else if a ∈ w.marks then some w
  else (go a { w with marks := a :: w.marks }).map fun w => { w with marks := w.marks.erase a }

/-- `depth` bounds the calls that are nested. -/
def expand (inner : α → Bool) (next : α → List α) : Nat → List α → Walk α → Option (Walk α)
  | 0, _, _ => none
  | depth + 1, l, w => l.foldlM (turn inner fun a w => expand inner next depth (next a) w) w

theorem expand_adds {depth : Nat} {w w' : Walk α} (h : expand inner next depth l w = some w') :
    Adds inner next l w w' := by
  induction depth generalizing l w w' with
  | zero => cases h
  | succ depth ih =>
    refine adds_foldlM (fun a _ v v' hv => ?_) h
    unfold turn at hv
    split at hv
    · next hleaf =>
      cases hv
      refine ⟨rfl, fun x => ?_⟩
      simp [avoids_single, hleaf, or_comm]
    · next hinner =>
      split at hv
      · next hmark =>
        cases hv
        exact ⟨rfl, fun x => by simp [avoids_single, hinner, hmark]⟩
      · next hmark =>
        obtain ⟨u, hu, rfl⟩ := Option.map_eq_some_iff.mp hv
        obtain ⟨hmarks, hfound⟩ := ih hu
        refine ⟨by simp [hmarks], fun x => ?_⟩
        simp [hfound, avoids_single, hinner, hmark]

def unmarked (domain marks : List α) : Nat := (domain.filter (· ∉ marks)).length

theorem unmarked_le (domain marks : List α) : unmarked domain marks ≤ domain.length := List.length_filter_le _ _

theorem unmarked_cons_lt {domain : List α} (ha : a ∈ domain) (hmark : a ∉ marks) :
    unmarked domain (a :: marks) < unmarked domain marks := by
  have hfilter : domain.filter (· ∉ a :: marks) = (domain.filter (· ∉ marks)).filter (· ≠ a) := by
    rw [List.filter_filter]
    refine List.filter_congr fun b _ => ?_
    simp [not_or]
  rw [unmarked, hfilter]
  exact List.length_filter_lt_length_iff_exists.mpr ⟨a, List.mem_filter.mpr ⟨ha, by simpa using hmark⟩, by simp⟩

theorem expand_ends {domain : List α} (hdomain : ∀ a, a ∉ domain → next a = []) {depth : Nat} {w : Walk α}
    (hdepth : unmarked domain w.marks + 2 ≤ depth) : ∃ w', expand inner next depth l w = some w' := by
  induction depth generalizing l w with
  | zero => omega
  | succ depth ih =>
    have hturn : ∀ a ∈ l, ∀ v : Walk α, v.marks = w.marks →
        ∃ v', turn inner (fun a w => expand inner next depth (next a) w) v a = some v' ∧ v'.marks = w.marks := by
      intro a _ v hv
      unfold turn
      split
      · exact ⟨_, rfl, hv⟩
      · split
        · exact ⟨_, rfl, hv⟩
        · next hmark =>
          obtain ⟨u, hu⟩ : ∃ u, expand inner next depth (next a) { v with marks := a :: v.marks } = some u := by
            by_cases ha : a ∈ domain
            · have hless := unmarked_cons_lt ha hmark
              rw [hv] at hless
              refine ih ?_
              simp only [hv]
              omega
            · rw [hdomain a ha]
              obtain ⟨k, rfl⟩ : ∃ k, depth = k + 1 := ⟨depth - 1, by omega⟩
              exact ⟨_, rfl⟩
          exact ⟨_, Option.map_eq_some_iff.mpr ⟨u, hu, rfl⟩, by simp [(expand_adds hu).1, hv]⟩
    obtain ⟨w', hw', -⟩ := foldlM_ends hturn rfl
    exact ⟨w', hw'⟩

end Expansion
