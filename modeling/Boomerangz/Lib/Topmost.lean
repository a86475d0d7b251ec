import Mathlib.Data.List.Infix
import Mathlib.Data.List.Nodup

/-! # Topmost marked paths

Of the marked prefixes of a path the shortest is its topmost one.
-/

namespace Topmost

variable {α : Type*} {p q : List α → Bool} {d r : List α}

def topmost (p : List α → Bool) (d : List α) : Option (List α) := d.inits.find? p

@[simp] theorem topmost_nil (p : List α → Bool) : topmost p [] = if p [] then some [] else none := by
  cases h : p [] <;> simp [topmost, h]

theorem topmost_concat (p : List α → Bool) (d : List α) (x : α) :
    topmost p (d ++ [x]) = (topmost p d).or (if p (d ++ [x]) then some (d ++ [x]) else none) := by
  cases h : p (d ++ [x]) <;> simp [topmost, List.inits_append, List.find?_append, h]

theorem topmost_dropLast (hd : d ≠ []) :
    topmost p d = (topmost p d.dropLast).or (if p d then some d else none) := by
  conv_lhs => rw [← List.dropLast_append_getLast hd]
  rw [topmost_concat, List.dropLast_append_getLast hd]

theorem topmost_eq_some :
    topmost p d = some r ↔ p r = true ∧ r <+: d ∧ ∀ a, a <+: r → a ≠ r → p a = false := by
  induction d using List.reverseRecOn with
  | nil =>
    constructor
    · intro h
      obtain ⟨hp, rfl⟩ : p [] = true ∧ [] = r := by simpa using h
      exact ⟨hp, List.prefix_rfl, fun a ha hne => absurd (List.prefix_nil.mp ha) hne⟩
    · rintro ⟨hp, hr, -⟩
      obtain rfl := List.prefix_nil.mp hr
      simp [hp]
  | append_singleton d x ih =>
    rw [topmost_concat, Option.or_eq_some_iff, ih]
    constructor
    · rintro (⟨hp, hr, hmin⟩ | ⟨hnone, h⟩)
      · exact ⟨hp, hr.trans (List.prefix_append ..), hmin⟩
      · obtain ⟨hp, rfl⟩ : p (d ++ [x]) = true ∧ d ++ [x] = r := by simpa using h
        refine ⟨hp, List.prefix_rfl, fun a ha hne => ?_⟩
        have had : a <+: d := (List.prefix_concat_iff.mp ha).resolve_left hne
        simpa using List.find?_eq_none.mp hnone a (List.mem_inits a d |>.mpr had)
    · rintro ⟨hp, hr, hmin⟩
      rcases List.prefix_concat_iff.mp hr with rfl | hrd
      · right
        refine ⟨List.find?_eq_none.mpr fun a ha => ?_, by simp [hp]⟩
        have had := (List.mem_inits a d).mp ha
        have hne : a ≠ d ++ [x] := by
          rintro rfl
          have := had.length_le
          rw [List.length_append, List.length_singleton] at this
          omega
        simp [hmin a (had.trans (List.prefix_append ..)) hne]
      · exact .inl ⟨hp, hrd, hmin⟩

theorem topmost_eq_none : topmost p d = none ↔ ∀ a, a <+: d → p a = false := by
  simp [topmost, List.find?_eq_none]

theorem topmost_idem (h : topmost p d = some r) : topmost p r = some r := by
  rw [topmost_eq_some] at h ⊢
  exact ⟨h.1, List.prefix_rfl, h.2.2⟩

theorem topmost_inside (h : topmost p r = some r) (hrd : r <+: d) : topmost p d = some r := by
  rw [topmost_eq_some] at h ⊢
  exact ⟨h.1, hrd, h.2.2⟩

theorem topmost_self_iff : topmost p r = some r ↔ p r = true ∧ ∀ a, a <+: r → a ≠ r → p a = false := by
  rw [topmost_eq_some]
  simp

end Topmost
