import Mathlib.Data.List.AList

/-! # Tables

Maps of maps; an inner map is created with its first entry and deleted with its last.
-/

namespace Tables

universe u

variable {κ ι : Type u} {β : Type u} [DecidableEq κ] [DecidableEq ι]

abbrev Map (κ β : Type u) := AList fun _ : κ => β

abbrev Table (κ ι β : Type u) := Map κ (Map ι β)

def entry (t : Table κ ι β) (k : κ) (i : ι) : Option β := (t.lookup k).bind (AList.lookup i)

def put (t : Table κ ι β) (k : κ) (i : ι) (v : β) : Table κ ι β :=
  t.insert k (((t.lookup k).getD ∅).insert i v)

def drop (t : Table κ ι β) (k : κ) (i : ι) : Table κ ι β :=
  let inner := ((t.lookup k).getD ∅).erase i
  if inner.entries.isEmpty then t.erase k else t.insert k inner

def Tight (t : Table κ ι β) : Prop := ∀ k m, t.lookup k = some m → m.entries ≠ []

theorem entries_ne_nil {m : Map ι β} {i : ι} {v : β} (h : m.lookup i = some v) : m.entries ≠ [] := by
  intro hnil
  have hmem : i ∈ m.keys := AList.lookup_isSome.mp (by rw [h]; rfl)
  simp [AList.keys, hnil] at hmem

theorem exists_lookup {m : Map ι β} (h : m.entries ≠ []) : ∃ i v, m.lookup i = some v := by
  obtain ⟨e, l, hl⟩ := List.exists_cons_of_ne_nil h
  exact ⟨e.1, e.2, AList.mem_lookup_iff.mpr (by rw [hl]; exact List.mem_cons_self)⟩

theorem entry_put (t : Table κ ι β) (k : κ) (i : ι) (v : β) (k' : κ) (i' : ι) :
    entry (put t k i v) k' i' = if k' = k ∧ i' = i then some v else entry t k' i' := by
  unfold entry put
  by_cases hk : k' = k
  · subst hk
    rw [AList.lookup_insert, Option.bind_some]
    by_cases hi : i' = i
    · subst hi
      simp
    · rw [AList.lookup_insert_ne hi]
      cases t.lookup k' <;> simp [hi]
  · simp [hk]

theorem entry_drop (t : Table κ ι β) (k : κ) (i : ι) (k' : κ) (i' : ι) :
    entry (drop t k i) k' i' = if k' = k ∧ i' = i then none else entry t k' i' := by
  unfold entry drop
  dsimp only
  by_cases hk : k' = k
  · subst hk
    have hinner : AList.lookup i' (((t.lookup k').getD ∅).erase i) =
        if i' = i then none else (t.lookup k').bind (AList.lookup i') := by
      by_cases hi : i' = i
      · subst hi
        simp
      · cases t.lookup k' <;> simp [hi]
    split
    · rename_i hempty
      have hnone : AList.lookup i' (((t.lookup k').getD ∅).erase i) = none := by
        by_contra hsome
        obtain ⟨v, hv⟩ := Option.ne_none_iff_exists'.mp hsome
        exact entries_ne_nil hv (List.isEmpty_iff.mp hempty)
      rw [hnone] at hinner
      simpa using hinner
    · rw [AList.lookup_insert, Option.bind_some, hinner]
      simp
  · split
    · simp [hk]
    · simp [hk]

theorem tight_put {t : Table κ ι β} (h : Tight t) (k : κ) (i : ι) (v : β) : Tight (put t k i v) := by
  intro k' m hm
  unfold put at hm
  by_cases hk : k' = k
  · subst hk
    rw [AList.lookup_insert] at hm
    cases hm
    exact entries_ne_nil (AList.lookup_insert _)
  · rw [AList.lookup_insert_ne hk] at hm
    exact h k' m hm

theorem tight_drop {t : Table κ ι β} (h : Tight t) (k : κ) (i : ι) : Tight (drop t k i) := by
  intro k' m hm
  unfold drop at hm
  dsimp only at hm
  split at hm
  · by_cases hk : k' = k
    · subst hk
      rw [AList.lookup_erase] at hm
      cases hm
    · rw [AList.lookup_erase_ne hk] at hm
      exact h k' m hm
  · rename_i hne
    by_cases hk : k' = k
    · subst hk
      rw [AList.lookup_insert] at hm
      cases hm
      simpa using hne
    · rw [AList.lookup_insert_ne hk] at hm
      exact h k' m hm

theorem eq_empty {t : Table κ ι β} (h : Tight t) (hnone : ∀ k i, entry t k i = none) : t = ∅ := by
  apply AList.ext
  by_contra hne
  obtain ⟨k, m, hm⟩ := exists_lookup hne
  obtain ⟨i, v, hv⟩ := exists_lookup (h k m hm)
  have := hnone k i
  simp [entry, hm, hv] at this

end Tables
