import Mathlib.Data.List.Nodup
import Mathlib.Data.List.Perm.Subperm

/-! # Maps and slices that may be nil

A slice or map that is nil is not one that is empty.
-/

namespace Maps

/-- The entries of a map, in the order a range over it happens to take, or nil. -/
structure Map (κ β : Type) where
  entries : Option (List (κ × β))
  distinct : ((entries.getD []).map Prod.fst).Nodup

namespace Map

variable {κ β : Type}

def list (m : Map κ β) : List (κ × β) := m.entries.getD []

def empty : Map κ β := ⟨some [], List.nodup_nil⟩

def filter (p : κ × β → Bool) (m : Map κ β) : Map κ β where
  entries := m.entries.map (List.filter p)
  distinct := by
    rcases m with ⟨_ | es, h⟩
    · exact h
    · exact h.sublist (List.filter_sublist.map _)

def orNil (m : Map κ β) : Map κ β := if m.list.isEmpty then ⟨none, List.nodup_nil⟩ else m

theorem list_nodup (m : Map κ β) : m.list.Nodup := m.distinct.of_map

variable [DecidableEq κ]

def get (m : Map κ β) (k : κ) : Option β := (m.list.find? (·.1 == k)).map Prod.snd

def erase (m : Map κ β) (k : κ) : Map κ β := m.filter (·.1 != k)

/-- `m[k] = v`, where `m` is not nil. -/
def store (m : Map κ β) (k : κ) (v : β) : Map κ β where
  entries := some ((m.erase k).list ++ [(k, v)])
  distinct := by
    have hnew : k ∉ (m.erase k).list.map Prod.fst := by
      rcases m with ⟨_ | es, h⟩ <;> simp [erase, filter, list]
    rw [Option.getD_some, List.map_append, List.map_singleton]
    exact (m.erase k).distinct.append (List.nodup_singleton k) (List.disjoint_singleton.mpr hnew)

def deepEqual [DecidableEq β] (m m' : Map κ β) : Bool :=
  m.entries.isNone == m'.entries.isNone && m.list.length == m'.list.length &&
    m.list.all fun e => m'.get e.1 == some e.2

variable {m m' : Map κ β} {k k' : κ} {v : β}

theorem get_eq_some : m.get k = some v ↔ (k, v) ∈ m.list := by
  unfold get
  constructor
  · intro h
    obtain ⟨e, he, rfl⟩ := Option.map_eq_some_iff.mp h
    have hk : e.1 = k := by simpa using List.find?_some he
    exact hk ▸ List.mem_of_find?_eq_some he
  · intro h
    obtain ⟨e, he⟩ := Option.isSome_iff_exists.mp
      (List.find?_isSome.mpr ⟨(k, v), h, by simp⟩ : (m.list.find? (·.1 == k)).isSome)
    have hk : e.1 = k := by simpa using List.find?_some he
    have heq : e = (k, v) := List.inj_on_of_nodup_map m.distinct (List.mem_of_find?_eq_some he) h hk
    rw [he, heq, Option.map_some]

theorem get_filter (p : κ × β → Bool) (m : Map κ β) (k : κ) :
    (m.filter p).get k = (m.get k).filter fun v => p (k, v) := by
  refine Option.ext fun v => ?_
  rw [get_eq_some, Option.filter_eq_some_iff, get_eq_some]
  rcases m with ⟨_ | es, h⟩ <;> simp [filter, list]

theorem get_erase (m : Map κ β) (k k' : κ) : (m.erase k).get k' = if k' = k then none else m.get k' := by
  rw [erase, get_filter]
  by_cases h : k' = k
  · simp [h]
  · cases m.get k' <;> simp [h]

theorem get_store (m : Map κ β) (k k' : κ) (v : β) :
    (m.store k v).get k' = if k' = k then some v else m.get k' := by
  refine Option.ext fun w => ?_
  have hmem : (k', w) ∈ (m.store k v).list ↔ (m.erase k).get k' = some w ∨ (k', w) = (k, v) := by
    rw [get_eq_some, store, list, Option.getD_some, List.mem_append, List.mem_singleton]
  rw [get_eq_some, hmem, get_erase]
  by_cases h : k' = k
  · simp [h, eq_comm]
  · simp [h]

theorem get_orNil (m : Map κ β) (k : κ) : m.orNil.get k = m.get k := by
  unfold orNil
  split
  next h => rw [get, get, List.isEmpty_iff.mp h, list, Option.getD_none]
  next => rfl

theorem list_eq_nil_iff : m.list = [] ↔ ∀ k, m.get k = none := by
  simp only [List.eq_nil_iff_forall_not_mem, Option.eq_none_iff_forall_not_mem, Option.mem_def, get_eq_some,
    Prod.forall]

theorem deepEqual_iff [DecidableEq β] :
    m.deepEqual m' = true ↔ m.entries.isNone = m'.entries.isNone ∧ ∀ k, m.get k = m'.get k := by
  have hget : (∀ k, m.get k = m'.get k) ↔ m.list.Perm m'.list := by
    rw [List.perm_ext_iff_of_nodup m.list_nodup m'.list_nodup, Prod.forall]
    simp only [← get_eq_some, ← Option.ext_iff]
  have hall : (m.list.all fun e => m'.get e.1 == some e.2) = true ↔ m.list ⊆ m'.list := by
    simp only [List.all_eq_true, beq_iff_eq, get_eq_some]
    rfl
  rw [deepEqual, Bool.and_eq_true, Bool.and_eq_true, hall, hget, beq_iff_eq, beq_iff_eq, and_assoc]
  refine and_congr_right fun _ => ⟨fun ⟨hlength, hsub⟩ => ?_, fun h => ⟨h.length_eq, h.subset⟩⟩
  exact (List.subperm_of_subset m.list_nodup hsub).perm_of_length_le (Nat.le_of_eq hlength.symm)

theorem deepEqual_orNil [DecidableEq β] : m.orNil.deepEqual m'.orNil = true ↔ ∀ k, m.get k = m'.get k := by
  simp only [deepEqual_iff, get_orNil, and_iff_right_iff_imp]
  intro h
  have hnil : ∀ x : Map κ β, x.orNil.entries.isNone = x.list.isEmpty := by
    intro x
    unfold orNil
    split
    next hx => exact hx.symm
    next hx =>
      rcases x with ⟨_ | es, hes⟩
      · simp [list] at hx
      · exact (Bool.eq_false_iff.mpr hx).symm
  rw [hnil, hnil, Bool.eq_iff_iff, List.isEmpty_iff, List.isEmpty_iff, list_eq_nil_iff, list_eq_nil_iff]
  simp only [h]

end Map

end Maps
