import Boomerangz.Zfs.Name
import Mathlib.Data.List.TakeWhile

/-! # Destination scopes

Scopes are decided on texts that a peer chooses; their meaning is said of the parts of a path.
-/

namespace Boomerangz.Replication

open Zfs

abbrev Text := List Char

/-- `strings.HasPrefix(text, root+"/")`. -/
def below (root text : Text) : Bool := (root ++ ['/']).isPrefixOf text

/-- `scope.Dataset`. -/
def datasetOf (object : Text) : Text := object.takeWhile fun c => c != '@' && c != '#'

/-- `scope.Inside`. -/
def insideScope (root object : Text) : Bool := datasetOf object == root || below root (datasetOf object)

def related (root dataset : Text) : Bool := insideScope root dataset || below dataset root

/-! ## Names -/

def validateComponent (name : Text) : Bool :=
  name != [] && !name.any (['/', '@', '#'].contains ·) && !name.any blank

def validateSnapshot (name : Text) : Bool :=
  match name.dropWhile (· != '@') with
  | [] => false
  | _ :: snapshot =>
    !snapshot.any (['@', ',', '%'].contains ·) && validateDataset (name.takeWhile (· != '@')) &&
      validateComponent snapshot

/-! ## Paths -/

def Within (root dataset : Text) : Prop := root.splitOn '/' <+: dataset.splitOn '/'

variable {root object a b c : Text}

theorem Within.refl (a : Text) : Within a a := List.prefix_rfl

theorem Within.trans (hab : Within a b) (hbc : Within b c) : Within a c := List.IsPrefix.trans hab hbc

theorem Within.antisymm (hab : Within a b) (hba : Within b a) : a = b := by
  have hparts : a.splitOn '/' = b.splitOn '/' := hab.eq_of_length (le_antisymm hab.length_le hba.length_le)
  have hjoin := congrArg (['/'].intercalate ·) hparts
  rwa [List.intercalate_splitOn, List.intercalate_splitOn] at hjoin

theorem within_iff : Within a b ↔ b = a ∨ below a b = true := by
  unfold Within below
  rw [Lists.splitOn_prefix_iff, List.isPrefixOf_iff_prefix]

theorem inside_iff_within : insideScope root object = true ↔ Within root (datasetOf object) := by
  unfold insideScope
  rw [Bool.or_eq_true, beq_iff_eq, within_iff]

theorem datasetOf_of_valid (h : validateDataset a = true) : datasetOf a = a := by
  unfold validateDataset at h
  simp only [Bool.and_eq_true, Bool.not_eq_true', List.contains_eq_mem, decide_eq_false_iff_not] at h
  unfold datasetOf
  rw [List.takeWhile_eq_self_iff]
  intro x hx
  rw [Bool.and_eq_true, bne_iff_ne, bne_iff_ne]
  exact ⟨fun heq => h.1.1.1.2 (heq ▸ hx), fun heq => h.1.1.2 (heq ▸ hx)⟩

theorem datasetOf_of_within (h : validateDataset b = true) (hw : Within a b) : datasetOf a = a := by
  have hb := datasetOf_of_valid h
  unfold datasetOf at hb ⊢
  rw [List.takeWhile_eq_self_iff] at hb ⊢
  intro x hx
  refine hb x ?_
  rcases within_iff.mp hw with rfl | hbelow
  · exact hx
  · rw [below, List.isPrefixOf_iff_prefix] at hbelow
    exact hbelow.subset (by simp [hx])

/-- `a` names one snapshot: a dataset, and a component that is no list and no range. -/
def OneSnapshot (a : Text) : Prop :=
  ∃ dataset component, a = dataset ++ '@' :: component ∧ validateDataset dataset = true ∧ component ≠ [] ∧
    ∀ x ∈ component, x ∉ ['/', '@', '#', ',', '%']

theorem oneSnapshot_of_valid (h : validateSnapshot a = true) : OneSnapshot a := by
  unfold validateSnapshot at h
  split at h
  · cases h
  · rename_i x snapshot hdrop
    have hx : x = '@' := by
      have hhead := List.head?_dropWhile_not (· != '@') a
      rw [hdrop] at hhead
      simpa using hhead
    simp only [Bool.and_eq_true, Bool.not_eq_true', validateComponent, bne_iff_ne] at h
    refine ⟨a.takeWhile (· != '@'), snapshot, ?_, h.1.2, h.2.1.1, fun y hy => ?_⟩
    · subst hx
      rw [← hdrop, List.takeWhile_append_dropWhile]
    · have h1 := List.any_eq_false.mp h.1.1 y hy
      have h2 := List.any_eq_false.mp h.2.1.2 y hy
      simp at h1 h2 ⊢
      tauto

end Boomerangz.Replication
