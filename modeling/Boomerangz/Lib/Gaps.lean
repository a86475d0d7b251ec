import Mathlib.Data.List.Infix
import Mathlib.Order.Bounds.Basic

/-! # Sequences told with gaps

A sequence of items and marks is told as entries; a gap stands for a run of items, with its count and times.
-/

namespace Gaps

inductive Entry (ι κ τ : Type*) where
  | item (x : ι)
  | mark (k : κ)
  | gap (count : Nat) (first last : τ)

variable {ι κ τ : Type*}

def Entry.marked : Entry ι κ τ → Option κ
  | mark k => some k
  | _ => none

theorem times_append_singleton (time : ι → τ) (items : List ι) (x : ι) :
    {t | ∃ y ∈ items ++ [x], time y = t} = insert (time x) {t | ∃ y ∈ items, time y = t} := by
  ext t
  simp only [List.mem_append, List.mem_singleton, Set.mem_ofPred_eq, Set.mem_insert_iff]
  constructor
  · rintro ⟨y, hy | rfl, rfl⟩
    · exact .inr ⟨y, hy, rfl⟩
    · exact .inl rfl
  · rintro (rfl | ⟨y, hy, rfl⟩)
    · exact ⟨x, .inr rfl, rfl⟩
    · exact ⟨y, .inl hy, rfl⟩

variable [LinearOrder τ] (time : ι → τ)

/-- The part of the sequence an entry stands for. -/
inductive Covers : Entry ι κ τ → List (ι ⊕ κ) → Prop where
  | item (x : ι) : Covers (.item x) [.inl x]
  | mark (k : κ) : Covers (.mark k) [.inr k]
  | gap {xs : List ι} {first last : τ} : IsLeast {t | ∃ x ∈ xs, time x = t} first →
      IsGreatest {t | ∃ x ∈ xs, time x = t} last → Covers (.gap xs.length first last) (xs.map .inl)

/-- The entries tell the whole sequence: it is cut into parts, one for each entry and in their order. -/
inductive Accounts : List (Entry ι κ τ) → List (ι ⊕ κ) → Prop where
  | nil : Accounts [] []
  | cons {e : Entry ι κ τ} {es : List (Entry ι κ τ)} {part xs : List (ι ⊕ κ)} :
      Covers time e part → Accounts es xs → Accounts (e :: es) (part ++ xs)

variable {time} {e : Entry ι κ τ} {es es' es₁ es₂ : List (Entry ι κ τ)} {xs ys : List (ι ⊕ κ)}

theorem accounts_cons_iff :
    Accounts time (e :: es) xs ↔ ∃ part ys, xs = part ++ ys ∧ Covers time e part ∧ Accounts time es ys := by
  constructor
  · rintro (_ | ⟨hpart, hrest⟩)
    exact ⟨_, _, rfl, hpart, hrest⟩
  · rintro ⟨part, ys, rfl, hpart, hrest⟩
    exact .cons hpart hrest

theorem accounts_nil_iff : Accounts time ([] : List (Entry ι κ τ)) xs ↔ xs = [] := by
  constructor
  · rintro ⟨⟩
    rfl
  · rintro rfl
    exact .nil

theorem accounts_append_iff :
    Accounts time (es ++ es') xs ↔ ∃ ys zs, xs = ys ++ zs ∧ Accounts time es ys ∧ Accounts time es' zs := by
  induction es generalizing xs with
  | nil => simp [accounts_nil_iff]
  | cons e es ih =>
    simp only [List.cons_append, accounts_cons_iff, ih]
    constructor
    · rintro ⟨part, _, rfl, hpart, ys, zs, rfl, hys, hzs⟩
      exact ⟨part ++ ys, zs, (List.append_assoc ..).symm, ⟨part, ys, rfl, hpart, hys⟩, hzs⟩
    · rintro ⟨_, zs, rfl, ⟨part, ys, rfl, hpart, hys⟩, hzs⟩
      exact ⟨part, ys ++ zs, List.append_assoc .., hpart, ys, zs, rfl, hys, hzs⟩

theorem Accounts.items (xs : List ι) : Accounts time (xs.map .item) (xs.map .inl : List (ι ⊕ κ)) := by
  induction xs with
  | nil => exact .nil
  | cons x xs ih => exact .cons (.item x) ih

theorem Accounts.append (h : Accounts time es xs) (h' : Accounts time es' ys) :
    Accounts time (es ++ es') (xs ++ ys) :=
  accounts_append_iff.mpr ⟨xs, ys, rfl, h, h'⟩

theorem Accounts.first (h : Accounts time (es ++ es') xs) : ∃ ys, ys <+: xs ∧ Accounts time es ys := by
  obtain ⟨ys, zs, rfl, hys, -⟩ := accounts_append_iff.mp h
  exact ⟨ys, List.prefix_append ys zs, hys⟩

theorem Accounts.exchange (hsame : ∀ ys, Accounts time es₁ ys → Accounts time es₂ ys)
    (h : Accounts time (es ++ es₁ ++ es') xs) : Accounts time (es ++ es₂ ++ es') xs := by
  obtain ⟨_, zs, rfl, hys, hzs⟩ := accounts_append_iff.mp h
  obtain ⟨ys, ws, rfl, hes, hws⟩ := accounts_append_iff.mp hys
  exact (hes.append (hsame ws hws)).append hzs

/-! ## Opening a gap and widening it -/

theorem Accounts.open_gap {x : ι} (h : Accounts time [.item x] xs) :
    Accounts time [.gap 1 (time x) (time x)] xs := by
  obtain ⟨_, _, rfl, ⟨⟩, ⟨⟩⟩ := accounts_cons_iff.mp h
  have hone : {t | ∃ y ∈ [x], time y = t} = {time x} := by
    ext t
    simp [eq_comm]
  have hcovers : Covers time (.gap [x].length (time x) (time x)) ([x].map (Sum.inl : ι → ι ⊕ κ)) := by
    refine .gap ?_ ?_
    · rw [hone]
      exact isLeast_singleton
    · rw [hone]
      exact isGreatest_singleton
  exact .cons hcovers .nil

theorem Accounts.widen {x : ι} {n : Nat} {first last : τ} (h : Accounts time [.gap n first last, .item x] xs) :
    Accounts time [.gap (n + 1) (min (time x) first) (max (time x) last)] xs := by
  obtain ⟨_, _, rfl, hgap, hrest⟩ := accounts_cons_iff.mp h
  obtain ⟨_, _, rfl, ⟨⟩, ⟨⟩⟩ := accounts_cons_iff.mp hrest
  cases hgap with
  | @gap items _ _ hfirst hlast =>
    have hcovers : Covers time (.gap (items ++ [x]).length (min (time x) first) (max (time x) last))
        ((items ++ [x]).map (Sum.inl : ι → ι ⊕ κ)) := by
      refine .gap ?_ ?_
      · rw [times_append_singleton]
        exact hfirst.insert _
      · rw [times_append_singleton]
        exact hlast.insert _
    simpa using Accounts.cons hcovers .nil

/-! ## Marks -/

theorem Accounts.before_mark {k : κ} {before after : List (ι ⊕ κ)} (h : Accounts time (es ++ .mark k :: es') xs)
    (hxs : xs = before ++ .inr k :: after) (honce : (xs.filterMap Sum.getRight?).Nodup) :
    Accounts time es before := by
  obtain ⟨ys, _, rfl, hys, hrest⟩ := accounts_append_iff.mp h
  obtain ⟨_, zs, rfl, ⟨⟩, -⟩ := accounts_cons_iff.mp hrest
  have hmark : ∀ l : List (ι ⊕ κ), .inr k ∈ l → k ∈ l.filterMap Sum.getRight? := fun l hl =>
    List.mem_filterMap.mpr ⟨.inr k, hl, rfl⟩
  have hnodup := honce
  rw [hxs, List.filterMap_append, List.filterMap_cons] at hnodup
  have hbefore : Sum.inr k ∉ before := fun hmem =>
    (List.nodup_append.mp hnodup).2.2 k (hmark _ hmem) k (by simp) rfl
  have hafter : Sum.inr k ∉ after := fun hmem =>
    (List.nodup_cons.mp (List.nodup_append.mp hnodup).2.1).1 (hmark _ hmem)
  have hsplit := (List.append_cons_inj_of_notMem hbefore hafter).mp hxs.symm
  exact hsplit.1 ▸ hys

end Gaps
