import Mathlib.Logic.Equiv.List
import Mathlib.Tactic.DeriveCountable

/-! # Loops over lists

Removing repeats, keeping the greatest item, sorting by a key, splitting at a separator, and the texts of a table.
-/

namespace Lists

universe u

variable {α : Type u}

/-! ## Pairs -/

theorem pair_sublist {l : List α} {a b : α} (hne : a ≠ b) (ha : a ∈ l) (hb : b ∈ l) :
    [a, b].Sublist l ∨ [b, a].Sublist l := by
  induction l with
  | nil => cases ha
  | cons x l ih =>
    rcases List.mem_cons.mp ha with rfl | ha'
    · have hb' : b ∈ l := (List.mem_cons.mp hb).resolve_left (Ne.symm hne)
      exact .inl ((List.singleton_sublist.mpr hb').cons_cons a)
    · rcases List.mem_cons.mp hb with rfl | hb'
      · exact .inr ((List.singleton_sublist.mpr ha').cons_cons b)
      · exact (ih ha' hb').imp (·.cons x) (·.cons x)

/-! ## Repeats -/

def compact [DecidableEq α] : List α → List α
  | [] => []
  | [a] => [a]
  | a :: b :: l => if a = b then compact (b :: l) else a :: compact (b :: l)

@[simp] theorem mem_compact [DecidableEq α] {l : List α} {x : α} : x ∈ compact l ↔ x ∈ l := by
  induction l using compact.induct with
  | case1 => simp [compact]
  | case2 a => simp [compact]
  | case3 a l ih => simp_all [compact]
  | case4 a b l hne ih => simp_all [compact]

theorem compact_sublist [DecidableEq α] (l : List α) : (compact l).Sublist l := by
  fun_induction compact l with
  | case1 => exact .slnil
  | case2 a => exact .refl _
  | case3 a l ih => exact ih.cons a
  | case4 a b l hne ih => exact ih.cons_cons a

/-! ## The greatest item -/

/-- A loop that replaces the item it keeps by each later item with a greater key. -/
def greatest (key : α → Nat) (l : List α) : Option α :=
  l.foldl (fun best a => match best with
    | none => some a
    | some b => if key b < key a then some a else some b) none

section Greatest

variable {key : α → Nat}

theorem greatest_foldl (key : α → Nat) (l : List α) (b : α) :
    ∃ a, l.foldl (fun best a => match best with
        | none => some a
        | some b => if key b < key a then some a else some b) (some b) = some a ∧
      a ∈ b :: l ∧ ∀ c ∈ b :: l, key c ≤ key a := by
  induction l generalizing b with
  | nil => exact ⟨b, rfl, by simp, by simp⟩
  | cons x l ih =>
    simp only [List.foldl_cons]
    split
    · rename_i hlt
      obtain ⟨a, ha, hmem, hmax⟩ := ih x
      refine ⟨a, ha, List.mem_cons_of_mem _ hmem, ?_⟩
      intro c hc
      rcases List.mem_cons.mp hc with rfl | hc
      · exact hlt.le.trans (hmax x (by simp))
      · exact hmax c hc
    · rename_i hle
      obtain ⟨a, ha, hmem, hmax⟩ := ih b
      refine ⟨a, ha, ?_, ?_⟩
      · rcases List.mem_cons.mp hmem with rfl | h
        · simp
        · simp [h]
      · intro c hc
        rcases List.mem_cons.mp hc with rfl | hc
        · exact hmax _ (by simp)
        rcases List.mem_cons.mp hc with rfl | hc
        · exact (not_lt.mp hle).trans (hmax b (by simp))
        · exact hmax c (by simp [hc])

theorem greatest_spec {l : List α} {a : α} (h : greatest key l = some a) :
    a ∈ l ∧ ∀ c ∈ l, key c ≤ key a := by
  cases l with
  | nil => simp [greatest] at h
  | cons b l =>
    obtain ⟨a', ha', hmem, hmax⟩ := greatest_foldl key l b
    have : a' = a := by
      have h' : greatest key (b :: l) = some a' := by simpa [greatest] using ha'
      simpa [h'] using h
    exact this ▸ ⟨hmem, hmax⟩

theorem greatest_eq_none {l : List α} : greatest key l = none ↔ l = [] := by
  cases l with
  | nil => simp [greatest]
  | cons b l =>
    obtain ⟨a, ha, -, -⟩ := greatest_foldl key l b
    have h' : greatest key (b :: l) = some a := by simpa [greatest] using ha
    simp [h']

theorem greatest_cons_cons (key : α → Nat) (b a : α) (l : List α) :
    greatest key (b :: a :: l) = greatest key ((if key b < key a then a else b) :: l) := by
  simp only [greatest, List.foldl_cons]
  split <;> rfl

theorem greatest_eq_some {l : List α} {a : α} (hinj : ∀ x ∈ l, ∀ y ∈ l, key x = key y → x = y) :
    greatest key l = some a ↔ a ∈ l ∧ ∀ c ∈ l, key c ≤ key a := by
  refine ⟨greatest_spec, ?_⟩
  rintro ⟨hmem, hmax⟩
  cases h : greatest key l with
  | none => simp [greatest_eq_none.mp h] at hmem
  | some b =>
    obtain ⟨hb, hbmax⟩ := greatest_spec h
    exact congrArg some (hinj b hb a hmem (le_antisymm (hmax b hb) (hbmax a hmem)))

end Greatest

/-! ## Sorting -/

theorem insertionSort_split {β : Type u} [LinearOrder β] {key : α → β} {l pre post : List α} {x : α}
    (h : l.insertionSort (fun a b => key a ≤ key b) = pre ++ x :: post)
    (hnodup : l.Nodup) (hinj : ∀ a ∈ l, ∀ b ∈ l, key a = key b → a = b) :
    (∀ y, y ∈ pre ↔ y ∈ l ∧ key y < key x) ∧ (∀ y, y ∈ post ↔ y ∈ l ∧ key x < key y) := by
  have hperm : (pre ++ x :: post).Perm l := h ▸ List.perm_insertionSort _ l
  have hsorted : (pre ++ x :: post).Pairwise (fun a b => key a ≤ key b) :=
    h ▸ List.pairwise_insertionSort _ l
  have hnd : (pre ++ x :: post).Nodup := hperm.nodup_iff.mpr hnodup
  have hmem : ∀ y, y ∈ l ↔ y ∈ pre ∨ y = x ∨ y ∈ post := by
    intro y
    rw [← hperm.mem_iff]
    simp
  have hx : x ∈ l := (hmem x).mpr (by simp)
  obtain ⟨-, hpost, hcross⟩ := List.pairwise_append.mp hsorted
  obtain ⟨-, hndpost, hdisj⟩ := List.nodup_append.mp hnd
  have hlo : ∀ y ∈ pre, key y < key x := by
    intro y hy
    refine lt_of_le_of_ne (hcross y hy x (by simp)) fun he => ?_
    exact hdisj y hy x (by simp) (hinj y ((hmem y).mpr (.inl hy)) x hx he)
  have hhi : ∀ y ∈ post, key x < key y := by
    intro y hy
    refine lt_of_le_of_ne ((List.pairwise_cons.mp hpost).1 y hy) fun he => ?_
    have hxy := hinj x hx y ((hmem y).mpr (.inr (.inr hy))) he
    exact (List.nodup_cons.mp hndpost).1 (hxy ▸ hy)
  constructor
  · intro y
    refine ⟨fun hy => ⟨(hmem y).mpr (.inl hy), hlo y hy⟩, ?_⟩
    rintro ⟨hy, hlt⟩
    rcases (hmem y).mp hy with h | rfl | h
    · exact h
    · exact absurd hlt (lt_irrefl _)
    · exact absurd hlt (hhi y h).asymm
  · intro y
    refine ⟨fun hy => ⟨(hmem y).mpr (.inr (.inr hy)), hhi y hy⟩, ?_⟩
    rintro ⟨hy, hlt⟩
    rcases (hmem y).mp hy with h | rfl | h
    · exact absurd hlt (hlo y h).asymm
    · exact absurd hlt (lt_irrefl _)
    · exact h

theorem find?_unique {p : α → Bool} {l : List α} {a : α} (hm : a ∈ l) (hp : p a = true)
    (hu : ∀ b ∈ l, p b = true → b = a) : l.find? p = some a := by
  obtain ⟨b, hb⟩ := Option.isSome_iff_exists.mp (List.find?_isSome.mpr ⟨a, hm, hp⟩)
  rw [hb, hu b (List.mem_of_find?_eq_some hb) (List.find?_some hb)]

theorem filter_of_find? {κ : Type*} [DecidableEq κ] {f : α → κ} {l : List α} {k : κ} {a : α} (hl : (l.map f).Nodup)
    (h : l.find? (f · == k) = some a) : l.filter (f · == k) = [a] := by
  induction l with
  | nil => cases h
  | cons b l ih =>
    obtain ⟨hb, hl⟩ := List.nodup_cons.mp hl
    by_cases hk : f b = k
    · obtain rfl : b = a := by simpa [hk] using h
      have hnone : l.filter (f · == k) = [] := by
        refine List.filter_eq_nil_iff.mpr fun x hx hfx => hb ?_
        rw [hk, ← beq_iff_eq.mp hfx]
        exact List.mem_map_of_mem hx
      simp [hk, hnone]
    · simpa [hk] using ih hl (by simpa [hk] using h)

theorem filterMap_sublist_map {β : Type*} {f : α → Option β} {g : α → β} (h : ∀ a b, f a = some b → b = g a) (l : List α) :
    (l.filterMap f).Sublist (l.map g) := by
  induction l with
  | nil => exact .slnil
  | cons a l ih =>
    cases hf : f a with
    | none =>
      rw [List.filterMap_cons_none hf]
      exact ih.cons _
    | some b =>
      rw [List.filterMap_cons_some hf, List.map_cons, h a b hf]
      exact ih.cons_cons _

theorem map_filter_eq_flatMap {β : Type*} (p : α → Bool) (f : α → β) (l : List α) :
    (l.filter p).map f = l.flatMap fun x => if p x then [f x] else [] := by
  induction l with
  | nil => rfl
  | cons x l ih =>
    rw [List.filter_cons, List.flatMap_cons, ← ih]
    split <;> rfl

theorem flatMap_eq_cons {β : Type*} {f : α → List β} {l : List α} {c : β} {cs : List β} (h : l.flatMap f = c :: cs) :
    ∃ pre a post rest, l = pre ++ a :: post ∧ (∀ x ∈ pre, f x = []) ∧ f a = c :: rest ∧ cs = rest ++ post.flatMap f := by
  rw [List.flatMap_def, List.flatten_eq_cons_iff] at h
  obtain ⟨as, rest, bs, hmap, has, rfl⟩ := h
  obtain ⟨pre, tail, rfl, rfl, htail⟩ := List.map_eq_append_iff.mp hmap
  obtain ⟨a, post, rfl, ha, rfl⟩ := List.map_eq_cons_iff.mp htail
  exact ⟨pre, a, post, rest, rfl, fun x hx => has _ (List.mem_map_of_mem hx), ha, by rw [List.flatMap_def]⟩

theorem flatMap_peel {β : Type*} {f g : α → List β} {l : List α} {c : β} {cs : List β} (hl : l.Nodup)
    (h : l.flatMap f = c :: cs)
    (hstep : ∀ a ∈ l, ∀ rest, f a = c :: rest → g a = rest ∧ ∀ b ∈ l, b ≠ a → g b = f b) : l.flatMap g = cs := by
  obtain ⟨pre, a, post, rest, rfl, hpre, ha, rfl⟩ := flatMap_eq_cons h
  obtain ⟨hga, hothers⟩ := hstep a (by simp) rest ha
  obtain ⟨-, hpost, hdisjoint⟩ := List.nodup_append.mp hl
  have hg : ∀ b ∈ pre, g b = [] := by
    intro b hb
    rw [hothers b (by simp [hb]) (hdisjoint b hb a (by simp)), hpre b hb]
  have hg' : ∀ b ∈ post, g b = f b := by
    intro b hb
    refine hothers b (by simp [hb]) ?_
    rintro rfl
    exact (List.nodup_cons.mp hpost).1 hb
  rw [List.flatMap_append, List.flatMap_cons, hga, List.flatMap_eq_nil_iff.mpr hg, List.flatMap_congr hg', List.nil_append]

theorem nodup_filter_of_fresh {p : α → Bool} {l : List α}
    (h : ∀ xs a ys, l = xs ++ a :: ys → p a = true → a ∉ xs) : (l.filter p).Nodup := by
  induction l using List.reverseRecOn with
  | nil => simp
  | append_singleton l a ih =>
    rw [List.filter_append, List.nodup_append]
    refine ⟨ih fun xs b ys hsplit => h xs b (ys ++ [a]) (by simp [hsplit]), ?_, ?_⟩
    · cases hp : p a <;> simp [hp]
    · rintro b hb c hc rfl
      obtain ⟨hc, hpc⟩ := List.mem_filter.mp hc
      obtain rfl := List.mem_singleton.mp hc
      exact h l b [] rfl hpc (List.mem_of_mem_filter hb)

/-! ## Parts -/

theorem intercalate_append_cons (sep : α) {xs : List (List α)} (hxs : xs ≠ []) (y : List α) (ys : List (List α)) :
    [sep].intercalate (xs ++ y :: ys) = [sep].intercalate xs ++ sep :: [sep].intercalate (y :: ys) := by
  induction xs with
  | nil => exact absurd rfl hxs
  | cons x xs ih =>
    cases xs with
    | nil => simp [List.intercalate_cons_cons]
    | cons x' xs =>
      have hrest := ih (by simp)
      rw [List.cons_append, List.cons_append, List.intercalate_cons_cons, ← List.cons_append, hrest,
        List.intercalate_cons_cons]
      simp

theorem mem_of_mem_intercalate {sep c : α} {parts : List (List α)} (hc : c ∈ [sep].intercalate parts) :
    c = sep ∨ ∃ part ∈ parts, c ∈ part := by
  induction parts with
  | nil => exact absurd hc List.not_mem_nil
  | cons a parts ih =>
    cases parts with
    | nil => exact .inr ⟨a, List.mem_singleton_self a, by simpa using hc⟩
    | cons b parts =>
      rw [List.intercalate_cons_cons, List.mem_append, List.mem_append, List.mem_singleton] at hc
      rcases hc with (hc | hc) | hc
      · exact .inr ⟨a, by simp, hc⟩
      · exact .inl hc
      · exact (ih hc).imp_right fun ⟨part, hpart, hmem⟩ => ⟨part, List.mem_cons_of_mem a hpart, hmem⟩

theorem mem_intercalate {sep c : α} {part : List α} {parts : List (List α)} (hpart : part ∈ parts) (hc : c ∈ part) :
    c ∈ [sep].intercalate parts := by
  obtain ⟨before, after, rfl⟩ := List.append_of_mem hpart
  cases after <;> by_cases hb : before = [] <;>
    simp [hb, hc, List.intercalate_cons_cons, Lists.intercalate_append_cons]

theorem splitOn_prefix_iff [DecidableEq α] {sep : α} {a b : List α} :
    a.splitOn sep <+: b.splitOn sep ↔ b = a ∨ a ++ [sep] <+: b := by
  constructor
  · rintro ⟨rest, hrest⟩
    have hb : [sep].intercalate (b.splitOn sep) = b := List.intercalate_splitOn sep
    rw [← hrest] at hb
    cases rest with
    | nil =>
      rw [List.append_nil, List.intercalate_splitOn] at hb
      exact .inl hb.symm
    | cons r rest =>
      rw [intercalate_append_cons sep (List.splitOn_ne_nil sep a), List.intercalate_splitOn] at hb
      exact .inr ⟨[sep].intercalate (r :: rest), by rw [← hb]; simp⟩
  · rintro (rfl | ⟨rest, rfl⟩)
    · exact List.prefix_rfl
    · rw [List.append_assoc, List.singleton_append, List.splitOn_append_cons_self]
      exact List.prefix_append _ _

theorem not_mem_of_mem_splitOn [DecidableEq α] {sep : α} {l part : List α} (h : part ∈ l.splitOn sep) : sep ∉ part := by
  induction l generalizing part with
  | nil =>
    rw [List.splitOn_nil, List.mem_singleton] at h
    rw [h]
    exact List.not_mem_nil
  | cons c l ih =>
    rw [List.splitOn_cons_eq_if_modifyHead] at h
    split at h
    · rcases List.mem_cons.mp h with rfl | h
      · exact List.not_mem_nil
      · exact ih h
    · rename_i hc
      obtain ⟨first, rest, hparts⟩ := List.exists_cons_of_ne_nil (List.splitOn_ne_nil sep l)
      rw [hparts] at ih h
      rcases List.mem_cons.mp h with rfl | h
      · rw [List.mem_cons]
        rintro (heq | hmem)
        · exact hc (by simp [heq])
        · exact ih List.mem_cons_self hmem
      · exact ih (List.mem_cons_of_mem _ h)

/-! ## Texts of a table -/

instance countableChar : Countable Char :=
  Function.Injective.countable (f := Char.toNat) fun _ _ h => Char.ext (UInt32.toNat.inj h)

instance countableString : Countable String :=
  Function.Injective.countable (f := String.toList) fun _ _ h => String.toList_inj.mp h

section Tabled

variable [Countable α] [DecidableEq α] (table : List (α × List Char))

/-- The text that the table has for a value, and a number in unary for every other one. -/
noncomputable def tabled (a : α) : List Char :=
  (table.lookup a).getD (List.replicate ((exists_injective_nat α).choose a) 'k')

variable {table}

theorem tabled_injective (hvalues : (table.map Prod.snd).Nodup) (hout : ∀ e ∈ table, e.2.head?.any (· != 'k') = true) :
    Function.Injective (tabled table) := by
  have hmem : ∀ {a text}, table.lookup a = some text → (a, text) ∈ table := by
    intro a text h
    obtain ⟨l₁, l₂, heq, -⟩ := List.lookup_eq_some_iff.mp h
    rw [heq]
    exact List.mem_append_right _ List.mem_cons_self
  have hunary : ∀ {a text n}, table.lookup a = some text → text ≠ List.replicate n 'k' := by
    rintro a text n h rfl
    have hhead := hout _ (hmem h)
    cases n <;> simp [List.replicate_succ] at hhead
  intro a b h
  unfold tabled at h
  cases ha : table.lookup a with
  | some t =>
    cases hb : table.lookup b with
    | some u =>
      rw [ha, hb, Option.getD_some, Option.getD_some] at h
      exact congrArg Prod.fst (List.inj_on_of_nodup_map hvalues (hmem ha) (hmem hb) h)
    | none => exact absurd (by simpa [ha, hb] using h) (hunary ha)
  | none =>
    cases hb : table.lookup b with
    | some u => exact absurd (by simpa [ha, hb] using h.symm) (hunary hb)
    | none =>
      rw [ha, hb, Option.getD_none, Option.getD_none] at h
      exact (exists_injective_nat α).choose_spec (List.replicate_left_injective 'k' h)

end Tabled

end Lists
