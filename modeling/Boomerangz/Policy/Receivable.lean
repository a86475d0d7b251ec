import Boomerangz.Policy.Resolve
import Boomerangz.Zfs.Text

/-! # What a resolved policy asks of a receive

The properties a policy sets and leaves out have names that ZFS allows.
-/

namespace Boomerangz.Policy

open Zfs

def userProperty (name : List Char) : Bool :=
  name.all fun c => ('a' ≤ c && c ≤ 'z') || ('0' ≤ c && c ≤ '9') || c == ':' || c == '_' || c == '-' || c == '.'

/-- What `Resolve` makes of stored properties, on a dataset and on the datasets above it. -/
inductive Resolved [Digests] : Effective → Prop where
  | resolve (t : Texts) (d : Dataset) (encrypted : Bool) (parent : Option Effective) (stored : List Property)
      (remotes : List String) (above : ∀ p, parent = some p → Resolved p)
      (names : ∀ row ∈ stored, userProperty row.name.text = true)
      (values : ∀ row ∈ stored, '\x00' ∉ (t.render row.value).toList) :
      Resolved (Policy.resolve t d encrypted parent stored remotes)
  | scope (p : Effective) (encrypted : Bool) (descendant : Dataset) (resolved : Resolved p) :
      Resolved (p.forReplicationScope encrypted descendant)

def PlainSettings (values : List Setting) : Prop :=
  ∀ s ∈ values, userProperty s.name.toList = true ∧ '\x00' ∉ s.value.toList

structure Receivable (p : Effective) : Prop where
  values : PlainSettings p.values
  sets : ∀ x ∈ p.setProperties, x.1 ≠ "" ∧ userProperty x.1.toList = true ∧
    startsWith x.1 "org.boomerangz:" = false ∧ '\x00' ∉ x.2.toList
  ignores : ∀ name ∈ p.ignoreProperties, name ≠ "" ∧ userProperty name.toList = true ∧
    startsWith name "org.boomerangz:" = false

/-! ## The values -/

section Values

variable {values settings : List Setting}

theorem PlainSettings.put (h : PlainSettings values) {s : Setting} (hs : userProperty s.name.toList = true)
    (hvalue : '\x00' ∉ s.value.toList) : PlainSettings (put values s) := by
  intro x hx
  rcases List.mem_append.mp hx with hx | hx
  · exact h x (List.mem_of_mem_filter hx)
  · exact List.mem_singleton.mp hx ▸ ⟨hs, hvalue⟩

theorem PlainSettings.foldl_put (h : PlainSettings values) (hs : PlainSettings settings) :
    PlainSettings (settings.foldl Policy.put values) := by
  induction settings generalizing values with
  | nil => exact h
  | cons s rest ih =>
    obtain ⟨hname, hvalue⟩ := hs s List.mem_cons_self
    exact ih (h.put hname hvalue) fun x hx => hs x (List.mem_cons_of_mem _ hx)

theorem PlainSettings.foldl_putDefault (h : PlainSettings values) {ds : List (String × String)}
    (hds : ∀ d ∈ ds, userProperty d.1.toList = true ∧ '\x00' ∉ d.2.toList) :
    PlainSettings (ds.foldl putDefault values) := by
  induction ds generalizing values with
  | nil => exact h
  | cons d rest ih =>
    refine ih ?_ fun x hx => hds x (List.mem_cons_of_mem _ hx)
    unfold putDefault
    split
    · exact h
    · intro x hx
      rcases List.mem_append.mp hx with hx | hx
      · exact h x hx
      · exact List.mem_singleton.mp hx ▸ hds d List.mem_cons_self

theorem defaults_plain (encrypted : Bool) :
    ∀ d ∈ defaults encrypted, userProperty d.1.toList = true ∧ '\x00' ∉ d.2.toList := by
  cases encrypted <;> decide

theorem plain_of_stored [Digests] {t : Texts} {d : Dataset} {stored : List Property}
    (hnames : ∀ row ∈ stored, userProperty row.name.text = true)
    (hvalues : ∀ row ∈ stored, '\x00' ∉ (t.render row.value).toList) :
    PlainSettings (stored.filterMap (settingOf t d)) := by
  intro s hs
  obtain ⟨row, hrow, hs⟩ := List.mem_filterMap.mp hs
  have hname := hnames row hrow
  unfold settingOf at hs
  split at hs
  · next name hkey =>
    simp only [Option.ite_none_right_eq_some, Option.some.injEq] at hs
    obtain ⟨-, rfl⟩ := hs
    rw [hkey, Key.text, userProperty, List.all_append, Bool.and_eq_true] at hname
    exact ⟨hname.2, hvalues row hrow⟩
  · cases hs

theorem inheritedValues_plain {parent : Option Effective} (h : ∀ p, parent = some p → PlainSettings p.values) :
    PlainSettings (inheritedValues parent) := by
  cases parent with
  | none => exact fun s hs => absurd hs List.not_mem_nil
  | some p => exact fun s hs => h p rfl s (List.mem_of_mem_filter hs)

end Values

/-! ## The receive properties -/

section Properties

variable {values : List Setting}

def Named (values : List Setting) (r : Receive) : Prop :=
  (∀ x ∈ r.setProperties, ∃ s ∈ values, x.1.toList <:+ s.name.toList ∧ x.2 = s.value ∧ reserved x.1 = false) ∧
    ∀ name ∈ r.ignoreProperties, ∃ s ∈ values, name.toList <:+ s.name.toList ∧ reserved name = false

theorem Named.step {r : Receive} {s : Setting} {all : List Setting} (h : Named values r) (hs : s ∈ values) :
    Named values (receiveStep all r s) := by
  have hsuffix : ((s.name.toList.span (· != ':')).2.drop 1) <:+ s.name.toList := by
    rw [List.span_eq_takeWhile_dropWhile]
    exact (List.drop_suffix _ _).trans (List.dropWhile_suffix _)
  unfold receiveStep
  simp only
  split
  · exact h
  · split
    · exact h
    · next hreserved =>
      rw [Bool.not_eq_true] at hreserved
      split
      · refine ⟨fun x hx => ?_, h.2⟩
        rcases List.mem_append.mp hx with hx | hx
        · exact h.1 x hx
        · obtain rfl := List.mem_singleton.mp hx
          exact ⟨s, hs, by simpa using hsuffix, rfl, hreserved⟩
      · refine ⟨h.1, fun name hname => ?_⟩
        split at hname
        · rcases List.mem_append.mp hname with hname | hname
          · exact h.2 name hname
          · obtain rfl := List.mem_singleton.mp hname
            exact ⟨s, hs, by simpa using hsuffix, hreserved⟩
        · exact h.2 name hname

theorem receiveProperties_named (values : List Setting) : Named values (receiveProperties values) := by
  have hfold : ∀ (l : List Setting) (r : Receive), (∀ s ∈ l, s ∈ values) → Named values r →
      Named values (l.foldl (receiveStep values) r) := by
    intro l
    induction l with
    | nil => exact fun r _ h => h
    | cons s l ih =>
      intro r hl h
      exact ih _ (fun x hx => hl x (List.mem_cons_of_mem _ hx)) (h.step (hl s List.mem_cons_self))
  refine hfold _ _ (fun s hs => (List.mem_insertionSort _).mp hs) ⟨?_, ?_⟩
  · exact fun x hx => absurd hx List.not_mem_nil
  · exact fun name hname => absurd hname List.not_mem_nil

theorem userProperty_suffix {a b : List Char} (hsuffix : a <:+ b) (h : userProperty b = true) : userProperty a = true := by
  rw [userProperty, List.all_eq_true] at h ⊢
  exact fun c hc => h c (hsuffix.subset hc)

theorem not_reserved {target : String} (h : reserved target = false) :
    target ≠ "" ∧ startsWith target "org.boomerangz:" = false := by
  simp only [reserved, Bool.or_eq_false_iff, beq_eq_false_iff_ne] at h
  exact ⟨h.1.1, h.1.2⟩

end Properties

theorem Resolved.receivable [Digests] {p : Effective} (h : Resolved p) : Receivable p := by
  induction h with
  | scope p encrypted descendant _ ih =>
    obtain ⟨hvalues, hsets, hignores⟩ := ih
    exact ⟨by simpa using hvalues, by simpa using hsets, by simpa using hignores⟩
  | resolve t d encrypted parent stored remotes _ hnames hrendered ih =>
    have hplain : PlainSettings (resolveValues t d encrypted parent stored) :=
      ((inheritedValues_plain fun p hp => (ih p hp).values).foldl_put (plain_of_stored hnames hrendered)).foldl_putDefault
        (defaults_plain encrypted)
    obtain ⟨hset, hignore⟩ := receiveProperties_named (resolveValues t d encrypted parent stored)
    refine ⟨by simpa [Policy.resolve, resolveRaw] using hplain, fun x hx => ?_, fun name hname => ?_⟩
    · simp only [Policy.resolve, checked_setProperties, resolveRaw] at hx
      obtain ⟨s, hs, hsuffix, hvalue, hreserved⟩ := hset x hx
      obtain ⟨hne, hforeign⟩ := not_reserved hreserved
      exact ⟨hne, userProperty_suffix hsuffix (hplain s hs).1, hforeign, hvalue ▸ (hplain s hs).2⟩
    · simp only [Policy.resolve, checked_ignoreProperties, resolveRaw] at hname
      obtain ⟨s, hs, hsuffix, hreserved⟩ := hignore name (List.mem_of_mem_filter hname)
      obtain ⟨hne, hforeign⟩ := not_reserved hreserved
      exact ⟨hne, userProperty_suffix hsuffix (hplain s hs).1, hforeign⟩

end Boomerangz.Policy
