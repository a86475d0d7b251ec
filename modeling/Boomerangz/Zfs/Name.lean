import Boomerangz.Lib.Lists

/-! # Names

Names are parsed: what boomerangz puts into one is a constructor, any other text stays text.
-/

namespace Boomerangz.Zfs

/-! ## Datasets -/

/-- The path components of a dataset name; `[]` is the empty name. -/
abbrev Dataset := List String

/-- `name == root || strings.HasPrefix(name, root+"/")`. -/
def inside (name root : Dataset) : Bool := name == root || (root != [] && root.isPrefixOf name)

theorem inside_self (d : Dataset) : inside d d = true := by simp [inside]

theorem inside_iff {d r : Dataset} (hr : r ≠ []) : inside d r = true ↔ r <+: d := by
  simp only [inside, Bool.or_eq_true, beq_iff_eq, Bool.and_eq_true, bne_iff_ne, ne_eq, hr,
    not_false_eq_true, true_and, List.isPrefixOf_iff_prefix, or_iff_right_iff_imp]
  rintro rfl
  exact List.prefix_rfl

theorem inside_trans {a b c : Dataset} (hab : inside a b = true) (hbc : inside b c = true) :
    inside a c = true := by
  by_cases hc : c = []
  · subst hc
    have hb : b = [] := by simpa [inside] using hbc
    exact hb ▸ hab
  · have hb : b ≠ [] := by
      rintro rfl
      simp [inside_iff hc, hc] at hbc
    rw [inside_iff hb] at hab
    rw [inside_iff hc] at hbc ⊢
    exact hbc.trans hab

/-- `unicode.IsSpace` or `unicode.IsControl`. -/
def blank (c : Char) : Bool :=
  c.toNat ≤ 0x20 || (0x7f ≤ c.toNat && c.toNat ≤ 0xa0) || c.toNat == 0x1680 ||
    (0x2000 ≤ c.toNat && c.toNat ≤ 0x200a) ||
    [0x2028, 0x2029, 0x202f, 0x205f, 0x3000].contains c.toNat

def validateDataset (name : List Char) : Bool :=
  name != [] && name.head? != some '/' && name.head? != some '-' && !name.contains '@' && !name.contains '#' &&
    (name.splitOn '/').all (fun part => part != [] && part != ['.'] && part != ['.', '.']) &&
    name.all (fun c => !blank c)

/-- `validateDataset` of the parts. -/
def validDataset (d : Dataset) : Bool :=
  d != [] && d.head?.all (fun part => part.toList.head? != some '-') &&
    d.all (fun part => part != "" && part != "." && part != ".." &&
      part.toList.all (fun c => !(['/', '@', '#'].contains c) && !blank c))

theorem ne_nil_of_validDataset {d : Dataset} (h : validDataset d = true) : d ≠ [] := by
  rintro rfl
  simp [validDataset] at h

theorem validDataset_append {a b c : Dataset} (ha : validDataset a = true) (hb : validDataset b = true) (hsub : ∀ x ∈ c, x ∈ b) :
    validDataset (a ++ c) = true := by
  have hne := ne_nil_of_validDataset ha
  simp only [validDataset, Bool.and_eq_true, bne_iff_ne, List.all_eq_true] at ha hb ⊢
  refine ⟨⟨by simp [hne], ?_⟩, fun x hx => ?_⟩
  · rw [List.head?_append_of_ne_nil _ hne]
    exact ha.1.2
  · rcases List.mem_append.mp hx with hx | hx
    · exact ha.2 x hx
    · exact hb.2 x (hsub x hx)

theorem validDataset_of_prefix {a d : Dataset} (h : validDataset d = true) (ha : a ≠ []) (hp : a <+: d) :
    validDataset a = true := by
  obtain ⟨rest, rfl⟩ := hp
  simp only [validDataset, Bool.and_eq_true, bne_iff_ne, List.all_eq_true, List.head?_append_of_ne_nil _ ha] at h ⊢
  exact ⟨⟨ha, h.1.2⟩, fun x hx => h.2 x (List.mem_append_left _ hx)⟩

def path : Dataset → List Char
  | [] => []
  | [a] => a.toList
  | a :: b :: rest => a.toList ++ '/' :: path (b :: rest)

/-- The order of `slices.Sort` on texts. -/
def textLe (a b : List Char) : Bool := !List.lex b a (fun x y => x.toNat < y.toNat)

@[simp] theorem textLe_nil (b : List Char) : textLe [] b = true := by
  cases b <;> simp [textLe, List.lex]

@[simp] theorem textLe_cons_nil (x : Char) (a : List Char) : textLe (x :: a) [] = false := by
  simp [textLe, List.lex]

theorem textLe_cons_cons (x y : Char) (a b : List Char) :
    textLe (x :: a) (y :: b) = true ↔ x.toNat < y.toNat ∨ (x = y ∧ textLe a b = true) := by
  rcases lt_trichotomy x.toNat y.toNat with h | h | h
  · have hne : y ≠ x := fun heq => h.ne (congrArg Char.toNat heq.symm)
    simp [textLe, List.lex, h, h.le, hne]
  · obtain rfl : x = y := Char.toNat_inj.mp h
    simp [textLe, List.lex]
  · have hne : x ≠ y := fun heq => h.ne' (congrArg Char.toNat heq)
    simp [textLe, List.lex, h, h.le, hne]

theorem textLe_total (a b : List Char) : textLe a b = true ∨ textLe b a = true := by
  induction a generalizing b with
  | nil => simp
  | cons x a ih =>
    cases b with
    | nil => simp
    | cons y b =>
      rw [textLe_cons_cons, textLe_cons_cons]
      rcases lt_trichotomy x.toNat y.toNat with h | h | h
      · exact .inl (.inl h)
      · obtain rfl : x = y := Char.toNat_inj.mp h
        exact (ih b).imp (fun h => .inr ⟨rfl, h⟩) (fun h => .inr ⟨rfl, h⟩)
      · exact .inr (.inl h)

theorem textLe_trans {a b c : List Char} (hab : textLe a b = true) (hbc : textLe b c = true) : textLe a c = true := by
  induction a generalizing b c with
  | nil => simp
  | cons x a ih =>
    cases b with
    | nil => simp at hab
    | cons y b =>
      cases c with
      | nil => simp at hbc
      | cons z c =>
        rw [textLe_cons_cons] at hab hbc ⊢
        rcases hab with hab | ⟨rfl, hab⟩
        · rcases hbc with hbc | ⟨rfl, -⟩
          · exact .inl (hab.trans hbc)
          · exact .inl hab
        · exact hbc.imp_right fun h => ⟨h.1, ih hab h.2⟩

theorem textLe_antisymm {a b : List Char} (hab : textLe a b = true) (hba : textLe b a = true) : a = b := by
  induction a generalizing b with
  | nil =>
    cases b with
    | nil => rfl
    | cons y b => simp at hba
  | cons x a ih =>
    cases b with
    | nil => simp at hab
    | cons y b =>
      rw [textLe_cons_cons] at hab hba
      rcases hab with hab | ⟨rfl, hab⟩
      · rcases hba with hba | ⟨rfl, -⟩
        · exact absurd hba hab.not_gt
        · exact absurd hab (lt_irrefl _)
      · rw [ih hab (hba.resolve_left (lt_irrefl _)).2]

theorem pairwise_sort_text {α : Type*} (key : α → List Char) (l : List α) :
    (l.insertionSort fun a b => textLe (key a) (key b)).Pairwise fun a b => textLe (key a) (key b) = true := by
  have : Std.Total fun a b : α => textLe (key a) (key b) = true := ⟨fun a b => textLe_total _ _⟩
  have : IsTrans α fun a b => textLe (key a) (key b) = true := ⟨fun _ _ _ => textLe_trans⟩
  exact List.pairwise_insertionSort _ l

theorem textLe_append (a s : List Char) : textLe a (a ++ s) = true := by
  induction a with
  | nil => simp
  | cons x a ih => exact (textLe_cons_cons ..).mpr (.inr ⟨rfl, ih⟩)

theorem path_eq_intercalate (d : Dataset) : path d = ['/'].intercalate (d.map String.toList) := by
  induction d with
  | nil => rfl
  | cons a d ih =>
    cases d with
    | nil => simp [path, List.intercalate]
    | cons b rest =>
      rw [path, ih]
      simp [List.intercalate]

theorem path_append {d s : Dataset} (hd : d ≠ []) (hs : s ≠ []) : path (d ++ s) = path d ++ '/' :: path s := by
  obtain ⟨a, s, rfl⟩ := List.exists_cons_of_ne_nil hs
  simp only [path_eq_intercalate, List.map_append, List.map_cons]
  exact Lists.intercalate_append_cons '/' (by simpa using hd) _ _

theorem slash_not_mem {d : Dataset} (h : validDataset d = true) : ∀ part ∈ d, '/' ∉ part.toList := by
  intro part hpart hslash
  simp only [validDataset, Bool.and_eq_true, List.all_eq_true] at h
  have hchar := (h.2 part hpart).2 '/' hslash
  simp at hchar

theorem splitOn_path_of_ne_nil {d : Dataset} (hd : d ≠ []) (h : ∀ part ∈ d, '/' ∉ part.toList) :
    (path d).splitOn '/' = d.map String.toList := by
  rw [path_eq_intercalate]
  exact List.splitOn_intercalate _ (by simpa using h) (by simpa using hd)

theorem splitOn_path {d : Dataset} (h : validDataset d = true) : (path d).splitOn '/' = d.map String.toList :=
  splitOn_path_of_ne_nil (ne_nil_of_validDataset h) (slash_not_mem h)

theorem validDataset_splitOn (t : List Char) : validDataset ((t.splitOn '/').map String.ofList) = validateDataset t := by
  obtain ⟨first, rest, hparts⟩ := List.exists_cons_of_ne_nil (List.splitOn_ne_nil '/' t)
  have hjoin : ['/'].intercalate (first :: rest) = t := hparts ▸ List.intercalate_splitOn '/'
  have hslash : ∀ part ∈ first :: rest, '/' ∉ part := hparts ▸ fun _ => Lists.not_mem_of_mem_splitOn
  have hhead : first ≠ [] → t.head? = first.head? := by
    intro hne
    cases rest <;> simp [← hjoin, List.intercalate_cons_cons, List.head?_append_of_ne_nil _ hne]
  have hmem : ∀ part ∈ first :: rest, ∀ c ∈ part, c ∈ t := hjoin ▸ fun _ hpart _ => Lists.mem_intercalate hpart
  have hof : ∀ c ∈ t, c = '/' ∨ ∃ part ∈ first :: rest, c ∈ part := hjoin ▸ fun _ => Lists.mem_of_mem_intercalate
  have htext : ∀ part : List Char, (String.ofList part = "" ↔ part = []) ∧ (String.ofList part = "." ↔ part = ['.']) ∧
      (String.ofList part = ".." ↔ part = ['.', '.']) :=
    fun part => ⟨String.ofList_inj, @String.ofList_inj part ['.'], @String.ofList_inj part ['.', '.']⟩
  rw [Bool.eq_iff_iff]
  simp only [validateDataset, validDataset, hparts, Bool.and_eq_true, List.all_eq_true, List.forall_mem_map, List.head?_map,
    bne_iff_ne, ne_eq, Bool.not_eq_true', List.contains_eq_mem, decide_eq_false_iff_not, List.head?_cons, Option.map_some,
    Option.all_some, String.toList_ofList, htext]
  constructor
  · rintro ⟨⟨-, hdash⟩, hall⟩
    have hfirst := (hall first List.mem_cons_self).1.1.1
    have hnot : ∀ c ∈ t, c ≠ '@' ∧ c ≠ '#' ∧ blank c = false := by
      intro c hc
      rcases hof c hc with rfl | ⟨part, hpart, hc⟩
      · decide
      · have := (hall part hpart).2 c hc
        simp_all
    rw [hhead hfirst]
    refine ⟨⟨⟨⟨⟨⟨?_, fun hs => ?_⟩, hdash⟩, fun hc => (hnot _ hc).1 rfl⟩, fun hc => (hnot _ hc).2.1 rfl⟩,
      fun part hpart => (hall part hpart).1⟩, fun c hc => (hnot c hc).2.2⟩
    · rintro rfl
      exact hfirst (List.head?_eq_none_iff.mp (hhead hfirst).symm)
    · exact hslash first List.mem_cons_self (List.mem_of_mem_head? hs)
  · rintro ⟨⟨⟨⟨⟨-, hdash⟩, hat⟩, hsharp⟩, hall⟩, hblank⟩
    rw [hhead (hall first List.mem_cons_self).1.1] at hdash
    refine ⟨⟨by simp, hdash⟩, fun part hpart => ⟨hall part hpart, fun c hc => ⟨?_, hblank c (hmem part hpart c hc)⟩⟩⟩
    have hct := hmem part hpart c hc
    simp only [List.mem_cons, List.not_mem_nil, or_false]
    rintro (rfl | rfl | rfl)
    · exact hslash part hpart hc
    · exact hat hct
    · exact hsharp hct

theorem validateDataset_path {d : Dataset} (h : ∀ part ∈ d, '/' ∉ part.toList) :
    validateDataset (path d) = validDataset d := by
  by_cases hd : d = []
  · rw [hd]
    rfl
  · rw [← validDataset_splitOn, splitOn_path_of_ne_nil hd h, List.map_map, Function.comp_def]
    simp

theorem exists_path {t : List Char} (h : validateDataset t = true) : ∃ d, path d = t ∧ validDataset d = true := by
  refine ⟨_, ?_, (validDataset_splitOn t).trans h⟩
  rw [path_eq_intercalate, List.map_map, Function.comp_def]
  simp [List.intercalate_splitOn]

theorem path_inj {d d' : Dataset} (h : validDataset d = true) (h' : validDataset d' = true) (heq : path d = path d') :
    d = d' := by
  have hparts : d.map String.toList = d'.map String.toList := by rw [← splitOn_path h, heq, splitOn_path h']
  exact List.map_injective_iff.mpr (fun _ _ => String.toList_inj.mp) hparts

theorem mem_path {c : Char} {d : Dataset} (h : c ∈ path d) : c = '/' ∨ ∃ part ∈ d, c ∈ part.toList := by
  rw [path_eq_intercalate] at h
  simpa using Lists.mem_of_mem_intercalate h

theorem path_lt_of_inside {a d : Dataset} (ha : a ≠ []) (hp : a <+: d) (hne : a ≠ d) :
    textLe (path d) (path a) = false := by
  obtain ⟨s, rfl⟩ := hp
  have hs : s ≠ [] := by
    rintro rfl
    simp at hne
  rw [path_append ha hs, Bool.eq_false_iff]
  intro h
  have := congrArg List.length (textLe_antisymm h (textLe_append ..))
  simp at this

/-! ## Identities -/

/-- Nanoseconds since the zero time. -/
abbrev Time := Nat

/-- The first instant of the year 10000, which the name's four-digit year cannot write. -/
def endOfTime : Time := 315537897600000000000

/-- What a clock shows is in the years 1 to 9999. -/
def yearFits (clock : Int) : Bool := 0 ≤ clock && clock < (endOfTime : Int)

/-- A canonical UUID. A snapshot name carries only its first eight digits. -/
structure ID where
  short : Nat
  rest : Nat
deriving DecidableEq, Repr

/-- The digest of a canonical target. Distinct targets have distinct digests. -/
structure TargetID where
  target : String
deriving DecidableEq, Repr

/-- The digest of a stream's dataset name. -/
structure StreamID where
  dataset : Dataset
deriving DecidableEq, Repr

/-! ## Snapshots, bookmarks, hold tags -/

/-- A snapshot's component: `boomerangz-<time>-<first digits>`, other text after the prefix, or
any other text. -/
inductive Component where
  | owned (created : Time) (short : Nat)
  | stray (text : String)
  | other (text : String)
deriving DecidableEq, Repr

/-- A hold tag: `boomerangz-<target ID>`, other text after the prefix, or any other text. -/
inductive Tag where
  | target (id : TargetID)
  | stray (text : String)
  | other (text : String)
deriving DecidableEq, Repr

/-- A bookmark's component: `boomerangz-<target ID>-<uuid>`, other text after the prefix, or any
other text. -/
inductive Mark where
  | target (id : TargetID) (snapshot : ID)
  | stray (text : String)
  | other (text : String)
deriving DecidableEq, Repr

inductive Name where
  | dataset (d : Dataset)
  | snapshot (d : Dataset) (c : Component)
  | bookmark (d : Dataset) (m : Mark)
deriving DecidableEq, Repr

namespace Name

/-- `datasetOf`. -/
def base : Name → Dataset
  | dataset d => d
  | snapshot d _ => d
  | bookmark d _ => d

/-- `strings.Contains(name, "@")`. -/
def isSnapshot : Name → Bool
  | snapshot _ _ => true
  | _ => false

/-- `strings.Contains(name, "#")`. -/
def isBookmark : Name → Bool
  | bookmark _ _ => true
  | _ => false

@[simp] theorem base_dataset (d : Dataset) : (dataset d).base = d := rfl
@[simp] theorem base_snapshot (d : Dataset) (c : Component) : (snapshot d c).base = d := rfl
@[simp] theorem base_bookmark (d : Dataset) (m : Mark) : (bookmark d m).base = d := rfl

end Name

end Boomerangz.Zfs
