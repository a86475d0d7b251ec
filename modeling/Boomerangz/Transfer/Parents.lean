import Boomerangz.Replication.Scope
import Boomerangz.Zfs.Command

/-! # Receive parents

The missing datasets above a destination are created before a full receive. Names are texts here.
-/

namespace Boomerangz.Transfer.Parents

open Check Zfs Replication

/-! ## The code -/

/-- The names and types of `ListDatasets`. -/
abbrev Inventory := List (Text × ObjectType)

def existing (inventory : Inventory) (name : Text) : Option ObjectType := inventory.reverse.lookup name

/-- `text[:strings.LastIndexByte(text, '/')]`, or `none` where the index is -1. -/
def beforeSlash (text : Text) : Option Text :=
  match text.reverse.dropWhile (· != '/') with
  | [] => none
  | _ :: rest => some rest.reverse

def trimPrefix (text front : Text) : Text := if front.isPrefixOf text then text.drop front.length else text

/-- The loop of `missingReceiveParents`. -/
def missingBelow (inventory : Inventory) : Text → List Text → Except Error (List Text)
  | _, [] => .ok []
  | current, component :: rest =>
    let current := current ++ '/' :: component
    match existing inventory current with
    | some type => do
      require (type == .filesystem)
        (.message "receive ancestor is not a filesystem: %s" [.text (String.ofList current)])
      missingBelow inventory current rest
    | none => do
      let missing ← missingBelow inventory current rest
      return current :: missing

def missingReceiveParents (root target : Text) (inventory : Inventory) : Except Error (List Text) := do
  require (target == root || below root target) (.plain "mapped destination is outside configured root")
  if target = root then return []
  else
    require (existing inventory root == some .filesystem) (.plain "receive root must be an existing filesystem")
    match beforeSlash target with
    | none => return []
    | some parent =>
      if parent.length < root.length ∨ parent = root then return []
      else missingBelow inventory root ((trimPrefix parent (root ++ ['/'])).splitOn '/')

def Between (root target d : Text) : Prop := below root d = true ∧ below d target = true

variable {root target parent d a b : Text} {parts : List Text} {inventory : Inventory} {missing : List Text}

/-! ## Names -/

theorem splitOn_inj (h : a.splitOn '/' = b.splitOn '/') : a = b := by
  have hjoin := congrArg (['/'].intercalate ·) h
  rwa [List.intercalate_splitOn, List.intercalate_splitOn] at hjoin

theorem below_irrefl (a : Text) : ¬ below a a = true := by
  intro h
  rw [below, List.isPrefixOf_iff_prefix] at h
  have hlength := h.length_le
  rw [List.length_append, List.length_singleton] at hlength
  omega

theorem below_iff : below a b = true ↔ ∃ rest, rest ≠ [] ∧ b.splitOn '/' = a.splitOn '/' ++ rest := by
  constructor
  · intro h
    obtain ⟨rest, hrest⟩ := within_iff.mpr (.inr h)
    refine ⟨rest, ?_, hrest.symm⟩
    rintro rfl
    rw [List.append_nil] at hrest
    exact below_irrefl b (splitOn_inj hrest ▸ h)
  · rintro ⟨rest, hne, hrest⟩
    refine (within_iff.mp ⟨rest, hrest.symm⟩).resolve_left ?_
    rintro rfl
    exact hne (List.self_eq_append_right.mp hrest)

theorem below_trans {c : Text} (hab : below a b = true) (hbc : below b c = true) : below a c = true := by
  obtain ⟨rest, hne, hrest⟩ := below_iff.mp hab
  obtain ⟨rest', -, hrest'⟩ := below_iff.mp hbc
  exact below_iff.mpr ⟨rest ++ rest', by simp [hne], by rw [hrest', hrest, List.append_assoc]⟩

theorem beforeSlash_eq_some (h : beforeSlash d = some parent) :
    ∃ leaf, '/' ∉ leaf ∧ d = parent ++ '/' :: leaf := by
  unfold beforeSlash at h
  split at h
  · cases h
  · rename_i c rest hdrop
    cases h
    have hc : c = '/' := by
      have hhead := List.head?_dropWhile_not (· != '/') d.reverse
      rw [hdrop] at hhead
      simpa using hhead
    have hsplit := List.takeWhile_append_dropWhile (p := (· != '/')) (l := d.reverse)
    refine ⟨(d.reverse.takeWhile (· != '/')).reverse, ?_, ?_⟩
    · intro hmem
      simpa using List.mem_takeWhile_imp (List.mem_reverse.mp hmem)
    · rw [hdrop, hc] at hsplit
      rw [← List.reverse_inj, ← hsplit]
      simp [hsplit]

theorem parent_of_below (h : below a d = true) : ∃ parent leaf, beforeSlash d = some parent ∧
    d.splitOn '/' = parent.splitOn '/' ++ [leaf] ∧ (parent = a ∨ below a parent = true) := by
  cases hparent : beforeSlash d with
  | none =>
    rw [below, List.isPrefixOf_iff_prefix] at h
    unfold beforeSlash at hparent
    split at hparent
    · rename_i hnone
      simpa using List.dropWhile_eq_nil_iff.mp hnone '/' (List.mem_reverse.mpr (h.subset (by simp)))
    · cases hparent
  | some parent =>
    obtain ⟨leaf, hleaf, rfl⟩ := beforeSlash_eq_some hparent
    have hsplit : (parent ++ '/' :: leaf).splitOn '/' = parent.splitOn '/' ++ [leaf] := by
      rw [List.splitOn_append_cons_self, List.splitOn_eq_singleton hleaf]
    have hwithin := within_iff.mpr (.inr h)
    unfold Within at hwithin
    rw [hsplit, List.prefix_concat_iff] at hwithin
    refine ⟨parent, leaf, rfl, hsplit, within_iff.mp (hwithin.resolve_left fun heq => ?_)⟩
    exact below_irrefl a (splitOn_inj (hsplit.trans heq.symm) ▸ h)

/-! ## The loop -/

def chain : Text → List Text → List Text
  | _, [] => []
  | current, component :: rest => (current ++ '/' :: component) :: chain (current ++ '/' :: component) rest

theorem missingBelow_eq_ok : missingBelow inventory root parts = .ok missing ↔
    (∀ d ∈ chain root parts, ∀ type, existing inventory d = some type → type = .filesystem) ∧
      (chain root parts).filter (fun d => (existing inventory d).isNone) = missing := by
  induction parts generalizing root missing with
  | nil => simp [missingBelow, chain]
  | cons c parts ih =>
    simp only [missingBelow, chain, List.forall_mem_cons, List.filter_cons]
    split
    · rename_i type htype
      simp only [ok_iff, ih, htype]
      simp [and_assoc]
    · rename_i hnone
      simp only [ok_iff, ih, hnone]
      simp

theorem mem_chain (hparts : ∀ part ∈ parts, '/' ∉ part) :
    d ∈ chain root parts ↔ ∃ front, front ≠ [] ∧ front <+: parts ∧ d.splitOn '/' = root.splitOn '/' ++ front := by
  induction parts generalizing root with
  | nil =>
    refine iff_of_false List.not_mem_nil ?_
    rintro ⟨front, hne, hfront, -⟩
    exact hne (List.prefix_nil.mp hfront)
  | cons c parts ih =>
    rw [List.forall_mem_cons] at hparts
    have hsplit : (root ++ '/' :: c).splitOn '/' = root.splitOn '/' ++ [c] := by
      rw [List.splitOn_append_cons_self, List.splitOn_eq_singleton hparts.1]
    rw [chain, List.mem_cons, ih hparts.2, hsplit]
    constructor
    · rintro (rfl | ⟨front, -, hfront, hd⟩)
      · exact ⟨[c], by simp, by simp, hsplit⟩
      · exact ⟨c :: front, by simp, by simpa using hfront, by simpa using hd⟩
    · rintro ⟨front, hne, hfront, hd⟩
      obtain ⟨x, front, rfl⟩ := List.exists_cons_of_ne_nil hne
      obtain ⟨rfl, hrest⟩ := List.cons_prefix_cons.mp hfront
      cases front with
      | nil => exact .inl (splitOn_inj (hd.trans hsplit.symm))
      | cons y front => exact .inr ⟨y :: front, by simp, hrest, by simpa using hd⟩

theorem pairwise_chain (hparts : ∀ part ∈ parts, '/' ∉ part) :
    (chain root parts).Pairwise fun a b => below a b = true := by
  induction parts generalizing root with
  | nil => exact .nil
  | cons c parts ih =>
    rw [List.forall_mem_cons] at hparts
    refine List.pairwise_cons.mpr ⟨fun d hd => ?_, ih hparts.2⟩
    obtain ⟨front, hne, -, hsplit⟩ := (mem_chain hparts.2).mp hd
    exact below_iff.mpr ⟨front, hne, hsplit⟩

theorem mem_chain_iff_between (hparts : ∀ part ∈ parts, '/' ∉ part) {leaf : Text}
    (htarget : target.splitOn '/' = root.splitOn '/' ++ (parts ++ [leaf])) :
    d ∈ chain root parts ↔ Between root target d := by
  rw [mem_chain hparts]
  constructor
  · rintro ⟨front, hne, ⟨rest, rfl⟩, hd⟩
    exact ⟨below_iff.mpr ⟨front, hne, hd⟩, below_iff.mpr ⟨rest ++ [leaf], by simp, by simp [htarget, hd]⟩⟩
  · rintro ⟨hroot, hd⟩
    obtain ⟨front, hne, hfront⟩ := below_iff.mp hroot
    obtain ⟨rest, hrest, hd⟩ := below_iff.mp hd
    rw [htarget, hfront, List.append_assoc, List.append_cancel_left_eq] at hd
    refine ⟨front, hne, (List.prefix_concat_iff.mp ⟨rest, hd.symm⟩).resolve_left ?_, hfront⟩
    rintro rfl
    exact hrest (List.self_eq_append_right.mp hd)

theorem missingReceiveParents_below (h : below root target = true) (inventory : Inventory) :
    ∃ names : List Text, (∀ d, d ∈ names ↔ Between root target d) ∧ names.Pairwise (fun a b => below a b = true) ∧
      ∀ missing, missingReceiveParents root target inventory = .ok missing ↔
        existing inventory root = some .filesystem ∧
          (∀ d ∈ names, ∀ type, existing inventory d = some type → type = .filesystem) ∧
            names.filter (fun d => (existing inventory d).isNone) = missing := by
  have hne : target ≠ root := fun heq => below_irrefl root (heq ▸ h)
  obtain ⟨parent, leaf, hparent, hsplit, hwithin⟩ := parent_of_below h
  have hcode : ∀ missing, missingReceiveParents root target inventory = .ok missing ↔
      existing inventory root = some .filesystem ∧
        (if parent.length < root.length ∨ parent = root then pure []
          else missingBelow inventory root ((trimPrefix parent (root ++ ['/'])).splitOn '/')) = .ok missing := by
    simp [missingReceiveParents, h, hne, hparent]
  simp only [hcode]
  rcases hwithin with rfl | hbelow
  · refine ⟨chain parent [], fun d => mem_chain_iff_between (by simp) hsplit, .nil, fun missing => ?_⟩
    simp [chain]
  · obtain ⟨relative, rfl⟩ := List.isPrefixOf_iff_prefix.mp hbelow
    have hparts : ∀ part ∈ relative.splitOn '/', '/' ∉ part := fun part => Lists.not_mem_of_mem_splitOn
    have htrim : trimPrefix (root ++ ['/'] ++ relative) (root ++ ['/']) = relative := by
      rw [trimPrefix, if_pos (List.isPrefixOf_iff_prefix.mpr (List.prefix_append _ _)), List.drop_left]
    have htarget : target.splitOn '/' = root.splitOn '/' ++ (relative.splitOn '/' ++ [leaf]) := by
      rw [hsplit, List.append_assoc, List.singleton_append, List.splitOn_append_cons_self, List.append_assoc]
    refine ⟨chain root (relative.splitOn '/'), fun d => mem_chain_iff_between hparts htarget, pairwise_chain hparts,
      fun missing => ?_⟩
    rw [if_neg (by simp), htrim, missingBelow_eq_ok]

theorem mem_missing (h : missingReceiveParents root target inventory = .ok missing) (hd : d ∈ missing) :
    Between root target d ∧ existing inventory d = none := by
  by_cases hroot : target = root
  · simp only [missingReceiveParents, ok_iff, hroot, if_true] at h
    cases h.2
    cases hd
  · by_cases hbelow : below root target = true
    · obtain ⟨names, hnames, -, hcode⟩ := missingReceiveParents_below hbelow inventory
      obtain ⟨-, -, rfl⟩ := (hcode missing).mp h
      simpa [hnames] using hd
    · simp [missingReceiveParents, hroot, hbelow] at h

/-! ## What is prepared -/

theorem parent_first {created rest : List Text} (hroot : existing inventory root = some .filesystem)
    (htypes : ∀ d type, Between root target d → existing inventory d = some type → type = .filesystem)
    (hmem : ∀ x, x ∈ created ++ d :: rest ↔ Between root target x ∧ existing inventory x = none)
    (hsorted : (created ++ d :: rest).Pairwise fun a b => below a b = true) :
    ∃ parent, beforeSlash d = some parent ∧ (parent ∈ created ∨ existing inventory parent = some .filesystem) := by
  have hd : Between root target d := ((hmem d).mp (by simp)).1
  obtain ⟨parent, leaf, hparent, hsplit, hwithin⟩ := parent_of_below hd.1
  refine ⟨parent, hparent, ?_⟩
  rcases hwithin with rfl | hbelow
  · exact .inr hroot
  have habove : below parent d = true := below_iff.mpr ⟨[leaf], by simp, hsplit⟩
  have hbetween : Between root target parent := ⟨hbelow, below_trans habove hd.2⟩
  cases htype : existing inventory parent with
  | some type => exact .inr (congrArg some (htypes parent type hbetween htype))
  | none =>
    -- The parent is missing too. It cannot come later, since what comes later is below `d`.
    rw [List.pairwise_append, List.pairwise_cons] at hsorted
    refine .inl ((List.mem_append.mp ((hmem parent).mpr ⟨hbetween, htype⟩)).resolve_right fun hlater => ?_)
    rcases List.mem_cons.mp hlater with rfl | hlater
    · exact below_irrefl parent habove
    · exact below_irrefl d (below_trans (hsorted.2.1.1 parent hlater) habove)

/-- The receive parents, and that each one's parent is there when it is created. -/
theorem receive_parents_exact (root target : Text) (inventory : Inventory) :
    ((∃ missing, missingReceiveParents root target inventory = .ok missing) ↔
      target = root ∨ below root target = true ∧ existing inventory root = some .filesystem ∧
        ∀ d type, Between root target d → existing inventory d = some type → type = .filesystem) ∧
    ∀ missing, missingReceiveParents root target inventory = .ok missing →
      (∀ d, d ∈ missing ↔ Between root target d ∧ existing inventory d = none) ∧
      root ∉ missing ∧ target ∉ missing ∧ missing.Pairwise (fun a b => below a b = true) ∧
      ∀ created d rest, missing = created ++ d :: rest →
        ∃ parent, beforeSlash d = some parent ∧ (parent ∈ created ∨ existing inventory parent = some .filesystem) := by
  by_cases hroot : target = root
  · subst hroot
    have hcode : missingReceiveParents target target inventory = .ok [] := by simp [missingReceiveParents, require]
    have hnone : ∀ d, ¬ Between target target d := fun d hd => below_irrefl target (below_trans hd.1 hd.2)
    refine ⟨iff_of_true ⟨[], hcode⟩ (.inl rfl), fun missing h => ?_⟩
    obtain rfl := Except.ok.inj (hcode.symm.trans h)
    simp [hnone]
  by_cases hbelow : below root target = true
  · obtain ⟨names, hnames, hsorted, hcode⟩ := missingReceiveParents_below hbelow inventory
    simp only [hnames] at hcode
    simp only [hcode, hroot, hbelow, false_or, true_and]
    constructor
    · constructor
      · rintro ⟨missing, hexists, htypes, -⟩
        exact ⟨hexists, fun d type hd => htypes d hd type⟩
      · rintro ⟨hexists, htypes⟩
        exact ⟨_, hexists, fun d hd type => htypes d type hd, rfl⟩
    · rintro missing ⟨hexists, htypes, rfl⟩
      have hmem : ∀ d, d ∈ names.filter (fun d => (existing inventory d).isNone) ↔
          Between root target d ∧ existing inventory d = none := by simp [hnames]
      have hsorted := hsorted.filter fun d => (existing inventory d).isNone
      refine ⟨hmem, ?_, ?_, hsorted, fun created d rest hsplit => ?_⟩
      · exact fun h => below_irrefl root ((hmem root).mp h).1.1
      · exact fun h => below_irrefl target ((hmem target).mp h).1.2
      · rw [hsplit] at hmem hsorted
        exact parent_first hexists (fun d type hd => htypes d hd type) hmem hsorted
  · have hcode : ∀ missing, missingReceiveParents root target inventory ≠ .ok missing := by
      simp [missingReceiveParents, hroot, hbelow]
    exact ⟨by simp [hcode, hroot, hbelow], fun missing h => absurd h (hcode missing)⟩

def wreckInventory : Inventory := [("vault".toList, .filesystem), ("vault/wreck".toList, .filesystem)]

theorem wreck_parents_created :
    missingReceiveParents "vault".toList "vault/wreck/hold/gold/coin".toList wreckInventory =
        .ok ["vault/wreck/hold".toList, "vault/wreck/hold/gold".toList] ∧
      ∃ parent, beforeSlash "vault/wreck/hold/gold".toList = some parent ∧
        (parent ∈ ["vault/wreck/hold".toList] ∨ existing wreckInventory parent = some .filesystem) := by
  have h : missingReceiveParents "vault".toList "vault/wreck/hold/gold/coin".toList wreckInventory =
      .ok ["vault/wreck/hold".toList, "vault/wreck/hold/gold".toList] := by decide
  exact ⟨h, ((receive_parents_exact _ _ _).2 _ h).2.2.2.2 ["vault/wreck/hold".toList] _ [] rfl⟩

end Boomerangz.Transfer.Parents
