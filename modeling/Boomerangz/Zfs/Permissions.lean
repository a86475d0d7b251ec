import Boomerangz.Lib.Expansion
import Boomerangz.Zfs.Name

/-! # Delegated permissions

What `zfs allow` shows, block by block, and what it grants to an account on a dataset.
-/

open Expansion

namespace Boomerangz.Zfs

inductive PermissionSection where
  | none
  | sets
  | create
  | «local»
  | descendent
  | localDescendent
deriving DecidableEq, Repr

/-- `kind` and `name` of a grant. -/
inductive Grantee where
  | user (name : String)
  | group (name : String)
  | everyone
deriving DecidableEq, Repr

structure PermissionGrant where
  grantee : Grantee
  permissions : List String
  «section» : PermissionSection
deriving DecidableEq, Repr

structure PermissionBlock where
  setpoint : Dataset
  sets : List (String × List String)
  grants : List PermissionGrant
deriving DecidableEq, Repr

structure EffectiveIdentity where
  name : String
  groups : List String
deriving DecidableEq, Repr

/-- `strings.HasPrefix(permission, "@")`. -/
def isPermissionSet (permission : String) : Bool := permission.toList.head? == some '@'

/-- `sets[permission]`. -/
def PermissionBlock.members (block : PermissionBlock) (permission : String) : List String :=
  (block.sets.lookup permission).getD []

/-- `expandPermissions`, with the marks of the sets that are being expanded. -/
def expandPermissions (depth : Nat) (result permissions : List String) (block : PermissionBlock) : Option (List String) :=
  (expand isPermissionSet block.members depth permissions ⟨result, []⟩).map Walk.found

/-- `strings.HasPrefix(dataset, setpoint+"/")`, for another dataset. -/
def descendant (dataset setpoint : Dataset) : Bool := dataset != setpoint && inside dataset setpoint

def PermissionGrant.skipped (grant : PermissionGrant) (below : Bool) (identity : EffectiveIdentity) : Bool :=
  (grant.section == .local && below) || (grant.section == .descendent && !below) ||
    match grant.grantee with
    | .user name => name != identity.name
    | .group name => !identity.groups.contains name
    | .everyone => false

def blockPermissions (depth : Nat) (dataset : Dataset) (identity : EffectiveIdentity) (result : List String)
    (block : PermissionBlock) : Option (List String) :=
  let below := descendant dataset block.setpoint
  if dataset != block.setpoint && !below then some result
  else block.grants.foldlM (fun result grant =>
    if grant.skipped below identity then some result else expandPermissions depth result grant.permissions block) result

def effectivePermissions (depth : Nat) (blocks : List PermissionBlock) (dataset : Dataset)
    (identity : EffectiveIdentity) : Option (List String) := do
  let result ← blocks.foldlM (blockPermissions depth dataset identity) []
  return if result.contains "receive" then "receive:append" :: result else result

/-! ## What is granted -/

/-- Local grants are for the set point, descendent ones for what is below it, the others for both. -/
def PermissionGrant.AppliesAt (grant : PermissionGrant) (dataset setpoint : Dataset) : Prop :=
  match grant.section with
  | .local => dataset = setpoint
  | .descendent => dataset ≠ setpoint ∧ inside dataset setpoint = true
  | _ => inside dataset setpoint = true

def PermissionGrant.AppliesTo (grant : PermissionGrant) (identity : EffectiveIdentity) : Prop :=
  match grant.grantee with
  | .user name => name = identity.name
  | .group name => name ∈ identity.groups
  | .everyone => True

def Granted (blocks : List PermissionBlock) (dataset : Dataset) (identity : EffectiveIdentity) (permission : String) :
    Prop :=
  ∃ block ∈ blocks, ∃ grant ∈ block.grants, grant.AppliesAt dataset block.setpoint ∧ grant.AppliesTo identity ∧
    Reach isPermissionSet block.members grant.permissions permission

section Exact

variable {depth : Nat} {dataset : Dataset} {identity : EffectiveIdentity} {result : List String} {block : PermissionBlock}

theorem foldlM_gives {α : Type} {go : List String → α → Option (List String)} {gives : α → String → Prop} {l : List α}
    (h : ∀ a ∈ l, ∀ result, ∃ result', go result a = some result' ∧ ∀ x, x ∈ result' ↔ x ∈ result ∨ gives a x)
    (result : List String) :
    ∃ result', l.foldlM go result = some result' ∧ ∀ x, x ∈ result' ↔ x ∈ result ∨ ∃ a ∈ l, gives a x := by
  induction l generalizing result with
  | nil => exact ⟨result, rfl, by simp⟩
  | cons a l ih =>
    obtain ⟨first, hfirst, hgives⟩ := h a List.mem_cons_self result
    obtain ⟨rest, hrest, hall⟩ := ih (fun b hb => h b (List.mem_cons_of_mem _ hb)) first
    refine ⟨rest, by rw [List.foldlM_cons, hfirst]; exact hrest, fun x => ?_⟩
    simp only [hall, hgives, List.mem_cons, or_and_right, exists_or, exists_eq_left, or_assoc]

theorem expandPermissions_exact (hdepth : block.sets.length + 2 ≤ depth) (result permissions : List String) :
    ∃ result', expandPermissions depth result permissions block = some result' ∧
      ∀ x, x ∈ result' ↔ x ∈ result ∨ Reach isPermissionSet block.members permissions x := by
  have hdomain : ∀ a, a ∉ block.sets.map Prod.fst → block.members a = [] := by
    intro a ha
    have hnone : block.sets.lookup a = none := by
      rw [List.lookup_eq_none_iff]
      intro p hp
      rw [bne_iff_ne]
      rintro rfl
      exact ha (List.mem_map_of_mem hp)
    rw [PermissionBlock.members, hnone]
    rfl
  have hsmall := unmarked_le (block.sets.map Prod.fst) ([] : List String)
  rw [List.length_map] at hsmall
  obtain ⟨w, hw⟩ : ∃ w, expand isPermissionSet block.members depth permissions ⟨result, []⟩ = some w :=
    expand_ends hdomain (le_trans (Nat.add_le_add_right hsmall 2) hdepth)
  refine ⟨w.found, by rw [expandPermissions, hw]; rfl, fun x => ?_⟩
  rw [(expand_adds hw).2, avoids_nil]

theorem PermissionGrant.AppliesAt.inside {grant : PermissionGrant} (h : grant.AppliesAt dataset block.setpoint) :
    inside dataset block.setpoint = true := by
  unfold PermissionGrant.AppliesAt at h
  split at h
  · exact h ▸ inside_self dataset
  · exact h.2
  · exact h

theorem skipped_iff {grant : PermissionGrant} (hblock : inside dataset block.setpoint = true) :
    grant.skipped (descendant dataset block.setpoint) identity = false ↔
      grant.AppliesAt dataset block.setpoint ∧ grant.AppliesTo identity := by
  rw [PermissionGrant.skipped, Bool.or_eq_false_iff]
  refine and_congr ?_ ?_
  · cases h : grant.section <;> simp [PermissionGrant.AppliesAt, descendant, h, hblock]
  · cases h : grant.grantee <;> simp [PermissionGrant.AppliesTo, h]

theorem blockPermissions_exact (hdepth : block.sets.length + 2 ≤ depth) (result : List String) :
    ∃ result', blockPermissions depth dataset identity result block = some result' ∧
      ∀ x, x ∈ result' ↔ x ∈ result ∨ ∃ grant ∈ block.grants, grant.AppliesAt dataset block.setpoint ∧
        grant.AppliesTo identity ∧ Reach isPermissionSet block.members grant.permissions x := by
  by_cases hin : inside dataset block.setpoint = true
  · have hcond : (dataset != block.setpoint && !descendant dataset block.setpoint) = false := by
      simp [descendant, hin]
    simp only [blockPermissions, hcond, Bool.false_eq_true, if_false]
    refine foldlM_gives (fun grant _ result => ?_) result
    by_cases hskip : grant.skipped (descendant dataset block.setpoint) identity = true
    · have hnot : ¬ (grant.AppliesAt dataset block.setpoint ∧ grant.AppliesTo identity) := by
        rw [← skipped_iff hin, hskip]
        exact Bool.true_eq_false_eq_False
      refine ⟨result, if_pos hskip, fun x => ?_⟩
      rw [← and_assoc]
      simp [hnot]
    · obtain ⟨result', hresult, hexact⟩ := expandPermissions_exact hdepth result grant.permissions
      obtain ⟨hat, hto⟩ := (skipped_iff hin).mp (Bool.eq_false_iff.mpr hskip)
      refine ⟨result', by rw [if_neg hskip, hresult], fun x => ?_⟩
      simp [hexact, hat, hto]
  · have hother : dataset ≠ block.setpoint := by
      rintro rfl
      exact hin (inside_self _)
    have hcond : (dataset != block.setpoint && !descendant dataset block.setpoint) = true := by
      simp [descendant, hin, hother]
    refine ⟨result, by simp only [blockPermissions, hcond, if_true], fun x => ?_⟩
    refine (or_iff_left ?_).symm
    rintro ⟨grant, -, hat, -⟩
    exact hin hat.inside

/-- The computation ends, with exactly what is granted. -/
theorem effectivePermissions_exact (blocks : List PermissionBlock) (dataset : Dataset) (identity : EffectiveIdentity) :
    ∃ enough, ∀ depth ≥ enough, ∃ result, effectivePermissions depth blocks dataset identity = some result ∧
      ∀ permission, permission ∈ result ↔ Granted blocks dataset identity permission ∨
        permission = "receive:append" ∧ Granted blocks dataset identity "receive" := by
  refine ⟨(blocks.flatMap PermissionBlock.sets).length + 2, fun depth hdepth => ?_⟩
  have hsets : ∀ block ∈ blocks, block.sets.length ≤ (blocks.flatMap PermissionBlock.sets).length := fun block hblock =>
    (List.sublist_flatten_of_mem (List.mem_map_of_mem hblock)).length_le
  obtain ⟨result, hresult, hexact⟩ : ∃ result, blocks.foldlM (blockPermissions depth dataset identity) [] = some result ∧ _ :=
    foldlM_gives (fun block hblock =>
      blockPermissions_exact (le_trans (Nat.add_le_add_right (hsets block hblock) 2) hdepth)) []
  have hgranted : ∀ x, x ∈ result ↔ Granted blocks dataset identity x := fun x => by
    rw [hexact]
    simp [Granted]
  refine ⟨_, by simp only [effectivePermissions, hresult]; rfl, fun permission => ?_⟩
  by_cases hreceive : "receive" ∈ result
  · simp [hreceive, ← hgranted, or_comm]
  · simp [hreceive, ← hgranted]

end Exact

def circularBlock : PermissionBlock where
  setpoint := ["tank"]
  sets := [("@send", ["send", "@all"]), ("@all", ["@send", "receive", "@missing"])]
  grants := [⟨.group "backup", ["@send"], .descendent⟩, ⟨.everyone, ["destroy"], .local⟩]

theorem circularBlock_receives : ∃ depth result,
    effectivePermissions depth [circularBlock] ["tank", "a"] ⟨"boomerangz", ["backup"]⟩ = some result ∧
      "receive:append" ∈ result := by
  obtain ⟨enough, h⟩ := effectivePermissions_exact [circularBlock] ["tank", "a"] ⟨"boomerangz", ["backup"]⟩
  obtain ⟨result, hresult, hexact⟩ := h enough le_rfl
  refine ⟨enough, result, hresult, (hexact _).mpr (.inr ⟨rfl, circularBlock, List.mem_cons_self, _, List.mem_cons_self, ?_⟩)⟩
  refine ⟨⟨by decide, rfl⟩, List.mem_cons_self, ?_⟩
  exact .step List.mem_cons_self rfl (.step (List.mem_cons_of_mem _ List.mem_cons_self) rfl
    (.leaf (List.mem_cons_of_mem _ List.mem_cons_self) rfl))

example : effectivePermissions 4 [circularBlock] ["tank"] ⟨"boomerangz", ["backup"]⟩ = some ["destroy"] := by decide

end Boomerangz.Zfs
