import Boomerangz.Daemon.Exclusion
import Boomerangz.Transfer.Parents
import Boomerangz.Transfer.Plan

/-! # Lock scopes at a local target

A transfer locks the nearest dataset that existed above its destination, a prune the destination itself.
-/

namespace Boomerangz.Daemon

open Check Transition Zfs Policy Transfer

/-! ## Scopes -/

def scopeText (d : Dataset) : String := String.ofList (path d)

/-- The loop of `nearestReceiveLockScope`. -/
def nearer (root mapped nearest d : Dataset) : Dataset :=
  if inside d root && inside mapped d && (path nearest).length < (path d).length then d else nearest

def nearestReceiveLockScope (root mapped : Dataset) (inventory : List Dataset) : Dataset :=
  inventory.foldl (nearer root mapped) []

/-! ## Receive parents -/

/-- The rows as `missingReceiveParents` reads them. -/
def inventoryOf (rows : List InventoryRow) : Parents.Inventory := rows.map fun row => (path row.name, row.type)

/-- What `prepareReceiveParents` creates parents from. -/
def receiveBase (root : Dataset) (discard : Discard) : Except Error Dataset :=
  if discard = .off then do
    require (2 ≤ root.length) (.plain "cannot create a replica in place of a pool root")
    return root.dropLast
  else .ok root

/-! ## Jobs -/

/-- The datasets that exist at each moment. -/
structure History where
  rows : Nat → List InventoryRow
  grows : ∀ t t', t ≤ t' → ∀ d, d ∈ (rows t).map InventoryRow.name → d ∈ (rows t').map InventoryRow.name
  closed : ∀ t d, d ∈ (rows t).map InventoryRow.name → ∀ a, a ≠ [] → a <+: d → a ∈ (rows t).map InventoryRow.name

inductive TargetWork where
  | transfer (listed : Bool)
  | prune

/-- A job of `root` at a local target, whose `mapped` is `MapReceiveDataset`'s answer. -/
structure TargetJob where
  root : Dataset
  target : Dataset
  discard : Discard
  mapped : Dataset
  work : TargetWork
  queued : Nat
  maps : mapReceiveDataset root target discard = .ok mapped

namespace TargetJob

def lockKey (j : TargetJob) : String := canonicalLocalTarget j.target

def scope (h : History) (j : TargetJob) : Dataset :=
  match j.work with
  | .transfer true => nearestReceiveLockScope j.target j.mapped ((h.rows j.queued).map InventoryRow.name)
  | .transfer false => []
  | .prune => j.mapped

def lockScope (h : History) (j : TargetJob) : String := scopeText (j.scope h)

def Reaches (j : TargetJob) (d : Dataset) : Prop := inside d j.mapped = true

def Creates (h : History) (j : TargetJob) (d : Dataset) : Prop :=
  (∃ listed, j.work = .transfer listed) ∧ ∃ stream base missing t, inside stream j.root = true ∧ j.queued ≤ t ∧
    receiveBase j.target j.discard = .ok base ∧
    Parents.missingReceiveParents (path base) (path (place j.root j.mapped stream)) (inventoryOf (h.rows t)) =
      .ok missing ∧ validDataset d = true ∧ path d ∈ missing

end TargetJob

/-! ## What a scope covers -/

section Scopes

variable {a b d : Dataset} {rows : List InventoryRow}

theorem scopeText_overlaps (ha : a ≠ []) (h : a <+: b) : overlappingLockScope (scopeText a) (scopeText b) = true := by
  obtain ⟨rest, rfl⟩ := h
  by_cases hrest : rest = []
  · subst hrest
    rw [List.append_nil]
    exact overlappingLockScope_self _
  · simp [overlappingLockScope, scopeText, path_append ha hrest]

theorem overlaps_of_prefix (ha : a <+: d) (hb : b <+: d) :
    overlappingLockScope (scopeText a) (scopeText b) = true := by
  by_cases hnil : a = []
  · subst hnil
    rfl
  · by_cases hnil' : b = []
    · subst hnil'
      rw [overlappingLockScope_comm]
      rfl
    · rcases List.prefix_or_prefix_of_prefix ha hb with hab | hba
      · exact scopeText_overlaps hnil hab
      · rw [overlappingLockScope_comm]
        exact scopeText_overlaps hnil' hba

theorem nearestReceiveLockScope_spec (root mapped : Dataset) (inventory : List Dataset) :
    nearestReceiveLockScope root mapped inventory = [] ∨
      nearestReceiveLockScope root mapped inventory ∈ inventory ∧
        inside mapped (nearestReceiveLockScope root mapped inventory) = true := by
  refine List.foldlRecOn (motive := fun nearest => nearest = [] ∨ nearest ∈ inventory ∧ inside mapped nearest = true)
    inventory _ (.inl rfl) fun nearest h d hd => ?_
  unfold nearer
  split
  · next hcond =>
    simp only [Bool.and_eq_true] at hcond
    exact .inr ⟨hd, hcond.1.2⟩
  · exact h

theorem not_mem_of_existing (h : Parents.existing (inventoryOf rows) (path d) = none) :
    d ∉ rows.map InventoryRow.name := by
  intro hd
  obtain ⟨row, hrow, rfl⟩ := List.mem_map.mp hd
  have hlookup := List.lookup_eq_none_iff.mp h (path row.name, row.type)
    (List.mem_reverse.mpr (List.mem_map_of_mem hrow))
  simp at hlookup

theorem within_path (ha : a ≠ []) (h : a <+: b) : Replication.Within (path a) (path b) := by
  obtain ⟨rest, rfl⟩ := h
  by_cases hrest : rest = []
  · rw [hrest, List.append_nil]
    exact .refl _
  · unfold Replication.Within
    rw [path_append ha hrest, List.splitOn_append_cons_self]
    exact List.prefix_append _ _

theorem prefix_of_within (ha : validDataset a = true) (hb : validDataset b = true)
    (h : Replication.Within (path a) (path b)) : a <+: b := by
  unfold Replication.Within at h
  rw [splitOn_path ha, splitOn_path hb] at h
  simpa [Function.comp_def] using h.map String.ofList

end Scopes

/-! ## Jobs that meet -/

section Meeting

variable {h : History} {j j' : TargetJob} {d : Dataset}

theorem scope_above (h : History) (j : TargetJob) : j.scope h <+: j.mapped := by
  unfold TargetJob.scope
  split
  · obtain hnil | ⟨-, hin⟩ := nearestReceiveLockScope_spec j.target j.mapped ((h.rows j.queued).map InventoryRow.name)
    · rw [hnil]
      exact List.nil_prefix
    · by_cases hnil : nearestReceiveLockScope j.target j.mapped ((h.rows j.queued).map InventoryRow.name) = []
      · rw [hnil]
        exact List.nil_prefix
      · exact (inside_iff hnil).mp hin
  · exact List.nil_prefix
  · exact List.prefix_rfl

theorem scope_exists {listed : Bool} (hwork : j.work = .transfer listed) (hne : j.scope h ≠ []) :
    j.scope h ∈ (h.rows j.queued).map InventoryRow.name := by
  unfold TargetJob.scope at hne ⊢
  rw [hwork] at hne ⊢
  cases listed with
  | true => exact ((nearestReceiveLockScope_spec _ _ _).resolve_left hne).1
  | false => exact absurd rfl hne

theorem scope_of_reaches (hd : j.Reaches d) : j.scope h <+: d :=
  (scope_above h j).trans ((inside_iff (ne_nil_of_validDataset (mapReceiveDataset_valid j.maps))).mp hd)

theorem scope_of_creates (hd : j.Creates h d) : j.scope h <+: d := by
  obtain ⟨⟨listed, hwork⟩, stream, base, missing, t, -, hlater, -, hmissing, hvalid, hmem⟩ := hd
  obtain ⟨⟨-, hbelow⟩, hnone⟩ := Parents.mem_missing hmissing hmem
  by_cases hnil : j.scope h = []
  · rw [hnil]
    exact List.nil_prefix
  have hmapped := mapReceiveDataset_valid j.maps
  have hscope := validDataset_of_prefix hmapped hnil (scope_above h j)
  have habove : Replication.Within (path d) (path (place j.root j.mapped stream)) :=
    Replication.within_iff.mpr (.inr hbelow)
  have hplace : Replication.Within (path (j.scope h)) (path (place j.root j.mapped stream)) :=
    within_path hnil ((scope_above h j).trans (List.prefix_append _ _))
  rcases List.prefix_or_prefix_of_prefix hplace habove with hover | hunder
  · exact prefix_of_within hscope hvalid hover
  · -- the scope existed when the job was queued, and so did the datasets above it
    have hold := h.closed j.queued _ (scope_exists hwork hnil) d (ne_nil_of_validDataset hvalid)
      (prefix_of_within hvalid hscope hunder)
    exact absurd (h.grows _ _ hlater d hold) (not_mem_of_existing hnone)

/-- Two jobs at one local target whose trees overlap, or that may both have to create one parent, have overlapping
scopes under the target's key, so the locks are never granted to both. -/
theorem meeting_jobs_exclude (h : History) (j j' : TargetJob) (htarget : j.target = j'.target)
    (hmeet : (∃ d, j.Reaches d ∧ j'.Reaches d) ∨ ∃ d, j.Creates h d ∧ j'.Creates h d) :
    j.lockKey = j'.lockKey ∧ overlappingLockScope (j.lockScope h) (j'.lockScope h) = true ∧
      ∀ s, Reach locking free s → ∀ i i', i ≠ i' →
        (s.calls i).key = j.lockKey → (s.calls i).scope = j.lockScope h → (s.calls i).state = .granted →
        (s.calls i').key = j'.lockKey → (s.calls i').scope = j'.lockScope h → (s.calls i').state ≠ .granted := by
  have hkey : j.lockKey = j'.lockKey := by rw [TargetJob.lockKey, htarget, TargetJob.lockKey]
  have hoverlap : overlappingLockScope (j.lockScope h) (j'.lockScope h) = true := by
    rcases hmeet with ⟨d, hd, hd'⟩ | ⟨d, hd, hd'⟩
    · exact overlaps_of_prefix (scope_of_reaches hd) (scope_of_reaches hd')
    · exact overlaps_of_prefix (scope_of_creates hd) (scope_of_creates hd')
  refine ⟨hkey, hoverlap, fun s hs i i' hne hi hscope hgranted hi' hscope' hgranted' => ?_⟩
  have hkeyed : j.lockKey ≠ "" := by simp [TargetJob.lockKey, canonicalLocalTarget]
  have hholds : (s.calls i).role = .holding := by simp [LockCall.role, hgranted, hi, hkeyed]
  have hholds' : (s.calls i').role = .holding := by simp [LockCall.role, hgranted', hi', ← hkey, hkeyed]
  have hapart := (lockInv_of_reach hs).held.exclusive i i' hne hholds hholds' (by rw [hi, hi', hkey])
  rw [hscope, hscope', hoverlap] at hapart
  cases hapart

end Meeting

/-! ### Two roots beneath one missing parent -/

def quayHistory : History where
  rows _ := [⟨["vault"], .filesystem, "-"⟩]
  grows _ _ _ _ hd := hd
  closed := by
    intro _ d hd a ha hprefix
    obtain rfl := List.mem_singleton.mp hd
    rcases List.prefix_cons_iff.mp hprefix with rfl | ⟨rest, rfl, hrest⟩
    · exact absurd rfl ha
    · simp [List.prefix_nil.mp hrest]

def quayJob (name : String) (queued : Nat) (hname : validDataset ["tank", "quay", name] = true) : TargetJob where
  root := ["tank", "quay", name]
  target := ["vault"]
  discard := .first
  mapped := ["vault", "quay", name]
  work := .transfer true
  queued := queued
  maps := by
    simp only [mapReceiveDataset, bind_eq_ok, require_eq_ok, pure_eq_ok]
    exact ⟨⟨⟩, hname, ⟨⟩, by decide, rfl⟩

theorem berths_exclude :
    (quayJob "north" 0 (by decide)).lockKey = (quayJob "south" 3 (by decide)).lockKey ∧
      overlappingLockScope ((quayJob "north" 0 (by decide)).lockScope quayHistory)
        ((quayJob "south" 3 (by decide)).lockScope quayHistory) = true := by
  have hnorth : (quayJob "north" 0 (by decide)).Creates quayHistory ["vault", "quay"] :=
    ⟨⟨true, rfl⟩, _, ["vault"], ["vault/quay".toList], 0, inside_self _, le_rfl, rfl, by decide, by decide, by decide⟩
  have hsouth : (quayJob "south" 3 (by decide)).Creates quayHistory ["vault", "quay"] :=
    ⟨⟨true, rfl⟩, _, ["vault"], ["vault/quay".toList], 3, inside_self _, le_rfl, rfl, by decide, by decide, by decide⟩
  obtain ⟨hkey, hscope, -⟩ := meeting_jobs_exclude quayHistory (quayJob "north" 0 (by decide))
    (quayJob "south" 3 (by decide)) rfl (.inr ⟨_, hnorth, hsouth⟩)
  exact ⟨hkey, hscope⟩

end Boomerangz.Daemon
