import Boomerangz.Lib.Run
import Boomerangz.Lib.Table

/-! # Key locks

Every section of `acquireAs` under the mutex is one step; a call that waits parks on the channel it saw there.
-/

open Transition Tables

namespace Boomerangz.Daemon

def overlappingLockScope (a b : String) : Bool :=
  a == "" || b == "" || a == b || (b ++ "/").toList.isPrefixOf a.toList || (a ++ "/").toList.isPrefixOf b.toList

/-- `keyLocks`. A waiter stands for the call it is of. -/
structure KeyLocks where
  active : Table String String Nat
  holders : Table String String (List String)
  waiters : Map String (List Nat)
  changed : Nat

namespace KeyLocks

def waitersOf (k : KeyLocks) (key : String) : List Nat := (k.waiters.lookup key).getD []

def signalLocked (k : KeyLocks) : KeyLocks := { k with changed := k.changed + 1 }

def removeWaiterLocked (k : KeyLocks) (key : String) (i : Nat) : KeyLocks :=
  if i ∈ k.waitersOf key then
    let rest := (k.waitersOf key).erase i
    { k with waiters := if rest.isEmpty then k.waiters.erase key else k.waiters.insert key rest }
  else k

def addWaiter (k : KeyLocks) (key : String) (i : Nat) : KeyLocks :=
  { k with waiters := k.waiters.insert key (k.waitersOf key ++ [i]) }

def grant (k : KeyLocks) (key scope holder : String) (i : Nat) : KeyLocks :=
  let k := k.removeWaiterLocked key i
  { k with
    active := put k.active key scope ((entry k.active key scope).getD 0 + 1)
    holders := put k.holders key scope ((entry k.holders key scope).getD [] ++ [holder]) }.signalLocked

def release (k : KeyLocks) (key scope holder : String) : KeyLocks :=
  let count := (entry k.active key scope).getD 0 - 1
  let held := ((entry k.holders key scope).getD []).erase holder
  { k with
    active := if count = 0 then drop k.active key scope else put k.active key scope count
    holders := if held.isEmpty then drop k.holders key scope else put k.holders key scope held }.signalLocked

end KeyLocks

/-! ## Calls -/

inductive LockState where
  | absent
  | arriving
  | checking
  | parked (channel : Nat)
  | granted
  | released
  | failed
deriving DecidableEq, Repr

/-- A call of `acquireAs`. `arrived` numbers it among those that registered. -/
structure LockCall where
  key : String
  scope : String
  holder : String
  cancelled : Bool
  state : LockState
  arrived : Nat
deriving DecidableEq, Repr

structure Locking where
  locks : KeyLocks
  calls : Nat → LockCall
  arrivals : Nat

def Locking.blocker (s : Locking) (i : Nat) : Option String :=
  let c := s.calls i
  match ((s.locks.active.lookup c.key).getD ∅).keys.find? (overlappingLockScope · c.scope) with
  | some scope => some (((entry s.locks.holders c.key scope).bind List.head?).getD "")
  | none =>
    (((s.locks.waitersOf c.key).takeWhile (· != i)).find? fun j => overlappingLockScope (s.calls j).scope c.scope).map
      fun j => (s.calls j).holder

inductive LockAction where
  | acquireAs (i : Nat) (key scope holder : String)
  | register (i : Nat)
  | check (i : Nat)
  | wake (i : Nat)
  | cancel (i : Nat)
  | release (i : Nat)
deriving DecidableEq, Repr

def Locking.set (s : Locking) (i : Nat) (state : LockState) : Locking :=
  { s with calls := Function.update s.calls i { s.calls i with state := state } }

def Locking.register (s : Locking) (i : Nat) : Locking where
  locks := s.locks.addWaiter (s.calls i).key i
  calls := Function.update s.calls i { s.calls i with state := .checking, arrived := s.arrivals }
  arrivals := s.arrivals + 1

def Locking.check (s : Locking) (i : Nat) : Locking :=
  let c := s.calls i
  if c.cancelled then
    { s.set i .failed with locks := (s.locks.removeWaiterLocked c.key i).signalLocked }
  else
    match s.blocker i with
    | none => { s.set i .granted with locks := s.locks.grant c.key c.scope c.holder i }
    | some _ => s.set i (.parked s.locks.changed)

def Locking.step (s : Locking) : LockAction → Option Locking
  | .acquireAs i key scope holder =>
    if (s.calls i).state = .absent then
      -- the empty key is granted to everyone, and its release does nothing
      let state := if key = "" then .granted else .arriving
      some { s with calls := Function.update s.calls i ⟨key, scope, holder, false, state, 0⟩ }
    else none
  | .register i =>
    if (s.calls i).state = .arriving then some (s.register i) else none
  | .check i => if (s.calls i).state = .checking then some (s.check i) else none
  | .wake i =>
    match (s.calls i).state with
    | .parked channel =>
      if (s.calls i).cancelled || decide (channel < s.locks.changed) then some (s.set i .checking) else none
    | _ => none
  | .cancel i =>
    if (s.calls i).state = .absent then none
    else some { s with calls := Function.update s.calls i { s.calls i with cancelled := true } }
  | .release i =>
    let c := s.calls i
    if c.state = .granted then
      if c.key = "" then some (s.set i .released)
      else some { s.set i .released with locks := s.locks.release c.key c.scope c.holder }
    else none

def locking : System Locking LockAction where
  init s := s = ⟨⟨∅, ∅, ∅, 0⟩, fun _ => ⟨"", "", "", false, .absent, 0⟩, 0⟩
  step := Locking.step

/-! ## Roles -/

inductive LockRole where
  | outside
  | waiting
  | holding
deriving DecidableEq, Repr

def LockCall.role (c : LockCall) : LockRole :=
  match c.state with
  | .checking => .waiting
  | .parked _ => .waiting
  | .granted => if c.key = "" then .outside else .holding
  | _ => .outside

def Locking.Holds (s : Locking) (i : Nat) (key scope : String) : Prop :=
  (s.calls i).role = .holding ∧ (s.calls i).key = key ∧ (s.calls i).scope = scope

def Locking.Waits (s : Locking) (i : Nat) (key : String) : Prop :=
  (s.calls i).role = .waiting ∧ (s.calls i).key = key

structure Queued (s : Locking) : Prop where
  waiters : ∀ key i, i ∈ s.locks.waitersOf key ↔ s.Waits i key
  order : ∀ key, (s.locks.waitersOf key).Pairwise fun i j => (s.calls i).arrived < (s.calls j).arrived
  numbered : ∀ i, (s.calls i).role = .waiting → (s.calls i).arrived < s.arrivals
  listed : ∀ key, s.locks.waiters.lookup key ≠ some []

structure Held (s : Locking) : Prop where
  active : ∀ key scope n, entry s.locks.active key scope = some n ↔ n = 1 ∧ ∃ i, s.Holds i key scope
  holders : ∀ key scope l, entry s.locks.holders key scope = some l ↔
    ∃ i, s.Holds i key scope ∧ l = [(s.calls i).holder]
  tight : Tight s.locks.active ∧ Tight s.locks.holders
  exclusive : ∀ i j, i ≠ j → (s.calls i).role = .holding → (s.calls j).role = .holding →
    (s.calls i).key = (s.calls j).key → overlappingLockScope (s.calls i).scope (s.calls j).scope = false

theorem overlappingLockScope_comm (a b : String) : overlappingLockScope a b = overlappingLockScope b a := by
  unfold overlappingLockScope
  rw [Bool.or_comm (a == ""), Bool.or_right_comm, Bool.beq_comm (a := a) (b := b)]

theorem overlappingLockScope_self (a : String) : overlappingLockScope a a = true := by
  simp [overlappingLockScope]

section Steps

variable {s s' : Locking} {i j : Nat} {key scope : String}

theorem set_calls_self {state : LockState} : (s.set i state).calls i = { s.calls i with state := state } :=
  Function.update_self _ _ _

theorem set_calls_of_ne {state : LockState} (h : j ≠ i) : (s.set i state).calls j = s.calls j :=
  Function.update_of_ne h _ _

/-! ### Waiters -/

theorem Queued.congr (h : Queued s) (hwaiters : s'.locks.waiters = s.locks.waiters)
    (harrivals : s'.arrivals = s.arrivals)
    (hrole : ∀ i, (s'.calls i).role = .waiting ↔ (s.calls i).role = .waiting)
    (hsame : ∀ i, (s.calls i).role = .waiting →
      (s'.calls i).key = (s.calls i).key ∧ (s'.calls i).arrived = (s.calls i).arrived) : Queued s' := by
  have hof : ∀ key, s'.locks.waitersOf key = s.locks.waitersOf key := by
    intro key
    unfold KeyLocks.waitersOf
    rw [hwaiters]
  refine ⟨fun key i => ?_, fun key => ?_, fun i hi => ?_, fun key => ?_⟩
  · rw [hof, h.waiters]
    unfold Locking.Waits
    rw [hrole]
    refine and_congr_right fun hi => ?_
    rw [(hsame i hi).1]
  · rw [hof]
    refine (h.order key).imp_of_mem fun {i j} hi hj hlt => ?_
    rw [(hsame i ((h.waiters key i).mp hi).1).2, (hsame j ((h.waiters key j).mp hj).1).2]
    exact hlt
  · rw [hrole] at hi
    rw [harrivals, (hsame i hi).2]
    exact h.numbered i hi
  · rw [hwaiters]
    exact h.listed key

theorem waitersOf_add (k : KeyLocks) (key : String) (i : Nat) (key' : String) :
    (k.addWaiter key i).waitersOf key' = if key' = key then k.waitersOf key ++ [i] else k.waitersOf key' := by
  unfold KeyLocks.addWaiter
  by_cases hkey : key' = key
  · subst hkey
    simp [KeyLocks.waitersOf]
  · simp [KeyLocks.waitersOf, hkey]

theorem waitersOf_remove (k : KeyLocks) (key : String) (i : Nat) (key' : String) :
    (k.removeWaiterLocked key i).waitersOf key' =
      if key' = key then (k.waitersOf key).erase i else k.waitersOf key' := by
  unfold KeyLocks.removeWaiterLocked
  by_cases hmem : i ∈ k.waitersOf key
  · rw [if_pos hmem]
    by_cases hkey : key' = key
    · subst hkey
      dsimp only
      split
      · rename_i hempty
        rw [List.isEmpty_iff.mp hempty]
        simp [KeyLocks.waitersOf]
      · simp [KeyLocks.waitersOf]
    · dsimp only
      split <;> simp [KeyLocks.waitersOf, hkey]
  · rw [if_neg hmem, List.erase_of_not_mem hmem]
    by_cases hkey : key' = key
    · rw [if_pos hkey, hkey]
    · rw [if_neg hkey]

theorem lookup_remove {k : KeyLocks} (h : ∀ key, k.waiters.lookup key ≠ some []) (key : String) (i : Nat)
    (key' : String) : (k.removeWaiterLocked key i).waiters.lookup key' ≠ some [] := by
  unfold KeyLocks.removeWaiterLocked
  split
  · dsimp only
    by_cases hkey : key' = key
    · subst hkey
      split
      · simp
      · rename_i hne
        simpa using hne
    · split
      · rw [AList.lookup_erase_ne hkey]
        exact h key'
      · rw [AList.lookup_insert_ne hkey]
        exact h key'
  · exact h key'

theorem Queued.register (h : Queued s) (hi : (s.calls i).role = .outside) :
    Queued (s.register i) := by
  unfold Locking.register
  have hne : ∀ j, (s.calls j).role = .waiting → j ≠ i := by
    rintro j hj rfl
    rw [hi] at hj
    cases hj
  refine ⟨fun key j => ?_, fun key => ?_, fun j hj => ?_, fun key => ?_⟩
  · rw [waitersOf_add]
    unfold Locking.Waits
    by_cases hj : j = i
    · subst hj
      have hout : ∀ key, j ∉ s.locks.waitersOf key := fun key hmem => hne j ((h.waiters key j).mp hmem).1 rfl
      simp only [Function.update_self, LockCall.role, true_and]
      split
      · rename_i hkey
        simp [hkey]
      · rename_i hkey
        exact iff_of_false (hout key) fun heq => hkey heq.symm
    · simp only [Function.update_of_ne hj]
      rw [show ((s.calls j).role = .waiting ∧ (s.calls j).key = key) ↔ _ from (h.waiters key j).symm]
      split
      · rename_i hkey
        simp [hkey, hj]
      · rfl
  · rw [waitersOf_add]
    have hold : ∀ key, (s.locks.waitersOf key).Pairwise fun a b =>
        (Function.update s.calls i { s.calls i with state := .checking, arrived := s.arrivals } a).arrived <
          (Function.update s.calls i { s.calls i with state := .checking, arrived := s.arrivals } b).arrived := by
      intro key
      refine (h.order key).imp_of_mem fun {a b} ha hb hlt => ?_
      rw [Function.update_of_ne (hne a ((h.waiters key a).mp ha).1), Function.update_of_ne (hne b ((h.waiters key b).mp hb).1)]
      exact hlt
    split
    · rw [List.pairwise_append]
      refine ⟨hold _, List.pairwise_singleton _ _, fun a ha b hb => ?_⟩
      obtain rfl := List.mem_singleton.mp hb
      have ha := ((h.waiters _ a).mp ha).1
      simp only [Function.update_self, Function.update_of_ne (hne a ha)]
      exact h.numbered a ha
    · exact hold key
  · by_cases hji : j = i
    · subst hji
      simp only [Function.update_self]
      omega
    · simp only [Function.update_of_ne hji] at hj ⊢
      have := h.numbered j hj
      omega
  · unfold KeyLocks.addWaiter
    by_cases hkey : key = (s.calls i).key
    · subst hkey
      simp
    · rw [AList.lookup_insert_ne hkey]
      exact h.listed key

theorem Queued.leave {k : KeyLocks} {state : LockState} (h : Queued s) (hi : (s.calls i).role = .waiting)
    (hwaiters : k.waiters = (s.locks.removeWaiterLocked (s.calls i).key i).waiters)
    (hstate : ({ s.calls i with state := state } : LockCall).role ≠ .waiting) :
    Queued { s.set i state with locks := k } := by
  have hof : ∀ key, k.waitersOf key = (s.locks.removeWaiterLocked (s.calls i).key i).waitersOf key := by
    intro key
    unfold KeyLocks.waitersOf
    rw [hwaiters]
  have hnodup : ∀ key, (s.locks.waitersOf key).Nodup := fun key => (h.order key).imp fun hlt heq => by
    rw [heq] at hlt
    exact lt_irrefl _ hlt
  have hmem : ∀ key j, j ∈ k.waitersOf key ↔ j ≠ i ∧ j ∈ s.locks.waitersOf key := by
    intro key j
    rw [hof, waitersOf_remove]
    split
    · rename_i hkey
      rw [hkey, (hnodup _).mem_erase_iff]
    · rename_i hkey
      constructor
      · intro hj
        refine ⟨?_, hj⟩
        rintro rfl
        exact hkey ((h.waiters key j).mp hj).2.symm
      · exact fun hj => hj.2
  refine ⟨fun key j => ?_, fun key => ?_, fun j hj => ?_, fun key => ?_⟩
  · rw [hmem, h.waiters]
    unfold Locking.Waits
    by_cases hj : j = i
    · subst hj
      rw [set_calls_self]
      exact iff_of_false (fun hj => hj.1 rfl) fun hj => hstate hj.1
    · rw [set_calls_of_ne hj]
      exact ⟨fun hw => hw.2, fun hw => ⟨hj, hw⟩⟩
  · have hsub : (k.waitersOf key).Sublist (s.locks.waitersOf key) := by
      rw [hof, waitersOf_remove]
      split
      · rename_i hkey
        rw [hkey]
        exact List.erase_sublist
      · exact List.Sublist.refl _
    refine ((h.order key).sublist hsub).imp_of_mem fun {a b} ha hb hlt => ?_
    rw [set_calls_of_ne ((hmem key a).mp ha).1, set_calls_of_ne ((hmem key b).mp hb).1]
    exact hlt
  · by_cases hji : j = i
    · subst hji
      exact absurd (set_calls_self ▸ hj) hstate
    · rw [set_calls_of_ne hji] at hj ⊢
      exact h.numbered j hj
  · rw [hwaiters]
    exact lookup_remove h.listed _ _ _

/-! ### Holders -/

theorem Held.congr (h : Held s) (hactive : s'.locks.active = s.locks.active)
    (hholders : s'.locks.holders = s.locks.holders)
    (hrole : ∀ i, (s'.calls i).role = .holding ↔ (s.calls i).role = .holding)
    (hsame : ∀ i, (s.calls i).role = .holding → (s'.calls i).key = (s.calls i).key ∧
      (s'.calls i).scope = (s.calls i).scope ∧ (s'.calls i).holder = (s.calls i).holder) : Held s' := by
  have hholds : ∀ i key scope, s'.Holds i key scope ↔ s.Holds i key scope := by
    intro i key scope
    unfold Locking.Holds
    rw [hrole]
    refine and_congr_right fun hi => ?_
    rw [(hsame i hi).1, (hsame i hi).2.1]
  refine ⟨fun key scope n => ?_, fun key scope l => ?_, ?_, fun i j hne hi hj hkey => ?_⟩
  · rw [hactive, h.active]
    simp only [hholds]
  · rw [hholders, h.holders]
    refine exists_congr fun i => ?_
    rw [hholds]
    refine and_congr_right fun hi => ?_
    rw [(hsame i hi.1).2.2]
  · rw [hactive, hholders]
    exact h.tight
  · rw [hrole] at hi hj
    rw [(hsame i hi).1, (hsame j hj).1] at hkey
    rw [(hsame i hi).2.1, (hsame j hj).2.1]
    exact h.exclusive i j hne hi hj hkey

theorem Held.unique (h : Held s) (hi : s.Holds i key scope) (hj : s.Holds j key scope) : i = j := by
  by_contra hne
  have hfalse := h.exclusive i j hne hi.1 hj.1 (hi.2.1.trans hj.2.1.symm)
  rw [hi.2.2, hj.2.2, overlappingLockScope_self] at hfalse
  cases hfalse

theorem active_removeWaiterLocked (k : KeyLocks) (key : String) (i : Nat) :
    (k.removeWaiterLocked key i).active = k.active := by
  unfold KeyLocks.removeWaiterLocked
  split <;> rfl

theorem holders_removeWaiterLocked (k : KeyLocks) (key : String) (i : Nat) :
    (k.removeWaiterLocked key i).holders = k.holders := by
  unfold KeyLocks.removeWaiterLocked
  split <;> rfl

/-- Where nobody holds, the grant counts one call and names its holder. -/
theorem Held.grant_maps (h : Held s) (hnone : ∀ j, ¬ s.Holds j key scope) (holder : String) :
    (s.locks.grant key scope holder i).active = put s.locks.active key scope 1 ∧
      (s.locks.grant key scope holder i).holders = put s.locks.holders key scope [holder] := by
  have hactive : entry s.locks.active key scope = none :=
    Option.eq_none_iff_forall_ne_some.mpr fun n hn => ((h.active _ _ n).mp hn).2.elim hnone
  have hholders : entry s.locks.holders key scope = none :=
    Option.eq_none_iff_forall_ne_some.mpr fun l hl => ((h.holders _ _ l).mp hl).elim fun j hj => hnone j hj.1
  simp [KeyLocks.grant, KeyLocks.signalLocked, active_removeWaiterLocked, holders_removeWaiterLocked, hactive, hholders]

theorem holds_grant (k : KeyLocks) (hi : (s.calls i).role ≠ .holding) (hkey : (s.calls i).key ≠ "") :
    ({ s.set i .granted with locks := k } : Locking).Holds j key scope ↔
      (j = i ∧ key = (s.calls i).key ∧ scope = (s.calls i).scope) ∨ s.Holds j key scope := by
  have hrole : ({ s.calls i with state := .granted } : LockCall).role = .holding := if_neg hkey
  unfold Locking.Holds
  by_cases hj : j = i
  · subst hj
    simp [set_calls_self, hrole, hi, eq_comm]
  · simp [set_calls_of_ne hj, hj]

theorem not_holds_of_free (hfree : ∀ j, (s.calls j).role = .holding → (s.calls j).key = key →
    overlappingLockScope (s.calls j).scope scope = false) : ¬ s.Holds j key scope := by
  intro hj
  have hfalse := hfree j hj.1 hj.2.1
  rw [hj.2.2, overlappingLockScope_self] at hfalse
  cases hfalse

theorem Held.grant (h : Held s) (hi : (s.calls i).role ≠ .holding) (hkey : (s.calls i).key ≠ "")
    (hfree : ∀ j, (s.calls j).role = .holding → (s.calls j).key = (s.calls i).key →
      overlappingLockScope (s.calls j).scope (s.calls i).scope = false) :
    Held { s.set i .granted with
      locks := s.locks.grant (s.calls i).key (s.calls i).scope (s.calls i).holder i } := by
  have hmaps := h.grant_maps (i := i) (fun j => not_holds_of_free hfree) (s.calls i).holder
  refine ⟨fun key scope n => ?_, fun key scope l => ?_, ?_, ?_⟩
  · simp only [holds_grant _ hi hkey, exists_or, exists_eq_left, hmaps.1, entry_put]
    split <;> rename_i hat
    · simp [hat, eq_comm]
    · simp [hat, h.active]
  · simp only [holds_grant _ hi hkey, hmaps.2, entry_put]
    split <;> rename_i hat
    · rw [hat.1, hat.2]
      constructor
      · intro hl
        exact ⟨i, .inl ⟨rfl, rfl, rfl⟩, by rw [set_calls_self]; exact (Option.some.inj hl).symm⟩
      · rintro ⟨j, ⟨rfl, -, -⟩ | hj, rfl⟩
        · rw [set_calls_self]
        · exact absurd hj (not_holds_of_free hfree)
    · rw [h.holders]
      refine exists_congr fun j => ?_
      simp only [hat, and_false, false_or]
      refine and_congr_right fun hj => ?_
      have hne : j ≠ i := by
        rintro rfl
        exact hi hj.1
      rw [set_calls_of_ne hne]
  · rw [hmaps.1, hmaps.2]
    exact ⟨tight_put h.tight.1 _ _ _, tight_put h.tight.2 _ _ _⟩
  · intro a b hne ha hb hk
    by_cases hai : a = i
    · subst hai
      rw [set_calls_of_ne hne.symm] at hb hk ⊢
      rw [set_calls_self] at hk ⊢
      rw [overlappingLockScope_comm]
      exact hfree b hb hk.symm
    · rw [set_calls_of_ne hai] at ha hk ⊢
      by_cases hbi : b = i
      · subst hbi
        rw [set_calls_self] at hk ⊢
        exact hfree a ha hk
      · rw [set_calls_of_ne hbi] at hb hk ⊢
        exact h.exclusive a b hne ha hb hk

theorem holds_release (k : KeyLocks) :
    ({ s.set i .released with locks := k } : Locking).Holds j key scope ↔ j ≠ i ∧ s.Holds j key scope := by
  unfold Locking.Holds
  by_cases hj : j = i
  · subst hj
    simp [set_calls_self, LockCall.role]
  · simp [set_calls_of_ne hj, hj]

theorem Held.release_maps (h : Held s) (hi : s.Holds i key scope) :
    (s.locks.release key scope (s.calls i).holder).active = drop s.locks.active key scope ∧
      (s.locks.release key scope (s.calls i).holder).holders = drop s.locks.holders key scope := by
  simp [KeyLocks.release, KeyLocks.signalLocked, (h.active _ _ 1).mpr ⟨rfl, i, hi⟩, (h.holders _ _ _).mpr ⟨i, hi, rfl⟩]

theorem Held.ne_iff (h : Held s) (hi : (s.calls i).role = .holding) (hj : s.Holds j key scope) :
    j ≠ i ↔ ¬ (key = (s.calls i).key ∧ scope = (s.calls i).scope) := by
  constructor
  · rintro hne ⟨rfl, rfl⟩
    exact hne (h.unique hj ⟨hi, rfl, rfl⟩)
  · rintro hat rfl
    exact hat ⟨hj.2.1.symm, hj.2.2.symm⟩

theorem Held.release (h : Held s) (hi : (s.calls i).role = .holding) :
    Held { s.set i .released with
      locks := s.locks.release (s.calls i).key (s.calls i).scope (s.calls i).holder } := by
  have hmaps := h.release_maps ⟨hi, rfl, rfl⟩
  refine ⟨fun key scope n => ?_, fun key scope l => ?_, ?_, ?_⟩
  · simp only [holds_release, hmaps.1, entry_drop]
    split <;> rename_i hat
    · refine iff_of_false (by simp) ?_
      rintro ⟨-, j, hne, hj⟩
      exact (h.ne_iff hi hj).mp hne hat
    · rw [h.active]
      refine and_congr_right fun _ => exists_congr fun j => ?_
      exact ⟨fun hj => ⟨(h.ne_iff hi hj).mpr hat, hj⟩, fun hj => hj.2⟩
  · simp only [holds_release, hmaps.2, entry_drop]
    split <;> rename_i hat
    · refine iff_of_false (by simp) ?_
      rintro ⟨j, ⟨hne, hj⟩, -⟩
      exact (h.ne_iff hi hj).mp hne hat
    · rw [h.holders]
      refine exists_congr fun j => ?_
      constructor
      · rintro ⟨hj, rfl⟩
        have hne := (h.ne_iff hi hj).mpr hat
        exact ⟨⟨hne, hj⟩, by rw [set_calls_of_ne hne]⟩
      · rintro ⟨⟨hne, hj⟩, rfl⟩
        exact ⟨hj, by rw [set_calls_of_ne hne]⟩
  · rw [hmaps.1, hmaps.2]
    exact ⟨tight_drop h.tight.1 _ _, tight_drop h.tight.2 _ _⟩
  · intro a b hne ha hb hk
    have hnot : ∀ j, ((s.set i .released).calls j).role = .holding → j ≠ i := by
      rintro j hj rfl
      rw [set_calls_self] at hj
      cases hj
    have hai := hnot a ha
    have hbi := hnot b hb
    rw [set_calls_of_ne hai] at ha hk ⊢
    rw [set_calls_of_ne hbi] at hb hk ⊢
    exact h.exclusive a b hne ha hb hk

end Steps

end Boomerangz.Daemon
