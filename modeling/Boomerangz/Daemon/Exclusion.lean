import Boomerangz.Daemon.KeyLocks

/-! # Exclusion and order of key locks

What holds of `acquireAs` in every interleaving.
-/

open Transition Tables

namespace Boomerangz.Daemon

variable {s s' : Locking} {i j : Nat} {key scope : String}

/-! ## Blocked calls -/

def Locking.Blocked (s : Locking) (i : Nat) : Prop :=
  (∃ j, (s.calls j).role = .holding ∧ (s.calls j).key = (s.calls i).key ∧
    overlappingLockScope (s.calls j).scope (s.calls i).scope = true) ∨
  ∃ j, s.Waits j (s.calls i).key ∧ (s.calls j).arrived < (s.calls i).arrived ∧
    overlappingLockScope (s.calls j).scope (s.calls i).scope = true

theorem mem_takeWhile_ne {f : Nat → Nat} {l : List Nat} (hsorted : l.Pairwise fun a b => f a < f b) (hi : i ∈ l) :
    j ∈ l.takeWhile (· != i) ↔ j ∈ l ∧ f j < f i := by
  induction l with
  | nil => cases hi
  | cons a l ih =>
    obtain ⟨hfirst, hrest⟩ := List.pairwise_cons.mp hsorted
    by_cases ha : a = i
    · subst ha
      simp only [List.takeWhile_cons, bne_self_eq_false, List.mem_cons]
      refine iff_of_false (by simp) ?_
      rintro ⟨rfl | hj, hlt⟩
      · exact lt_irrefl _ hlt
      · exact lt_asymm hlt (hfirst j hj)
    · have hil : i ∈ l := (List.mem_cons.mp hi).resolve_left (Ne.symm ha)
      rw [List.takeWhile_cons, if_pos (by simpa using ha), List.mem_cons, List.mem_cons, ih hrest hil]
      constructor
      · rintro (rfl | ⟨hj, hlt⟩)
        · exact ⟨.inl rfl, hfirst i hil⟩
        · exact ⟨.inr hj, hlt⟩
      · rintro ⟨rfl | hj, hlt⟩
        · exact .inl rfl
        · exact .inr ⟨hj, hlt⟩

theorem Held.mem_keys (h : Held s) :
    scope ∈ ((s.locks.active.lookup key).getD ∅).keys ↔ ∃ i, s.Holds i key scope := by
  have hentry : scope ∈ ((s.locks.active.lookup key).getD ∅).keys ↔ (entry s.locks.active key scope).isSome := by
    unfold entry
    cases s.locks.active.lookup key with
    | none => simp
    | some m => exact AList.lookup_isSome.symm
  rw [hentry, Option.isSome_iff_exists]
  constructor
  · rintro ⟨n, hn⟩
    exact ((h.active _ _ _).mp hn).2
  · intro hi
    exact ⟨1, (h.active _ _ _).mpr ⟨rfl, hi⟩⟩

theorem blocker_eq_none (hq : Queued s) (hh : Held s) (hi : (s.calls i).role = .waiting) :
    s.blocker i = none ↔ ¬ s.Blocked i := by
  have hmem : i ∈ s.locks.waitersOf (s.calls i).key := (hq.waiters _ i).mpr ⟨hi, rfl⟩
  unfold Locking.blocker Locking.Blocked
  dsimp only
  cases hactive : ((s.locks.active.lookup (s.calls i).key).getD ∅).keys.find?
      (overlappingLockScope · (s.calls i).scope) with
  | some scope =>
    have hover := List.find?_some hactive
    obtain ⟨j, hj⟩ := hh.mem_keys.mp (List.mem_of_find?_eq_some hactive)
    refine iff_of_false (by simp) (not_not.mpr (.inl ⟨j, hj.1, hj.2.1, ?_⟩))
    rw [hj.2.2]
    exact hover
  | none =>
    have hnone : ¬ ∃ j, (s.calls j).role = .holding ∧ (s.calls j).key = (s.calls i).key ∧
        overlappingLockScope (s.calls j).scope (s.calls i).scope = true := by
      rintro ⟨j, hj, hkey, hover⟩
      exact List.find?_eq_none.mp hactive _ (hh.mem_keys.mpr ⟨j, hj, hkey, rfl⟩) hover
    simp only [Option.map_eq_none_iff, List.find?_eq_none]
    rw [or_iff_right hnone]
    constructor
    · rintro hall ⟨j, hj, hlt, hover⟩
      exact hall j ((mem_takeWhile_ne (hq.order _) hmem).mpr ⟨(hq.waiters _ j).mpr hj, hlt⟩) hover
    · intro hnot j hj hover
      obtain ⟨hj, hlt⟩ := (mem_takeWhile_ne (hq.order _) hmem).mp hj
      exact hnot ⟨j, (hq.waiters _ j).mp hj, hlt, hover⟩

/-! ## Steps -/

def Keeps (s s' : Locking) : Prop :=
  ∀ i, (s.calls i).role ≠ .outside → (s'.calls i).role = (s.calls i).role ∧ (s'.calls i).key = (s.calls i).key ∧
    (s'.calls i).scope = (s.calls i).scope ∧ (s'.calls i).holder = (s.calls i).holder ∧
    (s'.calls i).arrived = (s.calls i).arrived

theorem Locking.Blocked.keeps (h : s.Blocked i) (hk : Keeps s s') (hi : (s.calls i).role ≠ .outside) :
    s'.Blocked i := by
  obtain ⟨-, hkey, hscope, -, harrived⟩ := hk i hi
  unfold Locking.Blocked Locking.Waits at *
  rw [hkey, hscope, harrived]
  rcases h with ⟨j, hj, hjkey, hover⟩ | ⟨j, ⟨hj, hjkey⟩, hlt, hover⟩
  · obtain ⟨hrole, hkey', hscope', -⟩ := hk j (by simp [hj])
    exact .inl ⟨j, hrole.trans hj, hkey'.trans hjkey, hscope' ▸ hover⟩
  · obtain ⟨hrole, hkey', hscope', -, harrived'⟩ := hk j (by simp [hj])
    exact .inr ⟨j, ⟨hrole.trans hj, hkey'.trans hjkey⟩, harrived' ▸ hlt, hscope' ▸ hover⟩

structure LockInv (s : Locking) : Prop where
  queued : Queued s
  held : Held s
  keyed : ∀ i, (s.calls i).state = .arriving ∨ (s.calls i).role = .waiting → (s.calls i).key ≠ ""
  -- a call parked on the channel in use is blocked
  parked : ∀ i channel, (s.calls i).state = .parked channel →
    channel ≤ s.locks.changed ∧ (channel = s.locks.changed → s.Blocked i)

theorem LockInv.frame (h : LockInv s) (hk : Keeps s s') (hlocks : s'.locks = s.locks)
    (harrivals : s'.arrivals = s.arrivals) (hout : ∀ i, (s.calls i).role = .outside → (s'.calls i).role = .outside) :
    Queued s' ∧ Held s' := by
  have hrole : ∀ i, (s'.calls i).role = (s.calls i).role := by
    intro i
    by_cases hi : (s.calls i).role = .outside
    · rw [hi, hout i hi]
    · exact (hk i hi).1
  constructor
  · refine h.queued.congr (by rw [hlocks]) harrivals (fun i => by rw [hrole]) fun i hi => ?_
    obtain ⟨-, hkey, -, -, harrived⟩ := hk i (by simp [hi])
    exact ⟨hkey, harrived⟩
  · refine h.held.congr (by rw [hlocks]) (by rw [hlocks]) (fun i => by rw [hrole]) fun i hi => ?_
    obtain ⟨-, hkey, hscope, hholder, -⟩ := hk i (by simp [hi])
    exact ⟨hkey, hscope, hholder⟩

theorem keeps_update {c : LockCall} (h : (s.calls i).role ≠ .outside → c.role = (s.calls i).role ∧
      c.key = (s.calls i).key ∧ c.scope = (s.calls i).scope ∧ c.holder = (s.calls i).holder ∧
      c.arrived = (s.calls i).arrived) {k : KeyLocks} {n : Nat} :
    Keeps s ⟨k, Function.update s.calls i c, n⟩ := by
  intro j hj
  by_cases hji : j = i
  · subst hji
    simp only [Function.update_self]
    exact h hj
  · simp [Function.update_of_ne hji]

theorem LockInv.quiet {c : LockCall} (h : LockInv s) (hrole : c.role = (s.calls i).role)
    (hsame : (s.calls i).role ≠ .outside → c.key = (s.calls i).key ∧ c.scope = (s.calls i).scope ∧
      c.holder = (s.calls i).holder ∧ c.arrived = (s.calls i).arrived)
    (hkeyed : c.state = .arriving ∨ c.role = .waiting → c.key ≠ "")
    (hparked : ∀ channel, c.state = .parked channel → (s.calls i).role = .waiting ∧
      channel ≤ s.locks.changed ∧ (channel = s.locks.changed → s.Blocked i)) :
    LockInv { s with calls := Function.update s.calls i c } := by
  have hk : Keeps s { s with calls := Function.update s.calls i c } :=
    keeps_update fun hi => ⟨hrole, hsame hi⟩
  have hout : ∀ j, (s.calls j).role = .outside → (Function.update s.calls i c j).role = .outside := by
    intro j hj
    by_cases hji : j = i
    · subst hji
      simp [hrole, hj]
    · simp [hji, hj]
  obtain ⟨hqueued, hheld⟩ := h.frame hk rfl rfl hout
  refine ⟨hqueued, hheld, fun j hj => ?_, fun j channel hj => ?_⟩
  · by_cases hji : j = i
    · subst hji
      simp only [Function.update_self] at hj ⊢
      exact hkeyed hj
    · simp only [Function.update_of_ne hji] at hj ⊢
      exact h.keyed j hj
  · by_cases hji : j = i
    · subst hji
      simp only [Function.update_self] at hj
      obtain ⟨hwaiting, hle, hblocked⟩ := hparked channel hj
      exact ⟨hle, fun heq => (hblocked heq).keeps hk (by simp [hwaiting])⟩
    · simp only [Function.update_of_ne hji] at hj
      obtain ⟨hle, hblocked⟩ := h.parked j channel hj
      exact ⟨hle, fun heq => (hblocked heq).keeps hk (by simp [LockCall.role, hj])⟩

theorem role_update {c : LockCall} {role : LockRole} (hi : (s.calls i).role ≠ role) (hc : c.role ≠ role) (j : Nat) :
    ((Function.update s.calls i c j).role = role ↔ (s.calls j).role = role) ∧
      ((s.calls j).role = role → Function.update s.calls i c j = s.calls j) := by
  by_cases hji : j = i
  · subst hji
    rw [Function.update_self]
    exact ⟨iff_of_false hc hi, fun hj => absurd hj hi⟩
  · rw [Function.update_of_ne hji]
    exact ⟨Iff.rfl, fun _ => rfl⟩

theorem Queued.unrelated {c : LockCall} {k : KeyLocks} (h : Queued s) (hi : (s.calls i).role ≠ .waiting)
    (hc : c.role ≠ .waiting) (hwaiters : k.waiters = s.locks.waiters) :
    Queued ⟨k, Function.update s.calls i c, s.arrivals⟩ := by
  have hroles := role_update hi hc
  exact h.congr hwaiters rfl (fun j => (hroles j).1) fun j hj => by simp [(hroles j).2 hj]

theorem Held.unrelated {c : LockCall} {k : KeyLocks} {n : Nat} (h : Held s) (hi : (s.calls i).role ≠ .holding)
    (hc : c.role ≠ .holding) (hactive : k.active = s.locks.active) (hholders : k.holders = s.locks.holders) :
    Held ⟨k, Function.update s.calls i c, n⟩ := by
  have hroles := role_update hi hc
  exact h.congr hactive hholders (fun j => (hroles j).1) fun j hj => by simp [(hroles j).2 hj]

theorem LockInv.signalled {c : LockCall} {k : KeyLocks} (h : LockInv s)
    (hqueued : Queued ⟨k, Function.update s.calls i c, s.arrivals⟩)
    (hheld : Held ⟨k, Function.update s.calls i c, s.arrivals⟩) (hchanged : k.changed = s.locks.changed + 1)
    (hstate : c.state ≠ .arriving) (hrole : c.role ≠ .waiting) :
    LockInv ⟨k, Function.update s.calls i c, s.arrivals⟩ := by
  refine ⟨hqueued, hheld, fun j hj => ?_, fun j channel hj => ?_⟩
  · by_cases hji : j = i
    · subst hji
      simp only [Function.update_self] at hj
      exact absurd hj (by simp [hstate, hrole])
    · simp only [Function.update_of_ne hji] at hj ⊢
      exact h.keyed j hj
  · by_cases hji : j = i
    · subst hji
      simp only [Function.update_self] at hj
      exact absurd (by simp [LockCall.role, hj]) hrole
    · simp only [Function.update_of_ne hji] at hj
      have hle := (h.parked j channel hj).1
      dsimp only
      omega

theorem LockInv.acquireAs {holder : String} (h : LockInv s) (hi : (s.calls i).state = .absent) :
    LockInv { s with
      calls := Function.update s.calls i (.mk key scope holder false (if key = "" then .granted else .arriving) 0) } := by
  have hout : (s.calls i).role = .outside := by simp [LockCall.role, hi]
  apply h.quiet
  · rw [hout]
    by_cases hkey : key = "" <;> simp [LockCall.role, hkey]
  · exact fun hne => absurd hout hne
  · by_cases hkey : key = "" <;> simp [LockCall.role, hkey]
  · by_cases hkey : key = "" <;> simp [hkey]

theorem LockInv.register (h : LockInv s) (hi : (s.calls i).state = .arriving) :
    LockInv (s.register i) := by
  unfold Locking.register
  have hout : (s.calls i).role = .outside := by simp [LockCall.role, hi]
  refine ⟨h.queued.register hout, ?_, fun j hj => ?_, fun j channel hj => ?_⟩
  · exact h.held.unrelated (by simp [hout]) (by simp [LockCall.role]) rfl rfl
  · by_cases hji : j = i
    · subst hji
      simp only [Function.update_self]
      exact h.keyed j (.inl hi)
    · simp only [Function.update_of_ne hji] at hj ⊢
      exact h.keyed j hj
  · by_cases hji : j = i
    · subst hji
      simp at hj
    · simp only [Function.update_of_ne hji] at hj
      obtain ⟨hle, hblocked⟩ := h.parked j channel hj
      refine ⟨hle, fun heq => (hblocked heq).keeps ?_ (by simp [LockCall.role, hj])⟩
      exact keeps_update fun hne => absurd hout hne

theorem LockInv.check (h : LockInv s) (hi : (s.calls i).state = .checking) : LockInv (s.check i) := by
  have hwaiting : (s.calls i).role = .waiting := by simp [LockCall.role, hi]
  have hkey := h.keyed i (.inr hwaiting)
  unfold Locking.check
  dsimp only
  split
  · -- its context is cancelled
    have hchanged : (s.locks.removeWaiterLocked (s.calls i).key i).changed = s.locks.changed := by
      unfold KeyLocks.removeWaiterLocked
      split <;> rfl
    apply h.signalled (c := { s.calls i with state := .failed })
    · exact h.queued.leave hwaiting rfl (by simp [LockCall.role])
    · exact h.held.unrelated (by simp [hwaiting]) (by simp [LockCall.role])
        (active_removeWaiterLocked ..) (holders_removeWaiterLocked ..)
    · simp [KeyLocks.signalLocked, hchanged]
    · simp
    · simp [LockCall.role]
  · split
    · rename_i hblocker
      have hfree := (blocker_eq_none h.queued h.held hwaiting).mp hblocker
      apply h.signalled (c := { s.calls i with state := .granted })
      · exact h.queued.leave hwaiting rfl (by simp [LockCall.role, hkey])
      · apply h.held.grant (by simp [hwaiting]) hkey
        intro j hj hjkey
        by_contra hover
        exact hfree (.inl ⟨j, hj, hjkey, by simpa using hover⟩)
      · unfold KeyLocks.grant KeyLocks.signalLocked KeyLocks.removeWaiterLocked
        split <;> rfl
      · simp
      · simp [LockCall.role, hkey]
    · rename_i blocker hblocker
      have hblocked : s.Blocked i := by
        by_contra hfree
        rw [(blocker_eq_none h.queued h.held hwaiting).mpr hfree] at hblocker
        cases hblocker
      apply h.quiet
      · rw [hwaiting]
        rfl
      · exact fun _ => ⟨rfl, rfl, rfl, rfl⟩
      · exact fun _ => hkey
      · intro channel hchannel
        cases hchannel
        exact ⟨hwaiting, le_refl _, fun _ => hblocked⟩

theorem LockInv.release (h : LockInv s) (hi : (s.calls i).state = .granted) (hkey : (s.calls i).key ≠ "") :
    LockInv { s.set i .released with
      locks := s.locks.release (s.calls i).key (s.calls i).scope (s.calls i).holder } := by
  have hholding : (s.calls i).role = .holding := by simp [LockCall.role, hi, hkey]
  apply h.signalled (c := { s.calls i with state := .released })
  · exact h.queued.unrelated (by simp [hholding]) (by simp [LockCall.role]) rfl
  · exact h.held.release hholding
  · rfl
  · simp
  · simp [LockCall.role]

theorem LockInv.step {a : LockAction} (h : LockInv s) (hs : locking.step s a = some s') : LockInv s' := by
  cases a with
  | acquireAs i key scope holder =>
    simp only [locking, Locking.step, Option.ite_none_right_eq_some, Option.some.injEq] at hs
    obtain ⟨hi, rfl⟩ := hs
    exact h.acquireAs hi
  | register i =>
    simp only [locking, Locking.step, Option.ite_none_right_eq_some, Option.some.injEq] at hs
    obtain ⟨hi, rfl⟩ := hs
    exact h.register hi
  | check i =>
    simp only [locking, Locking.step, Option.ite_none_right_eq_some, Option.some.injEq] at hs
    obtain ⟨hi, rfl⟩ := hs
    exact h.check hi
  | wake i =>
    simp only [locking, Locking.step] at hs
    split at hs
    · rename_i channel hi
      simp only [Option.ite_none_right_eq_some, Option.some.injEq] at hs
      obtain ⟨-, rfl⟩ := hs
      have hwaiting : (s.calls i).role = .waiting := by simp [LockCall.role, hi]
      apply h.quiet
      · rw [hwaiting]
        rfl
      · exact fun _ => ⟨rfl, rfl, rfl, rfl⟩
      · exact fun _ => h.keyed i (.inr hwaiting)
      · simp
    · cases hs
  | cancel i =>
    simp only [locking, Locking.step, Option.ite_none_left_eq_some, Option.some.injEq] at hs
    obtain ⟨-, rfl⟩ := hs
    apply h.quiet
    · rfl
    · exact fun _ => ⟨rfl, rfl, rfl, rfl⟩
    · exact h.keyed i
    · exact fun channel hchannel => ⟨by simp [LockCall.role, show (s.calls i).state = _ from hchannel],
        h.parked i channel hchannel⟩
  | release i =>
    simp only [locking, Locking.step, Option.ite_none_right_eq_some] at hs
    obtain ⟨hi, hs⟩ := hs
    split at hs
    · rename_i hkey
      cases hs
      apply h.quiet
      · simp [LockCall.role, hi, hkey]
      · exact fun _ => ⟨rfl, rfl, rfl, rfl⟩
      · simp [LockCall.role]
      · simp
    · rename_i hkey
      cases hs
      exact h.release hi hkey

theorem lockInv_of_reach {ok : Locking → LockAction → Prop} (h : Reach locking ok s) : LockInv s := by
  refine h.invariant (fun s hs => ?_) fun s a s' hi _ hs => hi.step hs
  subst hs
  have hout : (⟨"", "", "", false, .absent, 0⟩ : LockCall).role = .outside := rfl
  refine ⟨⟨fun key i => ?_, fun key => ?_, fun i hi => ?_, fun key => ?_⟩, ⟨fun key scope n => ?_, fun key scope l => ?_,
    ?_, fun i j _ hi => ?_⟩, fun i hi => ?_, fun i channel hi => ?_⟩
  · simp [KeyLocks.waitersOf, Locking.Waits, hout]
  · simp [KeyLocks.waitersOf]
  · cases hi
  · simp
  · simp [entry, Locking.Holds, hout]
  · simp [entry, Locking.Holds, hout]
  · simp [Tight]
  · cases hi
  · rcases hi with hi | hi <;> cases hi
  · cases hi

/-! ## Grants -/

theorem calls_check (s : Locking) (i : Nat) : (s.check i).calls = Function.update s.calls i
    { s.calls i with
      state := (if (s.calls i).cancelled then .failed else
        if s.blocker i = none then .granted else .parked s.locks.changed) } := by
  unfold Locking.check
  dsimp only
  split
  · simp_all [Locking.set]
  · split
    · rename_i hblocker
      simp_all [Locking.set]
    · rename_i hblocker
      simp_all [Locking.set]

theorem granted_of_step {a : LockAction} (hs : locking.step s a = some s') (hbefore : (s.calls i).state ≠ .granted)
    (hafter : (s'.calls i).state = .granted) (hkey : (s'.calls i).key ≠ "") :
    (s.calls i).state = .checking ∧ s.blocker i = none ∧ (s'.calls i).key = (s.calls i).key ∧
      (s'.calls i).scope = (s.calls i).scope := by
  have hsame : ∀ {k : Nat} {c : LockCall}, s'.calls = Function.update s.calls k c → k = i := by
    intro k c hcalls
    by_contra hne
    rw [hcalls, Function.update_of_ne (Ne.symm hne)] at hafter
    exact hbefore hafter
  cases a with
  | acquireAs k key scope holder =>
    simp only [locking, Locking.step, Option.ite_none_right_eq_some, Option.some.injEq] at hs
    obtain ⟨-, rfl⟩ := hs
    obtain rfl := hsame rfl
    simp only [Function.update_self] at hafter hkey
    rw [if_neg hkey] at hafter
    cases hafter
  | register k =>
    simp only [locking, Locking.step, Option.ite_none_right_eq_some, Option.some.injEq] at hs
    obtain ⟨-, rfl⟩ := hs
    obtain rfl := hsame rfl
    simp [Locking.register] at hafter
  | check k =>
    simp only [locking, Locking.step, Option.ite_none_right_eq_some, Option.some.injEq] at hs
    obtain ⟨hk, rfl⟩ := hs
    obtain rfl := hsame (calls_check s k)
    rw [calls_check, Function.update_self] at hafter ⊢
    refine ⟨hk, ?_, rfl, rfl⟩
    by_contra hblocker
    dsimp only at hafter
    split at hafter
    · cases hafter
    · cases hafter
  | wake k =>
    simp only [locking, Locking.step] at hs
    split at hs
    · simp only [Option.ite_none_right_eq_some, Option.some.injEq] at hs
      obtain ⟨-, rfl⟩ := hs
      obtain rfl := hsame rfl
      simp [Locking.set] at hafter
    · cases hs
  | cancel k =>
    simp only [locking, Locking.step, Option.ite_none_left_eq_some, Option.some.injEq] at hs
    obtain ⟨-, rfl⟩ := hs
    obtain rfl := hsame rfl
    simp only [Function.update_self] at hafter
    exact absurd hafter hbefore
  | release k =>
    simp only [locking, Locking.step, Option.ite_none_right_eq_some] at hs
    obtain ⟨hk, hs⟩ := hs
    have hcalls : s'.calls = Function.update s.calls k { s.calls k with state := .released } := by
      split at hs <;> cases hs <;> rfl
    obtain rfl := hsame hcalls
    exact absurd hk hbefore

structure LocksSound (s : Locking) : Prop where
  exclusive : ∀ i j, i ≠ j → (s.calls i).state = .granted → (s.calls j).state = .granted →
    (s.calls i).key = (s.calls j).key → (s.calls i).key ≠ "" →
    overlappingLockScope (s.calls i).scope (s.calls j).scope = false
  fair : ∀ a s' i, locking.step s a = some s' → (s.calls i).state ≠ .granted → (s'.calls i).state = .granted →
    (s'.calls i).key ≠ "" → ∀ j, s.Waits j (s'.calls i).key → (s.calls j).arrived < (s.calls i).arrived →
    overlappingLockScope (s.calls j).scope (s'.calls i).scope = false
  woken : ∀ i channel, (s.calls i).state = .parked channel → ¬ s.Blocked i → (locking.step s (.wake i)).isSome
  emptied : (∀ i, (s.calls i).role = .outside) →
    s.locks.active = ∅ ∧ s.locks.holders = ∅ ∧ s.locks.waiters = ∅

theorem locks_sound (h : Reach locking free s) : LocksSound s := by
  have hinv := lockInv_of_reach h
  refine ⟨fun i j hne hi hj hkey hempty => ?_, fun a s' i hs hbefore hafter hkey j hj hlt => ?_,
    fun i channel hi hfree => ?_, fun hout => ⟨?_, ?_, ?_⟩⟩
  · have hrole : (s.calls i).role = .holding := by simp [LockCall.role, hi, hempty]
    have hrole' : (s.calls j).role = .holding := by simp [LockCall.role, hj, ← hkey, hempty]
    exact hinv.held.exclusive i j hne hrole hrole' hkey
  · obtain ⟨hi, hblocker, hsame, hscope⟩ := granted_of_step hs hbefore hafter hkey
    have hwaiting : (s.calls i).role = .waiting := by simp [LockCall.role, hi]
    have hfree := (blocker_eq_none hinv.queued hinv.held hwaiting).mp hblocker
    rw [hsame] at hj
    rw [hscope]
    by_contra hover
    exact hfree (.inr ⟨j, hj, hlt, by simpa using hover⟩)
  · obtain ⟨hle, hblocked⟩ := hinv.parked i channel hi
    have hlt : channel < s.locks.changed := lt_of_le_of_ne hle fun heq => hfree (hblocked heq)
    simp [locking, Locking.step, hi, hlt]
  · refine eq_empty hinv.held.tight.1 fun key scope => ?_
    rw [Option.eq_none_iff_forall_ne_some]
    intro n hn
    obtain ⟨-, i, hi, -⟩ := (hinv.held.active key scope n).mp hn
    rw [hout i] at hi
    cases hi
  · refine eq_empty hinv.held.tight.2 fun key scope => ?_
    rw [Option.eq_none_iff_forall_ne_some]
    intro l hl
    obtain ⟨i, ⟨hi, -⟩, -⟩ := (hinv.held.holders key scope l).mp hl
    rw [hout i] at hi
    cases hi
  · apply AList.ext
    by_contra hne
    obtain ⟨key, l, hl⟩ := exists_lookup hne
    have hnil : l ≠ [] := fun hnil => hinv.queued.listed key (hnil ▸ hl)
    obtain ⟨i, hi⟩ := List.exists_mem_of_ne_nil l hnil
    have hw := (hinv.queued.waiters key i).mp (by simpa [KeyLocks.waitersOf, hl] using hi)
    rw [Locking.Waits, hout i] at hw
    cases hw.1

/-! ### Three calls of one key -/

def lockStart : Locking := ⟨⟨∅, ∅, ∅, 0⟩, fun _ => ⟨"", "", "", false, .absent, 0⟩, 0⟩

def lockActions : List LockAction :=
  [.acquireAs 0 "pool" "tank/a" "first", .register 0, .check 0, .acquireAs 1 "pool" "tank" "second", .register 1,
    .check 1, .acquireAs 2 "pool" "tank/b" "third", .register 2, .check 2]

theorem locks_wait : ∃ s, run locking lockActions lockStart = some s ∧
    [0, 1, 2].map (fun i => (s.calls i).state) = [.granted, .parked 1, .parked 1] ∧ LocksSound s := by
  obtain ⟨s, hs⟩ : ∃ s, run locking lockActions lockStart = some s := ⟨_, rfl⟩
  refine ⟨s, hs, ?_, locks_sound (Reach.run (.init rfl) (fun _ _ => trivial) hs)⟩
  cases hs
  decide

/-- The empty key excludes nobody. -/
theorem empty_key_unlocked : ∃ s, Reach locking free s ∧ (s.calls 0).state = .granted ∧ (s.calls 1).state = .granted ∧
    (s.calls 0).key = (s.calls 1).key ∧ overlappingLockScope (s.calls 0).scope (s.calls 1).scope = true := by
  obtain ⟨s, hs⟩ : ∃ s, run locking [.acquireAs 0 "" "tank" "first", .acquireAs 1 "" "tank" "second"] lockStart =
    some s := ⟨_, rfl⟩
  refine ⟨s, Reach.run (.init rfl) (fun _ _ => trivial) hs, ?_⟩
  cases hs
  decide

end Boomerangz.Daemon
