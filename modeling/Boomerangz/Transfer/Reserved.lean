import Boomerangz.Lib.Run
import Boomerangz.Transfer.Pending

/-! # Pending work over whole runs

What `Coalesce` lets its caller release is right while attempts with pending items have their reservation.
-/

namespace Boomerangz.Transfer

open Check Transition Zfs

/-! ## Calls -/

/-- The set, and what the attempts that have begun and not ended carry. -/
structure Pendings where
  set : PendingSet
  begun : List (PendingKey × PendingSnapshot)

inductive PendingAction where
  | coalesce (source : Dataset) (target : String) (snapshot : PendingSnapshot)
  | reserve (source : Dataset) (target : String)
  | release (source : Dataset) (target : String) (snapshot : PendingSnapshot) (complete : Bool)
  | complete (source : Dataset) (target : String) (snapshot : PendingSnapshot)

namespace PendingAction

def key : PendingAction → PendingKey
  | coalesce source target _ => (source, target)
  | reserve source target => (source, target)
  | release source target _ _ => (source, target)
  | complete source target _ => (source, target)

def finishes (x : PendingSnapshot) : PendingAction → Prop
  | release _ _ snapshot _ => snapshot = x
  | complete _ _ snapshot => snapshot = x
  | _ => False

def completes (x : PendingSnapshot) : PendingAction → Prop
  | release _ _ snapshot done => snapshot = x ∧ done = true
  | complete _ _ snapshot => snapshot = x
  | _ => False

end PendingAction

namespace Pendings

def perform (s : Pendings) : PendingAction → Pendings
  | .coalesce source target snapshot =>
    match s.set.coalesce source target snapshot with
    | .error _ => s
    | .ok (set, _) => { s with set := set }
  | .reserve source target =>
    match s.set.reserve source target with
    | (set, none) => { s with set := set }
    | (set, some snapshot) => ⟨set, s.begun ++ [((source, target), snapshot)]⟩
  | .release source target snapshot complete =>
    ⟨s.set.release source target snapshot complete, s.begun.erase ((source, target), snapshot)⟩
  | .complete source target snapshot => { s with set := (s.set.complete source target snapshot).1 }

def performAll (s : Pendings) (as : List PendingAction) : Pendings := as.foldl perform s

end Pendings

def pendings : System Pendings PendingAction where
  init s := s = ⟨⟨fun _ => none, fun _ => none⟩, []⟩
  step s a := some (s.perform a)

/-! ## Keys -/

section Keys

variable {s : Pendings} {source : Dataset} {target : String} {a : PendingAction}

def ValidKey (k : PendingKey) : Prop := ∃ key, pendingKey k.1 k.2 = .ok key

theorem pendingKey_valid (h : ValidKey (source, target)) : pendingKey source target = .ok (source, target) := by
  obtain ⟨key, hkey⟩ := h
  rw [hkey, pendingKey_eq hkey]

theorem pendingKey_invalid (h : ¬ ValidKey (source, target)) : ∃ e, pendingKey source target = .error e := by
  cases hkey : pendingKey source target with
  | error e => exact ⟨e, rfl⟩
  | ok key => exact absurd ⟨key, hkey⟩ h

theorem perform_invalid (hkey : ¬ ValidKey a.key) : (s.perform a).set = s.set := by
  obtain ⟨e, he⟩ := pendingKey_invalid hkey
  cases a with
  | coalesce source target snapshot =>
    have herror : s.set.coalesce source target snapshot = .error e := by
      simp only [PendingSet.coalesce]
      exact congrArg (· >>= _) he
    simp only [Pendings.perform, herror]
  | reserve source target => simp only [Pendings.perform, PendingSet.reserve, show pendingKey source target = _ from he]
  | release source target snapshot complete =>
    simp only [Pendings.perform, PendingSet.release, show pendingKey source target = _ from he]
  | complete source target snapshot =>
    simp only [Pendings.perform, PendingSet.complete, show pendingKey source target = _ from he]

end Keys

/-! ## What is promised -/

namespace Pendings

structure Onward (s : Pendings) (a : PendingAction) : Prop where
  forward : ∀ k x y, s.set.jobs k = some x → (s.perform a).set.jobs k = some y → x.createTXG ≤ y.createTXG
  completed : ∀ k x, s.set.jobs k = some x → (s.perform a).set.jobs k = none → k = a.key ∧ a.completes x
  newer : ∀ k x y, s.set.jobs k = some x → y.createTXG < x.createTXG → a.finishes y →
    (s.perform a).set.jobs k = some x
  elsewhere : ∀ k, k ≠ a.key → (s.perform a).set.jobs k = s.set.jobs k ∧ (s.perform a).set.active k = s.set.active k

def Releases (s : Pendings) : Prop :=
  ∀ source target snapshot set result x, s.set.coalesce source target snapshot = .ok (set, result) →
    result.superseded = some x → result.releaseSuperseded = true →
      set.jobs (source, target) ≠ some x ∧ ((source, target), x) ∉ s.begun

/-- `Coalesce` makes the snapshot the pending item. -/
def Replaces (s : Pendings) (source : Dataset) (target : String) (snapshot : PendingSnapshot) : Prop :=
  (∃ key, pendingKey source target = .ok key) ∧ (snapshot.createTXG != 0 && snapshot.isOn source) = true ∧
    ∀ current, s.set.jobs (source, target) = some current → current.createTXG < snapshot.createTXG

/-- No attempt is left without the reservation of an item that is still pending. -/
def Tidy (s : Pendings) : PendingAction → Prop
  | .coalesce source target snapshot => s.Replaces source target snapshot →
      ((source, target), snapshot) ∈ s.begun → s.set.active (source, target) = some snapshot
  | .reserve _ _ => True
  | .release source target snapshot complete => s.set.active (source, target) = some snapshot → complete = false →
      s.set.jobs (source, target) = some snapshot →
        ((source, target), snapshot) ∉ s.begun.erase ((source, target), snapshot)
  | .complete _ _ _ => True

end Pendings

def keyText (k : PendingKey) : List Char := path k.1 ++ '\x00' :: k.2.toList

/-! ## One call -/

section Calls

variable {s : Pendings} {source : Dataset} {target : String} {snapshot x : PendingSnapshot} {complete : Bool}
  {k : PendingKey}

theorem coalesce_iff {p p' : PendingSet} {result : CoalesceResult} :
    p.coalesce source target snapshot = .ok (p', result) ↔
      ValidKey (source, target) ∧ (snapshot.createTXG != 0 && snapshot.isOn source) = true ∧
        ((∃ current, p.jobs (source, target) = some current ∧ snapshot.createTXG ≤ current.createTXG ∧
            p' = p ∧ result = ⟨false, none, false⟩) ∨
          (∀ current, p.jobs (source, target) = some current → current.createTXG < snapshot.createTXG) ∧
            p' = { p with jobs := Function.update p.jobs (source, target) (some snapshot) } ∧
            result = ⟨true, p.jobs (source, target),
              (p.jobs (source, target)).any (p.active (source, target) != some ·)⟩) := by
  by_cases hkey : ValidKey (source, target)
  · simp only [PendingSet.coalesce, ok_iff, pendingKey_valid hkey, Except.ok.injEq, exists_eq_left', hkey, true_and,
      and_congr_right_iff]
    intro hgood
    cases hjob : p.jobs (source, target) with
    | none => simp [pure, Except.pure, eq_comm]
    | some current =>
      by_cases hle : snapshot.createTXG ≤ current.createTXG
      · simp [hle, Nat.not_lt.mpr hle, pure, Except.pure, eq_comm]
      · simp [hle, Nat.lt_of_not_le hle, pure, Except.pure, eq_comm]
  · obtain ⟨e, he⟩ := pendingKey_invalid hkey
    simp [PendingSet.coalesce, he, hkey]

def Pendings.put (s : Pendings) (k : PendingKey) (item : Option PendingSnapshot) : Pendings :=
  { s with set := { s.set with jobs := Function.update s.set.jobs k item } }

theorem perform_replaces (h : s.Replaces source target snapshot) :
    s.perform (.coalesce source target snapshot) = s.put (source, target) (some snapshot) := by
  have hcoalesce := coalesce_iff.mpr ⟨h.1, h.2.1, .inr ⟨h.2.2, rfl, rfl⟩⟩
  simp only [Pendings.perform, hcoalesce, Pendings.put]

theorem perform_coalesce (h : ¬ s.Replaces source target snapshot) :
    s.perform (.coalesce source target snapshot) = s := by
  cases hcoalesce : s.set.coalesce source target snapshot with
  | error e => simp only [Pendings.perform, hcoalesce]
  | ok r =>
    obtain ⟨set, result⟩ := r
    obtain ⟨hkey, hgood, ⟨current, -, -, rfl, -⟩ | ⟨hnewer, -, -⟩⟩ := coalesce_iff.mp hcoalesce
    · simp only [Pendings.perform, hcoalesce]
    · exact absurd ⟨hkey, hgood, hnewer⟩ h

theorem perform_reserves (hkey : ValidKey (source, target)) (hjob : s.set.jobs (source, target) = some x) :
    s.perform (.reserve source target) =
      ⟨{ s.set with active := Function.update s.set.active (source, target) (some x) },
        s.begun ++ [((source, target), x)]⟩ := by
  simp only [Pendings.perform, PendingSet.reserve, pendingKey_valid hkey, hjob]

theorem perform_reserve (h : ¬ ValidKey (source, target) ∨ s.set.jobs (source, target) = none) :
    s.perform (.reserve source target) = s := by
  by_cases hkey : ValidKey (source, target)
  · simp only [Pendings.perform, PendingSet.reserve, pendingKey_valid hkey, h.resolve_left (not_not_intro hkey)]
  · obtain ⟨e, he⟩ := pendingKey_invalid hkey
    simp only [Pendings.perform, PendingSet.reserve, he]

theorem perform_completes (hkey : ValidKey (source, target))
    (hjob : s.set.jobs (source, target) = some snapshot) :
    s.perform (.complete source target snapshot) = s.put (source, target) none := by
  simp only [Pendings.perform, PendingSet.complete, pendingKey_valid hkey, hjob, if_true, Pendings.put]

theorem perform_complete (h : ¬ ValidKey (source, target) ∨ s.set.jobs (source, target) ≠ some snapshot) :
    s.perform (.complete source target snapshot) = s := by
  by_cases hkey : ValidKey (source, target)
  · simp only [Pendings.perform, PendingSet.complete, pendingKey_valid hkey,
      h.resolve_left (not_not_intro hkey), if_false]
  · exact congrArg (Pendings.mk · s.begun) (perform_invalid (s := s) (a := .complete source target snapshot) hkey)

theorem perform_release (hkey : ValidKey (source, target)) :
    s.perform (.release source target snapshot complete) =
      ⟨⟨if complete ∧ s.set.jobs (source, target) = some snapshot then
            Function.update s.set.jobs (source, target) none else s.set.jobs,
          if s.set.active (source, target) = some snapshot then
            Function.update s.set.active (source, target) none else s.set.active⟩,
        s.begun.erase ((source, target), snapshot)⟩ := by
  simp only [Pendings.perform, PendingSet.release, pendingKey_valid hkey]

theorem perform_release_invalid (hkey : ¬ ValidKey (source, target)) :
    s.perform (.release source target snapshot complete) =
      ⟨s.set, s.begun.erase ((source, target), snapshot)⟩ := by
  exact congrArg (Pendings.mk · _) (perform_invalid (s := s) (a := .release source target snapshot complete) hkey)

end Calls

/-! ## The pending items -/

theorem jobs_perform (s : Pendings) (a : PendingAction) :
    (s.perform a).set.jobs = s.set.jobs ∨
      (∃ source target snapshot, a = .coalesce source target snapshot ∧ s.Replaces source target snapshot ∧
        (s.perform a).set.jobs = Function.update s.set.jobs (source, target) (some snapshot)) ∨
      ∃ x, s.set.jobs a.key = some x ∧ a.completes x ∧
        (s.perform a).set.jobs = Function.update s.set.jobs a.key none := by
  cases a with
  | coalesce source target snapshot =>
    by_cases h : s.Replaces source target snapshot
    · exact .inr (.inl ⟨source, target, snapshot, rfl, h, by rw [perform_replaces h, Pendings.put]⟩)
    · exact .inl (by rw [perform_coalesce h])
  | reserve source target =>
    refine .inl ?_
    by_cases hkey : ValidKey (source, target)
    · cases hjob : s.set.jobs (source, target) with
      | none => rw [perform_reserve (.inr hjob)]
      | some x => rw [perform_reserves hkey hjob]
    · rw [perform_reserve (.inl hkey)]
  | release source target snapshot complete =>
    by_cases hkey : ValidKey (source, target)
    · rw [perform_release hkey]
      by_cases hdone : complete ∧ s.set.jobs (source, target) = some snapshot
      · exact .inr (.inr ⟨snapshot, hdone.2, ⟨rfl, hdone.1⟩, if_pos hdone⟩)
      · exact .inl (if_neg hdone)
    · exact .inl (by rw [perform_release_invalid hkey])
  | complete source target snapshot =>
    by_cases h : ValidKey (source, target) ∧ s.set.jobs (source, target) = some snapshot
    · exact .inr (.inr ⟨snapshot, h.2, rfl, by rw [perform_completes h.1 h.2]; rfl⟩)
    · exact .inl (by rw [perform_complete (not_and_or.mp h)])

theorem reserved_perform (s : Pendings) (a : PendingAction) :
    ((s.perform a).set.active = s.set.active ∧ (s.perform a).begun = s.begun ∧
      ∀ source target snapshot complete, a ≠ .release source target snapshot complete) ∨
    (∃ source target x, a = .reserve source target ∧ ValidKey (source, target) ∧
      s.set.jobs (source, target) = some x ∧
      (s.perform a).set.active = Function.update s.set.active (source, target) (some x) ∧
      (s.perform a).begun = s.begun ++ [((source, target), x)]) ∨
    ∃ source target snapshot complete, a = .release source target snapshot complete ∧
      (s.perform a).begun = s.begun.erase ((source, target), snapshot) ∧
      ((ValidKey (source, target) ∧ s.set.active (source, target) = some snapshot ∧
          (s.perform a).set.active = Function.update s.set.active (source, target) none) ∨
        (ValidKey (source, target) → s.set.active (source, target) ≠ some snapshot) ∧
          (s.perform a).set.active = s.set.active) := by
  cases a with
  | coalesce source target snapshot =>
    refine .inl ?_
    by_cases h : s.Replaces source target snapshot
    · rw [perform_replaces h, Pendings.put]
      exact ⟨rfl, rfl, nofun⟩
    · rw [perform_coalesce h]
      exact ⟨rfl, rfl, nofun⟩
  | reserve source target =>
    by_cases hkey : ValidKey (source, target)
    · cases hjob : s.set.jobs (source, target) with
      | none =>
        rw [perform_reserve (.inr hjob)]
        exact .inl ⟨rfl, rfl, nofun⟩
      | some x =>
        rw [perform_reserves hkey hjob]
        exact .inr (.inl ⟨source, target, x, rfl, hkey, hjob, rfl, rfl⟩)
    · rw [perform_reserve (.inl hkey)]
      exact .inl ⟨rfl, rfl, nofun⟩
  | release source target snapshot complete =>
    refine .inr (.inr ⟨source, target, snapshot, complete, rfl, rfl, ?_⟩)
    by_cases hkey : ValidKey (source, target)
    · rw [perform_release hkey]
      by_cases hactive : s.set.active (source, target) = some snapshot
      · exact .inl ⟨hkey, hactive, if_pos hactive⟩
      · exact .inr ⟨fun _ => hactive, if_neg hactive⟩
    · rw [perform_release_invalid hkey]
      exact .inr ⟨fun hvalid => absurd hvalid hkey, rfl⟩
  | complete source target snapshot =>
    refine .inl ?_
    by_cases h : ValidKey (source, target) ∧ s.set.jobs (source, target) = some snapshot
    · rw [perform_completes h.1 h.2, Pendings.put]
      exact ⟨rfl, rfl, nofun⟩
    · rw [perform_complete (not_and_or.mp h)]
      exact ⟨rfl, rfl, nofun⟩

theorem active_elsewhere (s : Pendings) (a : PendingAction) {k : PendingKey} (hk : k ≠ a.key) :
    (s.perform a).set.active k = s.set.active k := by
  obtain ⟨h, -, -⟩ | ⟨source, target, x, rfl, -, -, h, -⟩ |
    ⟨source, target, snapshot, complete, rfl, -, ⟨-, -, h⟩ | ⟨-, h⟩⟩ := reserved_perform s a
  · rw [h]
  · rw [h]
    exact Function.update_of_ne hk ..
  · rw [h]
    exact Function.update_of_ne hk ..
  · rw [h]

theorem completes_finishes {a : PendingAction} {x y : PendingSnapshot} (hx : a.completes x) (hy : a.finishes y) :
    x = y := by
  cases a with
  | coalesce source target snapshot => exact hx.elim
  | reserve source target => exact hx.elim
  | release source target snapshot complete => exact hx.1.symm.trans hy
  | complete source target snapshot => exact Eq.trans (Eq.symm hx) hy

theorem onward (s : Pendings) (a : PendingAction) : s.Onward a := by
  obtain h | ⟨source, target, snapshot, rfl, hr, h⟩ | ⟨z, hz, hdone, h⟩ := jobs_perform s a
  · refine ⟨fun k x y hx hy => ?_, fun k x hx hnone => ?_, fun k x y hx _ _ => h ▸ hx,
      fun k hk => ⟨by rw [h], active_elsewhere s a hk⟩⟩
    · rw [h, hx] at hy
      cases hy
      exact le_rfl
    · rw [h, hx] at hnone
      cases hnone
  · refine ⟨fun k x y hx hy => ?_, fun k x hx hnone => ?_, fun k x y _ _ hfalse => hfalse.elim,
      fun k hk => ⟨by rw [h]; exact Function.update_of_ne hk .., active_elsewhere s _ hk⟩⟩
    · rw [h, Function.update_apply] at hy
      split at hy
      · next hk =>
        cases hy
        exact (hr.2.2 x (hk ▸ hx)).le
      · rw [hx] at hy
        cases hy
        exact le_rfl
    · rw [h, Function.update_apply] at hnone
      split at hnone
      · cases hnone
      · rw [hx] at hnone
        cases hnone
  · refine ⟨fun k x y hx hy => ?_, fun k x hx hnone => ?_, fun k x y hx hlt hfin => ?_,
      fun k hk => ⟨by rw [h, Function.update_of_ne hk], active_elsewhere s a hk⟩⟩
    · rw [h, Function.update_apply] at hy
      split at hy
      · cases hy
      · rw [hx] at hy
        cases hy
        exact le_rfl
    · by_cases hk : k = a.key
      · rw [hk, hz] at hx
        cases hx
        exact ⟨hk, hdone⟩
      · rw [h, Function.update_of_ne hk, hx] at hnone
        cases hnone
    · -- An older item that ends is not the pending one.
      by_cases hk : k = a.key
      · rw [hk, hz] at hx
        cases hx
        rw [completes_finishes hdone hfin] at hlt
        exact absurd hlt (lt_irrefl _)
      · rw [h, Function.update_of_ne hk, hx]

/-! ## The reservations -/

structure Pendings.Held (s : Pendings) : Prop where
  keyed : ∀ k x, s.set.jobs k = some x → ValidKey k ∧ x.isOn k.1 = true
  valid : ∀ e ∈ s.begun, ValidKey e.1
  carried : ∀ k x, s.set.active k = some x → (k, x) ∈ s.begun

def Pendings.Sound (s : Pendings) : Prop :=
  ∀ k x, (k, x) ∈ s.begun → s.set.jobs k = some x → s.set.active k = some x

section Reservations

variable {s : Pendings} {a : PendingAction}

theorem Pendings.Held.perform (h : s.Held) : (s.perform a).Held := by
  have hkeyed : ∀ k x, (s.perform a).set.jobs k = some x → ValidKey k ∧ x.isOn k.1 = true := by
    intro k x hx
    obtain hsame | ⟨source, target, snapshot, -, hr, hput⟩ | ⟨z, -, -, hgone⟩ := jobs_perform s a
    · exact h.keyed k x (hsame ▸ hx)
    · rw [hput, Function.update_apply] at hx
      split at hx
      · next hk =>
        cases hx
        exact hk ▸ ⟨hr.1, (Bool.and_eq_true_iff.mp hr.2.1).2⟩
      · exact h.keyed k x hx
    · rw [hgone, Function.update_apply] at hx
      split at hx
      · cases hx
      · exact h.keyed k x hx
  obtain ⟨ha, hb, -⟩ | ⟨source, target, x, -, hkey, -, ha, hb⟩ |
    ⟨source, target, snapshot, complete, -, hb, hends⟩ := reserved_perform s a
  · exact ⟨hkeyed, hb ▸ h.valid, fun k y hy => hb ▸ h.carried k y (ha ▸ hy)⟩
  · refine ⟨hkeyed, fun e he => ?_, fun k y hy => ?_⟩
    · rw [hb, List.mem_append, List.mem_singleton] at he
      rcases he with he | rfl
      · exact h.valid e he
      · exact hkey
    · rw [hb, List.mem_append, List.mem_singleton]
      rw [ha, Function.update_apply] at hy
      split at hy
      · next hk =>
        cases hy
        exact .inr (hk ▸ rfl)
      · exact .inl (h.carried k y hy)
  · refine ⟨hkeyed, fun e he => h.valid e (List.mem_of_mem_erase (hb ▸ he)), fun k y hy => ?_⟩
    rw [hb]
    obtain ⟨-, -, ha⟩ | ⟨hother, ha⟩ := hends
    · rw [ha, Function.update_apply] at hy
      split at hy
      · cases hy
      · next hk => exact (List.mem_erase_of_ne fun he => hk (congrArg Prod.fst he)).mpr (h.carried k y hy)
    · rw [ha] at hy
      refine (List.mem_erase_of_ne fun he => ?_).mpr (h.carried k y hy)
      cases he
      exact hother (h.valid _ (h.carried _ _ hy)) hy

theorem held_of_reach {ok : Pendings → PendingAction → Prop} (h : Reach pendings ok s) : s.Held := by
  refine h.invariant (I := Pendings.Held) (fun s hs => ?_) fun s a s' hi _ hstep => ?_
  · subst hs
    exact ⟨nofun, nofun, nofun⟩
  · cases hstep
    exact hi.perform

/-- `Coalesce` is right about what it lets go exactly when no attempt lacks its reservation. -/
theorem releases_iff (h : s.Held) : s.Releases ↔ s.Sound := by
  constructor
  · intro hreleases k x hbegun hjob
    by_contra hactive
    obtain ⟨hkey, hon⟩ := h.keyed k x hjob
    have hgood : (x.createTXG + 1 != 0 && PendingSnapshot.isOn ⟨x.name, x.createTXG + 1⟩ k.1) = true := by
      simpa [PendingSnapshot.isOn] using hon
    have hnewer : ∀ current, s.set.jobs (k.1, k.2) = some current → current.createTXG < x.createTXG + 1 := by
      intro current hcurrent
      rw [hjob] at hcurrent
      cases hcurrent
      exact Nat.lt_succ_self _
    refine (hreleases k.1 k.2 ⟨x.name, x.createTXG + 1⟩ _ _ x
      (coalesce_iff.mpr ⟨hkey, hgood, .inr ⟨hnewer, rfl, rfl⟩⟩) hjob ?_).2 hbegun
    simpa [hjob] using hactive
  · intro hsound source target snapshot set result x hcoalesce hx hrelease
    obtain ⟨hkey, -, ⟨current, -, -, -, rfl⟩ | ⟨hnewer, rfl, rfl⟩⟩ := coalesce_iff.mp hcoalesce
    · cases hx
    · simp only at hx hrelease
      simp only [hx, Option.any_some, bne_iff_ne] at hrelease
      refine ⟨fun hsame => ?_, fun hbegun => hrelease (hsound _ x hbegun hx)⟩
      simp only [Function.update_self, Option.some.injEq] at hsame
      exact lt_irrefl _ (hsame ▸ hnewer x hx)

theorem sound_coalesce {source : Dataset} {target : String} {snapshot : PendingSnapshot} (hs : s.Sound) :
    (s.perform (.coalesce source target snapshot)).Sound ↔ s.Tidy (.coalesce source target snapshot) := by
  by_cases hr : s.Replaces source target snapshot
  · rw [perform_replaces hr]
    constructor
    · intro hs' _ hbegun
      exact hs' _ _ hbegun (Function.update_self ..)
    · intro htidy k x hbegun hjob
      simp only [Pendings.put, Function.update_apply] at hjob
      split at hjob
      · next hk =>
        cases hjob
        subst hk
        exact htidy hr hbegun
      · exact hs k x hbegun hjob
  · rw [perform_coalesce hr]
    exact ⟨fun _ hreplaces => absurd hreplaces hr, fun _ => hs⟩

theorem sound_reserve {source : Dataset} {target : String} (hs : s.Sound) :
    (s.perform (.reserve source target)).Sound := by
  intro k x hbegun hjob
  by_cases hkey : ValidKey (source, target)
  · cases hpending : s.set.jobs (source, target) with
    | none =>
      rw [perform_reserve (.inr hpending)] at hbegun hjob ⊢
      exact hs k x hbegun hjob
    | some y =>
      rw [perform_reserves hkey hpending] at hbegun hjob ⊢
      by_cases hk : k = (source, target)
      · subst hk
        exact (Function.update_self ..).trans (hpending.symm.trans hjob)
      · have hold : (k, x) ∈ s.begun := by
          rcases List.mem_append.mp hbegun with hold | hnew
          · exact hold
          · exact absurd (congrArg Prod.fst (List.mem_singleton.mp hnew)) hk
        exact (Function.update_of_ne hk ..).trans (hs k x hold hjob)
  · rw [perform_reserve (.inl hkey)] at hbegun hjob ⊢
    exact hs k x hbegun hjob

theorem sound_release {source : Dataset} {target : String} {snapshot : PendingSnapshot} {complete : Bool}
    (h : s.Held) (hs : s.Sound) :
    (s.perform (.release source target snapshot complete)).Sound ↔
      s.Tidy (.release source target snapshot complete) := by
  by_cases hkey : ValidKey (source, target)
  · rw [perform_release hkey]
    constructor
    · intro hs' hactive hunfinished hjob hbegun
      have hleft := hs' (source, target) snapshot hbegun (by simpa [hunfinished] using hjob)
      simp [hactive] at hleft
    · intro htidy k x hbegun hjob
      have hpending : s.set.jobs k = some x := by
        dsimp only at hjob
        split at hjob
        · rw [Function.update_apply] at hjob
          split at hjob
          · cases hjob
          · exact hjob
        · exact hjob
      have hactive := hs k x (List.mem_of_mem_erase hbegun) hpending
      dsimp only
      split
      · next hreserved =>
        by_cases hk : k = (source, target)
        · -- The attempt that ends had the reservation, and another carries the same item.
          subst hk
          rw [hactive] at hreserved
          cases hreserved
          refine absurd hbegun (htidy hactive (Bool.eq_false_iff.mpr fun hdone => ?_) hpending)
          simp [hdone, hpending] at hjob
        · exact (Function.update_of_ne hk ..).trans hactive
      · exact hactive
  · rw [perform_release_invalid hkey]
    exact ⟨fun _ hactive => absurd (h.valid _ (h.carried _ _ hactive)) hkey,
      fun _ k x hbegun hjob => hs k x (List.mem_of_mem_erase hbegun) hjob⟩

theorem sound_complete {source : Dataset} {target : String} {snapshot : PendingSnapshot} (hs : s.Sound) :
    (s.perform (.complete source target snapshot)).Sound := by
  by_cases h : ValidKey (source, target) ∧ s.set.jobs (source, target) = some snapshot
  · rw [perform_completes h.1 h.2]
    intro k x hbegun hjob
    simp only [Pendings.put, Function.update_apply] at hjob
    split at hjob
    · cases hjob
    · exact hs k x hbegun hjob
  · rw [perform_complete (not_and_or.mp h)]
    exact hs

theorem sound_perform (h : s.Held) (hs : s.Sound) : (s.perform a).Sound ↔ s.Tidy a := by
  cases a with
  | coalesce source target snapshot => exact sound_coalesce hs
  | reserve source target => exact iff_of_true (sound_reserve hs) trivial
  | release source target snapshot complete => exact sound_release h hs
  | complete source target snapshot => exact iff_of_true (sound_complete hs) trivial

theorem sound_of_reach (h : Reach pendings Pendings.Tidy s) : s.Sound := by
  have hboth : s.Held ∧ s.Sound := by
    refine h.invariant (I := fun s => s.Held ∧ s.Sound) (fun s hs => ?_) fun s a s' hi htidy hstep => ?_
    · have hstart : Reach pendings free s := .init hs
      refine ⟨held_of_reach hstart, ?_⟩
      subst hs
      exact nofun
    · cases hstep
      exact ⟨hi.1.perform, (sound_perform hi.1 hi.2).mpr htidy⟩
  exact hboth.2

end Reservations

/-! ## Streams -/

section Streams

variable {s : Pendings} {target : String}

theorem performAll_reserve (ms : List Member) :
    s.performAll (ms.map fun m => .reserve m.dataset target) =
      ⟨(PendingSet.reserveAll target s.set ms).1,
        s.begun ++ (PendingSet.reserveAll target s.set ms).2.map fun r => ((r.stream, target), r.snapshot)⟩ := by
  induction ms generalizing s with
  | nil => simp [Pendings.performAll, PendingSet.reserveAll]
  | cons m ms ih =>
    have hstep : s.performAll ((m :: ms).map fun m => .reserve m.dataset target) =
        (s.perform (.reserve m.dataset target)).performAll (ms.map fun m => .reserve m.dataset target) := rfl
    rw [hstep, ih]
    cases hr : s.set.reserve m.dataset target with
    | mk set reserved =>
      cases reserved with
      | none => simp only [Pendings.perform, PendingSet.reserveAll, hr]
      | some snapshot =>
        simp only [Pendings.perform, PendingSet.reserveAll, hr, List.map_cons, List.append_assoc,
          List.singleton_append]

theorem performAll_release (results : List StreamResult) (reserved : List Reservation) :
    (s.performAll (reserved.map fun r => .release r.stream target r.snapshot
        (PendingSet.verifiedAt results r.stream == some r.snapshot.name))).set =
      s.set.finishStreams target reserved results := by
  induction reserved generalizing s with
  | nil => rfl
  | cons r rs ih => exact ih

end Streams

theorem keyText_inj {k k' : PendingKey} (hk : ValidKey k) (hk' : ValidKey k') (h : keyText k = keyText k') :
    k = k' := by
  have hvalid : ∀ k : PendingKey, ValidKey k → validDataset k.1 = true ∧ '\x00' ∉ k.2.toList := by
    rintro k ⟨key, hkey⟩
    simp only [pendingKey, bind_eq_ok, require_eq_ok, Bool.and_eq_true, Bool.not_eq_true', List.any_eq_false] at hkey
    obtain ⟨_, hsource, _, ⟨-, htarget⟩, -⟩ := hkey
    exact ⟨hsource, fun hnul => by simpa using htarget _ hnul⟩
  have hsource : '\x00' ∉ path k.1 := by
    intro hnul
    rcases mem_path hnul with hslash | ⟨part, hpart, hnul⟩
    · simp at hslash
    · have hall := (hvalid k hk).1
      simp only [validDataset, Bool.and_eq_true, List.all_eq_true] at hall
      simpa [blank] using (hall.2 part hpart).2 _ hnul
  obtain ⟨hpath, -, htarget⟩ := (List.append_cons_inj_of_notMem hsource (hvalid k hk).2).mp h
  exact Prod.ext (path_inj (hvalid k hk).1 (hvalid k' hk').1 hpath) (String.toList_inj.mp htarget)

/-! ## The set over a run -/

/-- No call moves an item back or drops one that did not complete. What `Coalesce` lets go is nobody's exactly as long
as the calls are tidy. -/
theorem pending_kept (s : Pendings) :
    (Reach pendings free s → (∀ a, s.Onward a) ∧ (s.Releases → ∀ a, (s.perform a).Releases ↔ s.Tidy a)) ∧
    (Reach pendings Pendings.Tidy s → s.Releases) ∧
    (∀ target r set r' reserved, s.set.beginStreams r target = .ok (set, r', reserved) →
      ∃ streams, r.streams = .ok streams ∧ s.performAll (streams.map fun m => .reserve m.dataset target) =
        ⟨set, s.begun ++ reserved.map fun r => ((r.stream, target), r.snapshot)⟩) ∧
    (∀ target reserved results, s.set.finishStreams target reserved results =
      (s.performAll (reserved.map fun r => .release r.stream target r.snapshot
        (PendingSet.verifiedAt results r.stream == some r.snapshot.name))).set) ∧
    ∀ k k', ValidKey k → ValidKey k' → keyText k = keyText k' → k = k' := by
  refine ⟨fun h => ⟨onward s, fun hreleases a => ?_⟩, fun h => ?_, ?_, ?_, fun k k' => keyText_inj⟩
  · have hheld := held_of_reach h
    rw [releases_iff hheld.perform]
    exact sound_perform hheld ((releases_iff hheld).mp hreleases)
  · exact (releases_iff (held_of_reach h)).mpr (sound_of_reach h)
  · intro target r set r' reserved hbegin
    simp only [PendingSet.beginStreams, ok_iff] at hbegin
    obtain ⟨streams, hstreams, hset⟩ := hbegin
    cases hset
    exact ⟨streams, hstreams, performAll_reserve streams⟩
  · intro target reserved results
    exact (performAll_release results reserved).symm

/-! ### Two attempts at one item -/

def cutter : Dataset := ["tank", "cutter"]

def cutterItem (n : Nat) : PendingSnapshot := ⟨.snapshot cutter (.other "s"), n⟩

def cutterCalls : List PendingAction :=
  [.coalesce cutter "vault" (cutterItem 7), .reserve cutter "vault", .reserve cutter "vault",
    .release cutter "vault" (cutterItem 7) false]

def cutterStart : Pendings := ⟨⟨fun _ => none, fun _ => none⟩, []⟩

theorem reach_performAll {s : Pendings} (h : Reach pendings free s) (as : List PendingAction) :
    Reach pendings free (s.performAll as) := by
  induction as generalizing s with
  | nil => exact h
  | cons a as ih => exact ih (.step h trivial rfl)

theorem cutter_let_go :
    Reach pendings free (cutterStart.performAll cutterCalls) ∧
    ∃ set result, (cutterStart.performAll cutterCalls).set.coalesce cutter "vault" (cutterItem 8) = .ok (set, result) ∧
      result.superseded = some (cutterItem 7) ∧ result.releaseSuperseded = true ∧
      ((cutter, "vault"), cutterItem 7) ∈ (cutterStart.performAll cutterCalls).begun :=
  ⟨reach_performAll (.init rfl) _, _, _, rfl, rfl, by decide, by decide⟩

def cutterCarried : Pendings :=
  ((cutterStart.perform (.coalesce cutter "vault" (cutterItem 7))).perform (.reserve cutter "vault")).perform
    (.coalesce cutter "vault" (cutterItem 8))

/-- A single attempt keeps its item while a newer one waits. -/
theorem cutter_kept : cutterCarried.Releases ∧
    (cutterCarried.perform (.release cutter "vault" (cutterItem 7) false)).Releases := by
  have hstart : Reach pendings Pendings.Tidy cutterStart := .init rfl
  have hoffered : Reach pendings Pendings.Tidy _ :=
    .step (a := .coalesce cutter "vault" (cutterItem 7)) hstart (fun _ hbegun => by simp [cutterStart] at hbegun) rfl
  have hbegun : Reach pendings Pendings.Tidy _ := .step (a := .reserve cutter "vault") hoffered trivial rfl
  have hcarried : Reach pendings Pendings.Tidy cutterCarried := by
    refine .step (a := .coalesce cutter "vault" (cutterItem 8)) hbegun (fun _ h => ?_) rfl
    revert h
    decide
  have hreleases := (pending_kept cutterCarried).2.1 hcarried
  refine ⟨hreleases, (((pending_kept cutterCarried).1 (hcarried.mono fun _ _ _ => trivial)).2 hreleases _).mpr ?_⟩
  intro _ _ hpending
  revert hpending
  decide

end Boomerangz.Transfer
