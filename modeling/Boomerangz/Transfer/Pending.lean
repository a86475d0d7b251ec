import Boomerangz.Transfer.Request

/-! # Pending work

For every stream and target, the newest snapshot that waits to be sent and the one that an attempt carries.
-/

namespace Boomerangz.Transfer

open Check Zfs

structure PendingSnapshot where
  name : Name
  createTXG : Nat
deriving DecidableEq, Repr

structure CoalesceResult where
  changed : Bool
  superseded : Option PendingSnapshot
  releaseSuperseded : Bool
deriving DecidableEq, Repr

abbrev PendingKey := Dataset × String

structure PendingSet where
  jobs : PendingKey → Option PendingSnapshot
  active : PendingKey → Option PendingSnapshot

structure Reservation where
  stream : Dataset
  snapshot : PendingSnapshot
deriving DecidableEq, Repr

structure StreamResult where
  source : Dataset
  snapshot : Name
  verified : Bool
deriving DecidableEq, Repr

def pendingKey (source : Dataset) (target : String) : Except Error PendingKey := do
  require (validDataset source) (.invalidName source)
  require (target != "" && !target.toList.any fun c => c == '\x00' || c == '\r' || c == '\n')
    (.plain "canonical target is required")
  return (source, target)

theorem pendingKey_eq {source : Dataset} {target : String} {key : PendingKey}
    (h : pendingKey source target = .ok key) : key = (source, target) := by
  simp only [pendingKey, ok_iff] at h
  exact h.2.2.symm

def PendingSnapshot.isOn (snapshot : PendingSnapshot) (source : Dataset) : Bool :=
  snapshot.name.isSnapshot && snapshot.name.base == source

namespace PendingSet

def coalesce (p : PendingSet) (source : Dataset) (target : String) (snapshot : PendingSnapshot) :
    Except Error (PendingSet × CoalesceResult) := do
  let key ← pendingKey source target
  require (snapshot.createTXG != 0 && snapshot.isOn source)
    (.plain "pending snapshot must be on the source with a creation transaction")
  let replaced : PendingSet := { p with jobs := Function.update p.jobs key (some snapshot) }
  match p.jobs key with
  | none => return (replaced, ⟨true, none, false⟩)
  | some current =>
    if snapshot.createTXG ≤ current.createTXG then return (p, ⟨false, none, false⟩)
    else return (replaced, ⟨true, some current, p.active key != some current⟩)

/-- `Begin`. -/
def reserve (p : PendingSet) (source : Dataset) (target : String) : PendingSet × Option PendingSnapshot :=
  match pendingKey source target with
  | .error _ => (p, none)
  | .ok key =>
    match p.jobs key with
    | none => (p, none)
    | some snapshot => ({ p with active := Function.update p.active key (some snapshot) }, some snapshot)

/-- `End`: the item goes only if it is exactly the one that completed. -/
def release (p : PendingSet) (source : Dataset) (target : String) (snapshot : PendingSnapshot) (complete : Bool) :
    PendingSet :=
  match pendingKey source target with
  | .error _ => p
  | .ok key => {
      active := if p.active key = some snapshot then Function.update p.active key none else p.active
      jobs := if complete ∧ p.jobs key = some snapshot then Function.update p.jobs key none else p.jobs }

def complete (p : PendingSet) (source : Dataset) (target : String) (snapshot : PendingSnapshot) : PendingSet × Bool :=
  match pendingKey source target with
  | .error _ => (p, false)
  | .ok key =>
    if p.jobs key = some snapshot then ({ p with jobs := Function.update p.jobs key none }, true) else (p, false)

/-- `BeginStreams`, from the streams of the request on. -/
def reserveAll (target : String) : PendingSet → List Member → PendingSet × List Reservation
  | p, [] => (p, [])
  | p, m :: ms =>
    match p.reserve m.dataset target with
    | (p', none) => reserveAll target p' ms
    | (p', some snapshot) =>
      let (p'', reserved) := reserveAll target p' ms
      (p'', ⟨m.dataset, snapshot⟩ :: reserved)

def pinned (r : Request) (reserved : List Reservation) : Request :=
  if r.members.isEmpty then
    { r with snapshot := (reserved.getLast?.map (·.snapshot.name)).or r.snapshot }
  else
    { r with members := r.members.map fun m =>
        { m with snapshot := ((reserved.reverse.find? (·.stream == m.dataset)).map (·.snapshot.name)).or m.snapshot } }

def beginStreams (p : PendingSet) (r : Request) (target : String) :
    Except Error (PendingSet × Request × List Reservation) := do
  let streams ← r.streams
  let (p', reserved) := reserveAll target p streams
  return (p', pinned r reserved, reserved)

def verifiedAt (results : List StreamResult) (stream : Dataset) : Option Name :=
  (results.reverse.find? fun r => r.verified && r.source == stream).map (·.snapshot)

def finishStreams (p : PendingSet) (target : String) (reserved : List Reservation) (results : List StreamResult) :
    PendingSet :=
  reserved.foldl (fun p r =>
    p.release r.stream target r.snapshot (verifiedAt results r.stream == some r.snapshot.name)) p

section Specs

variable {p p' : PendingSet} {source : Dataset} {target : String}

theorem coalesce_eq_ok {snapshot : PendingSnapshot} {result : CoalesceResult}
    (h : p.coalesce source target snapshot = .ok (p', result)) :
    result.changed = false ∧ p' = p ∨
      result.changed = true ∧ p' = { p with jobs := Function.update p.jobs (source, target) (some snapshot) } := by
  simp only [coalesce, pendingKey, bind_eq_ok, require_eq_ok, pure_eq_ok] at h
  obtain ⟨key, ⟨_, -, _, -, rfl⟩, _, -, h⟩ := h
  cases hjob : p.jobs (source, target) with
  | none =>
    simp only [hjob, pure_eq_ok] at h
    cases h
    exact .inr ⟨rfl, rfl⟩
  | some current =>
    simp only [hjob] at h
    by_cases hle : snapshot.createTXG ≤ current.createTXG
    · simp only [hle, if_true, pure_eq_ok] at h
      cases h
      exact .inl ⟨rfl, rfl⟩
    · simp only [hle, if_false, pure_eq_ok] at h
      cases h
      exact .inr ⟨rfl, rfl⟩

theorem reserve_jobs : (p.reserve source target).1.jobs = p.jobs := by
  unfold reserve
  split
  · rfl
  · split <;> rfl

theorem reserveAll_jobs {members : List Member} : (reserveAll target p members).1.jobs = p.jobs := by
  induction members generalizing p with
  | nil => rfl
  | cons m ms ih =>
    have hkeep : (p.reserve m.dataset target).1.jobs = p.jobs := reserve_jobs
    unfold reserveAll
    split
    · rename_i hr
      rw [hr] at hkeep
      exact ih.trans hkeep
    · rename_i hr
      rw [hr] at hkeep
      exact ih.trans hkeep

theorem mem_reserveAll {members : List Member} (hx : source ∈ members.map Member.dataset)
    (hkey : (pendingKey source target).isOk = true) (hjob : (p.jobs (source, target)).isSome = true) :
    ∃ r ∈ (reserveAll target p members).2, r.stream = source := by
  induction members generalizing p with
  | nil => cases hx
  | cons m ms ih =>
    have hkeep : (p.reserve m.dataset target).1.jobs = p.jobs := reserve_jobs
    unfold reserveAll
    rcases hr : p.reserve m.dataset target with ⟨p', _ | snapshot⟩
    · rw [hr] at hkeep
      refine ih ((List.mem_cons.mp hx).resolve_left ?_) (by rw [hkeep]; exact hjob)
      rintro rfl
      cases hk : pendingKey m.dataset target with
      | error e => simp [hk, Except.isOk, Except.toBool] at hkey
      | ok key =>
        obtain rfl := pendingKey_eq hk
        obtain ⟨snapshot, hsome⟩ := Option.isSome_iff_exists.mp hjob
        simp [reserve, hk, hsome] at hr
    · rcases List.mem_cons.mp hx with rfl | hx
      · exact ⟨_, List.mem_cons_self, rfl⟩
      · rw [hr] at hkeep
        obtain ⟨r, hr, hstream⟩ := ih hx (by rw [hkeep]; exact hjob)
        exact ⟨r, List.mem_cons_of_mem _ hr, hstream⟩

theorem beginStreams_jobs {r r' : Request} {reserved : List Reservation}
    (h : p.beginStreams r target = .ok (p', r', reserved)) : p'.jobs = p.jobs := by
  simp only [beginStreams, ok_iff] at h
  obtain ⟨streams, -, h⟩ := h
  cases h
  exact reserveAll_jobs

theorem release_jobs {snapshot v : PendingSnapshot} {complete : Bool} {key : PendingKey}
    (h : (p.release source target snapshot complete).jobs key = some v) : p.jobs key = some v := by
  unfold release at h
  split at h
  · exact h
  · rename_i key' _
    simp only at h
    split at h
    · by_cases hkey : key = key'
      · subst hkey
        simp at h
      · rwa [Function.update_of_ne hkey] at h
    · exact h

theorem finishStreams_jobs {reserved : List Reservation} {results : List StreamResult} {key : PendingKey}
    {v : PendingSnapshot} (h : (p.finishStreams target reserved results).jobs key = some v) :
    p.jobs key = some v := by
  induction reserved generalizing p with
  | nil => exact h
  | cons r rs ih => exact release_jobs (ih h)

end Specs

end PendingSet

end Boomerangz.Transfer
