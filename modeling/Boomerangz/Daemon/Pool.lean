import Boomerangz.Discovery.Entry
import Mathlib.Data.List.AList

/-! # Worker pools and wakeups

`Submit` ignores a job whose ID is queued, running or ended but not completed. A worker pops any queued job.
-/

namespace Boomerangz.Daemon

open Zfs

inductive Phase where
  | queued
  | running
  | ended
deriving DecidableEq, Repr

/-- `work` is what the job's closure holds and how far its run has come. -/
structure Job (ι α : Type) where
  id : ι
  scope : Dataset
  phase : Phase
  work : α
deriving DecidableEq

structure Pool (ι α : Type) where
  jobs : List (Job ι α)
  distinct : (jobs.map Job.id).Nodup
deriving DecidableEq

namespace Pool

variable {ι α : Type} [DecidableEq ι]

def empty : Pool ι α := ⟨[], List.nodup_nil⟩

def find (p : Pool ι α) (id : ι) : Option (Job ι α) := p.jobs.find? (·.id == id)

theorem find_eq_some {p : Pool ι α} {id : ι} {j : Job ι α} : p.find id = some j ↔ j ∈ p.jobs ∧ j.id = id := by
  constructor
  · intro h
    exact ⟨List.mem_of_find?_eq_some h, by simpa using List.find?_some h⟩
  · rintro ⟨hmem, rfl⟩
    refine Lists.find?_unique hmem (by simp) ?_
    intro b hb hid
    exact List.inj_on_of_nodup_map p.distinct hb hmem (by simpa using hid)

theorem find_eq_none {p : Pool ι α} {id : ι} : p.find id = none ↔ ∀ j ∈ p.jobs, j.id ≠ id := by
  simp [find]

def submit (p : Pool ι α) (id : ι) (scope : Dataset) (work : α) : Pool ι α :=
  if h : p.find id = none then
    ⟨p.jobs ++ [⟨id, scope, .queued, work⟩], by
      rw [List.map_append, List.nodup_append]
      refine ⟨p.distinct, by simp, ?_⟩
      simpa using find_eq_none.mp h⟩
  else p

theorem mem_submit {p : Pool ι α} {id : ι} {scope : Dataset} {work : α} {j : Job ι α} :
    j ∈ (p.submit id scope work).jobs ↔ j ∈ p.jobs ∨ p.find id = none ∧ j = ⟨id, scope, .queued, work⟩ := by
  unfold submit
  split <;> simp_all

theorem find_submit (p : Pool ι α) (id id' : ι) (scope : Dataset) (work : α) :
    (p.submit id' scope work).find id =
      if id' = id then some ((p.find id).getD ⟨id', scope, .queued, work⟩) else p.find id := by
  cases hfind : p.find id' with
  | none =>
    have happend : (p.submit id' scope work).find id =
        (p.find id).or (if id' = id then some ⟨id', scope, .queued, work⟩ else none) := by
      rw [submit, dif_pos hfind]
      simp only [find, List.find?_append, List.find?_singleton, beq_iff_eq]
    rw [happend]
    by_cases hid : id' = id
    · subst hid
      simp [hfind]
    · simp [hid]
  | some j =>
    have hsame : p.submit id' scope work = p := by simp [submit, hfind]
    rw [hsame]
    by_cases hid : id' = id
    · subst hid
      simp [hfind]
    · simp [hid]

theorem exists_submit (p : Pool ι α) (id : ι) (scope : Dataset) (work : α) :
    (∃ j, p.find id = some j ∧ j ∈ (p.submit id scope work).jobs) ∨
      ⟨id, scope, .queued, work⟩ ∈ (p.submit id scope work).jobs := by
  cases h : p.find id with
  | none => exact .inr (mem_submit.mpr (.inr ⟨h, rfl⟩))
  | some j => exact .inl ⟨j, rfl, mem_submit.mpr (.inl (find_eq_some.mp h).1)⟩

def update (p : Pool ι α) (id : ι) (phase : Phase) (work : α) : Pool ι α where
  jobs := p.jobs.map fun j => if j.id = id then { j with phase := phase, work := work } else j
  distinct := by
    have : (p.jobs.map fun j => if j.id = id then { j with phase := phase, work := work } else j).map Job.id =
        p.jobs.map Job.id := by
      rw [List.map_map]
      refine List.map_congr_left fun j _ => ?_
      simp only [Function.comp_apply]
      split <;> rfl
    rw [this]
    exact p.distinct

theorem mem_update {p : Pool ι α} {id : ι} {phase : Phase} {work : α} {j : Job ι α} :
    j ∈ (p.update id phase work).jobs ↔ j ∈ p.jobs ∧ j.id ≠ id ∨
      ∃ i ∈ p.jobs, i.id = id ∧ j = { i with phase := phase, work := work } := by
  simp only [update, List.mem_map]
  constructor
  · rintro ⟨i, hi, rfl⟩
    split
    · rename_i hid
      exact .inr ⟨i, hi, hid, rfl⟩
    · rename_i hid
      exact .inl ⟨hi, hid⟩
  · rintro (⟨hj, hid⟩ | ⟨i, hi, hid, rfl⟩)
    · exact ⟨j, hj, if_neg hid⟩
    · exact ⟨i, hi, if_pos hid⟩

def filter (p : Pool ι α) (keep : Job ι α → Bool) : Pool ι α :=
  ⟨p.jobs.filter keep, (List.Sublist.map Job.id List.filter_sublist).nodup p.distinct⟩

omit [DecidableEq ι] in
@[simp] theorem mem_filter {p : Pool ι α} {keep : Job ι α → Bool} {j : Job ι α} :
    j ∈ (p.filter keep).jobs ↔ j ∈ p.jobs ∧ keep j = true := List.mem_filter

theorem find_filter (p : Pool ι α) (keep : Job ι α → Bool) (id : ι) :
    (p.filter keep).find id = (p.find id).filter keep := by
  refine Option.ext fun j => ?_
  rw [find_eq_some, mem_filter, Option.filter_eq_some_iff, find_eq_some]
  tauto

def complete (p : Pool ι α) (id : ι) : Pool ι α := p.filter (·.id != id)

/-- Work that has not started leaves the queue. -/
def removeScope (p : Pool ι α) (scope : Dataset) : Pool ι α :=
  p.filter fun j => !(j.phase == .queued && j.scope == scope)

def discardPending (p : Pool ι α) : Pool ι α := p.filter (·.phase != .queued)

end Pool

/-! ## Wakeups -/

abbrev Delayed (κ α : Type) := AList (fun _ : κ => Time × α)

namespace Delayed

variable {κ α : Type} [DecidableEq κ]

/-- A recorded wakeup only ever moves earlier. -/
def schedule (delayed : Delayed κ α) (key : κ) (at_ : Time) (run : α) : Delayed κ α :=
  match delayed.lookup key with
  | some (t, _) => if t ≠ 0 ∧ ¬ at_ < t then delayed else delayed.insert key (at_, run)
  | none => delayed.insert key (at_, run)

theorem lookup_schedule_ne {delayed : Delayed κ α} {key key' : κ} {at_ : Time} {run : α} (h : key' ≠ key) :
    (delayed.schedule key at_ run).lookup key' = delayed.lookup key' := by
  unfold schedule
  split
  · split
    · rfl
    · exact AList.lookup_insert_ne h
  · exact AList.lookup_insert_ne h

theorem lookup_schedule_isSome {delayed : Delayed κ α} {key : κ} {at_ : Time} {run : α} :
    ((delayed.schedule key at_ run).lookup key).isSome = true := by
  unfold schedule
  split
  · rename_i t r h
    split
    · rw [h]
      rfl
    · rw [AList.lookup_insert]
      rfl
  · rw [AList.lookup_insert]
    rfl

theorem mem_schedule {delayed : Delayed κ α} {key key' : κ} {at_ t : Time} {run r : α}
    (h : (delayed.schedule key at_ run).lookup key' = some (t, r)) :
    delayed.lookup key' = some (t, r) ∨ key' = key ∧ t = at_ ∧ r = run := by
  by_cases hk : key' = key
  · subst hk
    unfold schedule at h
    split at h
    · split at h
      · exact .inl h
      · rw [AList.lookup_insert] at h
        cases h
        exact .inr ⟨rfl, rfl, rfl⟩
    · rw [AList.lookup_insert] at h
      cases h
      exact .inr ⟨rfl, rfl, rfl⟩
  · rw [lookup_schedule_ne hk] at h
    exact .inl h

end Delayed

end Boomerangz.Daemon
