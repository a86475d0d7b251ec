import Boomerangz.Zfs.Name
import Mathlib.Data.List.AList

/-! # The status owner

`apply` merges one message, `applyProgress` one sample, and `state` builds what subscribers see.
-/

namespace Boomerangz.Daemon.Status

open Zfs

/-! ## Values -/

inductive EventKind where
  | transition
  | progress
deriving DecidableEq, Repr

structure Sample where
  bytes : Nat
  totalBytes : Nat
  bytesPerSecond : Nat
  eta : Nat
  totalKnown : Bool
deriving DecidableEq, Repr

def Sample.zero : Sample := ⟨0, 0, 0, 0, false⟩

structure Event where
  kind : EventKind
  send : Nat
  runID : Nat
  pool : String
  job : String
  scope : String
  target : String
  state : String
  reason : String
  at_ : Time
  pending : Nat
  position : Nat
  sample : Sample
deriving DecidableEq, Repr

structure QueueSnapshot where
  capacity : Nat
  pending : Nat
  ids : List String
deriving DecidableEq, Repr

structure DatasetStatus where
  name : String
  active : Bool
  recursive : Bool
  nextSnapshot : Time
deriving DecidableEq, Repr

structure DestinationPermissions where
  destination : String
  remote : Bool
  dataset : String
  account : String
  missing : List String
  error : String
  checked : Time
deriving DecidableEq, Repr

structure ControlSnapshot where
  revision : Nat
  generation : Nat
  configGeneration : Nat
  datasets : List DatasetStatus
  queues : AList fun _ : String => QueueSnapshot
  jobs : List Event
  destinations : List DestinationPermissions
deriving DecidableEq

/-! ## The owner -/

structure RuntimeView where
  generation : Nat
  entries : Nat
  configGeneration : Nat
  datasets : List DatasetStatus
deriving DecidableEq, Repr

structure StatusMessage where
  event : Option Event
  queued : List Event
  queue : Option (String × QueueSnapshot)
  deadlines : Option (AList fun _ : String => Time)
  runtime : Option RuntimeView
  destinations : Option (List DestinationPermissions)
deriving DecidableEq

structure StatusOwner where
  revision : Nat
  jobs : AList fun _ : String => Event
  jobQueues : AList fun _ : String => String
  queues : AList fun _ : String => QueueSnapshot
  deadlines : AList fun _ : String => Time
  runtime : RuntimeView
  destinations : List DestinationPermissions
deriving DecidableEq

namespace StatusOwner

def new : StatusOwner := ⟨0, ∅, ∅, ∅, ∅, ⟨0, 0, 0, []⟩, []⟩

def stamp (o : StatusOwner) (event : Event) : Event :=
  match o.jobQueues.lookup event.job with
  | none => event
  | some name =>
    let queue := (o.queues.lookup name).getD ⟨0, 0, []⟩
    { event with
      pending := queue.pending
      position := if queue.ids.contains event.job then queue.ids.idxOf event.job + 1 else 0 }

/-- The loop of `apply` over the incoming events; `queue` names the message's queue. -/
def applyEvents (queue : Option String) : List Event → StatusOwner → List Event × StatusOwner
  | [], o => ([], o)
  | event :: rest, o =>
    if event.kind != .transition then applyEvents queue rest o
    else
      let o := match queue with
        | some name => { o with jobQueues := o.jobQueues.insert event.job name }
        | none => o
      let event := o.stamp event
      let (transitions, o') := applyEvents queue rest { o with jobs := o.jobs.insert event.job event }
      (event :: transitions, o')

def applyViews (o : StatusOwner) (m : StatusMessage) : StatusOwner :=
  let o := match m.queue with
    | some (name, snapshot) => { o with queues := o.queues.insert name snapshot }
    | none => o
  let o := match m.deadlines with
    | some entries => { o with deadlines := entries }
    | none => o
  let o := match m.runtime with
    | some view => { o with runtime := view }
    | none => o
  match m.destinations with
  | some destinations => { o with destinations := destinations }
  | none => o

/-- The transitions to deliver, in order, and the new status; none when nothing changed. -/
def apply (o : StatusOwner) (m : StatusMessage) : Option (List Event × StatusOwner) :=
  let (transitions, o') := applyEvents (m.queue.map Prod.fst) (m.queued ++ m.event.toList) (o.applyViews m)
  if m.queue.isSome || m.deadlines.isSome || m.runtime.isSome || m.destinations.isSome || !transitions.isEmpty
  then some (transitions, { o' with revision := o'.revision + 1 })
  else none

/-- A sample counts only under the sending transition it was taken under. -/
def applyProgress (o : StatusOwner) (sample : Event) : Option StatusOwner :=
  match o.jobs.lookup sample.job with
  | none => none
  | some row =>
    if sample.kind != .progress || row.state != "sending" || row.send != sample.send then none
    else some { o with
      jobs := o.jobs.insert sample.job { row with sample := sample.sample }
      revision := o.revision + 1 }

def state (o : StatusOwner) : ControlSnapshot where
  revision := o.revision
  generation := o.runtime.generation
  configGeneration := o.runtime.configGeneration
  datasets := o.runtime.datasets.map fun d => { d with nextSnapshot := (o.deadlines.lookup d.name).getD 0 }
  queues := o.queues
  jobs := (o.jobs.entries.map fun row => o.stamp row.2).insertionSort fun a b => textLe a.job.toList b.job.toList
  destinations := o.destinations

/-! ## Revisions -/

variable {o o' : StatusOwner} {m : StatusMessage} {transitions : List Event} {sample : Event}

@[simp] theorem state_revision (o : StatusOwner) : o.state.revision = o.revision := rfl

theorem applyViews_revision (o : StatusOwner) (m : StatusMessage) : (o.applyViews m).revision = o.revision := by
  unfold applyViews
  cases m.queue <;> cases m.deadlines <;> cases m.runtime <;> cases m.destinations <;> rfl

theorem applyEvents_revision (queue : Option String) (events : List Event) (o : StatusOwner) :
    (applyEvents queue events o).2.revision = o.revision := by
  induction events generalizing o with
  | nil => rfl
  | cons event rest ih =>
    unfold applyEvents
    split
    · exact ih o
    · cases queue <;> exact ih _

theorem apply_revision (h : o.apply m = some (transitions, o')) : o'.revision = o.revision + 1 := by
  have hevents := applyEvents_revision (m.queue.map Prod.fst) (m.queued ++ m.event.toList) (o.applyViews m)
  unfold apply at h
  simp only at h
  split at h
  · simp only [Option.some.injEq, Prod.mk.injEq] at h
    rw [← h.2, hevents, applyViews_revision]
  · cases h

theorem applyProgress_revision (h : o.applyProgress sample = some o') : o'.revision = o.revision + 1 := by
  unfold applyProgress at h
  split at h
  · cases h
  · split at h
    · cases h
    · simp only [Option.some.injEq] at h
      rw [← h]

end StatusOwner

end Boomerangz.Daemon.Status
