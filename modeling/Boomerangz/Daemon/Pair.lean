import Boomerangz.Daemon.Transfers
import Boomerangz.Transfer.Pending

/-! # The transfers of one root and target

One pair's job, retry, mark and coordinators. The root is active and its target unblocked.
-/

namespace Boomerangz.Daemon

open Transition Zfs Policy Discovery Transfer

structure Asked where
  request : Request
  hostLocal : Bool
deriving DecidableEq

/-- How far a job has come. -/
inductive Stage where
  | queued
  | popped
  | started
  | begun (since : Time) (reserved : List Reservation)
  | ended (reserved : List Reservation) (temporary : Bool)
deriving DecidableEq

structure PairJob where
  asked : Asked
  coordinator : Nat
  stage : Stage
deriving DecidableEq

/-- `streams` are the datasets that send to the target now, `waiting` the calls that wait for the lock of a
coordinator. `fresh` and `temporary` are history. -/
structure Pair where
  now : Time
  streams : List Dataset
  pending : PendingSet
  road : Option (Asked × Nat)
  deadline : Nat → Time
  made : Nat
  job : Option PairJob
  waiting : List (Asked × Nat × Time)
  dirty : Bool
  delayed : Option (Time × Effective)
  fresh : List Dataset
  temporary : List Dataset

/-- How an attempt ended; `reset` when one of its passes succeeded. -/
inductive Ending where
  | temporary (delay : Nat)
  | settled (reset : Bool)
deriving DecidableEq, Repr

/-- `again` is the request that `After` or a retry makes of the policy it holds, if that sends to the target. -/
inductive Pair.Action where
  | clock (t : Time)
  | list (streams : List Dataset)
  | enqueue (a : Asked) (created : List PendingSnapshot) (fault : Option Nat)
  | resume (a : Asked) (coordinator : Nat) (time : Time)
  | pop
  | start
  | attempt
  | finish (e : Ending) (results : List StreamResult)
  | complete (again : Option Asked)
  | fire (again : Option Asked)

/-- `transientTransferRetryDelay`, in nanoseconds. -/
def transientTransferRetryDelay : Nat := 1000000000

/-- `schedule`, at one key. -/
def scheduleAt (delayed : Option (Time × Effective)) (at_ : Time) (p : Effective) : Option (Time × Effective) :=
  match delayed with
  | some (t, q) => if t ≠ 0 ∧ ¬ at_ < t then some (t, q) else some (at_, p)
  | none => some (at_, p)

def streamDatasets (r : Request) : List Dataset :=
  if r.members.isEmpty then [r.source] else r.members.map Member.dataset

def protectCreated (target : String) (streams : List Dataset) :
    PendingSet → Option Nat → List PendingSnapshot → PendingSet × List Dataset × Bool
  | p, _, [] => (p, [], true)
  | p, fault, snapshot :: created =>
    let stream := snapshot.name.base
    let rest := fault.map (· - 1)
    if !streams.contains stream then protectCreated target streams p rest created
    else if fault = some 0 then (p, [], false)
    else match p.coalesce stream target snapshot with
      | .error _ => (p, [], false)
      | .ok (p', result) =>
        let (p'', changed, ok) := protectCreated target streams p' rest created
        (p'', if result.changed then stream :: changed else changed, ok)

namespace Pair

variable (target : Target) (canonical : String)

/-! ## Calls -/

/-- `road`. -/
def roadFor (s : Pair) (a : Asked) : Pair × Nat :=
  let fresh := ({ s with
    road := some (a, s.made), deadline := Function.update s.deadline s.made 0, made := s.made + 1 }, s.made)
  match s.road with
  | some (b, c) =>
    if b.request.policy = a.request.policy ∧ b.request.members = a.request.members ∧ b.hostLocal = a.hostLocal then
      (s, c)
    else fresh
  | none => fresh

def submit (s : Pair) (a : Asked) (c : Nat) : Pair :=
  match s.job with
  | some _ => s
  | none => { s with job := some ⟨a, c, .queued⟩ }

def pass (s : Pair) (a : Asked) (c : Nat) (time : Time) : Pair :=
  if Transfers.isRemote target && time < s.deadline c then s else s.submit a c

def held (s : Pair) (c : Nat) : Bool :=
  match s.job with
  | some ⟨_, c', .begun _ _⟩ => c' == c
  | _ => false

def proceed (s : Pair) (a : Asked) (c : Nat) : Pair :=
  if Transfers.isRemote target && s.held c then { s with waiting := (a, c, s.now) :: s.waiting }
  else s.pass target a c s.now

def coalesced (s : Pair) (p : PendingSet) (changed : List Dataset) : Pair :=
  { s with
    pending := p
    fresh := changed ++ s.fresh
    temporary := s.temporary.filter (!changed.contains ·) }

def coordinated (s : Pair) (a : Asked) : Pair × Nat := if Transfers.isRemote target then s.roadFor a else (s, 0)

/-- `enqueueLocal` and `enqueueRemote`. -/
def enqueue (s : Pair) (a : Asked) (created : List PendingSnapshot) (fault : Option Nat) : Pair :=
  let (s, c) := s.coordinated target a
  if created = [] then s.proceed target a c
  else
    let (p, changed, ok) := protectCreated canonical (streamDatasets a.request) s.pending fault created
    if ok then { s.coalesced p changed with dirty := true }.proceed target a c
    else s.coalesced p changed

def follow (s : Pair) : Option Asked → Pair
  | some a => s.enqueue target canonical a [] none
  | none => s

/-! ## Runs -/

/-- A run up to `BeginStreams`. -/
def attempt (s : Pair) (j : PairJob) : Pair :=
  if Transfers.isRemote target && s.now < s.deadline j.coordinator then
    -- Before the deadline a coordinator attempts nothing.
    { s with
      job := some { j with stage := .ended [] false }
      delayed := scheduleAt s.delayed (s.deadline j.coordinator) j.asked.request.policy }
  else match s.pending.beginStreams j.asked.request canonical with
    | .error _ => { s with job := some { j with stage := .ended [] false }, fresh := [] }
    | .ok (p, _, reserved) => { s with
        pending := p
        job := some { j with stage := .begun s.now reserved }
        fresh := []
        temporary := s.temporary.filter fun x => !reserved.any (·.stream == x) }

def finish (s : Pair) (j : PairJob) (since : Time) (reserved : List Reservation) (results : List StreamResult) :
    Ending → Pair
  | .temporary delay =>
    let s := { s with
      pending := s.pending.finishStreams canonical reserved results
      job := some { j with stage := .ended reserved true } }
    if Transfers.isRemote target then { s with
      deadline := Function.update s.deadline j.coordinator (since + delay)
      delayed := scheduleAt s.delayed (since + delay) j.asked.request.policy }
    else s
  | .settled reset => { s with
      pending := s.pending.finishStreams canonical reserved results
      job := some { j with stage := .ended reserved false }
      deadline := if reset then Function.update s.deadline j.coordinator 0 else s.deadline }

def leftOver (s : Pair) (reserved : List Reservation) : List Dataset :=
  (reserved.filter fun r => s.pending.jobs (r.stream, canonical) == some r.snapshot).map (·.stream)

def complete (s : Pair) (j : PairJob) (reserved : List Reservation) (temporary : Bool) (again : Option Asked) :
    Pair :=
  let s := { s with
    job := none
    temporary := if temporary then s.leftOver canonical reserved ++ s.temporary else s.temporary }
  if s.dirty then s.follow target canonical again
  else if temporary && !Transfers.isRemote target then
    { s with delayed := scheduleAt s.delayed (s.now + transientTransferRetryDelay) j.asked.request.policy }
  else s

def isOf (p : Effective) (again : Option Asked) : Bool := again.all (·.request.policy == p)

def step (s : Pair) : Action → Option Pair
  | .clock t => if s.now ≤ t then some { s with now := t } else none
  | .list streams => some { s with streams := streams }
  | .enqueue a created fault => some (s.enqueue target canonical a created fault)
  | .resume a c time =>
    if (a, c, time) ∈ s.waiting ∧ s.held c = false then
      some ({ s with waiting := s.waiting.erase (a, c, time) }.pass target a c time)
    else none
  | .pop =>
    match s.job with
    | some ⟨a, c, .queued⟩ => some { s with job := some ⟨a, c, .popped⟩ }
    | _ => none
  | .start =>
    match s.job with
    | some ⟨a, c, .popped⟩ => some { s with job := some ⟨a, c, .started⟩, dirty := false }
    | _ => none
  | .attempt =>
    match s.job with
    | some ⟨a, c, .started⟩ => some (s.attempt target canonical ⟨a, c, .started⟩)
    | _ => none
  | .finish e results =>
    match s.job with
    | some ⟨a, c, .begun since reserved⟩ =>
      -- A delay is never zero.
      if e = .temporary 0 then none
      else some (s.finish target canonical ⟨a, c, .begun since reserved⟩ since reserved results e)
    | _ => none
  | .complete again =>
    match s.job with
    | some ⟨a, c, .ended reserved temporary⟩ =>
      if isOf a.request.policy again then
        some (s.complete target canonical ⟨a, c, .ended reserved temporary⟩ reserved temporary again)
      else none
    | _ => none
  | .fire again =>
    match s.delayed with
    | some (t, p) =>
      if t ≤ s.now ∧ isOf p again = true then some ({ s with delayed := none }.follow target canonical again)
      else none
    | none => none

end Pair

def pairTransfers (target : Target) (canonical : String) : System Pair Pair.Action where
  init s := s.road = none ∧ s.job = none ∧ s.waiting = [] ∧ s.dirty = false ∧ s.delayed = none ∧
    s.fresh = [] ∧ s.temporary = []
  step := Pair.step target canonical

end Boomerangz.Daemon
