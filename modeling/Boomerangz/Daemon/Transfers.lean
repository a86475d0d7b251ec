import Boomerangz.Daemon.Generation
import Boomerangz.Daemon.Pool
import Boomerangz.Lib.Run
import Boomerangz.Transfer.Request

/-! # Transfer jobs

A transfer carries the policy captured when its cause arose. A call reads the generation, then passes the gate.
-/

namespace Boomerangz.Daemon

open Transition Zfs Policy Discovery Transfer

/-- The job ID of a root's transfer to a target, which is also the key of its retry. -/
abbrev SendID := Dataset × Target

/-! ## Streams -/

def targets (p : Effective) : List Target := p.locals.map .localRoot ++ p.remote.map .remote

/-- Every stream of a root. -/
def streamMembers (generation : Option Generation) (root : Dataset) (effective : Effective) : List Member :=
  ⟨root, effective, none⟩ ::
    if effective.send.replicate then []
    else match generation.bind (·.inspect root) with
      | none => []
      | some entry => entry.members.filterMap fun name =>
        match generation.bind (·.inspect name) with
        | some member =>
          if member.member && member.coveredBy == root then some ⟨name, member.policy, none⟩ else none
        | none => none

def streamsTo (generation : Option Generation) (root : Dataset) (effective : Effective) (target : Target) :
    List Member :=
  (streamMembers generation root effective).flatMap fun m =>
    ((targets m.policy).filter (· == target)).map fun _ => m

/-- `transferStreams`, at one target: `none` when nothing is sent there, `[]` when the root alone is. -/
def transferStreams (generation : Option Generation) (root : Dataset) (effective : Effective)
    (target : Target) : Option (List Member) :=
  let members := streamsTo generation root effective target
  if members.isEmpty then none
  else if members.map Member.dataset == [root] then some []
  else some members

def streamTargets (generation : Option Generation) (root : Dataset) (effective : Effective) : List Target :=
  ((streamMembers generation root effective).flatMap fun m => targets m.policy).eraseDups

theorem transferStreams_isSome {generation : Option Generation} {root : Dataset} {effective : Effective}
    {target : Target} : (transferStreams generation root effective target).isSome = true ↔
      ∃ m ∈ streamMembers generation root effective, target ∈ targets m.policy := by
  have hempty : (transferStreams generation root effective target).isSome = true ↔
      streamsTo generation root effective target ≠ [] := by
    unfold transferStreams
    simp only [List.isEmpty_iff]
    split
    · simp [*]
    · split <;> simp [*]
  rw [hempty, streamsTo, ne_eq, List.flatMap_eq_nil_iff]
  push Not
  simp

/-! ## State -/

inductive Origin where
  | tick
  | reload
  | other
deriving DecidableEq, Repr

structure Enqueue where
  dataset : Dataset
  target : Target
  policy : Effective
  origin : Origin
  streams : Option (List Member)
deriving DecidableEq

/-- What a transfer job was queued with, and the retry its run asked for. -/
structure Carried where
  policy : Effective
  members : List Member
  under : Option Generation
  retryAt : Option Time
deriving DecidableEq

structure Road where
  policy : Effective
  members : List Member
deriving DecidableEq

/-- `ticks` are the schedules whose snapshots have not been handed on. -/
structure Transfers extends Published where
  remotes : List String
  roads : AList (fun _ : Dataset × String => Road)
  ticks : List (Dataset × Effective)
  calls : List Enqueue
  jobs : Pool SendID (Option Carried)
  delayed : Delayed SendID Effective
  dirty : List SendID

inductive Transfers.Action where
  | apply (g : Generation) (owned : List Dataset)
  | tick (d : Dataset)
  | drop (d : Dataset) (p : Effective)
  | create (d : Dataset) (p : Effective)
  | prepare (c : Enqueue) (hasProtected : Bool)
  | submit (c : Enqueue) (backoff : Bool)
  | start (id : SendID)
  | finish (id : SendID) (retryAt : Option Time)
  | complete (id : SendID)
  | expire (id : SendID)
  | reload (remotes : List String) (refresh : Bool)

namespace Transfers

/-! ## Steps -/

def policyOf (generation : Option Generation) (d : Dataset) : Option Effective :=
  (generation.bind (·.inspect d)).map Entry.policy

def enqueueTransfers (generation : Option Generation) (d : Dataset) (p : Effective) (origin : Origin) : List Enqueue :=
  (streamTargets generation d p).map fun t => ⟨d, t, p, origin, none⟩

def applied (s : Transfers) (installation : ID) (g : Generation) (owned : List Dataset) : List Enqueue :=
  (g.activeRoots installation).flatMap fun d =>
    match g.inspect d with
    | some e =>
      if g.requiresReconcile s.generation d && owned.contains d then enqueueTransfers (some g) d e.policy .other
      else []
    | none => []

abbrev Roads := AList (fun _ : Dataset × String => Road)

def freshRoad (s : Transfers) (d : Dataset) (remote : String) (p : Effective) (members : List Member) :
    Option Road × Roads :=
  if s.remotes.contains remote then (some ⟨p, members⟩, s.roads.insert (d, remote) ⟨p, members⟩)
  else (none, s.roads.erase (d, remote))

/-- The coordinator of a root and remote, rebuilt when its request has changed. -/
def road (s : Transfers) (d : Dataset) (remote : String) (p : Effective) (members : List Member) :
    Option Road × Roads :=
  match s.roads.lookup (d, remote) with
  | some existing =>
    if existing.policy = p ∧ existing.members = members then (some existing, s.roads)
    else s.freshRoad d remote p members
  | none => s.freshRoad d remote p members

theorem road_eq_some {s : Transfers} {d : Dataset} {remote : String} {p : Effective} {members : List Member}
    {r : Road} (h : (s.road d remote p members).1 = some r) : r = ⟨p, members⟩ := by
  have hfresh : (s.freshRoad d remote p members).1 = some r → r = ⟨p, members⟩ := by
    unfold freshRoad
    split
    · exact fun h => (Option.some.inj h).symm
    · exact fun h => by cases h
  unfold road at h
  split at h
  · split at h
    · rename_i existing _ hsame
      cases h
      obtain ⟨rfl, rfl⟩ := hsame
      rfl
    · exact hfresh h
  · exact hfresh h

def isRemote : Target → Bool
  | .localRoot _ => false
  | .remote _ => true

/-- `refuseBlocked`. -/
def blocked (s : Transfers) (d : Dataset) (t : Target) : Bool :=
  (s.generation.bind (·.inspect d)).any fun e => e.blocked.contains t

def protectCreated (s : Transfers) (c : Enqueue) (hasProtected : Bool) (streams : List Member) : Transfers :=
  let prepared := { c with streams := some streams }
  if c.origin = .tick then
    if hasProtected then { s with calls := prepared :: s.calls, dirty := (c.dataset, c.target) :: s.dirty }
    else s
  else { s with calls := prepared :: s.calls }

def prepare (s : Transfers) (c : Enqueue) (hasProtected : Bool) : Transfers :=
  let s' := { s with calls := s.calls.erase c }
  match transferStreams s.generation c.dataset c.policy c.target with
  | none => s'
  | some streams =>
    if s.blocked c.dataset c.target then
      { s' with jobs := s.jobs.submit (c.dataset, c.target) c.dataset none }
    else match c.target with
      | .localRoot root =>
        match mapReceiveDataset c.dataset root c.policy.discard with
        | .error _ => s'
        | .ok _ => s'.protectCreated c hasProtected streams
      | .remote name =>
        match s.road c.dataset name c.policy streams with
        | (none, roads) =>
          -- Only a reload takes its mark back.
          { s' with roads := roads
                    dirty := if c.origin = .reload then s.dirty.filter (· != (c.dataset, c.target)) else s.dirty }
        | (some road, roads) => { s' with roads := roads }.protectCreated c hasProtected road.members

def retry (s : Transfers) (id : SendID) (c : Carried) : Delayed SendID Effective :=
  match c.retryAt with
  | some at_ => s.delayed.schedule id at_ c.policy
  | none => s.delayed

def finish (s : Transfers) (id : SendID) (c : Carried) : Transfers :=
  { s with jobs := s.jobs.update id .ended (some c)
           delayed := if isRemote id.2 then s.retry id c else s.delayed }

/-- `complete` and `After`: a job that is dirty again is followed up under its own policy. -/
def complete (s : Transfers) (id : SendID) : Option Carried → Transfers
  | none => { s with jobs := s.jobs.complete id }
  | some c =>
    if s.dirty.contains id then
      { s with jobs := s.jobs.complete id
               calls := ⟨id.1, id.2, c.policy, .other, none⟩ :: s.calls }
    else
      { s with jobs := s.jobs.complete id
               delayed := if isRemote id.2 then s.delayed else s.retry id c }

def reconciles (s : Transfers) (remotes : List String) : List Enqueue :=
  s.active.flatMap fun d =>
    match policyOf s.generation d with
    | some p => (p.remote.filter remotes.contains).map fun r => ⟨d, .remote r, p, .reload, none⟩
    | none => []

def commitConfig (s : Transfers) (remotes : List String) (refresh : Bool) : Transfers :=
  if refresh then
    let calls := s.reconciles remotes
    { s with
      remotes := remotes
      roads := ∅
      jobs := s.jobs.filter fun j => !(j.phase == .queued && isRemote j.id.2)
      delayed := ⟨s.delayed.entries.filter (fun e => !isRemote e.1.2),
        (List.filter_sublist.map _).nodup s.delayed.nodupKeys⟩
      dirty := calls.map (fun c => (c.dataset, c.target)) ++ s.dirty.filter (fun id => !isRemote id.2)
      calls := calls ++ s.calls }
  else s

def step (installation : ID) (s : Transfers) : Action → Option Transfers
  | .apply g owned => some { s with
      toPublished := s.publish installation g
      jobs := s.jobs.filter fun j => !(j.phase == .queued && s.deactivated installation g j.scope)
      calls := s.applied installation g owned ++ s.calls }
  | .tick d =>
    if s.active.contains d then
      (policyOf s.generation d).map fun p => { s with ticks := (d, p) :: s.ticks }
    else none
  | .drop d p => if (d, p) ∈ s.ticks then some { s with ticks := s.ticks.erase (d, p) } else none
  | .create d p =>
    if (d, p) ∈ s.ticks then some { s with
      ticks := s.ticks.erase (d, p)
      calls := enqueueTransfers s.generation d p .tick ++ s.calls }
    else none
  | .prepare c hasProtected =>
    if c ∈ s.calls ∧ c.streams = none then some (s.prepare c hasProtected) else none
  | .submit c backoff =>
    match c.streams with
    | none => none
    | some members =>
      if c ∈ s.calls then
        let s' := { s with calls := s.calls.erase c }
        -- A closed gate refuses the ticket; inside its backoff window a remote is not asked.
        if !s.enabled.contains c.dataset || (isRemote c.target && backoff) then some s'
        else some { s' with
          jobs := s.jobs.submit (c.dataset, c.target) c.dataset (some ⟨c.policy, members, s.generation, none⟩) }
      else none
  | .start id =>
    match s.jobs.find id with
    | some j =>
      if j.phase = .queued then
        some { s with jobs := s.jobs.update id .running j.work, dirty := s.dirty.filter (· != id) }
      else none
    | none => none
  | .finish id retryAt =>
    match s.jobs.find id with
    | some ⟨_, _, .running, some c⟩ => some (s.finish id { c with retryAt := retryAt })
    | some ⟨_, _, .running, none⟩ => some { s with jobs := s.jobs.update id .ended none }
    | _ => none
  | .complete id =>
    match s.jobs.find id with
    | some ⟨_, _, .ended, work⟩ => some (s.complete id work)
    | _ => none
  | .expire id =>
    match s.delayed.lookup id with
    | some (_, p) => some { s with
        delayed := s.delayed.erase id
        calls := ⟨id.1, id.2, p, .other, none⟩ :: s.calls }
    | none => none
  | .reload remotes refresh => some (s.commitConfig remotes refresh)

end Transfers

def transferring (installation : ID) : System Transfers Transfers.Action where
  init s := s.toPublished = .none ∧ s.roads = ∅ ∧ s.ticks = [] ∧ s.calls = [] ∧ s.jobs = .empty ∧
    s.delayed = ∅ ∧ s.dirty = []
  step := Transfers.step installation

end Boomerangz.Daemon
