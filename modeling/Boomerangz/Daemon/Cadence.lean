import Boomerangz.Daemon.Firing
import Boomerangz.Discovery.Scan
import Boomerangz.Lifecycle.Service

/-! # Snapshot jobs

A job leaves out the members whose newest owned snapshot covers their cadence and creates a snapshot on the others.
-/

namespace Boomerangz.Daemon

open Transition Zfs Policy Lifecycle Discovery

/-! ## The decision -/

def later (lineage : ID) (latest : Time × Option Name) (x : Snapshot) : Time × Option Name :=
  match ownership x lineage with
  | .ok m => if latest.1 < m.created then (m.created, some x.name) else latest
  | .error _ => latest

/-- The latest time an owned snapshot of the dataset records, and its name. -/
def newest (s : State) (lineage : ID) (d : Dataset) : Time × Option Name :=
  (snapshotsIn s d).foldl (later lineage) (0, none)

structure Satisfied where
  satisfied : List (Dataset × Time)
  rootName : Option Name
  anyName : Option Name
  anyCreated : Time

def satisfyMember (s : State) (lineage : ID) (root : Dataset) (now : Time) (found : Satisfied) (m : ScheduleMember) :
    Satisfied :=
  let (created, name) := newest s lineage m.dataset
  if created = 0 then found
  else {
    satisfied :=
      if now < created + m.grid.cadence then (m.dataset, created + m.grid.cadence) :: found.satisfied
      else found.satisfied
    rootName := if m.dataset = root then name else found.rootName
    anyName := if found.anyCreated < created then name else found.anyName
    anyCreated := if found.anyCreated < created then created else found.anyCreated }

/-- The members an owned snapshot still covers, with the deadline it sets. -/
def satisfiedMembers (pool : State) (installation : ID) (schedule : Schedule) (now : Time) :
    Except Error (List (Dataset × Time) × Option Name) := do
  if schedule.force then return ([], none)
  let s ← pool.inspect schedule.dataset true
  match rootAuthority s schedule.dataset installation with
  -- A fresh root has no authority until its first successful snapshot.
  | .error _ => return ([], none)
  | .ok lineage =>
    let found := schedule.members.foldl (satisfyMember s lineage schedule.dataset now) ⟨[], none, none, 0⟩
    let satisfied :=
      if schedule.policy.send.replicate then
        -- One cadence, the root's, governs the whole -R subtree.
        match found.satisfied.lookup schedule.dataset with
        | some deadline => schedule.due.map (fun name => (name, deadline)) ++ found.satisfied
        | none => []
      else found.satisfied
    return (satisfied, found.rootName.or found.anyName)

def stillDue (schedule : Schedule) (satisfied : List (Dataset × Time)) : List Dataset :=
  schedule.due.filter fun name => (satisfied.lookup name).isNone

def subtree (s : State) (root : Dataset) : List Dataset :=
  (s.objects.filter fun o => o.isDataset && inside o.name.base root).map (·.name.base)

/-- The datasets a job creates its snapshot on. -/
def snapshotMembers (pool : State) (schedule : Schedule) (due : List Dataset) : Except Error (List Dataset) :=
  if schedule.policy.send.replicate then do
    let s ← pool.inspect schedule.dataset true
    return subtree s schedule.dataset
  else .ok due

/-! ## Jobs -/

structure Deciding where
  time : Time
  seen : State
  satisfied : List (Dataset × Time)
  due : List Dataset

structure SnapshotJob where
  schedule : Schedule
  decision : Option Deciding

structure Creation where
  schedule : Schedule
  decision : Deciding
  pool : State
  members : List Dataset
  metadata : Metadata

/-- `made` is the history of the snapshots that the jobs created. -/
structure Snapshotting where
  pool : State
  scheduler : Firing
  jobs : List SnapshotJob
  made : List Creation

inductive SnapshotAction where
  | update (id : Nat) (texts : Texts) (reader : Reader) (options : Options) (retained : List Dataset)
      (blocked : Dataset → List Target) (rest : Dataset → String) (now : Time)
  | read (id : Nat)
  | write (id : Nat)
  | fire (root : Dataset) (visit : List Dataset) (now fired : Time)
  | trigger (root : Dataset)
  | drop (i : Nat) (notBefore : Time)
  | stop (i : Nat)
  | decide (i : Nat) (now completed notBefore : Time)
  | create (i : Nat) (now completed notBefore : Time) (ids : Fresh) (births : Dataset → State.Birth)
  | world (pool : State)
  | restart

def createdBy : Write → Option (List Dataset × Metadata)
  | .snapshot members m _ => some (members, m)
  | _ => none

def snapshotsSent (writes : List Write) : List (List Dataset × Metadata) := writes.filterMap createdBy

def generationOf (g : Scanned) (blocked : Dataset → List Target) (rest : Dataset → String) : List Entry :=
  g.names.map fun d => { g.entries d with blocked := blocked d, rest := rest d }

namespace Snapshotting

/-- `Lookup`, for a forced schedule. -/
def lookup (s : Snapshotting) (root : Dataset) : Option Schedule :=
  (s.scheduler.entries.lookup root).map fun d => { d.schedule root 0 with due := d.all, force := true }

def call (s : Snapshotting) (c : Call) : Option Snapshotting := do
  let scheduler ← s.scheduler.step c
  return { s with scheduler := scheduler }

def finish (s : Snapshotting) (i : Nat) : Snapshotting := { s with jobs := s.jobs.eraseIdx i }

/-- `Run`, up to the decision. -/
def decideOn (s : Snapshotting) (installation : ID) (i : Nat) (now completed notBefore : Time) : Option Snapshotting := do
  let job ← s.jobs[i]?
  match job.decision, satisfiedMembers s.pool installation job.schedule now with
  | some _, _ => none
  | none, .error _ => (s.finish i).call (.retry job.schedule.dataset notBefore)
  | none, .ok (satisfied, _) =>
    let due := stillDue job.schedule satisfied
    if due = [] then (s.finish i).call (.complete job.schedule.dataset [] completed satisfied)
    else some { s with jobs := s.jobs.set i ⟨job.schedule, some ⟨now, s.pool, satisfied, due⟩⟩ }

/-- `Run`, from the decision on. -/
def createFor (s : Snapshotting) (installation : ID) (i : Nat) (now completed notBefore : Time) (ids : Fresh)
    (births : Dataset → State.Birth) : Option Snapshotting := do
  let job ← s.jobs[i]?
  let decision ← job.decision
  match snapshotMembers s.pool job.schedule decision.due with
  | .error _ => (s.finish i).call (.retry job.schedule.dataset notBefore)
  | .ok members =>
    let sent := createSnapshot s.pool installation job.schedule.dataset members now job.schedule.policy ids births
    let s := { s.finish i with
      pool := sent.pool
      made := s.made ++ (snapshotsSent sent.writes).map fun (x : List Dataset × Metadata) =>
        Creation.mk job.schedule decision s.pool x.1 x.2 }
    match sent.result with
    | .error _ => s.call (.retry job.schedule.dataset notBefore)
    | .ok _ => s.call (.complete job.schedule.dataset members completed decision.satisfied)

def step (installation : ID) (s : Snapshotting) : SnapshotAction → Option Snapshotting
  | .update id texts reader options retained blocked rest now =>
    match scan texts reader options retained with
    | .error _ => none
    | .ok g => s.call (.start id (generationOf g blocked rest) now)
  | .read id => s.call (.read id)
  | .write id => s.call (.write id)
  | .fire root visit now fired => do
    let s ← s.call (.next root visit now fired)
    let schedule ← s.scheduler.outstanding.getLast?
    return { s with jobs := s.jobs ++ [⟨schedule, none⟩] }
  | .trigger root => do
    let schedule ← s.lookup root
    return { s with jobs := s.jobs ++ [⟨schedule, none⟩] }
  | .drop i notBefore => do
    let job ← s.jobs[i]?
    if job.schedule.force then some (s.finish i) else (s.finish i).call (.retry job.schedule.dataset notBefore)
  | .stop i => some (s.finish i)
  | .decide i now completed notBefore => s.decideOn installation i now completed notBefore
  | .create i now completed notBefore ids births => s.createFor installation i now completed notBefore ids births
  | .world pool => some { s with pool := pool }
  | .restart => some { s with scheduler := .new, jobs := [] }

end Snapshotting

def snapshotting (installation : ID) : System Snapshotting SnapshotAction where
  init s := ∃ pool, s = ⟨pool, .new, [], []⟩
  step := Snapshotting.step installation

/-! ## What a decision promises -/

/-- No owned snapshot of the dataset was recorded less than the cadence ago, nor in the future. -/
def Elapsed (s : State) (lineage : ID) (d : Dataset) (cadence : Duration) (now : Time) : Prop :=
  ∀ x ∈ snapshotsIn s d, ∀ m, ownership x lineage = .ok m → m.created + cadence ≤ now

/-- The lineage a snapshot is owned under. -/
def Creation.Owns (c : Creation) (installation lineage : ID) : Prop :=
  rootAuthority c.decision.seen c.schedule.dataset installation = .ok lineage ∨
    (c.pool = c.decision.seen ∧ lineage = c.metadata.lineage)

structure Creation.Kept (c : Creation) (installation : ID) : Prop where
  each : c.schedule.policy.send.replicate = false → ∀ d ∈ c.members, ∃ m ∈ c.schedule.members, m.dataset = d
  member : c.schedule.policy.send.replicate = false → ∀ m ∈ c.schedule.members, m.dataset ∈ c.members →
    ∀ lineage, c.Owns installation lineage → Elapsed c.decision.seen lineage m.dataset m.grid.cadence c.decision.time
  root : c.schedule.policy.send.replicate = true → ∀ lineage, c.Owns installation lineage →
    Elapsed c.decision.seen lineage c.schedule.dataset c.schedule.policy.grid.cadence c.decision.time

end Boomerangz.Daemon
