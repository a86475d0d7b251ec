import Boomerangz.Daemon.Generation
import Boomerangz.Daemon.Pool
import Boomerangz.Lib.Run
import Boomerangz.Lifecycle.Retire

/-! # Automatic retirement

Inactive reconciliations, retirements and their wakeups; a `Run` is one step for every call of the service.
-/

namespace Boomerangz.Daemon

open Transition Zfs Lifecycle Discovery

/-- The job IDs, which are also the keys of the wakeups. -/
inductive RetireID where
  | inactive (d : Dataset) (active : Bool)
  | retire (d : Dataset)
deriving DecidableEq, Repr

def RetireID.dataset : RetireID → Dataset
  | inactive d _ => d
  | retire d => d

/-- How far a run has come; a retirement keeps the grace period it read at its start. -/
inductive Progress where
  | begun
  | previewed (grace : Int)
  | targeted (grace : Int)
deriving DecidableEq, Repr

structure Retiring extends Published where
  pool : State
  grace : Int
  jobs : Pool RetireID Progress
  delayed : Delayed RetireID Unit

inductive Retiring.Action where
  | apply (g : Generation)
  | configure (grace : Int)
  | operator (c : Command)
  | start (id : RetireID)
  | reconcile (d : Dataset) (active : Bool) (now : Time) (fault : Option Fault) (delay : Nat)
  | preview (d : Dataset) (now : Time) (safety : CleanSafety) (fault : Option Error) (delay : Nat)
  | targets (d : Dataset) (cs : List Command) (verified : Bool) (now : Time) (delay : Nat)
  | retire (d : Dataset) (now : Time) (safety : CleanSafety) (fault : Option Error) (cut : Option Nat)
      (delay : Nat)
  | complete (id : RetireID)
  | expire (id : RetireID)

namespace Retiring

def submit (s : Retiring) (id : RetireID) : Retiring :=
  { s with jobs := s.jobs.submit id id.dataset .begun }

def progress (s : Retiring) (id : RetireID) (phase : Phase) (work : Progress) : Retiring :=
  { s with jobs := s.jobs.update id phase work }

def ended (s : Retiring) (id : RetireID) : Retiring := s.progress id .ended .begun

def postponed (s : Retiring) (d : Dataset) (at_ : Time) : Retiring :=
  { s.ended (.retire d) with delayed := s.delayed.schedule (.retire d) at_ () }

def enqueueInactive (active : Bool) (p : Pool RetireID Progress) (names : List Dataset) : Pool RetireID Progress :=
  names.foldl (fun p name => p.submit (.inactive name active) name .begun) p

def deactivatedJobs (s : Retiring) (installation : ID) (g : Generation) : Pool RetireID Progress :=
  (enqueueInactive true s.jobs ((g.activeRoots installation).filter (g.requiresReconcile s.generation))).filter
    fun j => !(j.phase == .queued && s.deactivated installation g j.scope)

def applyGeneration (s : Retiring) (installation : ID) (g : Generation) : Retiring :=
  { s with
    toPublished := s.publish installation g
    jobs := enqueueInactive false (s.deactivatedJobs installation g)
      ((g.ownedRoots installation).filter (s.reconciles installation g)) }

def locked (s : Retiring) (d : Dataset) : Bool :=
  s.jobs.jobs.any fun j => j.phase == .running && j.id.dataset == d

def reconciled (s : Retiring) (d : Dataset) (active : Bool) (retryAt : Time) :
    Except Error InactivePlan → Retiring
  | .error .stateChanged => { s with delayed := s.delayed.schedule (.inactive d active) retryAt () }
  | .error _ => s
  | .ok plan =>
    if active then s
    else match plan.deadline with
      | none => s
      | some deadline =>
        if plan.due then s.submit (.retire d)
        else { s with delayed := s.delayed.schedule (.retire d) deadline () }

/-- The commands `retireTargets` runs on the replicas of a root. -/
def onReplica : Command → Bool
  | .destroySnapshot (.snapshot _ _) => true
  | .inheritProperty (.dataset _) .lineage => true
  | _ => false

def onPolicy : Command → Bool
  | .setProperty (.dataset _) k _ => k.isPublic
  | .inheritProperty (.dataset _) k => k.isPublic
  | _ => false

def running (s : Retiring) (id : RetireID) (work : Progress) : Bool :=
  (s.jobs.find id).any fun j => j.phase == .running && j.work == work

def graceOf (s : Retiring) (d : Dataset) : Int :=
  match (s.jobs.find (.retire d)).map Job.work with
  | some (.previewed grace) => grace
  | some (.targeted grace) => grace
  | _ => s.grace

def step [Digests] (installation : ID) (s : Retiring) : Action → Option Retiring
  | .apply g => some (s.applyGeneration installation g)
  | .configure grace => if 0 ≤ grace then some { s with grace := grace } else none
  | .operator c =>
    match c.run s.pool with
    | .ok pool => if onPolicy c then some { s with pool := pool } else none
    | .error _ => none
  | .start id =>
    match s.jobs.find id with
    | some j => if j.phase = .queued ∧ s.locked id.dataset = false then some (s.progress id .running j.work) else none
    | none => none
  | .reconcile d active now fault delay =>
    let id := RetireID.inactive d active
    if s.running id .begun && readable now then
      -- An inactive root must be quiescent first, and its gate closed.
      if !active && s.enabled.contains d then some (s.ended id)
      else
        let (result, pool) := reconcileInactive s.pool installation d active now s.grace fault
        some (({ s with pool := pool }.ended id).reconciled d active (now + delay) result)
    else none
  | .preview d now safety fault delay =>
    if s.running (.retire d) .begun && readable now then
      match (Lifecycle.retire s.pool installation d now s.grace false safety fault none).1 with
      | .error _ => some (s.postponed d (now + delay))
      | .ok plan =>
        if !plan.eligible then some (s.ended (.retire d))
        else if plan.blockers.isEmpty then some (s.progress (.retire d) .running (.previewed s.grace))
        else some (s.postponed d (now + delay))
    else none
  | .targets d cs verified now delay =>
    let grace := s.graceOf d
    if s.running (.retire d) (.previewed grace) && cs.all onReplica then
      let s' := { s with pool := (runUntil s.pool cs none).1 }
      some (if verified then s'.progress (.retire d) .running (.targeted grace)
        else s'.postponed d (now + delay))
    else none
  | .retire d now safety fault cut delay =>
    let grace := s.graceOf d
    if s.running (.retire d) (.targeted grace) && readable now then
      match Lifecycle.retire s.pool installation d now grace true safety fault cut with
      | (.error _, pool) => some ({ s with pool := pool }.postponed d (now + delay))
      | (.ok plan, pool) =>
        let s' := { s with pool := pool }.ended (.retire d)
        some (if plan.eligible then { s' with known := s.known.filter (· != d) } else s')
    else none
  | .complete id =>
    match s.jobs.find id with
    | some j => if j.phase = .ended then some { s with jobs := s.jobs.complete id } else none
    | none => none
  | .expire id =>
    match s.delayed.lookup id with
    | none => none
    | some _ =>
      let s' := { s with delayed := s.delayed.erase id }
      match id with
      | .retire _ => some (s'.submit id)
      -- `retryInactive`: an activation that changed since queued its own reconciliation.
      | .inactive d active => some (if s.active.contains d == active then s'.submit id else s')

end Retiring

def retiring [Digests] (installation : ID) : System Retiring Retiring.Action where
  init s := s.toPublished = .none ∧ 0 ≤ s.grace ∧ s.jobs = .empty ∧ s.delayed = ∅
  step := Retiring.step installation

end Boomerangz.Daemon
