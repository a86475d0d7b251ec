import Boomerangz.Discovery.Entry
import Mathlib.Data.List.AList

/-! # The snapshot scheduler

Each critical section is one function; `Update` takes the lock once for every root and once to replace the entries.
-/

namespace Boomerangz.Daemon

open Zfs Policy Lifecycle Discovery

/-! ## Schedules -/

structure ScheduleMember where
  dataset : Dataset
  grid : Grid
deriving DecidableEq

structure Schedule where
  dataset : Dataset
  policy : Effective
  members : List ScheduleMember
  due : List Dataset
  deadline : Time
  force : Bool
deriving DecidableEq

/-! ## Deadlines -/

structure MemberDeadline where
  grid : Grid
  cadence : Duration
  next : Time
deriving DecidableEq

/-- Under `replicate=on` the root is the only timed member and `replicate` lists the members that fire with it. -/
structure Deadline where
  policy : Effective
  members : List (Dataset × MemberDeadline)
  replicate : List ScheduleMember
  pending : Bool
deriving DecidableEq

namespace Deadline

def earliest (d : Deadline) : Time :=
  d.members.foldl (fun e m => if e = 0 || m.2.next < e then m.2.next else e) 0

def all (d : Deadline) : List Dataset :=
  if d.replicate = [] then d.members.map Prod.fst else d.replicate.map ScheduleMember.dataset

/-- The root with the members due by `now`, or none for the zero time. -/
def schedule (d : Deadline) (dataset : Dataset) (now : Time) : Schedule where
  dataset := dataset
  policy := d.policy
  members := if d.replicate = [] then d.members.map (fun m => ⟨m.1, m.2.grid⟩) else d.replicate
  due :=
    if now = 0 then []
    else if d.replicate = [] then (d.members.filter (fun m => m.2.next ≤ now)).map Prod.fst
    else if d.earliest ≤ now then d.all else []
  deadline := d.earliest
  force := false

def member (d : Deadline) (name : Dataset) : Option MemberDeadline := d.members.lookup name

/-- `Complete` on the entry of `dataset`. -/
def complete (d : Deadline) (dataset : Dataset) (due : List Dataset) (completed : Time)
    (deferred : List (Dataset × Time)) : Deadline :=
  -- The -R root is the only timed member and advances for all of them.
  let due := if d.replicate ≠ [] ∧ due ≠ [] then [dataset] else due
  let advance := fun (name : Dataset) (m : MemberDeadline) =>
    if due.contains name then { m with next := completed + m.cadence } else m
  { d with
    pending := false
    members := d.members.map fun m => (m.1, match deferred.lookup m.1 with
      | some time => { advance m.1 m.2 with next := time }
      | none => advance m.1 m.2) }

def retry (d : Deadline) (notBefore : Time) : Deadline :=
  { d with
    pending := false
    members := d.members.map fun m =>
      (m.1, if m.2.next < notBefore then { m.2 with next := notBefore } else m.2) }

end Deadline

abbrev Entries := AList (fun _ : Dataset => Deadline)

/-! ## Update -/

def isSchedulable (e : Entry) : Bool :=
  e.coveredBy == [] && e.inspected && e.policy.enabled && e.policy.valid &&
    (activeRoot e.policy e.dataset matches .ok _)

structure Updating where
  generation : List Entry
  now : Time
  todo : List Entry
  next : Entries
deriving DecidableEq

namespace Updating

def start (generation : List Entry) (now : Time) : Updating :=
  ⟨generation, now, generation.filter isSchedulable, ∅⟩

def timed (u : Updating) (previous : Option Deadline) (name : Dataset) :
    Option (Dataset × MemberDeadline) :=
  match u.generation.reverse.find? (·.dataset == name) with
  | none => none
  | some e =>
    let cadence := e.policy.grid.cadence
    if cadence = 0 then none
    else some (name, ⟨e.policy.grid, cadence,
      match previous.bind (·.member name) with
      | some old => if old.cadence = cadence then old.next else u.now
      | none => u.now⟩)

def item (u : Updating) (e : Entry) (previous : Option Deadline) : Deadline where
  policy := e.policy
  members := (if e.policy.send.replicate then [e.dataset] else e.members).filterMap (u.timed previous)
  replicate := if e.policy.send.replicate then e.members.map (⟨·, e.policy.grid⟩) else []
  pending := previous.any Deadline.pending

def read (u : Updating) (entries : Entries) : Option Updating :=
  match u.todo with
  | [] => none
  | e :: todo =>
    let item := u.item e (entries.lookup e.dataset)
    some { u with todo := todo, next := if item.members = [] then u.next else u.next.insert e.dataset item }

end Updating

/-! ## Next -/

def selectStep (entries : Entries) (best : Option (Dataset × Deadline)) (name : Dataset) :
    Option (Dataset × Deadline) :=
  match entries.lookup name with
  | none => best
  | some d =>
    if d.pending || best.any (fun b => b.2.earliest != 0 && b.2.earliest ≤ d.earliest) then best else some (name, d)

/-- The loop of `Next` over the entries in the order `visit`, which Go leaves open. -/
def select (entries : Entries) (visit : List Dataset) : Option (Dataset × Deadline) :=
  visit.foldl (selectStep entries) none

end Boomerangz.Daemon
