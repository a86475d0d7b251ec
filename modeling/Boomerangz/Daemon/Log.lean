import Boomerangz.Daemon.Subscription
import Boomerangz.Lib.Gaps

/-! # The daemon log

What the owner cannot hand over is counted in a gap; gaps and flushes are offered again before anything newer.
-/

namespace Boomerangz.Daemon.Status

open Zfs Transition Gaps

/-! ## Deliveries -/

structure DiscoveryRecord where
  generation : Nat
  datasets : Nat
  at_ : Time
deriving DecidableEq, Repr

structure Gap where
  count : Nat
  first : Time
  last : Time
deriving DecidableEq, Repr

def Gap.add (g : Gap) (at_ : Time) : Gap where
  count := g.count + 1
  first := if g.count = 0 ∨ at_ < g.first then at_ else g.first
  last := if g.count = 0 ∨ g.last < at_ then at_ else g.last

def Event.zero : Event := ⟨.transition, 0, 0, "", "", "", "", "", "", 0, 0, 0, .zero⟩

/-- `delivery`, with the fields of the log; the channel of a flush is told by its number. -/
structure LogDelivery extends Delivery where
  discovery : Option DiscoveryRecord
  gap : Gap
  flush : Option Nat
deriving DecidableEq, Repr

def LogDelivery.zero : LogDelivery := ⟨⟨.zero, 0⟩, none, ⟨0, 0, 0⟩, none⟩

def LogDelivery.at_ (d : LogDelivery) : Time :=
  match d.discovery with
  | some record => record.at_
  | none => d.event.at_

inductive Logged where
  | transition (event : Event)
  | discovery (record : DiscoveryRecord)
deriving DecidableEq, Repr

def Logged.time : Logged → Time
  | transition event => event.at_
  | discovery record => record.at_

def Logged.delivery (revision : Nat) : Logged → LogDelivery
  | transition event => { LogDelivery.zero with event := event, revision := revision }
  | discovery record => { LogDelivery.zero with discovery := some record }

/-- The writer's `switch`: what it does with a delivery. -/
def LogDelivery.line (d : LogDelivery) : Entry Logged Nat Time :=
  if 0 < d.gap.count then .gap d.gap.count d.gap.first d.gap.last
  else match d.flush with
    | some channel => .mark channel
    | none => match d.discovery with
      | some record => .item (.discovery record)
      | none => .item (.transition d.event)

def StatusOwner.discovered (o : StatusOwner) (m : StatusMessage) (now : Time) : Option DiscoveryRecord :=
  match m.runtime with
  | some view =>
    if view.generation ≠ 0 ∧ view.generation ≠ o.runtime.generation
    then some ⟨view.generation, view.entries, now⟩ else none
  | none => none

/-! ## The owner, the forwarder and the writer -/

/-- Where the owner is in `fanOut`, with the calls that follow. -/
inductive LogFan where
  | idle
  | offering (next : Option Logged) (calls : List (Option Logged))
  | sending (next : Logged) (calls : List (Option Logged))
deriving DecidableEq, Repr

def LogFan.before : List (Option Logged) → LogFan
  | [] => idle
  | next :: calls => offering next calls

/-- `handled` and `written` are histories. -/
structure Journal where
  owner : StatusOwner
  fan : LogFan
  refused : List LogDelivery
  transitions : List LogDelivery
  batch : List LogDelivery
  writing : List LogDelivery
  closed : List Nat
  flushes : Nat
  written : List LogDelivery
  handled : List (Logged ⊕ Nat)

inductive LogAction where
  | handle (now : Time) (m : StatusMessage)
  | flush
  | sample (e : Event)
  | retry
  | offer
  | take
  | hand
  | write
deriving DecidableEq

namespace Journal

def register (o : StatusOwner) : Journal := ⟨o, .idle, [], [], [], [], [], 0, [], []⟩

def received (s : Journal) : List LogDelivery := s.written ++ s.writing

def proceed (s : Journal) (calls : List (Option Logged)) : Journal := { s with fan := .before calls }

/-- `fanOut`, which ends with a call that has nothing new. -/
def fanOut (s : Journal) (logged : List Logged) : Journal := s.proceed (logged.map some ++ [none])

/-- The end of `deliverLog`. -/
def refuse (refused : List LogDelivery) (next : LogDelivery) : List LogDelivery :=
  let refused := if refused.getLast?.all (fun d => d.gap.count == 0) then refused ++ [.zero] else refused
  refused.modifyLast fun d => { d with gap := d.gap.add next.at_ }

def skip (s : Journal) : Option Logged → Journal
  | none => s
  | some x => { s with refused := refuse s.refused (x.delivery s.owner.revision) }

def room (s : Journal) : Bool := s.transitions.length < transitionBound

/-- One `select` of `deliverLog`. -/
def offer (s : Journal) : Option Journal :=
  match s.fan with
  | .idle => none
  | .offering next calls => match s.refused, next with
    | d :: rest, next =>
      if s.room then some { s with transitions := s.transitions ++ [d], refused := rest }
      else some ((s.skip next).proceed calls)
    | [], none => some (s.proceed calls)
    | [], some x => some { s with fan := .sending x calls }
  | .sending x calls =>
    if s.room then
      some ({ s with transitions := s.transitions ++ [x.delivery s.owner.revision] } |>.proceed calls)
    else some ((s.skip (some x)).proceed calls)

def step (s : Journal) : LogAction → Option Journal
  | .handle now m => if s.fan = .idle then match s.owner.apply m with
      | none => some s
      | some (transitions, o) =>
        let logged := (s.owner.discovered m now).toList.map .discovery ++ transitions.map .transition
        some (fanOut { s with owner := o, handled := s.handled ++ logged.map .inl } logged)
    else none
  | .flush => if s.fan = .idle then
      some (fanOut { s with
        refused := s.refused ++ [{ LogDelivery.zero with flush := some s.flushes }]
        flushes := s.flushes + 1
        handled := s.handled ++ [.inr s.flushes] } [])
    else none
  | .sample e => if s.fan = .idle then match s.owner.applyProgress e with
      | none => some s
      | some o => some (fanOut { s with owner := o } [])
    else none
  | .retry => if s.fan = .idle ∧ s.refused ≠ [] then some (s.fanOut []) else none
  | .offer => s.offer
  | .take => match s.transitions with
    | d :: rest => if s.batch.length < transitionBound
      then some { s with transitions := rest, batch := s.batch ++ [d] } else none
    | [] => none
  | .hand => if s.batch ≠ [] ∧ s.writing = [] then some { s with batch := [], writing := s.batch } else none
  | .write => match s.writing with
    | d :: rest => some { s with
        writing := rest
        written := s.written ++ [d]
        closed := s.closed ++ d.line.marked.toList }
    | [] => none

end Journal

def logging : System Journal LogAction where
  init s := ∃ o, s = .register o
  step := Journal.step

/-! ## What the log promises -/

/-- What the writer received accounts for a first part of what the owner handled, and for all of it where a flush was
closed. -/
structure Accounted (s : Journal) : Prop where
  received : ∃ xs, xs <+: s.handled ∧ Accounts Logged.time (s.received.map LogDelivery.line) xs
  flushed : ∀ before k after, s.handled = before ++ .inr k :: after → k ∈ s.closed →
    ∃ es, es ++ [.mark k] <+: s.written.map LogDelivery.line ∧ Accounts Logged.time es before

end Boomerangz.Daemon.Status
