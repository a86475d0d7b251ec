import Boomerangz.Daemon.Status
import Boomerangz.Lib.Run

/-! # A status subscription

The owner never waits: it hands over transitions in a bounded channel and the newest state in a channel of one.
-/

open Transition

namespace Boomerangz.Daemon.Status

def transitionBound : Nat := 256

structure Delivery where
  event : Event
  revision : Nat
deriving DecidableEq, Repr

structure Update where
  transitions : List Event
  state : ControlSnapshot
deriving DecidableEq

inductive Fan where
  | idle
  | sending (rest : List Event)
  | storing
deriving DecidableEq, Repr

/-- Where the forwarder is in `run`. -/
inductive Mode where
  | loop
  | waiting
  | draining
  | exited
deriving DecidableEq, Repr

inductive End where
  | overflow
  | cause (text : String)
deriving DecidableEq, Repr

structure Change where
  transitions : List Event
  state : ControlSnapshot
deriving DecidableEq

/-- The owner, one forwarder and its consumer. The last four fields are history. -/
structure Link where
  owner : StatusOwner
  fan : Fan
  subscribed : Bool
  transitions : List Delivery
  stateChan : Option ControlSnapshot
  overflowed : Bool
  ended : Option String
  mode : Mode
  pending : List Event
  covered : Nat
  state : Option ControlSnapshot
  dirty : Bool
  offering : Bool
  throttle : Bool
  due : Bool
  err : Option End
  start : ControlSnapshot
  changes : List Change
  taken : List Delivery
  delivered : List Update

inductive Action where
  | handle (m : StatusMessage)
  | sample (e : Event)
  | send
  | takeBack
  | store
  | poll
  | take
  | takeState
  | drain
  | deliver
  | wake
  | finish
  | quit
  | cancel (cause : String)
  | elapse

namespace Link

def register (o : StatusOwner) : Link where
  owner := o
  fan := .idle
  subscribed := true
  transitions := []
  stateChan := some o.state
  overflowed := false
  ended := none
  mode := .loop
  pending := []
  covered := 0
  state := none
  dirty := false
  offering := false
  throttle := false
  due := true
  err := none
  start := o.state
  changes := []
  taken := []
  delivered := []

/-! ## The owner's side -/

def change (s : Link) (transitions : List Event) (o : StatusOwner) : Link :=
  let live := s.subscribed && s.mode != .exited
  { s with
    owner := o
    changes := s.changes ++ [⟨transitions, o.state⟩]
    subscribed := live
    fan := if live then .sending transitions else .idle }

def push (s : Link) (event : Event) (rest : List Event) : Link :=
  { s with transitions := s.transitions ++ [⟨event, s.owner.revision⟩], fan := .sending rest }

/-- `overflow`: the owner forgets the subscriber. -/
def refuse (s : Link) : Link := { s with overflowed := true, subscribed := false, fan := .idle }

/-! ## The forwarder's side -/

def receive (s : Link) (mode : Mode) : Option Link :=
  match s.transitions with
  | [] => none
  | d :: rest => some { s with
      mode := mode
      transitions := rest
      pending := s.pending ++ [d.event]
      covered := d.revision
      taken := s.taken ++ [d] }

def ready (s : Link) : Bool := s.pending.length < transitionBound && !s.transitions.isEmpty

/-- An update of the pending transitions and the state may go out. -/
def offers (s : Link) : Bool :=
  match s.state with
  | none => false
  | some state => if s.pending.isEmpty then s.dirty && s.due else s.covered ≤ state.revision

def throttled (s : Link) : Bool := s.state.isSome && s.pending.isEmpty && s.dirty && !s.due

def hand (s : Link) (state : ControlSnapshot) : Link :=
  { s with
    delivered := s.delivered ++ [⟨s.pending, state⟩]
    pending := []
    dirty := false
    due := false
    throttle := false
    mode := .loop }

/-! ## Steps -/

def step (s : Link) : Action → Option Link
  | .handle m => if s.fan = .idle then match s.owner.apply m with
      | none => some s
      | some (transitions, o) => some (s.change transitions o)
    else none
  | .sample e => if s.fan = .idle then match s.owner.applyProgress e with
      | none => some s
      | some o => some (s.change [] o)
    else none
  | .send => match s.fan with
    | .sending (event :: rest) =>
      some (if s.transitions.length < transitionBound then s.push event rest else s.refuse)
    | _ => none
  | .takeBack => if s.fan = .sending [] then some { s with stateChan := none, fan := .storing } else none
  | .store => if s.fan = .storing then some { s with stateChan := some s.owner.state, fan := .idle } else none
  | .poll => if s.mode = .loop then
      if s.ready then s.receive .loop
      else some { s with mode := .waiting, offering := s.offers, throttle := s.throttle || s.throttled }
    else none
  | .take => if s.mode = .waiting ∧ s.ready then s.receive .loop else none
  | .takeState => match s.mode, s.stateChan with
    | .waiting, some state =>
      some { s with stateChan := none, state := some state, dirty := true, mode := .draining }
    | _, _ => none
  | .drain => if s.mode = .draining then if s.ready then s.receive .draining else some { s with mode := .loop } else none
  | .deliver => match s.state with
    | some state => if s.mode = .waiting ∧ s.offering then some (s.hand state) else none
    | none => none
  | .wake => if s.mode = .waiting ∧ s.throttle ∧ s.due then some { s with throttle := false, mode := .loop } else none
  | .finish => if s.mode = .waiting ∧ s.overflowed then some { s with mode := .exited, err := some .overflow } else none
  | .quit => match s.mode, s.ended with
    | .waiting, some cause => some { s with mode := .exited, err := some (.cause cause) }
    | _, _ => none
  | .cancel cause => some { s with ended := s.ended.or (some cause) }
  | .elapse => some { s with due := true }

end Link

def system : System Link Action where
  init s := ∃ o, s = .register o
  step := Link.step

/-! ## What a subscriber sees -/

def stateAfter (start : ControlSnapshot) (cs : List Change) : ControlSnapshot := cs.foldl (fun _ c => c.state) start

def GapFree (s : Link) : Prop := s.delivered.flatMap Update.transitions <+: s.changes.flatMap Change.transitions

/-- Each update's state is the owner's after exactly the transitions delivered with it and before. -/
def Matching (s : Link) : Prop := ∀ us u us', s.delivered = us ++ u :: us' →
  ∃ cs, cs <+: s.changes ∧ (us ++ [u]).flatMap Update.transitions = cs.flatMap Change.transitions ∧
    u.state = stateAfter s.start cs

def Action.ofForwarder : Action → Bool
  | poll | take | takeState | drain | deliver | wake | finish | quit => true
  | _ => false

/-- After a refusal the forwarder exits, and reports the overflow unless the consumer ended the subscription. -/
structure EndsOverflowed (s : Link) : Prop where
  reports : s.mode = .exited → s.ended = none → s.err = some .overflow
  moves : s.mode ≠ .exited → ∃ a s', a.ofForwarder = true ∧ s.step a = some s'
  bounded : ∃ n, ∀ as s', run system as s = some s' → as.countP Action.ofForwarder ≤ n

def paired (s : Link) : Action → Bool
  | .takeState => match s.stateChan with
    | some state =>
      (s.transitions.drop (transitionBound - s.pending.length)).all fun d => decide (state.revision < d.revision)
    | none => true
  | _ => true

/-! ## What a step can do -/

inductive Moves (s : Link) : Action → Link → Prop where
  | unchanged {a : Action} : a.ofForwarder = false → Moves s a s
  | change {a : Action} {transitions : List Event} {o : StatusOwner} : a.ofForwarder = false → s.fan = .idle →
      o.revision = s.owner.revision + 1 → Moves s a (s.change transitions o)
  | push {event : Event} {rest : List Event} : s.fan = .sending (event :: rest) → Moves s .send (s.push event rest)
  | refuse {event : Event} {rest : List Event} : s.fan = .sending (event :: rest) → Moves s .send s.refuse
  | takeBack : s.fan = .sending [] → Moves s .takeBack { s with stateChan := none, fan := .storing }
  | store : s.fan = .storing → Moves s .store { s with stateChan := some s.owner.state, fan := .idle }
  | receive {a : Action} {m : Mode} {t : Link} : a.ofForwarder = true → s.ready = true →
      m = .loop ∧ s.mode ≠ .draining ∨ m = .draining ∧ s.mode = .draining → s.receive m = some t → Moves s a t
  | poll : s.mode = .loop → Moves s .poll
      { s with mode := .waiting, offering := s.offers, throttle := s.throttle || s.throttled }
  | takeState {state : ControlSnapshot} : s.mode = .waiting → s.stateChan = some state → Moves s .takeState
      { s with stateChan := none, state := some state, dirty := true, mode := .draining }
  | drained : s.mode = .draining → s.ready = false → Moves s .drain { s with mode := .loop }
  | deliver {state : ControlSnapshot} : s.mode = .waiting → s.offering = true → s.state = some state →
      Moves s .deliver (s.hand state)
  | wake : s.mode = .waiting → s.throttle = true → s.due = true → Moves s .wake
      { s with throttle := false, mode := .loop }
  | finish : s.mode = .waiting → s.overflowed = true → Moves s .finish
      { s with mode := .exited, err := some .overflow }
  | quit {cause : String} : s.mode = .waiting → s.ended = some cause → Moves s .quit
      { s with mode := .exited, err := some (.cause cause) }
  | cancel {cause : String} : Moves s (.cancel cause) { s with ended := s.ended.or (some cause) }
  | elapse : Moves s .elapse { s with due := true }

theorem moves_of_step {s t : Link} {a : Action} (h : s.step a = some t) : Moves s a t := by
  cases a with
  | handle m =>
    simp only [Link.step, Option.ite_none_right_eq_some] at h
    obtain ⟨hidle, h⟩ := h
    cases happly : s.owner.apply m with
    | none =>
      simp only [happly, Option.some.injEq] at h
      exact h ▸ .unchanged rfl
    | some r =>
      simp only [happly, Option.some.injEq] at h
      exact h ▸ .change rfl hidle (StatusOwner.apply_revision happly)
  | sample e =>
    simp only [Link.step, Option.ite_none_right_eq_some] at h
    obtain ⟨hidle, h⟩ := h
    cases happly : s.owner.applyProgress e with
    | none =>
      simp only [happly, Option.some.injEq] at h
      exact h ▸ .unchanged rfl
    | some o =>
      simp only [happly, Option.some.injEq] at h
      exact h ▸ .change rfl hidle (StatusOwner.applyProgress_revision happly)
  | send =>
    simp only [Link.step] at h
    split at h
    · rename_i event rest hfan
      cases h
      split
      · exact .push hfan
      · exact .refuse hfan
    · cases h
  | takeBack =>
    simp only [Link.step, Option.ite_none_right_eq_some, Option.some.injEq] at h
    exact h.2 ▸ .takeBack h.1
  | store =>
    simp only [Link.step, Option.ite_none_right_eq_some, Option.some.injEq] at h
    exact h.2 ▸ .store h.1
  | poll =>
    simp only [Link.step, Option.ite_none_right_eq_some] at h
    obtain ⟨hmode, h⟩ := h
    split at h
    · rename_i hready
      exact .receive rfl hready (.inl ⟨rfl, by simp [hmode]⟩) h
    · exact Option.some.inj h ▸ .poll hmode
  | take =>
    simp only [Link.step, Option.ite_none_right_eq_some] at h
    exact .receive rfl h.1.2 (.inl ⟨rfl, by simp [h.1.1]⟩) h.2
  | takeState =>
    simp only [Link.step] at h
    split at h
    · rename_i state hmode hchan
      exact Option.some.inj h ▸ .takeState hmode hchan
    · cases h
  | drain =>
    simp only [Link.step, Option.ite_none_right_eq_some] at h
    obtain ⟨hmode, h⟩ := h
    split at h
    · rename_i hready
      exact .receive rfl hready (.inr ⟨rfl, hmode⟩) h
    · rename_i hready
      exact Option.some.inj h ▸ .drained hmode (by simpa using hready)
  | deliver =>
    simp only [Link.step] at h
    split at h
    · rename_i state hstate
      simp only [Option.ite_none_right_eq_some, Option.some.injEq] at h
      exact h.2 ▸ .deliver h.1.1 h.1.2 hstate
    · cases h
  | wake =>
    simp only [Link.step, Option.ite_none_right_eq_some, Option.some.injEq] at h
    exact h.2 ▸ .wake h.1.1 h.1.2.1 h.1.2.2
  | finish =>
    simp only [Link.step, Option.ite_none_right_eq_some, Option.some.injEq] at h
    exact h.2 ▸ .finish h.1.1 h.1.2
  | quit =>
    simp only [Link.step] at h
    split at h
    · rename_i cause hmode hended
      exact Option.some.inj h ▸ .quit hmode hended
    · cases h
  | cancel cause => exact Option.some.inj h ▸ .cancel
  | elapse => exact Option.some.inj h ▸ .elapse

end Boomerangz.Daemon.Status
