import Boomerangz.Daemon.Pairing

/-! # What a subscriber sees

A gap-free prefix of the transitions, unless the forwarder takes a state while it holds a full bound of them.
-/

open Transition

namespace Boomerangz.Daemon.Status

/-! ## The end after a refusal -/

structure Forgotten (s : Link) : Prop where
  idle : s.fan = .idle
  forgotten : s.subscribed = false
  offered : s.mode = .waiting → s.offering = true → s.offers = true

def Mode.weight : Mode → Nat
  | exited => 0
  | waiting => 1
  | loop => 2
  | draining => 3

/-- Bounds the forwarder's steps once nothing more is sent to it. -/
def Link.rank (s : Link) : Nat :=
  16 * s.transitions.length + (if s.stateChan.isSome then 16 else 0) + (if s.pending.isEmpty then 0 else 8) +
    (if s.dirty then 6 else 0) + (if s.due && !s.throttle then 0 else 3) + s.mode.weight

namespace Forgotten

variable {s t : Link}

theorem receive {m : Mode} (h : Forgotten s) (hm : m = .loop ∨ m = .draining) (hreceive : s.receive m = some t) :
    Forgotten t ∧ t.rank + 1 ≤ s.rank := by
  unfold Link.receive at hreceive
  cases hchan : s.transitions with
  | nil => simp [hchan] at hreceive
  | cons d rest =>
    simp only [hchan, Option.some.injEq] at hreceive
    subst hreceive
    refine ⟨⟨h.idle, h.forgotten, by rcases hm with rfl | rfl <;> simp⟩, ?_⟩
    have hweight : m.weight ≤ 3 := by rcases hm with rfl | rfl <;> decide
    have hpending : (if (s.pending ++ [d.event]).isEmpty then 0 else 8) ≤ 8 := by split <;> omega
    simp only [Link.rank, hchan, List.length_cons]
    omega

theorem change {transitions : List Event} {o : StatusOwner} (h : Forgotten s) :
    Forgotten (s.change transitions o) ∧ (s.change transitions o).rank = s.rank := by
  have hlive : (s.subscribed && s.mode != .exited) = false := by rw [h.forgotten, Bool.false_and]
  refine ⟨⟨?_, ?_, h.offered⟩, rfl⟩
  · simp [Link.change, hlive]
  · simp [Link.change, hlive]

theorem step {a : Action} (h : Forgotten s) (hstep : s.step a = some t) :
    Forgotten t ∧ t.rank + (if a.ofForwarder then 1 else 0) ≤ s.rank := by
  cases moves_of_step hstep with
  | unchanged ha => exact ⟨h, by simp [ha]⟩
  | change ha _ _ => exact ⟨h.change.1, by simp [ha, h.change.2]⟩
  | push hfan | refuse hfan | takeBack hfan | store hfan => simp [h.idle] at hfan
  | receive ha _ hm hreceive =>
    rw [if_pos ha]
    exact h.receive (hm.imp And.left And.left) hreceive
  | poll hmode =>
    refine ⟨⟨h.idle, h.forgotten, fun _ hoffering => hoffering⟩, ?_⟩
    have htimer : (if s.due && !(s.throttle || s.throttled) then 0 else 3) =
        if s.due && !s.throttle then 0 else 3 := by
      cases hdue : s.due <;> simp [Link.throttled, hdue]
    simp only [Link.rank, hmode, Mode.weight, Action.ofForwarder, if_true]
    omega
  | takeState hmode hchan =>
    refine ⟨⟨h.idle, h.forgotten, fun hwaiting => by cases hwaiting⟩, ?_⟩
    simp only [Link.rank, hmode, hchan, Mode.weight, Action.ofForwarder, if_true, Option.isSome_some,
      Option.isSome_none, Bool.false_eq_true, if_false]
    omega
  | drained hmode _ | finish hmode _ | quit hmode _ =>
    refine ⟨⟨h.idle, h.forgotten, fun hwaiting => by cases hwaiting⟩, ?_⟩
    simp only [Link.rank, hmode, Mode.weight, Action.ofForwarder, if_true]
    omega
  | @deliver x hmode hoffering hstate =>
    refine ⟨⟨h.idle, h.forgotten, fun hwaiting => by cases hwaiting⟩, ?_⟩
    have hoffers := h.offered hmode hoffering
    have hcarried : 6 ≤ (if s.pending.isEmpty then 0 else 8) + if s.dirty then 6 else 0 := by
      simp only [Link.offers, hstate] at hoffers
      split at hoffers
      · simp [(Bool.and_eq_true_iff.mp hoffers).1]
      · rename_i hpending
        rw [if_neg hpending]
        omega
    have hleft : (s.hand x).rank = 16 * s.transitions.length + (if s.stateChan.isSome then 16 else 0) + 5 := rfl
    rw [hleft]
    simp only [Link.rank, hmode, Mode.weight, Action.ofForwarder, if_true]
    omega
  | wake hmode hthrottle hdue =>
    refine ⟨⟨h.idle, h.forgotten, fun hwaiting => by cases hwaiting⟩, ?_⟩
    simp only [Link.rank, hmode, hthrottle, hdue, Mode.weight, Action.ofForwarder, if_true, Bool.not_true,
      Bool.and_false, Bool.not_false, Bool.and_true, Bool.false_eq_true, if_false]
    omega
  | cancel => exact ⟨⟨h.idle, h.forgotten, h.offered⟩, Nat.le_refl _⟩
  | elapse =>
    refine ⟨⟨h.idle, h.forgotten, fun hmode hoffering => offers_elapse (h.offered hmode hoffering)⟩, ?_⟩
    have htimer : (if true && !s.throttle then 0 else 3) ≤ if s.due && !s.throttle then 0 else 3 := by
      cases s.due <;> cases s.throttle <;> simp
    simp only [Link.rank, Action.ofForwarder, Bool.false_eq_true, if_false]
    omega

theorem run {as : List Action} (h : Forgotten s) (hrun : run system as s = some t) :
    as.countP Action.ofForwarder ≤ s.rank := by
  induction as generalizing s with
  | nil => exact Nat.zero_le _
  | cons a as ih =>
    simp only [Transition.run, Option.bind_eq_some_iff] at hrun
    obtain ⟨u, hstep, hrun⟩ := hrun
    obtain ⟨hu, hrank⟩ := h.step hstep
    have := ih hu hrun
    rw [List.countP_cons]
    omega

end Forgotten

theorem receive_isSome {s : Link} (m : Mode) (h : s.ready = true) : ∃ t, s.receive m = some t := by
  unfold Link.receive
  cases hchan : s.transitions with
  | nil => simp [Link.ready, hchan] at h
  | cons d rest => exact ⟨_, rfl⟩

theorem EndsOverflowed.of_inv {s : Link} (h : Inv s) (hover : s.overflowed = true) : EndsOverflowed s where
  reports := h.exited
  moves := by
    intro hlive
    cases hmode : s.mode with
    | loop =>
      cases hready : s.ready with
      | false => exact ⟨.poll, _, rfl, by simp [Link.step, hmode, hready]; rfl⟩
      | true =>
        obtain ⟨t, ht⟩ := receive_isSome .loop hready
        exact ⟨.poll, t, rfl, by simp [Link.step, hmode, hready, ht]⟩
    | waiting => exact ⟨.finish, _, rfl, by simp [Link.step, hmode, hover]; rfl⟩
    | draining =>
      cases hready : s.ready with
      | false => exact ⟨.drain, _, rfl, by simp [Link.step, hmode, hready]; rfl⟩
      | true =>
        obtain ⟨t, ht⟩ := receive_isSome .draining hready
        exact ⟨.drain, t, rfl, by simp [Link.step, hmode, hready, ht]⟩
    | exited => exact absurd hmode hlive
  bounded := by
    have hsub := h.overflowed hover
    have hidle : s.fan = .idle := by
      by_contra hne
      rw [h.registered hne] at hsub
      cases hsub
    exact ⟨s.rank, fun as t hrun => Forgotten.run ⟨hidle, hsub, h.offered⟩ hrun⟩

/-- A subscriber sees a gap-free prefix of the transitions with matching states, in every run whose
states are taken only when the transitions they include fit the bound. -/
theorem subscriber_sees_matching_prefix {s : Link} (h : Reach system (fun s a => paired s a = true) s) :
    GapFree s ∧ Matching s ∧ (s.overflowed = true → EndsOverflowed s) :=
  ⟨(inv_of_reach h).gapFree, (inv_of_reach h).matching, .of_inv (inv_of_reach h)⟩

/-! ## A full bound -/

section Sample

def jobEvent (state : String) : Event :=
  ⟨.transition, 0, 1, "transfer", "send:tank", "tank", "backup", state, "", 0, 0, 0, .zero⟩

def jobMessage (state : String) : StatusMessage := ⟨some (jobEvent state), [], none, none, none, none⟩

def oneChange : List Action := [.handle (jobMessage "running"), .send, .poll, .takeBack, .store, .poll, .takeState, .drain]

structure Backlog (n : Nat) (s : Link) : Prop where
  reach : Reach system (fun s a => paired s a = true) s
  queues : s.owner.jobQueues = ∅
  fan : s.fan = .idle
  subscribed : s.subscribed = true
  transitions : s.transitions = []
  stateChan : s.stateChan = none
  mode : s.mode = .loop
  pending : s.pending = List.replicate n (jobEvent "running")
  covered : s.covered ≤ s.owner.revision
  state : s.state = some s.owner.state
  delivered : s.delivered = []

theorem apply_jobMessage {o : StatusOwner} (h : o.jobQueues = ∅) (state : String) :
    o.apply (jobMessage state) = some ([jobEvent state],
      { o with jobs := o.jobs.insert "send:tank" (jobEvent state), revision := o.revision + 1 }) := by
  simp [StatusOwner.apply, jobMessage, StatusOwner.applyViews, StatusOwner.applyEvents, StatusOwner.stamp, jobEvent, h]

theorem Backlog.succ {n : Nat} {s : Link} (h : Backlog n s) (hn : n < transitionBound) :
    ∃ t, Backlog (n + 1) t := by
  have hrun : ∃ t, runOk system paired oneChange s = some t ∧ t.owner.jobQueues = ∅ ∧ t.fan = .idle ∧
      t.subscribed = true ∧ t.transitions = [] ∧ t.stateChan = none ∧ t.mode = .loop ∧
      t.pending = List.replicate (n + 1) (jobEvent "running") ∧ t.covered ≤ t.owner.revision ∧
      t.state = some t.owner.state ∧ t.delivered = [] := by
    have hroom : 0 < transitionBound := by decide
    have hlive : (Mode.loop != Mode.exited) = true := by decide
    simp [oneChange, runOk, system, Link.step, Link.change, Link.push, Link.receive, Link.ready, paired,
      apply_jobMessage h.queues, h.fan, h.subscribed, h.transitions, h.mode, h.pending, h.delivered, h.queues, hn,
      List.replicate_succ', hroom, hlive]
  obtain ⟨t, ht, hqueues, hfan, hsub, htransitions, hchan, hmode, hpending, hcovered, hstate, hdelivered⟩ := hrun
  exact ⟨t, h.reach.runOk ht, hqueues, hfan, hsub, htransitions, hchan, hmode, hpending, hcovered, hstate, hdelivered⟩

theorem backlog_zero : ∃ s, Backlog 0 s := by
  have hinit : Reach system (fun s a => paired s a = true) (Link.register .new) := .init ⟨_, rfl⟩
  obtain ⟨s, hs⟩ : ∃ s, runOk system paired [.poll, .takeState, .drain] (Link.register .new) = some s := ⟨_, rfl⟩
  have hreach := hinit.runOk hs
  cases hs
  exact ⟨_, hreach, rfl, rfl, rfl, rfl, rfl, rfl, rfl, Nat.le_refl _, rfl, rfl⟩

theorem exists_backlog {n : Nat} (hn : n ≤ transitionBound) : ∃ s, Backlog n s := by
  induction n with
  | zero => exact backlog_zero
  | succ n ih =>
    obtain ⟨s, hs⟩ := ih (Nat.le_of_succ_le hn)
    exact hs.succ hn

/-- One transition is delivered with the state it produced. -/
theorem one_transition_delivered : ∃ s u, s.delivered = [u] ∧ u.transitions = [jobEvent "running"] ∧
    GapFree s ∧ Matching s ∧ (s.overflowed = true → EndsOverflowed s) := by
  obtain ⟨s, h⟩ := exists_backlog (show 1 ≤ transitionBound by decide)
  have hrun : ∃ t, runOk system paired [.poll, .deliver] s = some t ∧
      t.delivered = [⟨[jobEvent "running"], t.owner.state⟩] := by
    simp [runOk, system, Link.step, Link.ready, Link.offers, Link.hand, paired, h.transitions, h.mode, h.pending,
      h.delivered, h.state, h.covered]
  obtain ⟨t, ht, hdelivered⟩ := hrun
  exact ⟨t, _, hdelivered, rfl, subscriber_sees_matching_prefix (h.reach.runOk ht)⟩

/-- With a full bound the forwarder delivers a state without a transition that it includes. -/
theorem full_bound_delivers_newer_state : ∃ s u, Reach system free s ∧ s.delivered = [u] ∧
    u.transitions = List.replicate transitionBound (jobEvent "running") ∧ jobEvent "succeeded" ∈ u.state.jobs ∧
    ¬Matching s := by
  obtain ⟨s, h⟩ := exists_backlog (Nat.le_refl transitionBound)
  have hrun : ∃ t, run system [.handle (jobMessage "succeeded"), .send, .poll, .takeBack, .store, .takeState, .drain,
      .poll, .deliver] s = some t ∧ t.changes = s.changes ++ [⟨[jobEvent "succeeded"], t.owner.state⟩] ∧
      t.start = s.start ∧ t.owner.revision = s.owner.revision + 1 ∧
      t.delivered = [⟨List.replicate transitionBound (jobEvent "running"), t.owner.state⟩] ∧
      t.owner.jobs = s.owner.jobs.insert "send:tank" (jobEvent "succeeded") ∧ t.owner.jobQueues = ∅ := by
    have hroom : 0 < transitionBound := by decide
    have hlive : (Mode.loop != Mode.exited) = true := by decide
    simp [run, system, Link.step, Link.change, Link.push, Link.ready, Link.offers, Link.hand,
      apply_jobMessage h.queues, h.fan, h.subscribed, h.transitions, h.mode, h.pending, h.delivered, h.queues,
      hroom, hlive]
    exact decide_eq_true (Nat.le_succ_of_le h.covered)
  obtain ⟨t, ht, hchanges, hstart, hrevision, hdelivered, hjobs, hqueues⟩ := hrun
  have hreach : Reach system free s := h.reach.mono fun _ _ _ => trivial
  refine ⟨t, _, hreach.run (fun _ _ => trivial) ht, hdelivered, rfl, ?_, ?_⟩
  · simp [StatusOwner.state, hjobs, AList.insert, StatusOwner.stamp, hqueues]
  · intro hmatching
    obtain ⟨cs, ⟨cs', hsplit⟩, hevents, hstate⟩ := hmatching [] _ [] hdelivered
    have hinv := inv_of_reach h.reach
    have hcurrent := congrArg ControlSnapshot.revision hinv.current
    rw [stateAfter_revision hinv.numbered, StatusOwner.state_revision] at hcurrent
    have hnumbered : Numbered t.start.revision (cs ++ cs') := by
      rw [hsplit, hchanges, hstart]
      refine numbered_append.mpr ⟨hinv.numbered, ?_, trivial⟩
      simp only [StatusOwner.state_revision]
      omega
    have hlength := congrArg ControlSnapshot.revision hstate
    rw [stateAfter_revision (numbered_append.mp hnumbered).1, hstart, StatusOwner.state_revision] at hlength
    have htotal := congrArg List.length (hsplit.trans hchanges)
    rw [List.length_append, List.length_append, List.length_singleton] at htotal
    obtain rfl : cs' = [] := List.eq_nil_of_length_eq_zero (by omega)
    -- the state includes every change, the last one too
    rw [List.append_nil] at hsplit
    rw [hsplit, hchanges] at hevents
    have hmem : jobEvent "succeeded" ∈ List.replicate transitionBound (jobEvent "running") := by
      have hlast := congrArg (jobEvent "succeeded" ∈ ·) hevents
      simpa using hlast
    exact absurd (List.eq_of_mem_replicate hmem) (by decide)

end Sample

end Boomerangz.Daemon.Status
