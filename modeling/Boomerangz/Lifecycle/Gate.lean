import Boomerangz.Lib.Run
import Boomerangz.Lib.Table
import Boomerangz.Zfs.Command

/-! # The lifecycle gate

Every call holds the mutex, so a call is one step, and a wait is the steps of its loop.
-/

namespace Boomerangz.Lifecycle

open Transition Tables Zfs

inductive WorkKind where
  | management
  | transfer
deriving DecidableEq, Repr

/-- `cancelled` is the state of the ticket's context. -/
structure Ticket where
  scope : Dataset
  kind : WorkKind
  cancelled : Bool
  running : Bool
  finished : Bool
deriving DecidableEq, Repr

/-- `changed` numbers the channel that waits listen on. -/
structure GateScope where
  enabled : Bool
  tickets : List Nat
  changed : Nat
deriving DecidableEq, Repr

structure Gate where
  scopes : Map Dataset GateScope
  tickets : Nat → Option Ticket

namespace Gate

variable (g : Gate)

def get (d : Dataset) : GateScope := (g.scopes.lookup d).getD ⟨false, [], 0⟩

def put (d : Dataset) (s : GateScope) : Gate := { g with scopes := g.scopes.insert d s }

def signal (s : GateScope) : GateScope := { s with changed := s.changed + 1 }

def canceled : Error := .plain "context canceled"

def deactivate (t : Ticket) : Ticket :=
  if !t.running || t.kind == .transfer then { t with cancelled := true } else t

def setEnabled (d : Dataset) (enabled : Bool) : Gate × Except Error Unit :=
  if validDataset d then
    let s := g.get d
    let tickets := if enabled then g.tickets else
      fun i => if i ∈ s.tickets then (g.tickets i).map deactivate else g.tickets i
    ({ g with tickets := tickets }.put d (signal { s with enabled := enabled }), .ok ())
  else (g, .error (.invalidName d))

/-- `done` says whether the caller's context has ended. -/
def queue (i : Nat) (d : Dataset) (kind : WorkKind) (done : Bool) : Gate × Except Error Unit :=
  if validDataset d then
    let s := g.get d
    if !s.enabled then (g.put d s, .error (.plain "dataset is disabled"))
    else if done then (g.put d s, .error canceled)
    else ({ g with tickets := Function.update g.tickets i (some ⟨d, kind, false, false, false⟩) }.put d
      (signal { s with tickets := s.tickets ++ [i] }), .ok ())
  else (g, .error (.invalidName d))

def start (i : Nat) (t : Ticket) : Gate × Except Error Unit :=
  if t.finished || t.running then (g, .error (.plain "ticket is finished or already running"))
  else if t.cancelled then (g, .error canceled)
  else if !(g.get t.scope).enabled then (g, .error (.plain "dataset is disabled"))
  else ({ g with tickets := Function.update g.tickets i (some { t with running := true }) }.put t.scope
    (signal (g.get t.scope)), .ok ())

def finish (i : Nat) (t : Ticket) : Gate :=
  if t.finished then g
  else { g with tickets := Function.update g.tickets i (some { t with finished := true, cancelled := true }) }.put t.scope
    (signal { g.get t.scope with tickets := (g.get t.scope).tickets.filter (· != i) })

def cancel (i : Nat) (t : Ticket) : Gate :=
  { g with tickets := Function.update g.tickets i (some { t with cancelled := true }) }

/-! ## Waits -/

inductive Wait where
  | failed (e : Error)
  | quiet
  | pending
deriving DecidableEq, Repr

def isRunning (i : Nat) : Bool := (g.tickets i).any Ticket.running

/-- One turn of `WaitScopeQuiescent`. -/
def waitScopeQuiescent (d : Dataset) (done : Bool) : Gate × Wait :=
  if validDataset d then
    let s := g.get d
    if s.enabled then (g.put d s, .failed (.plain "scope is still enabled"))
    else if s.tickets.any g.isRunning then (g.put d s, .pending)
    else (g.put d s, if done then .failed canceled else .quiet)
  else (g, .failed (.invalidName d))

def related (name d : Dataset) : Bool := inside d name || inside name d

/-- One turn of `WaitQuiescent`. -/
def waitQuiescent (d : Dataset) (done : Bool) : Wait :=
  if validDataset d then
    let scopes := g.scopes.entries.filter fun e => related e.1 d
    match scopes.find? fun e => e.2.enabled with
    | some e => .failed (.message "related scheduling scope %s is still enabled" [.name (.dataset e.1)])
    | none =>
      if scopes.any fun e => e.2.tickets.any g.isRunning then .pending
      else if done then .failed canceled else .quiet
  else .failed (.invalidName d)

end Gate

/-! ## Runs -/

inductive GateAction where
  | setEnabled (d : Dataset) (enabled : Bool)
  | queue (i : Nat) (d : Dataset) (kind : WorkKind) (done : Bool)
  | start (i : Nat)
  | finish (i : Nat)
  | cancel (i : Nat)
  | waitScope (d : Dataset) (done : Bool)
  | wait (d : Dataset) (done : Bool)
deriving DecidableEq, Repr

/-- A ticket is queued once. -/
def Gate.step (g : Gate) : GateAction → Option Gate
  | .setEnabled d enabled => some (g.setEnabled d enabled).1
  | .queue i d kind done => if g.tickets i = none then some (g.queue i d kind done).1 else none
  | .start i => (g.tickets i).map fun t => (g.start i t).1
  | .finish i => (g.tickets i).map (g.finish i)
  | .cancel i => (g.tickets i).map (g.cancel i)
  | .waitScope d done => some (g.waitScopeQuiescent d done).1
  | .wait _ _ => some g

def gating : System Gate GateAction where
  init g := g = ⟨∅, fun _ => none⟩
  step := Gate.step

def Gate.Leads (g : Gate) (ok : Gate → GateAction → Prop) (h : Gate) : Prop :=
  Reach ⟨fun s => s = g, Gate.step⟩ ok h

section Steps

variable {g g' h : Gate} {a : GateAction} {d d' : Dataset} {i : Nat} {t : Ticket}

@[simp] theorem Gate.get_put (g : Gate) (d : Dataset) (s : GateScope) (d' : Dataset) :
    (g.put d s).get d' = if d' = d then s else g.get d' := by
  unfold Gate.put Gate.get
  by_cases hd : d' = d
  · subst hd
    simp
  · simp [hd]

@[simp] theorem Gate.get_mk (g : Gate) (tickets : Nat → Option Ticket) (d : Dataset) :
    (Gate.mk g.scopes tickets).get d = g.get d := rfl

structure Ticket.Moves (t t' : Ticket) : Prop where
  scope : t'.scope = t.scope
  kind : t'.kind = t.kind
  finished : t.finished = true → t'.finished = true
  running : t.running = true → t'.running = true
  cancelled : t.cancelled = true → t'.cancelled = true

theorem Ticket.Moves.refl (t : Ticket) : t.Moves t := ⟨rfl, rfl, id, id, id⟩

theorem Ticket.moves_deactivate (t : Ticket) : t.Moves (Gate.deactivate t) := by
  unfold Gate.deactivate
  split
  · exact ⟨rfl, rfl, id, id, fun _ => rfl⟩
  · exact Ticket.Moves.refl t

theorem Gate.get_put_get (g : Gate) (d d' : Dataset) : (g.put d (g.get d)).get d' = g.get d' := by
  rw [Gate.get_put]
  split
  · rename_i hd
    rw [hd]
  · rfl

inductive Gate.Change (g : Gate) : GateAction → Gate → Prop where
  | refused {a : GateAction} {g' : Gate} (htickets : g'.tickets = g.tickets) (hget : ∀ d, g'.get d = g.get d) :
    Change g a g'
  | enabled {d : Dataset} :
    Change g (.setEnabled d true) (g.put d (Gate.signal { g.get d with enabled := true }))
  | disabled {d : Dataset} :
    Change g (.setEnabled d false)
      ({ g with tickets := fun i => if i ∈ (g.get d).tickets then (g.tickets i).map Gate.deactivate else g.tickets i }.put d
        (Gate.signal { g.get d with enabled := false }))
  | queued {i : Nat} {d : Dataset} {kind : WorkKind} {done : Bool} (hfresh : g.tickets i = none) :
    Change g (.queue i d kind done)
      ({ g with tickets := Function.update g.tickets i (some ⟨d, kind, false, false, false⟩) }.put d
        (Gate.signal { g.get d with tickets := (g.get d).tickets ++ [i] }))
  | started {i : Nat} {t : Ticket} (ht : g.tickets i = some t) (hfinished : t.finished = false)
    (hcancelled : t.cancelled = false) (henabled : (g.get t.scope).enabled = true) :
    Change g (.start i)
      ({ g with tickets := Function.update g.tickets i (some { t with running := true }) }.put t.scope
        (Gate.signal (g.get t.scope)))
  | finished {i : Nat} {t : Ticket} (ht : g.tickets i = some t) :
    Change g (.finish i)
      ({ g with tickets := Function.update g.tickets i (some { t with finished := true, cancelled := true }) }.put t.scope
        (Gate.signal { g.get t.scope with tickets := (g.get t.scope).tickets.filter (· != i) }))
  | cancelled {i : Nat} {t : Ticket} (ht : g.tickets i = some t) :
    Change g (.cancel i) { g with tickets := Function.update g.tickets i (some { t with cancelled := true }) }

theorem Gate.step_change (hs : g.step a = some g') : g.Change a g' := by
  have hstay : ∀ (a : GateAction) (d : Dataset), g.Change a (g.put d (g.get d)) :=
    fun a d => .refused rfl (g.get_put_get d)
  cases a with
  | setEnabled d enabled =>
    cases hs
    unfold Gate.setEnabled
    split
    · cases enabled with
      | true => exact .enabled
      | false => exact .disabled
    · exact .refused rfl fun _ => rfl
  | queue i d kind done =>
    simp only [Gate.step, Option.ite_none_right_eq_some, Option.some.injEq] at hs
    obtain ⟨hfresh, rfl⟩ := hs
    unfold Gate.queue
    split
    · dsimp only
      split
      · exact hstay _ d
      · split
        · exact hstay _ d
        · exact .queued hfresh
    · exact .refused rfl fun _ => rfl
  | start i =>
    simp only [Gate.step, Option.map_eq_some_iff] at hs
    obtain ⟨t, ht, rfl⟩ := hs
    unfold Gate.start
    split
    · exact .refused rfl fun _ => rfl
    · rename_i hidle
      split
      · exact .refused rfl fun _ => rfl
      · rename_i hcancelled
        split
        · exact .refused rfl fun _ => rfl
        · rename_i henabled
          exact .started ht (by simp_all) (by simpa using hcancelled) (by simpa using henabled)
  | finish i =>
    simp only [Gate.step, Option.map_eq_some_iff] at hs
    obtain ⟨t, ht, rfl⟩ := hs
    unfold Gate.finish
    split
    · exact .refused rfl fun _ => rfl
    · exact .finished ht
  | cancel i =>
    simp only [Gate.step, Option.map_eq_some_iff] at hs
    obtain ⟨t, ht, rfl⟩ := hs
    exact .cancelled ht
  | waitScope d done =>
    cases hs
    unfold Gate.waitScopeQuiescent
    split
    · dsimp only
      split
      · exact hstay _ d
      · split
        · exact hstay _ d
        · exact hstay _ d
    · exact .refused rfl fun _ => rfl
  | wait d done =>
    cases hs
    exact .refused rfl fun _ => rfl

theorem Gate.Change.ticket (hc : g.Change a g') (ht : g.tickets i = some t) :
    ∃ t', g'.tickets i = some t' ∧ t.Moves t' ∧ (t'.running = true → t.running = true ∨
      t.finished = false ∧ t.cancelled = false ∧ (g.get t.scope).enabled = true) := by
  cases hc with
  | refused htickets _ => exact ⟨t, by rw [htickets, ht], Ticket.Moves.refl t, .inl⟩
  | enabled => exact ⟨t, ht, Ticket.Moves.refl t, .inl⟩
  | @disabled d =>
    by_cases hmem : i ∈ (g.get d).tickets
    · refine ⟨Gate.deactivate t, by simp [Gate.put, hmem, ht], t.moves_deactivate, fun hrun => .inl ?_⟩
      unfold Gate.deactivate at hrun
      split at hrun <;> exact hrun
    · exact ⟨t, by simp [Gate.put, hmem, ht], Ticket.Moves.refl t, .inl⟩
  | @queued j _ _ _ hfresh =>
    have hij : i ≠ j := by
      rintro rfl
      rw [hfresh] at ht
      cases ht
    exact ⟨t, by simp [Gate.put, hij, ht], Ticket.Moves.refl t, .inl⟩
  | @started j u hu hfinished hcancelled henabled =>
    by_cases hij : i = j
    · subst hij
      obtain rfl := Option.some.inj (hu.symm.trans ht)
      exact ⟨{ u with running := true }, by simp [Gate.put], ⟨rfl, rfl, id, fun _ => rfl, id⟩,
        fun _ => .inr ⟨hfinished, hcancelled, henabled⟩⟩
    · exact ⟨t, by simp [Gate.put, hij, ht], Ticket.Moves.refl t, .inl⟩
  | @finished j u hu =>
    by_cases hij : i = j
    · subst hij
      obtain rfl := Option.some.inj (hu.symm.trans ht)
      exact ⟨{ u with finished := true, cancelled := true }, by simp [Gate.put],
        ⟨rfl, rfl, fun _ => rfl, id, fun _ => rfl⟩, .inl⟩
    · exact ⟨t, by simp [Gate.put, hij, ht], Ticket.Moves.refl t, .inl⟩
  | @cancelled j u hu =>
    by_cases hij : i = j
    · subst hij
      obtain rfl := Option.some.inj (hu.symm.trans ht)
      exact ⟨{ u with cancelled := true }, by simp, ⟨rfl, rfl, id, id, fun _ => rfl⟩, .inl⟩
    · exact ⟨t, by simp [hij, ht], Ticket.Moves.refl t, .inl⟩

theorem Gate.Change.fresh (hc : g.Change a g') (hnone : g.tickets i = none) (ht : g'.tickets i = some t) :
    t.running = false ∧ i ∈ (g'.get t.scope).tickets := by
  cases hc with
  | refused htickets _ => simp [htickets, hnone] at ht
  | enabled => simp [Gate.put, hnone] at ht
  | disabled => simp [Gate.put, hnone] at ht
  | @queued j d kind done _ =>
    by_cases hij : i = j
    · subst hij
      simp only [Gate.put, Function.update_self] at ht
      cases ht
      simp [Gate.signal]
    · simp [Gate.put, hij, hnone] at ht
  | @started j u hu _ _ _ | @finished j u hu =>
    by_cases hij : i = j
    · simp [hij, hu] at hnone
    · simp [Gate.put, hij, hnone] at ht
  | @cancelled j u hu =>
    by_cases hij : i = j
    · simp [hij, hu] at hnone
    · simp [hij, hnone] at ht

theorem Gate.Change.enabled_of (hc : g.Change a g') (h : (g'.get d).enabled = true) :
    (g.get d).enabled = true ∨ a = .setEnabled d true := by
  cases hc with
  | refused _ hget => exact .inl (hget d ▸ h)
  | @enabled d' =>
    by_cases hd : d = d'
    · exact .inr (by rw [hd])
    · exact .inl (by simpa [hd] using h)
  | @disabled d' =>
    by_cases hd : d = d'
    · simp [hd, Gate.signal] at h
    · exact .inl (by simpa [hd] using h)
  | @queued j d' _ _ _ =>
    by_cases hd : d = d'
    · subst hd
      exact .inl (by simpa [Gate.signal] using h)
    · exact .inl (by simpa [hd] using h)
  | @started j u _ _ _ _ | @finished j u _ =>
    by_cases hd : d = u.scope
    · subst hd
      exact .inl (by simpa [Gate.signal] using h)
    · exact .inl (by simpa [hd] using h)
  | cancelled _ => exact .inl h

theorem Gate.Change.listed (hc : g.Change a g') (hi : i ∈ (g.get d).tickets) :
    i ∈ (g'.get d).tickets ∨ ∃ t', g'.tickets i = some t' ∧ t'.finished = true := by
  cases hc with
  | refused _ hget => exact .inl (hget d ▸ hi)
  | @enabled d' | @disabled d' =>
    refine .inl ?_
    by_cases hd : d = d'
    · subst hd
      simpa [Gate.signal] using hi
    · simpa [hd] using hi
  | @queued j d' _ _ _ =>
    refine .inl ?_
    by_cases hd : d = d'
    · subst hd
      simp [Gate.signal, hi]
    · simpa [hd] using hi
  | @started j u _ _ _ _ =>
    refine .inl ?_
    by_cases hd : d = u.scope
    · subst hd
      simpa [Gate.signal] using hi
    · simpa [hd] using hi
  | @finished j u _ =>
    by_cases hij : i = j
    · subst hij
      exact .inr ⟨{ u with finished := true, cancelled := true }, by simp [Gate.put], rfl⟩
    · refine .inl ?_
      by_cases hd : d = u.scope
      · subst hd
        simp [Gate.signal, hi, hij]
      · simpa [hd] using hi
  | cancelled _ => exact .inl hi

/-! ## What holds over runs -/

def Gate.Listed (g : Gate) : Prop :=
  ∀ i t, g.tickets i = some t → t.finished = false → i ∈ (g.get t.scope).tickets

theorem Gate.listed_of_reach {ok : Gate → GateAction → Prop} (h : Reach gating ok g) : g.Listed := by
  refine h.invariant (I := Gate.Listed) (fun g hg => ?_) fun g a g' hl _ hs => ?_
  · subst hg
    intro i t ht
    cases ht
  · have hc := Gate.step_change hs
    intro i t' ht' hfinished
    cases ht : g.tickets i with
    | none => exact (hc.fresh ht ht').2
    | some t =>
      obtain ⟨u, hu, hmoves, -⟩ := hc.ticket ht
      obtain rfl := Option.some.inj (hu.symm.trans ht')
      have hbefore : t.finished = false := by
        by_contra hf
        rw [hmoves.finished (by simpa using hf)] at hfinished
        cases hfinished
      rw [hmoves.scope]
      rcases hc.listed (hl i t ht hbefore) with hmem | ⟨v, hv, hvf⟩
      · exact hmem
      · obtain rfl := Option.some.inj (hv.symm.trans ht')
        rw [hvf] at hfinished
        cases hfinished

def Gate.Spent (g : Gate) (i : Nat) : Prop :=
  ∃ t, g.tickets i = some t ∧ (t.finished = true ∨ t.running = true ∨ t.cancelled = true)

theorem Gate.Spent.step (h : g.Spent i) (hs : g.step a = some g') : g'.Spent i := by
  obtain ⟨t, ht, hspent⟩ := h
  obtain ⟨t', ht', hmoves, -⟩ := (Gate.step_change hs).ticket ht
  refine ⟨t', ht', ?_⟩
  rcases hspent with hf | hr | hc
  · exact .inl (hmoves.finished hf)
  · exact .inr (.inl (hmoves.running hr))
  · exact .inr (.inr (hmoves.cancelled hc))

theorem Gate.Spent.leads {ok : Gate → GateAction → Prop} (h : g.Spent i) (hl : g.Leads ok g') : g'.Spent i := by
  refine Reach.invariant (I := fun g => g.Spent i) (fun s hs => ?_) (fun s a s' hi _ hs => hi.step hs) hl
  rw [show s = g from hs]
  exact h

theorem Gate.Spent.refused (h : g.Spent i) (ht : g.tickets i = some t) : ∃ e, (g.start i t).2 = .error e := by
  obtain ⟨u, hu, hspent⟩ := h
  obtain rfl := Option.some.inj (hu.symm.trans ht)
  unfold Gate.start
  split
  · exact ⟨_, rfl⟩
  · rename_i hidle
    split
    · exact ⟨_, rfl⟩
    · rename_i hcancelled
      simp only [Bool.or_eq_true, not_or] at hidle
      rcases hspent with hf | hr | hc
      · exact absurd hf hidle.1
      · exact absurd hr hidle.2
      · exact absurd hc hcancelled

structure Gate.Quiet (p : Dataset → Prop) (g : Gate) : Prop where
  disabled : ∀ d, p d → (g.get d).enabled = false
  idle : ∀ i t, g.tickets i = some t → p t.scope → t.running = true → t.finished = true

theorem Gate.Quiet.step {p : Dataset → Prop} (h : g.Quiet p) (hs : g.step a = some g')
    (ha : ∀ d, p d → a ≠ .setEnabled d true) : g'.Quiet p := by
  have hc := Gate.step_change hs
  refine ⟨fun d hd => ?_, fun i t' ht' hp hrun => ?_⟩
  · by_contra hon
    rcases hc.enabled_of (by simpa using hon) with hbefore | henable
    · rw [h.disabled d hd] at hbefore
      cases hbefore
    · exact ha d hd henable
  · cases ht : g.tickets i with
    | none =>
      rw [(hc.fresh ht ht').1] at hrun
      cases hrun
    | some t =>
      obtain ⟨u, hu, hmoves, hstart⟩ := hc.ticket ht
      obtain rfl := Option.some.inj (hu.symm.trans ht')
      rw [hmoves.scope] at hp
      rcases hstart hrun with hbefore | ⟨-, -, henabled⟩
      · exact hmoves.finished (h.idle i t ht hp hbefore)
      · rw [h.disabled t.scope hp] at henabled
        cases henabled

theorem Gate.Quiet.leads {p : Dataset → Prop} (h : g.Quiet p)
    (hl : g.Leads (fun _ a => ∀ d, p d → a ≠ .setEnabled d true) g') : g'.Quiet p := by
  refine Reach.invariant (I := Gate.Quiet p) (fun s hs => ?_) (fun s a s' hi hok hs => hi.step hs hok) hl
  rw [show s = g from hs]
  exact h

theorem Gate.not_running (hl : g.Listed) (hidle : ∀ i ∈ (g.get d).tickets, g.isRunning i = false)
    (ht : g.tickets i = some t) (hscope : t.scope = d) (hrun : t.running = true) : t.finished = true := by
  by_contra hf
  have hi := hl i t ht (by simpa using hf)
  rw [hscope] at hi
  have hquiet := hidle i hi
  simp [Gate.isRunning, ht, hrun] at hquiet

theorem Gate.quiet_of_waitScope {done : Bool} (hl : g.Listed) (h : (g.waitScopeQuiescent d done).2 = .quiet) :
    g.Quiet (· = d) := by
  unfold Gate.waitScopeQuiescent at h
  dsimp only at h
  split at h
  · split at h
    · cases h
    · rename_i hoff
      split at h
      · cases h
      · rename_i hidle
        refine ⟨fun d' hd => ?_, fun i t ht hd hrun => ?_⟩
        · rw [hd]
          simpa using hoff
        · refine Gate.not_running hl (fun j hj => ?_) ht hd hrun
          by_contra hj'
          exact hidle (List.any_eq_true.mpr ⟨j, hj, by simpa using hj'⟩)
  · cases h

theorem Gate.quiet_of_wait {done : Bool} (hl : g.Listed) (h : g.waitQuiescent d done = .quiet) :
    g.Quiet fun d' => Gate.related d' d = true := by
  unfold Gate.waitQuiescent at h
  dsimp only at h
  split at h
  · split at h
    · cases h
    · rename_i hoff
      split at h
      · cases h
      · rename_i hidle
        rw [List.find?_eq_none] at hoff
        have hentry : ∀ d' s, g.scopes.lookup d' = some s → Gate.related d' d = true →
            (⟨d', s⟩ : (_ : Dataset) × GateScope) ∈ g.scopes.entries.filter fun e => Gate.related e.1 d := by
          intro d' s hs hrelated
          exact List.mem_filter.mpr ⟨AList.mem_lookup_iff.mp hs, hrelated⟩
        refine ⟨fun d' hd => ?_, fun i t ht hd hrun => ?_⟩
        · unfold Gate.get
          cases hs : g.scopes.lookup d' with
          | none => rfl
          | some s => simpa using hoff _ (hentry d' s hs hd)
        · refine Gate.not_running hl (fun j hj => ?_) ht rfl hrun
          unfold Gate.get at hj
          cases hs : g.scopes.lookup t.scope with
          | none => simp [hs] at hj
          | some s =>
            rw [hs, Option.getD_some] at hj
            by_contra hj'
            exact hidle (List.any_eq_true.mpr ⟨_, hentry _ s hs hd, List.any_eq_true.mpr ⟨j, hj, by simpa using hj'⟩⟩)
  · cases h

structure GateStops (g : Gate) : Prop where
  barred : ∀ d i t, validDataset d = true → g.tickets i = some t → t.scope = d →
    ∀ g', (g.setEnabled d false).1.Leads free g' → ∀ t', g'.tickets i = some t' → ∃ e, (g'.start i t').2 = .error e
  cancelled : ∀ d i t, validDataset d = true → g.tickets i = some t → t.scope = d → t.kind = .transfer →
    t.running = true → t.finished = false →
    ∃ t', (g.setEnabled d false).1.tickets i = some t' ∧ t'.cancelled = true
  quiescent : ∀ d done, g.waitQuiescent d done = .quiet →
    ∀ g', g.Leads (fun _ a => ∀ d', Gate.related d' d = true → a ≠ .setEnabled d' true) g' →
      ∀ i t, g'.tickets i = some t → Gate.related t.scope d = true → t.running = true → t.finished = true
  scopeQuiescent : ∀ d done, (g.waitScopeQuiescent d done).2 = .quiet →
    ∀ g', g.Leads (fun _ a => a ≠ .setEnabled d true) g' →
      ∀ i t, g'.tickets i = some t → t.scope = d → t.running = true → t.finished = true

theorem Gate.setEnabled_false (hl : g.Listed) (hd : validDataset d = true) (ht : g.tickets i = some t)
    (hscope : t.scope = d) (hunfinished : t.finished = false) :
    (g.setEnabled d false).1.tickets i = some (Gate.deactivate t) := by
  have hi := hl i t ht hunfinished
  rw [hscope] at hi
  unfold Gate.setEnabled
  rw [if_pos hd]
  simp [Gate.put, hi, ht]

theorem gate_stops (h : Reach gating free g) : GateStops g := by
  have hl := Gate.listed_of_reach h
  refine ⟨fun d i t hd ht hscope g' hleads t' ht' => ?_, fun d i t hd ht hscope hkind hrun hunfinished => ?_,
    fun d done hwait g' hleads i t ht hrelated hrun => ?_, fun d done hwait g' hleads i t ht hscope hrun => ?_⟩
  · have hspent : (g.setEnabled d false).1.Spent i := by
      cases hf : t.finished with
      | true =>
        obtain ⟨u, hu, hmoves, -⟩ := (Gate.step_change (a := .setEnabled d false) rfl).ticket ht
        exact ⟨u, hu, .inl (hmoves.finished hf)⟩
      | false =>
        refine ⟨Gate.deactivate t, Gate.setEnabled_false hl hd ht hscope hf, .inr ?_⟩
        unfold Gate.deactivate
        cases hr : t.running with
        | true => exact .inl (by split <;> simp [hr])
        | false => simp
    exact (hspent.leads hleads).refused ht'
  · refine ⟨Gate.deactivate t, Gate.setEnabled_false hl hd ht hscope hunfinished, ?_⟩
    simp [Gate.deactivate, hkind]
  · exact ((Gate.quiet_of_wait hl hwait).leads hleads).idle i t ht hrelated hrun
  · refine ((Gate.quiet_of_waitScope hl hwait).leads ?_).idle i t ht hscope hrun
    refine Reach.mono (fun s a ha d' hd => ?_) hleads
    rw [hd]
    exact ha

end Steps

/-! ### A transfer below a pool that is disabled -/

def mooredActions : List GateAction :=
  [.setEnabled ["dock", "boat"] true, .queue 0 ["dock", "boat"] .transfer false,
    .queue 1 ["dock", "boat"] .management false, .start 0]

theorem moored_stops : ∃ g, run gating mooredActions ⟨∅, fun _ => none⟩ = some g ∧
    (g.setEnabled ["dock", "boat"] false).1.waitQuiescent ["dock"] false = .pending ∧ GateStops g := by
  obtain ⟨g, hg⟩ : ∃ g, run gating mooredActions ⟨∅, fun _ => none⟩ = some g := ⟨_, rfl⟩
  refine ⟨g, hg, ?_, gate_stops (Reach.run (.init rfl) (fun _ _ => trivial) hg)⟩
  cases hg
  decide

end Boomerangz.Lifecycle
