import Boomerangz.Daemon.Pair

/-! # No endpoint is forgotten

`meets` names the steps at which an endpoint can be lost.
-/

namespace Boomerangz.Daemon

open Check Transition Zfs Policy Discovery Transfer

def Stage.early : Stage → Bool
  | .queued | .popped | .started => true
  | .begun _ _ | .ended _ _ => false

namespace Pair

variable (target : Target) (canonical : String) {a : Asked} {c : Nat}

/-! ## The property -/

def unsent (s : Pair) (x : Dataset) : Bool :=
  (s.pending.jobs (x, canonical)).isSome && (s.fresh.contains x || s.temporary.contains x)

def outstanding (s : Pair) (x : Dataset) : Bool := s.streams.contains x && s.unsent canonical x

def willQueue (s : Pair) (t : Time) : Bool :=
  !Transfers.isRemote target || s.road.all fun r => s.deadline r.2 ≤ max t s.now

/-- A job or a retry waits for the pair's endpoints. -/
def remembered (s : Pair) : Bool :=
  (s.job.any fun j => j.stage.early || s.dirty) || s.delayed.any fun d => s.willQueue target d.1

/-! ## The condition -/

/-- The attempt of the job carries the endpoint of a stream. -/
def carries (j : PairJob) (x : Dataset) : Bool :=
  (j.asked.request.streams.toOption.any fun streams => (streams.map Member.dataset).contains x) &&
    (pendingKey x canonical).isOk

/-- When the retry fires that is recorded after one for `deadline` is asked for. -/
def retryAt (s : Pair) (deadline : Time) : Time :=
  s.delayed.elim deadline fun d => if d.1 = 0 then deadline else min d.1 deadline

/-- That retry is not before the end of the backoff of the coordinator in use. -/
def reaches (s : Pair) (j : PairJob) (deadline : Time) : Bool :=
  s.road.all fun r => (if r.2 = j.coordinator then deadline else s.deadline r.2) ≤ max (s.retryAt deadline) s.now

def protectable (c : PendingSnapshot) : Bool :=
  (pendingKey c.name.base canonical).isOk && c.createTXG != 0 && c.name.isSnapshot

/-- An endpoint as new as the snapshot waits already. -/
def settled (p : PendingSet) (c : PendingSnapshot) : Bool :=
  (p.jobs (c.name.base, canonical)).any (c.createTXG ≤ ·.createTXG)

/-- The snapshots of the request's streams before the place of the fault, and those from there on. -/
def beforeFault (streams : List Dataset) (fault : Option Nat) (created : List PendingSnapshot) :
    List PendingSnapshot × List PendingSnapshot :=
  let n := fault.getD created.length
  ((created.take n).filter (streams.contains ·.name.base), (created.drop n).filter (streams.contains ·.name.base))

def closing (s : Pair) : Bool :=
  s.job.any fun j => match j.stage with
    | .ended _ true => !s.dirty
    | _ => false

/-- What a step has to meet, kind by kind. -/
def meets (s : Pair) : Action → Bool
  | .list streams => streams.all fun x => s.streams.contains x || !s.unsent canonical x
  | .enqueue a created fault =>
    let (before, after) := beforeFault (streamDatasets a.request) fault created
    before.all (protectable canonical) && after.isEmpty ||
      (before.takeWhile (protectable canonical)).all (settled canonical s.pending)
  | .attempt => s.job.all fun j => s.streams.all fun x =>
    !((s.pending.jobs (x, canonical)).isSome && s.temporary.contains x) || carries canonical j x
  | .finish (.temporary delay) _ => !Transfers.isRemote target || s.job.all fun j => match j.stage with
    | .begun since _ => s.reaches j (since + delay)
    | _ => true
  | .complete again => again.isSome || s.streams.isEmpty
  | .fire again => (again.isSome || s.streams.isEmpty) && !s.closing
  | _ => true

/-! ## What holds throughout -/

structure Steady (s : Pair) : Prop where
  past : ∀ w ∈ s.waiting, w.2.2 ≤ s.now
  due : Transfers.isRemote target = true → ∀ j, s.job = some j → j.stage.early = true →
    s.deadline j.coordinator ≤ s.now
  backoff : Transfers.isRemote target = true → ∀ a c, s.road = some (a, c) → s.now < s.deadline c →
    ∃ t p, s.delayed = some (t, p) ∧ s.deadline c ≤ t
  busy : ∀ j, s.job = some j → j.stage.early = false → ∀ x, s.outstanding canonical x = true → s.dirty = true
  closed : Transfers.isRemote target = true → s.closing = true → s.delayed.isSome = true

def Awaited (s : Pair) : Prop :=
  s.job = none → ∀ x, s.outstanding canonical x = true → s.delayed.isSome = true

variable {target canonical} {s : Pair}

theorem scheduleAt_eq (s : Pair) (t : Time) (p : Effective) :
    ∃ q, scheduleAt s.delayed t p = some (s.retryAt t, q) := by
  unfold scheduleAt retryAt
  rcases s.delayed with _ | ⟨u, q⟩
  · exact ⟨p, rfl⟩
  · by_cases hu : u = 0
    · exact ⟨p, by simp [hu]⟩
    · by_cases ht : t < u
      · exact ⟨p, by simp [hu, ht, Nat.le_of_lt ht]⟩
      · exact ⟨q, by simp [hu, ht, Nat.le_of_not_lt ht]⟩

theorem scheduleAt_isSome {t : Time} {p : Effective} : (scheduleAt s.delayed t p).isSome = true := by
  obtain ⟨q, hq⟩ := scheduleAt_eq s t p
  rw [hq]
  rfl

theorem closing_eq_true : s.closing = true ↔
    s.dirty = false ∧ ∃ a c reserved, s.job = some ⟨a, c, .ended reserved true⟩ := by
  cases hj : s.job with
  | none => simp [closing, hj]
  | some j =>
    obtain ⟨a, c, stage⟩ := j
    cases stage with
    | ended reserved temporary => cases temporary <;> simp [closing, hj]
    | _ => simp [closing, hj]

/-! ## Calls -/

theorem proceed_held (hremote : Transfers.isRemote target = true) (hheld : s.held c = true) :
    s.proceed target a c = { s with waiting := (a, c, s.now) :: s.waiting } := by
  rw [proceed, hremote, hheld, Bool.and_self, if_pos rfl]

theorem stage_of_held (h : s.held c = true) :
    ∃ j, s.job = some j ∧ j.stage.early = false := by
  unfold held at h
  split at h
  · rename_i a c' since reserved hjob
    exact ⟨_, hjob, rfl⟩
  · cases h

theorem submit_job :
    s.job = none ∧ s.submit a c = { s with job := some ⟨a, c, .queued⟩ } ∨ s.job ≠ none ∧ s.submit a c = s := by
  unfold submit
  cases s.job with
  | none => exact .inl ⟨rfl, rfl⟩
  | some j => exact .inr ⟨by simp, rfl⟩

theorem Steady.submit (h : s.Steady target canonical)
    (hdue : Transfers.isRemote target = true → s.deadline c ≤ s.now) :
    (s.submit a c).Steady target canonical ∧ (s.submit a c).Awaited canonical := by
  obtain ⟨-, heq⟩ | ⟨hjob, heq⟩ := submit_job (s := s) (a := a) (c := c)
  · rw [heq]
    refine ⟨⟨h.past, ?_, h.backoff, ?_, ?_⟩, by simp [Awaited]⟩
    · rintro hremote j hj -
      cases hj
      exact hdue hremote
    · intro j hj hlate
      cases hj
      cases hlate
    · intro _ hclosing
      obtain ⟨-, _, _, _, hended⟩ := closing_eq_true.mp hclosing
      cases hended
  · rw [heq]
    exact ⟨h, fun hnone => absurd hnone hjob⟩

theorem Steady.proceed (h : s.Steady target canonical)
    (hroad : Transfers.isRemote target = true → ∃ b, s.road = some (b, c)) :
    (s.proceed target a c).Steady target canonical ∧ (s.proceed target a c).Awaited canonical := by
  by_cases hheld : Transfers.isRemote target = true ∧ s.held c = true
  · rw [proceed_held hheld.1 hheld.2]
    obtain ⟨j, hj, -⟩ := stage_of_held hheld.2
    refine ⟨⟨?_, h.due, h.backoff, h.busy, h.closed⟩, ?_⟩
    · intro w hw
      obtain rfl | hw := List.mem_cons.mp hw
      · exact Nat.le_refl _
      · exact h.past w hw
    · intro hnone
      exact absurd (hj.symm.trans hnone) (by simp)
  · have hpass : s.proceed target a c = s.pass target a c s.now := by
      rw [Pair.proceed, if_neg]
      simpa [not_and] using hheld
    rw [hpass, pass]
    by_cases hback : Transfers.isRemote target = true ∧ s.now < s.deadline c
    · obtain ⟨b, hb⟩ := hroad hback.1
      obtain ⟨t, p, hdelayed, -⟩ := h.backoff hback.1 b c hb hback.2
      rw [if_pos (by simp [hback.1, hback.2])]
      exact ⟨h, fun _ _ _ => by simp [hdelayed]⟩
    · rw [if_neg (by simpa [not_and] using hback)]
      refine h.submit fun hremote => ?_
      exact Nat.le_of_not_lt fun hlt => hback ⟨hremote, hlt⟩

def withRoad (s : Pair) (a : Asked) : Pair :=
  { s with road := some (a, s.made), deadline := Function.update s.deadline s.made 0, made := s.made + 1 }

theorem coordinated_cases (target : Target) (s : Pair) (a : Asked) :
    Transfers.isRemote target = false ∧ s.coordinated target a = (s, 0) ∨
      (∃ b c, s.road = some (b, c) ∧ s.coordinated target a = (s, c)) ∨
      s.coordinated target a = (s.withRoad a, s.made) := by
  unfold coordinated
  cases Transfers.isRemote target with
  | false => exact .inl ⟨rfl, rfl⟩
  | true =>
    refine .inr ?_
    rw [if_pos rfl, roadFor]
    cases hroad : s.road with
    | none => exact .inr rfl
    | some r =>
      obtain ⟨b, c⟩ := r
      simp only
      split
      · exact .inl ⟨b, c, rfl, rfl⟩
      · exact .inr rfl

theorem Steady.withRoad (h : s.Steady target canonical) : (s.withRoad a).Steady target canonical := by
  refine ⟨h.past, fun hremote j hj hearly => ?_, fun hremote b c hroad hlt => ?_, h.busy, h.closed⟩
  · have hle : Function.update s.deadline s.made 0 j.coordinator ≤ s.deadline j.coordinator := by
      by_cases hc : j.coordinator = s.made
      · simp [hc]
      · simp [Function.update_of_ne hc]
    exact Nat.le_trans hle (h.due hremote j hj hearly)
  · cases hroad
    simp [Pair.withRoad] at hlt

theorem Steady.coordinated (h : s.Steady target canonical) :
    (s.coordinated target a).1.Steady target canonical ∧
      (Transfers.isRemote target = true →
        ∃ b, (s.coordinated target a).1.road = some (b, (s.coordinated target a).2)) := by
  obtain ⟨hlocal, heq⟩ | ⟨b, c, hroad, heq⟩ | heq := coordinated_cases target s a
  · rw [heq]
    exact ⟨h, fun hremote => absurd hremote (by simp [hlocal])⟩
  · rw [heq]
    exact ⟨h, fun _ => ⟨b, hroad⟩⟩
  · rw [heq]
    exact ⟨h.withRoad, fun _ => ⟨a, rfl⟩⟩

theorem coordinated_pending (target : Target) (s : Pair) (a : Asked) :
    (s.coordinated target a).1.pending = s.pending := by
  obtain ⟨-, heq⟩ | ⟨b, c, -, heq⟩ | heq := coordinated_cases target s a
  · rw [heq]
  · rw [heq]
  · rw [heq]
    rfl

theorem Awaited.coordinated (h : s.Awaited canonical) : (s.coordinated target a).1.Awaited canonical := by
  obtain ⟨-, heq⟩ | ⟨b, c, -, heq⟩ | heq := coordinated_cases target s a
  all_goals
    rw [heq]
    exact h

theorem Steady.reconcile (h : s.Steady target canonical) :
    (s.enqueue target canonical a [] none).Steady target canonical ∧
      (s.enqueue target canonical a [] none).Awaited canonical := by
  obtain ⟨hsteady, hroad⟩ := h.coordinated (a := a)
  have heq : s.enqueue target canonical a [] none =
      (s.coordinated target a).1.proceed target a (s.coordinated target a).2 := rfl
  exact hsteady.proceed hroad

theorem Steady.follow {again : Option Asked} (h : s.Steady target canonical)
    (hagain : again.isSome = true ∨ s.streams = []) :
    (s.follow target canonical again).Steady target canonical ∧
      (s.follow target canonical again).Awaited canonical := by
  cases again with
  | some a => exact h.reconcile
  | none =>
    have hnone : s.streams = [] := hagain.resolve_left (by simp)
    refine ⟨h, fun _ x hx => ?_⟩
    have hx : (s.streams.contains x && s.unsent canonical x) = true := hx
    simp [hnone] at hx

theorem protectCreated_jobs {streams : List Dataset} {p : PendingSet} {fault : Option Nat}
    {created : List PendingSnapshot} {x : Dataset}
    (hx : x ∉ (protectCreated canonical streams p fault created).2.1) :
    (protectCreated canonical streams p fault created).1.jobs (x, canonical) = p.jobs (x, canonical) := by
  induction created generalizing p fault with
  | nil => rfl
  | cons snapshot created ih =>
    unfold protectCreated at hx ⊢
    by_cases hstream : (!streams.contains snapshot.name.base) = true
    · simp only [hstream, if_true] at hx ⊢
      exact ih hx
    · simp only [hstream, Bool.false_eq_true, if_false] at hx ⊢
      by_cases hfault : fault = some 0
      · simp only [hfault, if_true]
      · simp only [hfault, if_false] at hx ⊢
        cases hc : p.coalesce snapshot.name.base canonical snapshot with
        | error e => rfl
        | ok r =>
          obtain ⟨p', result⟩ := r
          simp only [hc] at hx ⊢
          obtain ⟨hsame, rfl⟩ | ⟨hchanged, rfl⟩ := PendingSet.coalesce_eq_ok hc
          · exact ih (by simpa [hsame] using hx)
          · simp only [hchanged, if_true, List.mem_cons, not_or] at hx
            rw [ih hx.2]
            exact Function.update_of_ne (by simpa using hx.1) _ _

theorem coalesce_isOk {p : PendingSet} {c : PendingSnapshot} (h : protectable canonical c = true) :
    ∃ p' result, p.coalesce c.name.base canonical c = .ok (p', result) := by
  simp only [protectable, Bool.and_eq_true] at h
  cases hkey : pendingKey c.name.base canonical with
  | error e => simp [hkey, Except.isOk, Except.toBool] at h
  | ok key =>
    have hvalid : (c.createTXG != 0 && c.isOn c.name.base) = true := by simp [PendingSnapshot.isOn, h.1.2, h.2]
    simp only [PendingSet.coalesce, hkey, hvalid, bind, Except.bind, Check.require, if_true]
    cases p.jobs key with
    | none => exact ⟨_, _, rfl⟩
    | some current =>
      dsimp only
      split <;> exact ⟨_, _, rfl⟩

theorem protectable_of_coalesce {p p' : PendingSet} {c : PendingSnapshot} {result : CoalesceResult}
    (h : p.coalesce c.name.base canonical c = .ok (p', result)) :
    protectable canonical c = true ∧ (settled canonical p c = true → result.changed = false ∧ p' = p) := by
  simp only [PendingSet.coalesce, ok_iff, Bool.and_eq_true, PendingSnapshot.isOn] at h
  obtain ⟨key, hkey, ⟨htxg, hsnapshot, -⟩, h⟩ := h
  obtain rfl := pendingKey_eq hkey
  refine ⟨by simp [protectable, hkey, Except.isOk, Except.toBool, htxg, hsnapshot], fun hs => ?_⟩
  obtain ⟨current, hjob, hle⟩ := (Option.any_eq_true ..).mp hs
  simp only [hjob, decide_eq_true_eq.mp hle, if_true, pure_eq_ok] at h
  cases h
  exact ⟨rfl, rfl⟩

theorem beforeFault_cons {streams : List Dataset} {fault : Option Nat} {c : PendingSnapshot}
    {created : List PendingSnapshot} (hstart : fault ≠ some 0) : beforeFault streams fault (c :: created) =
      (if streams.contains c.name.base then
          c :: (beforeFault streams (fault.map (· - 1)) created).1
        else (beforeFault streams (fault.map (· - 1)) created).1,
        (beforeFault streams (fault.map (· - 1)) created).2) := by
  unfold beforeFault
  rcases fault with _ | _ | k
  · simp [List.filter_cons]
  · exact absurd rfl hstart
  · simp [List.filter_cons]

theorem protectCreated_ok {streams : List Dataset} {p : PendingSet} {fault : Option Nat}
    {created : List PendingSnapshot} (hbefore : ∀ c ∈ (beforeFault streams fault created).1, protectable canonical c = true)
    (hafter : (beforeFault streams fault created).2 = []) :
    (protectCreated canonical streams p fault created).2.2 = true := by
  induction created generalizing p fault with
  | nil => rfl
  | cons c created ih =>
    unfold protectCreated
    by_cases hstart : fault = some 0
    · subst hstart
      simp only [beforeFault, Option.getD_some, List.drop_zero, List.filter_eq_nil_iff, List.forall_mem_cons] at hafter
      simp only [eq_false_of_ne_true hafter.1, Bool.not_false, if_true]
      exact @ih p (some 0) (by simp [beforeFault]) (by simpa [beforeFault] using hafter.2)
    · rw [beforeFault_cons hstart] at hbefore hafter
      cases hc : streams.contains c.name.base with
      | false =>
        simp only [hc, Bool.false_eq_true, if_false] at hbefore
        simpa only [hc, Bool.not_false, if_true] using ih hbefore hafter
      | true =>
        simp only [hc, if_true, List.forall_mem_cons] at hbefore
        obtain ⟨p', result, hcoalesce⟩ := coalesce_isOk (p := p) hbefore.1
        simpa only [hc, Bool.not_true, Bool.false_eq_true, if_false, hstart, hcoalesce] using ih hbefore.2 hafter

theorem protectCreated_unchanged {streams : List Dataset} {p : PendingSet} {fault : Option Nat}
    {created : List PendingSnapshot}
    (h : ∀ c ∈ (beforeFault streams fault created).1.takeWhile (protectable canonical), settled canonical p c = true) :
    (protectCreated canonical streams p fault created).2.1 = [] := by
  induction created generalizing fault with
  | nil => rfl
  | cons c created ih =>
    unfold protectCreated
    by_cases hstart : fault = some 0
    · subst hstart
      cases hc : streams.contains c.name.base with
      | false => simpa only [hc, Bool.not_false, if_true] using @ih ((some 0).map (· - 1)) (by simp [beforeFault])
      | true => simp only [hc, Bool.not_true, Bool.false_eq_true, if_false, if_true]
    · rw [beforeFault_cons hstart] at h
      cases hc : streams.contains c.name.base with
      | false =>
        simp only [hc, Bool.false_eq_true, if_false] at h
        simpa only [hc, Bool.not_false, if_true] using ih h
      | true =>
        simp only [hc, Bool.not_true, Bool.false_eq_true, if_false, hstart]
        cases hcoalesce : p.coalesce c.name.base canonical c with
        | error e => rfl
        | ok r =>
          obtain ⟨hprotectable, hunchanged⟩ := protectable_of_coalesce hcoalesce
          simp only [hc, if_true, List.takeWhile_cons, hprotectable, List.forall_mem_cons] at h
          obtain ⟨hresult, rfl⟩ := hunchanged h.1
          simp only [hresult, Bool.false_eq_true, if_false]
          exact ih h.2

theorem outstanding_coalesced {p : PendingSet} {changed : List Dataset} {x : Dataset}
    (hjobs : x ∉ changed → p.jobs (x, canonical) = s.pending.jobs (x, canonical))
    (h : (s.coalesced p changed).outstanding canonical x = true) :
    x ∈ changed ∨ s.outstanding canonical x = true := by
  by_cases hx : x ∈ changed
  · exact .inl hx
  · simp only [outstanding, unsent, coalesced, hjobs hx] at h
    simp only [outstanding, unsent]
    simp_all

theorem Steady.created {created : List PendingSnapshot} {fault : Option Nat}
    (h : s.Steady target canonical) (hawaited : s.Awaited canonical)
    (hmeets : s.meets target canonical (.enqueue a created fault) = true) :
    (s.enqueue target canonical a created fault).Steady target canonical ∧
      (s.enqueue target canonical a created fault).Awaited canonical := by
  by_cases hnil : created = []
  · subst hnil
    exact h.reconcile
  · obtain ⟨hsteady, hroad⟩ := h.coordinated (a := a)
    have hawaited' : (s.coordinated target a).1.Awaited canonical := hawaited.coordinated
    have hpending := coordinated_pending target s a
    unfold enqueue
    generalize s.coordinated target a = r at *
    obtain ⟨t, c⟩ := r
    simp only at hsteady hroad hawaited' hpending ⊢
    have hmeets : (protectCreated canonical (streamDatasets a.request) s.pending fault created).2.2 = true ∨
        (protectCreated canonical (streamDatasets a.request) s.pending fault created).2.1 = [] := by
      simp only [meets, Bool.or_eq_true, Bool.and_eq_true, List.all_eq_true, List.isEmpty_iff] at hmeets
      exact hmeets.imp (fun h => protectCreated_ok h.1 h.2) protectCreated_unchanged
    rw [if_neg hnil, hpending]
    have hjobs := fun x => @protectCreated_jobs canonical (streamDatasets a.request) s.pending fault created x
    generalize protectCreated canonical (streamDatasets a.request) s.pending fault created = q at *
    obtain ⟨p, changed, ok⟩ := q
    rw [← hpending] at hjobs
    cases ok with
    | true =>
      refine Steady.proceed ⟨hsteady.past, hsteady.due, hsteady.backoff, fun _ _ _ _ _ => rfl, ?_⟩ hroad
      exact fun _ hclosing => absurd (closing_eq_true.mp hclosing).1 (by simp)
    | false =>
      have hempty : changed = [] := hmeets.resolve_left (by simp)
      subst hempty
      have hout : ∀ x, (t.coalesced p []).outstanding canonical x = true → t.outstanding canonical x = true :=
        fun x hx => (outstanding_coalesced (hjobs x) hx).resolve_left (by simp)
      refine ⟨⟨hsteady.past, hsteady.due, hsteady.backoff, ?_, hsteady.closed⟩, ?_⟩
      · intro j hj hlate x hx
        exact hsteady.busy j hj hlate x (hout x hx)
      · intro hj x hx
        exact hawaited' hj x (hout x hx)

/-! ## Runs -/

theorem Steady.early {j j' : PairJob} {dirty : Bool} (h : s.Steady target canonical) (hj : s.job = some j)
    (hearly : j.stage.early = true) (hearly' : j'.stage.early = true) (hsame : j'.coordinator = j.coordinator) :
    ({ s with job := some j', dirty := dirty } : Pair).Steady target canonical ∧
      ({ s with job := some j', dirty := dirty } : Pair).Awaited canonical := by
  refine ⟨⟨h.past, ?_, h.backoff, ?_, ?_⟩, fun hnone => by cases hnone⟩
  · rintro hremote i hi -
    cases hi
    exact hsame ▸ h.due hremote j hj hearly
  · intro i hi hlate
    cases hi
    exact absurd hearly' (by simp [hlate])
  · intro _ hclosing
    obtain ⟨-, _, _, _, hended⟩ := closing_eq_true.mp hclosing
    cases hended
    cases hearly'

theorem steady_of_late {t : Pair} {j : PairJob} (hj : t.job = some j) (hlate : j.stage.early = false)
    (hpast : ∀ w ∈ t.waiting, w.2.2 ≤ t.now)
    (hbackoff : Transfers.isRemote target = true → ∀ a c, t.road = some (a, c) → t.now < t.deadline c →
      ∃ u p, t.delayed = some (u, p) ∧ t.deadline c ≤ u)
    (hbusy : ∀ x, t.outstanding canonical x = true → t.dirty = true)
    (hclosed : Transfers.isRemote target = true → t.closing = true → t.delayed.isSome = true) :
    t.Steady target canonical ∧ t.Awaited canonical := by
  refine ⟨⟨hpast, ?_, hbackoff, fun _ _ _ => hbusy, hclosed⟩, fun hnone => ?_⟩
  · intro _ i hi hearly
    obtain rfl : j = i := Option.some.inj (hj.symm.trans hi)
    exact absurd hearly (by simp [hlate])
  · exact absurd (hj.symm.trans hnone) (by simp)

theorem closing_eq_false {stage : Stage} (hj : s.job = some ⟨a, c, stage⟩)
    (hstage : ∀ reserved, stage ≠ .ended reserved true) : ¬ s.closing = true := by
  intro hclosing
  obtain ⟨-, a', c', reserved, hended⟩ := closing_eq_true.mp hclosing
  rw [hj] at hended
  cases hended
  exact hstage reserved rfl

theorem Steady.attempt (h : s.Steady target canonical)
    (hj : s.job = some ⟨a, c, .started⟩) (hmeets : s.meets target canonical .attempt = true) :
    (s.attempt target canonical ⟨a, c, .started⟩).Steady target canonical ∧
      (s.attempt target canonical ⟨a, c, .started⟩).Awaited canonical := by
  have hopen : (Transfers.isRemote target && decide (s.now < s.deadline c)) = false := by
    cases hremote : Transfers.isRemote target with
    | false => rfl
    | true => simpa using h.due hremote _ hj rfl
  have hcarried : ∀ x ∈ s.streams, (s.pending.jobs (x, canonical)).isSome = true → x ∈ s.temporary →
      carries canonical ⟨a, c, .started⟩ x = true := by
    intro x hx hpending htemporary
    have hall : ∀ x ∈ s.streams, (s.pending.jobs (x, canonical) = none ∨ x ∉ s.temporary) ∨
        carries canonical ⟨a, c, .started⟩ x = true := by simpa [meets, hj] using hmeets
    refine (hall x hx).resolve_left ?_
    rintro (hnone | hleft)
    · simp [hnone] at hpending
    · exact hleft htemporary
  rw [Pair.attempt, if_neg (by simp [hopen])]
  cases hb : s.pending.beginStreams a.request canonical with
  | error e =>
    have hstreams : a.request.streams = .error e := by
      cases hs : a.request.streams with
      | error e' => simpa [PendingSet.beginStreams, hs, bind, Except.bind] using hb
      | ok streams => simp [PendingSet.beginStreams, hs, bind, Except.bind, pure, Except.pure] at hb
    simp only [carries, hstreams] at hcarried
    refine steady_of_late rfl rfl h.past h.backoff ?_ fun _ hclosing => absurd hclosing (closing_eq_false rfl (by simp))
    intro x hx
    simp only [outstanding, unsent, Bool.and_eq_true, Bool.or_eq_true, List.contains_iff_mem, List.not_mem_nil,
      false_or] at hx
    cases hcarried x hx.1 hx.2.1 hx.2.2
  | ok r =>
    obtain ⟨p, r', reserved⟩ := r
    obtain ⟨streams, hstreams, hreserved⟩ : ∃ streams, a.request.streams = .ok streams ∧
        (PendingSet.reserveAll canonical s.pending streams).2 = reserved := by
      simp only [PendingSet.beginStreams, ok_iff] at hb
      obtain ⟨streams, hstreams, h⟩ := hb
      cases h
      exact ⟨streams, hstreams, rfl⟩
    refine steady_of_late rfl rfl h.past h.backoff ?_ fun _ hclosing => absurd hclosing (closing_eq_false rfl (by simp))
    intro x hx
    simp only [outstanding, unsent, PendingSet.beginStreams_jobs hb, Bool.and_eq_true, Bool.or_eq_true,
      List.contains_iff_mem, List.not_mem_nil, false_or, List.mem_filter] at hx
    have hstream := hcarried x hx.1 hx.2.1 hx.2.2.1
    simp only [carries, hstreams, Except.toOption, Option.any_some, Bool.and_eq_true, List.contains_iff_mem] at hstream
    obtain ⟨r, hr, hstream⟩ := PendingSet.mem_reserveAll hstream.1 hstream.2 hx.2.1
    rw [hreserved] at hr
    have hnone : ¬ ∃ r ∈ reserved, r.stream = x := by simpa using hx.2.2.2
    exact absurd ⟨r, hr, hstream⟩ hnone

theorem outstanding_finishStreams {t : Pair} {reserved : List Reservation} {results : List StreamResult} {x : Dataset}
    (h : t.outstanding canonical x = true)
    (hpending : t.pending = s.pending.finishStreams canonical reserved results) (hstreams : t.streams = s.streams)
    (hfresh : t.fresh = s.fresh) (htemporary : t.temporary = s.temporary) : s.outstanding canonical x = true := by
  simp only [outstanding, unsent, hpending, hstreams, hfresh, htemporary, Bool.and_eq_true] at h ⊢
  obtain ⟨v, hv⟩ := Option.isSome_iff_exists.mp h.2.1
  exact ⟨h.1, Option.isSome_iff_exists.mpr ⟨v, PendingSet.finishStreams_jobs hv⟩, h.2.2⟩

theorem Steady.finish {since : Time} {reserved : List Reservation} {results : List StreamResult}
    {e : Ending} (h : s.Steady target canonical) (hj : s.job = some ⟨a, c, .begun since reserved⟩)
    (hmeets : s.meets target canonical (.finish e results) = true) :
    (s.finish target canonical ⟨a, c, .begun since reserved⟩ since reserved results e).Steady target canonical ∧
      (s.finish target canonical ⟨a, c, .begun since reserved⟩ since reserved results e).Awaited canonical := by
  have hbusy := h.busy _ hj rfl
  cases e with
  | settled reset =>
    refine steady_of_late rfl rfl h.past ?_ (fun x hx => hbusy x (outstanding_finishStreams hx rfl rfl rfl rfl))
      fun _ hclosing => absurd hclosing (closing_eq_false rfl (by simp))
    intro hremote b c' hroad hlt
    have hle : (if reset then Function.update s.deadline c 0 else s.deadline) c' ≤ s.deadline c' := by
      cases reset with
      | false => exact Nat.le_refl _
      | true =>
        by_cases hc : c' = c
        · simp [hc]
        · simp [Function.update_of_ne hc]
    obtain ⟨u, p, hdelayed, hu⟩ := h.backoff hremote b c' hroad (Nat.lt_of_lt_of_le hlt hle)
    exact ⟨u, p, hdelayed, Nat.le_trans hle hu⟩
  | temporary delay =>
    cases hremote : Transfers.isRemote target with
    | false =>
      simp only [Pair.finish, hremote, Bool.false_eq_true, if_false]
      refine steady_of_late rfl rfl h.past ?_ (fun x hx => hbusy x (outstanding_finishStreams hx rfl rfl rfl rfl)) ?_
      · simp [hremote]
      · simp [hremote]
    | true =>
      simp only [Pair.finish, hremote, if_true]
      refine steady_of_late rfl rfl h.past ?_ (fun x hx => hbusy x (outstanding_finishStreams hx rfl rfl rfl rfl))
        fun _ _ => scheduleAt_isSome
      intro _ b c' hroad hlt
      have hroad : s.road = some (b, c') := hroad
      obtain ⟨p, hdelayed⟩ := scheduleAt_eq s (since + delay) a.request.policy
      have hreach : (if c' = c then since + delay else s.deadline c') ≤ max (s.retryAt (since + delay)) s.now := by
        simpa [meets, hremote, hj, reaches, hroad] using hmeets
      refine ⟨_, p, hdelayed, ?_⟩
      have hupdate : Function.update s.deadline c (since + delay) c' =
          if c' = c then since + delay else s.deadline c' := Function.update_apply ..
      simp only [hupdate] at hlt ⊢
      exact (le_max_iff.mp hreach).resolve_right (Nat.not_le_of_lt hlt)

theorem Steady.complete {reserved : List Reservation} {temporary : Bool} {again : Option Asked}
    (h : s.Steady target canonical) (hj : s.job = some ⟨a, c, .ended reserved temporary⟩)
    (hmeets : s.meets target canonical (.complete again) = true) :
    (s.complete target canonical ⟨a, c, .ended reserved temporary⟩ reserved temporary again).Steady target canonical ∧
      (s.complete target canonical ⟨a, c, .ended reserved temporary⟩ reserved temporary again).Awaited canonical := by
  have hidle : ∀ l dirty, ({ s with job := none, temporary := l, dirty := dirty } : Pair).Steady target canonical := by
    intro l dirty
    refine ⟨h.past, by simp, h.backoff, by simp, ?_⟩
    intro _ hclosing
    obtain ⟨-, _, _, _, hended⟩ := closing_eq_true.mp hclosing
    cases hended
  cases hdirty : s.dirty with
  | true =>
    simp only [Pair.complete, hdirty, if_true]
    refine (hidle _ _).follow ?_
    simpa [meets] using hmeets
  | false =>
    -- Nothing was outstanding, so only what the attempt left is.
    have hnone : ∀ x, ¬ s.outstanding canonical x = true := by
      intro x hx
      exact absurd (h.busy _ hj rfl x hx) (by simp [hdirty])
    have hleft : ∀ l x, (temporary = false → l = s.temporary) →
        ({ s with job := none, temporary := l, dirty := false } : Pair).outstanding canonical x = true →
        temporary = true := by
      intro l x hl hx
      cases temporary with
      | true => rfl
      | false => exact absurd (by simpa [outstanding, unsent, hl rfl] using hx) (hnone x)
    simp only [Pair.complete, hdirty, Bool.false_eq_true, if_false]
    by_cases hlocal : (temporary && !Transfers.isRemote target) = true
    · rw [if_pos hlocal]
      simp only [Bool.and_eq_true, Bool.not_eq_true'] at hlocal
      have hremote := hlocal.2
      refine ⟨⟨h.past, by simp, by simp [hremote], by simp, by simp [hremote]⟩, ?_⟩
      intro _ _ _
      exact scheduleAt_isSome
    · rw [if_neg hlocal]
      refine ⟨hidle _ _, fun _ x hx => ?_⟩
      obtain rfl : temporary = true := hleft _ x (by simp +contextual) hx
      have hremote : Transfers.isRemote target = true := by simpa using hlocal
      exact h.closed hremote (closing_eq_true.mpr ⟨hdirty, a, c, reserved, hj⟩)

theorem Steady.fire {t : Time} {p : Effective} {again : Option Asked} (h : s.Steady target canonical)
    (hdelayed : s.delayed = some (t, p)) (hdue : t ≤ s.now)
    (hmeets : s.meets target canonical (.fire again) = true) :
    (({ s with delayed := none } : Pair).follow target canonical again).Steady target canonical ∧
      (({ s with delayed := none } : Pair).follow target canonical again).Awaited canonical := by
  obtain ⟨hagain, hclosing⟩ : (again.isSome = true ∨ s.streams = []) ∧ s.closing = false := by
    simpa [meets] using hmeets
  refine Steady.follow ⟨h.past, h.due, ?_, h.busy, ?_⟩ hagain
  · intro hremote a c hroad hlt
    obtain ⟨u, q, hu, hle⟩ := h.backoff hremote a c hroad hlt
    cases hdelayed.symm.trans hu
    exact absurd hlt (Nat.not_lt.mpr (Nat.le_trans hle hdue))
  · intro _ hstill
    exact absurd hstill (by simpa [closing] using hclosing)

theorem Steady.step {act : Action} {s' : Pair} (h : s.Steady target canonical) (hawaited : s.Awaited canonical)
    (hmeets : s.meets target canonical act = true) (hs : s.step target canonical act = some s') :
    s'.Steady target canonical ∧ s'.Awaited canonical := by
  cases act with
  | clock t =>
    simp only [Pair.step, Option.ite_none_right_eq_some, Option.some.injEq] at hs
    obtain ⟨hle, rfl⟩ := hs
    refine ⟨⟨?_, ?_, ?_, h.busy, h.closed⟩, hawaited⟩
    · exact fun w hw => Nat.le_trans (h.past w hw) hle
    · exact fun hremote j hj hearly => Nat.le_trans (h.due hremote j hj hearly) hle
    · exact fun hremote a c hroad hlt => h.backoff hremote a c hroad (Nat.lt_of_le_of_lt hle hlt)
  | list streams =>
    cases hs
    have hout : ∀ x, ({ s with streams := streams } : Pair).outstanding canonical x = true →
        s.outstanding canonical x = true := by
      intro x hx
      simp only [outstanding, Bool.and_eq_true, List.contains_iff_mem] at hx ⊢
      have hjoin : ∀ x ∈ streams, x ∈ s.streams ∨ s.unsent canonical x = false := by simpa [meets] using hmeets
      refine ⟨(hjoin x hx.1).resolve_right ?_, hx.2⟩
      exact fun hsent => absurd (show s.unsent canonical x = true from hx.2) (by simp [hsent])
    refine ⟨⟨h.past, h.due, h.backoff, ?_, h.closed⟩, fun hj x hx => hawaited hj x (hout x hx)⟩
    exact fun j hj hlate x hx => h.busy j hj hlate x (hout x hx)
  | enqueue a created fault =>
    cases hs
    exact h.created hawaited hmeets
  | resume a c time =>
    simp only [Pair.step, Option.ite_none_right_eq_some, Option.some.injEq] at hs
    obtain ⟨⟨hw, -⟩, rfl⟩ := hs
    have herased : ({ s with waiting := s.waiting.erase (a, c, time) } : Pair).Steady target canonical :=
      ⟨fun w hw => h.past w (List.mem_of_mem_erase hw), h.due, h.backoff, h.busy, h.closed⟩
    rw [pass]
    by_cases hback : (Transfers.isRemote target && decide (time < s.deadline c)) = true
    · rw [if_pos hback]
      exact ⟨herased, hawaited⟩
    · rw [if_neg hback]
      refine herased.submit fun hremote => ?_
      have hle : s.deadline c ≤ time := by simpa [hremote] using hback
      exact Nat.le_trans hle (h.past _ hw)
  | pop | start =>
    simp only [Pair.step] at hs
    split at hs
    · rename_i a c hj
      cases hs
      exact h.early hj rfl rfl rfl
    · cases hs
  | attempt =>
    simp only [Pair.step] at hs
    split at hs
    · rename_i a c hj
      cases hs
      exact h.attempt hj hmeets
    · cases hs
  | finish e results =>
    simp only [Pair.step] at hs
    split at hs
    · rename_i a c since reserved hj
      obtain ⟨-, hs⟩ := Option.ite_none_left_eq_some.mp hs
      cases hs
      exact h.finish hj hmeets
    · cases hs
  | complete again =>
    simp only [Pair.step] at hs
    split at hs
    · rename_i a c reserved temporary hj
      obtain ⟨-, hs⟩ := Option.ite_none_right_eq_some.mp hs
      cases hs
      exact h.complete hj hmeets
    · cases hs
  | fire again =>
    simp only [Pair.step] at hs
    split at hs
    · rename_i t p hdelayed
      obtain ⟨⟨hdue, -⟩, hs⟩ := Option.ite_none_right_eq_some.mp hs
      cases hs
      exact h.fire hdelayed hdue hmeets
    · cases hs

theorem Steady.remembered (h : s.Steady target canonical) (hawaited : s.Awaited canonical) {x : Dataset}
    (hx : s.outstanding canonical x = true) : s.remembered target = true := by
  cases hj : s.job with
  | some j =>
    cases hearly : j.stage.early with
    | true => simp [Pair.remembered, hj, hearly]
    | false => simp [Pair.remembered, hj, h.busy j hj hearly x hx]
  | none =>
    obtain ⟨⟨t, p⟩, hdelayed⟩ := Option.isSome_iff_exists.mp (hawaited hj x hx)
    have hqueue : s.willQueue target t = true := by
      cases hremote : Transfers.isRemote target with
      | false => simp [willQueue, hremote]
      | true =>
        cases hroad : s.road with
        | none => simp [willQueue, hroad]
        | some r =>
          have hle : s.deadline r.2 ≤ max t s.now := by
            by_cases hlt : s.now < s.deadline r.2
            · obtain ⟨u, q, hu, hle⟩ := h.backoff hremote r.1 r.2 hroad hlt
              cases hdelayed.symm.trans hu
              exact le_max_of_le_left hle
            · exact le_max_of_le_right (Nat.le_of_not_lt hlt)
          simp only [willQueue, hroad, Option.all_some, Bool.or_eq_true, decide_eq_true_eq]
          exact .inr hle
    simp [Pair.remembered, hdelayed, hqueue]

end Pair

/-- In every run whose steps meet the condition, a job, a mark or a retry waits for every endpoint that no attempt has
carried or whose last attempt ended as temporary. -/
theorem endpoints_remembered (target : Target) (canonical : String) {s : Pair}
    (h : Reach (pairTransfers target canonical) (fun s a => s.meets target canonical a = true) s) (x : Dataset)
    (hx : s.outstanding canonical x = true) : s.remembered target = true := by
  have hinv : s.Steady target canonical ∧ s.Awaited canonical := by
    refine h.invariant (I := fun s => s.Steady target canonical ∧ s.Awaited canonical) ?_
      fun s a s' hi hok hs => hi.1.step hi.2 hok hs
    rintro s ⟨hroad, hjob, hwaiting, -, -, hfresh, htemporary⟩
    refine ⟨⟨by simp [hwaiting], by simp [hjob], by simp [hroad], by simp [hjob], ?_⟩, ?_⟩
    · intro _ hclosing
      obtain ⟨-, _, _, _, hended⟩ := Pair.closing_eq_true.mp hclosing
      rw [hjob] at hended
      cases hended
    · intro _ x hx
      simp [Pair.outstanding, Pair.unsent, hfresh, htemporary] at hx
  exact hinv.1.remembered hinv.2 hx

/-! ### A root that sends to one remote -/

def skiffGrid : Grid := .windows 3 20

def skiffAsked (members : List Dataset) : Asked where
  request := ⟨["skiff"], ["port"], none, .plain skiffGrid [] [], members.map (⟨·, .plain skiffGrid [] [], none⟩),
    .ssh, "port", "ssh:port"⟩
  hostLocal := false

def skiffSnapshot (d : Dataset) : PendingSnapshot := ⟨.snapshot d (.other "s1"), 31⟩

def skiffStart : Pair where
  now := 1
  streams := [["skiff"], ["skiff", "oar"]]
  pending := ⟨fun _ => none, fun _ => none⟩
  road := none
  deadline := fun _ => 0
  made := 0
  job := none
  waiting := []
  dirty := false
  delayed := none
  fresh := []
  temporary := []

def skiffRun (delay : Nat) : List Pair.Action := [.pop, .start, .attempt, .finish (.temporary delay) []]

def skiffTried : List Pair.Action :=
  .enqueue (skiffAsked []) [skiffSnapshot ["skiff"]] none :: skiffRun 5 ++ [.complete (some (skiffAsked []))]

/-- A reconciliation is quicker than the retry that is due, which then fires inside the backoff. -/
def skiffOvertaken : List Pair.Action :=
  skiffTried ++ .clock 6 :: .enqueue (skiffAsked []) [] none :: skiffRun 10 ++
    [.complete (some (skiffAsked [])), .fire (some (skiffAsked []))]

def skiffSlow : List Pair.Action :=
  [.enqueue (skiffAsked []) [skiffSnapshot ["skiff"]] none, .pop, .start, .attempt, .clock 100,
    .finish (.temporary 5) [], .fire (some (skiffAsked [])), .complete (some (skiffAsked []))]

def skiffHalf : List Pair.Action :=
  [.enqueue (skiffAsked [["skiff"], ["skiff", "oar"]]) [skiffSnapshot ["skiff"], skiffSnapshot ["skiff", "oar"]]
    (some 1)]

def SkiffForgotten (actions : List Pair.Action) : Prop := ∃ s : Pair,
  run (pairTransfers (.remote "port") "ssh:port") actions skiffStart = some s ∧
    Reach (pairTransfers (.remote "port") "ssh:port") free s ∧ s.outstanding "ssh:port" ["skiff"] = true ∧
    s.job = none ∧ s.delayed = none ∧ s.remembered (.remote "port") = false

/-- Three ways to an endpoint that nothing waits for. -/
theorem endpoint_forgotten :
    SkiffForgotten skiffOvertaken ∧ SkiffForgotten skiffSlow ∧ SkiffForgotten skiffHalf := by
  have hinit : (pairTransfers (.remote "port") "ssh:port").init skiffStart := ⟨rfl, rfl, rfl, rfl, rfl, rfl, rfl⟩
  have hlost : ∀ actions, (run (pairTransfers (.remote "port") "ssh:port") actions skiffStart).any (fun s =>
      s.outstanding "ssh:port" ["skiff"] && s.job.isNone && s.delayed.isNone && !s.remembered (.remote "port")) =
        true → SkiffForgotten actions := by
    intro actions hany
    obtain ⟨s, hs, h⟩ := (Option.any_eq_true ..).mp hany
    simp only [Bool.and_eq_true, Option.isNone_iff_eq_none, Bool.not_eq_true'] at h
    exact ⟨s, hs, Reach.run (.init hinit) (fun _ _ => trivial) hs, h.1.1.1, h.1.1.2, h.1.2, h.2⟩
  exact ⟨hlost _ (by decide), hlost _ (by decide), hlost _ (by decide)⟩

theorem endpoint_retried : ∃ s : Pair,
    Reach (pairTransfers (.remote "port") "ssh:port")
      (fun s a => s.meets (.remote "port") "ssh:port" a = true) s ∧
    s.outstanding "ssh:port" ["skiff"] = true ∧ s.job = none ∧ s.remembered (.remote "port") = true := by
  obtain ⟨s, hs⟩ : ∃ s, runOk (pairTransfers (.remote "port") "ssh:port") (Pair.meets (.remote "port") "ssh:port")
      skiffTried skiffStart = some s := ⟨_, rfl⟩
  have hinit : (pairTransfers (.remote "port") "ssh:port").init skiffStart := ⟨rfl, rfl, rfl, rfl, rfl, rfl, rfl⟩
  have hreach := Reach.runOk (.init hinit) hs
  have hout : s.outstanding "ssh:port" ["skiff"] = true ∧ s.job = none := by
    cases hs
    decide
  exact ⟨s, hreach, hout.1, hout.2, endpoints_remembered _ _ hreach ["skiff"] hout.1⟩

end Boomerangz.Daemon
