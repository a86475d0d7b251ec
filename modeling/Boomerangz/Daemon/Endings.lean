import Boomerangz.Daemon.FairQueue
import Boomerangz.Lib.Run
import Mathlib.Algebra.Order.Group.Multiset

/-! # How accepted jobs end

Every section under a mutex and every call of a job's function is a step; the books count where each job is.
-/

open Transition

namespace Boomerangz.Daemon

/-! ## Books -/

/-- Where the submitted jobs are. -/
structure Books where
  claims : Multiset QueueJob
  queued : Multiset QueueJob
  held : Multiset QueueJob
  spent : Multiset QueueJob
  finished : Multiset QueueJob
  accepted : Multiset QueueJob
  calls : Multiset QueueJob
  known : List String
  next : Nat

namespace Books

def forget (known : List String) (id : String) : List String := known.filter (· != id)

inductive Step : Books → Books → Prop where
  | stay (b : Books) : Step b b
  | claim (b : Books) (j : QueueJob) (hid : j.id ∉ b.known) (hnumber : j.number = b.next) :
    Step b { b with claims := j ::ₘ b.claims, known := j.id :: b.known, next := b.next + 1 }
  | accept (b : Books) (j : QueueJob) (claims : Multiset QueueJob) (hclaims : b.claims = j ::ₘ claims) :
    Step b { b with claims := claims, queued := j ::ₘ b.queued, accepted := j ::ₘ b.accepted }
  | refuse (b : Books) (j : QueueJob) (claims : Multiset QueueJob) (hclaims : b.claims = j ::ₘ claims) :
    Step b { b with claims := claims, known := forget b.known j.id }
  | take (b : Books) (taken queued : Multiset QueueJob) (hqueued : b.queued = taken + queued) :
    Step b { b with queued := queued, held := taken + b.held }
  | call (b : Books) (j : QueueJob) :
    Step b { b with spent := j ::ₘ b.spent, calls := j ::ₘ b.calls }
  | finish (b : Books) (j : QueueJob) (held spent : Multiset QueueJob) (hheld : b.held = j ::ₘ held)
      (hspent : b.spent = j ::ₘ spent) :
    Step b { b with held := held, spent := spent, finished := j ::ₘ b.finished, known := forget b.known j.id }

def live (b : Books) : Multiset QueueJob := b.claims + (b.held + b.queued)

structure Balanced (b : Books) : Prop where
  places : b.accepted = b.held + b.queued + b.finished
  numbers : ((b.claims + b.accepted).map QueueJob.number).Nodup
  below : ∀ j ∈ b.claims + b.accepted, j.number < b.next
  ids : (b.live.map QueueJob.id).Nodup
  known : ∀ id, id ∈ b.known ↔ ∃ j ∈ b.live, j.id = id
  calls : b.calls = b.spent + b.finished

variable {b b' : Books} {j : QueueJob}

theorem known_forget {live : Multiset QueueJob} (hids : (b.live.map QueueJob.id).Nodup)
    (hknown : ∀ id, id ∈ b.known ↔ ∃ j ∈ b.live, j.id = id) (hlive : b.live = j ::ₘ live) (id : String) :
    id ∈ forget b.known j.id ↔ ∃ k ∈ live, k.id = id := by
  rw [hlive, Multiset.map_cons, Multiset.nodup_cons] at hids
  unfold forget
  rw [List.mem_filter, hknown, hlive]
  constructor
  · rintro ⟨⟨k, hk, rfl⟩, hne⟩
    rcases Multiset.mem_cons.mp hk with rfl | hk
    · simp at hne
    · exact ⟨k, hk, rfl⟩
  · rintro ⟨k, hk, rfl⟩
    refine ⟨⟨k, Multiset.mem_cons_of_mem hk, rfl⟩, ?_⟩
    rw [bne_iff_ne]
    exact fun heq => hids.1 (heq ▸ Multiset.mem_map_of_mem _ hk)

theorem Balanced.moved (h : b.Balanced) (hall : b'.claims + b'.accepted = b.claims + b.accepted)
    (hlive : b'.live = b.live) (hknown : b'.known = b.known) (hnext : b'.next = b.next)
    (hplaces : b'.accepted = b'.held + b'.queued + b'.finished) (hcalls : b'.calls = b'.spent + b'.finished) :
    b'.Balanced := by
  refine ⟨hplaces, ?_, ?_, ?_, ?_, hcalls⟩
  · exact hall ▸ h.numbers
  · exact hall ▸ hnext ▸ h.below
  · exact hlive ▸ h.ids
  · exact hlive ▸ hknown ▸ h.known

theorem Balanced.step (h : b.Balanced) (hs : Step b b') : b'.Balanced := by
  cases hs with
  | stay => exact h
  | claim j hid hnumber =>
    refine ⟨h.places, ?_, ?_, ?_, ?_, h.calls⟩
    · rw [Multiset.cons_add, Multiset.map_cons, Multiset.nodup_cons]
      refine ⟨fun hmem => ?_, h.numbers⟩
      obtain ⟨k, hk, heq⟩ := Multiset.mem_map.mp hmem
      have := h.below k hk
      omega
    · intro k hk
      rw [Multiset.cons_add, Multiset.mem_cons] at hk
      rcases hk with rfl | hk
      · dsimp only
        omega
      · exact Nat.lt_succ_of_lt (h.below k hk)
    · unfold live
      rw [Multiset.cons_add, Multiset.map_cons, Multiset.nodup_cons]
      refine ⟨fun hmem => hid ((h.known _).mpr ?_), h.ids⟩
      exact Multiset.mem_map.mp hmem
    · intro id
      unfold live
      simp only [Multiset.cons_add, Multiset.mem_cons, List.mem_cons, h.known, or_and_right, exists_or, exists_eq_left]
      exact or_congr_left eq_comm
  | accept j claims hclaims =>
    refine h.moved ?_ ?_ rfl rfl ?_ h.calls
    · simp [hclaims]
    · simp [live, hclaims]
    · simp [h.places]
  | refuse j claims hclaims =>
    have hlive : b.live = j ::ₘ (claims + (b.held + b.queued)) := by unfold live; rw [hclaims]; simp
    have hids := h.ids
    have hnumbers := h.numbers
    rw [hlive, Multiset.map_cons, Multiset.nodup_cons] at hids
    rw [hclaims, Multiset.cons_add, Multiset.map_cons, Multiset.nodup_cons] at hnumbers
    refine ⟨h.places, hnumbers.2, fun k hk => ?_, hids.2, known_forget h.ids h.known hlive, h.calls⟩
    exact h.below k (by rw [hclaims, Multiset.cons_add]; exact Multiset.mem_cons_of_mem hk)
  | take taken queued hqueued =>
    refine h.moved rfl ?_ rfl rfl ?_ h.calls
    · simp only [live, hqueued]
      ac_rfl
    · simp only [h.places, hqueued]
      ac_rfl
  | call j => exact ⟨h.places, h.numbers, h.below, h.ids, h.known, by simp [h.calls]⟩
  | finish j held spent hheld hspent =>
    have hlive : b.live = j ::ₘ (b.claims + (held + b.queued)) := by unfold live; rw [hheld]; simp
    have hids := h.ids
    rw [hlive, Multiset.map_cons, Multiset.nodup_cons] at hids
    refine ⟨?_, h.numbers, h.below, hids.2, known_forget h.ids h.known hlive, ?_⟩
    · simp [h.places, hheld]
    · simp [h.calls, hspent]

end Books

/-! ## The pool's threads -/

inductive Hold where
  | popped
  | cancelled
  | dropped
  | locking
  | abandoned
  | locked
  | running
deriving DecidableEq, Repr

inductive Thread where
  /-- `Submit`, with the ID taken, before `Offer` -/
  | submitting (job : QueueJob)
  /-- `Submit`, after `Offer` did not add the job -/
  | refused (job : QueueJob)
  /-- a worker before `Pop`; `retired` says that `Resize` cancelled its own context -/
  | idle (retired : Bool)
  | holding (retired : Bool) (hold : Hold) (job : QueueJob)
  /-- a worker after a run -/
  | leaving (retired : Bool)
  /-- `RemoveScope` or `DiscardPending`, before the job's `Drop` and in it -/
  | removing (job : QueueJob)
  | removed (job : QueueJob)
deriving DecidableEq, Repr

namespace Thread

def claims : Thread → Option QueueJob
  | .submitting job => some job
  | .refused job => some job
  | _ => none

def holds : Thread → Option QueueJob
  | .holding _ _ job => some job
  | .removing job => some job
  | .removed job => some job
  | _ => none

def spends : Thread → Option QueueJob
  | .holding _ .dropped job => some job
  | .holding _ .abandoned job => some job
  | .holding _ .running job => some job
  | .removed job => some job
  | _ => none

def retire : Thread → Option Thread
  | .idle _ => some (.idle true)
  | .holding _ hold job => some (.holding true hold job)
  | .leaving _ => some (.leaving true)
  | _ => none

end Thread

inductive JobEnd where
  | run
  | drop
  | lockFailed
deriving DecidableEq, Repr

structure Pooling where
  queue : FairQueue
  known : List String
  stopped : Bool
  threads : List Thread
  next : Nat
  accepted : List QueueJob
  finished : List QueueJob
  calls : List (JobEnd × QueueJob)

inductive PoolAction where
  | submit (job : QueueJob)
  | advance (t : Thread)
  | addWorker
  | retire (t : Thread)
  | removeScope (scope : String)
  | discardPending
  | close
  | cancel
deriving DecidableEq, Repr

namespace Pooling

variable (s : Pooling)

def put (t : Thread) (ts : List Thread) : Pooling := { s with threads := ts ++ s.threads.erase t }

def complete (job : QueueJob) : Pooling :=
  { s with known := Books.forget s.known job.id, finished := job :: s.finished }

def advance (t : Thread) : Option Pooling :=
  match t with
  | .submitting job =>
    match s.queue.offer job with
    | .ok (some queue) => some { s.put t [] with queue := queue, accepted := job :: s.accepted }
    | _ => some (s.put t [.refused job])
  | .refused job => some { s.put t [] with known := Books.forget s.known job.id }
  | .idle retired =>
    match s.queue.pop with
    | some (job, queue) => some { s.put t [.holding retired .popped job] with queue := queue }
    | none => if s.queue.closed || retired || s.stopped then some (s.put t []) else none
  | .leaving retired => some (s.put t (if retired || s.stopped then [] else [.idle retired]))
  | .holding retired hold job =>
    match hold with
    | .popped => some (s.put t [.holding retired (if s.stopped then .cancelled else .locking) job])
    | .cancelled => some { s.put t [.holding retired .dropped job] with calls := (.drop, job) :: s.calls }
    | .dropped => some ((s.put t [.idle retired]).complete job)
    | .locking =>
      -- an empty key is not locked, and its context is not looked at
      if s.stopped && job.lockKey != "" then
        some { s.put t [.holding retired .abandoned job] with calls := (.lockFailed, job) :: s.calls }
      else some (s.put t [.holding retired .locked job])
    | .abandoned => some ((s.put t [.idle retired]).complete job)
    | .locked => some { s.put t [.holding retired .running job] with calls := (.run, job) :: s.calls }
    | .running => some ((s.put t [.leaving retired]).complete job)
  | .removing job => some { s.put t [.removed job] with calls := (.drop, job) :: s.calls }
  | .removed job => some ((s.put t []).complete job)

/-- `RemoveScope` and `DiscardPending` up to the calls of `Drop`. -/
def remove (result : List QueueJob × FairQueue) : Pooling :=
  { s with queue := result.2, threads := result.1.map Thread.removing ++ s.threads }

def step : PoolAction → Option Pooling
  | .submit job =>
    if s.known.contains job.id then some s
    else
      let job := { job with number := s.next }
      some { s with known := job.id :: s.known, threads := .submitting job :: s.threads, next := s.next + 1 }
  | .advance t => if t ∈ s.threads then s.advance t else none
  | .addWorker => some { s with threads := .idle false :: s.threads }
  | .retire t => if t ∈ s.threads then t.retire.map fun t' => s.put t [t'] else none
  | .removeScope scope => some (s.remove (s.queue.removeScope scope))
  | .discardPending => some (s.remove s.queue.discardAll)
  | .close => some { s with queue := s.queue.close }
  | .cancel => some { s with stopped := true }

def held : List QueueJob := s.threads.filterMap Thread.holds

def submitted : List QueueJob := s.threads.filterMap Thread.claims

def books : Books where
  claims := s.submitted
  queued := s.queue.jobs
  held := s.held
  spent := s.threads.filterMap Thread.spends
  finished := s.finished
  accepted := s.accepted
  calls := s.calls.map Prod.snd
  known := s.known
  next := s.next

end Pooling

def emptyPool (capacity : Nat) : Pooling :=
  ⟨⟨capacity, 0, fun _ => [], [], [], false⟩, [], false, [], 0, [], [], []⟩

def pooling (capacity : Nat) : System Pooling PoolAction where
  init s := s = emptyPool capacity
  step := Pooling.step

/-! ## Steps -/

namespace Pooling

variable {s s' : Pooling} {t : Thread}

theorem books_front (ht : t ∈ s.threads) : s.books = (s.put t [t]).books := by
  have hperm : s.threads.Perm ([t] ++ s.threads.erase t) := List.perm_cons_erase ht
  have hcoe : ∀ f : Thread → Option QueueJob,
      (s.threads.filterMap f : Multiset QueueJob) = ([t] ++ s.threads.erase t).filterMap f :=
    fun f => Multiset.coe_eq_coe.mpr (hperm.filterMap f)
  simp only [books, submitted, held, put, hcoe]

theorem books_queue {b : Books} {queued : Multiset QueueJob} (hjobs : s.queue.jobs = queued)
    (h : Books.Step b { s.books with queued := queued }) : Books.Step b s.books := by
  subst hjobs
  exact h

theorem books_advance (hfair : s.queue.Fair) (ht : t ∈ s.threads) (hs : s.advance t = some s') :
    s'.queue.Fair ∧ Books.Step s.books s'.books := by
  rw [books_front ht]
  cases t with
  | submitting job =>
    dsimp only [advance] at hs
    split at hs
    · rename_i queue hoffer
      cases hs
      obtain ⟨hfair', hjobs⟩ := hfair.offer hoffer
      refine ⟨hfair', books_queue (Multiset.coe_eq_coe.mpr hjobs) ?_⟩
      exact Books.Step.accept _ job _ rfl
    · cases hs
      exact ⟨hfair, Books.Step.stay _⟩
  | refused job =>
    cases hs
    exact ⟨hfair, Books.Step.refuse _ job _ rfl⟩
  | idle retired =>
    dsimp only [advance] at hs
    split at hs
    · rename_i job queue hpop
      cases hs
      obtain ⟨hfair', hjobs⟩ := hfair.pop hpop
      exact ⟨hfair', Books.Step.take _ {job} queue.jobs (Multiset.coe_eq_coe.mpr hjobs)⟩
    · split at hs
      · cases hs
        exact ⟨hfair, Books.Step.stay _⟩
      · cases hs
  | holding retired hold job =>
    cases hold with
    | popped =>
      cases hs
      refine ⟨hfair, ?_⟩
      cases s.stopped
      · exact Books.Step.stay _
      · exact Books.Step.stay _
    | cancelled | locked =>
      cases hs
      exact ⟨hfair, Books.Step.call _ job⟩
    | dropped | abandoned | running =>
      cases hs
      exact ⟨hfair, Books.Step.finish _ job _ _ rfl rfl⟩
    | locking =>
      dsimp only [advance] at hs
      split at hs
      · cases hs
        exact ⟨hfair, Books.Step.call _ job⟩
      · cases hs
        exact ⟨hfair, Books.Step.stay _⟩
  | leaving retired =>
    cases hs
    refine ⟨hfair, ?_⟩
    cases retired || s.stopped
    · exact Books.Step.stay _
    · exact Books.Step.stay _
  | removing job =>
    cases hs
    exact ⟨hfair, Books.Step.call _ job⟩
  | removed job =>
    cases hs
    exact ⟨hfair, Books.Step.finish _ job _ _ rfl rfl⟩

theorem books_remove {result : List QueueJob × FairQueue} (hjobs : s.queue.jobs.Perm (result.1 ++ result.2.jobs)) :
    Books.Step s.books (s.remove result).books := by
  have hnone : ∀ f : Thread → Option QueueJob, (∀ j, f (.removing j) = none) →
      (s.remove result).threads.filterMap f = s.threads.filterMap f := by
    intro f hf
    have hmap : (result.1.map Thread.removing).filterMap f = [] := by
      rw [List.filterMap_map, List.filterMap_eq_nil_iff]
      exact fun j _ => hf j
    rw [remove, List.filterMap_append, hmap, List.nil_append]
  have hheld : (s.remove result).held = result.1 ++ s.held := by
    have hmap : (result.1.map Thread.removing).filterMap Thread.holds = result.1 := by
      rw [List.filterMap_map]
      exact List.filterMap_some
    rw [held, remove, List.filterMap_append, hmap, held]
  have hstep := Books.Step.take s.books result.1 result.2.jobs (Multiset.coe_eq_coe.mpr hjobs)
  have hbooks : (s.remove result).books =
      { s.books with queued := result.2.jobs, held := (result.1 : Multiset QueueJob) + s.books.held } := by
    simp only [books, submitted, hheld, hnone Thread.claims fun _ => rfl, hnone Thread.spends fun _ => rfl]
    rfl
  exact hbooks ▸ hstep

theorem books_retire {t' : Thread} (ht : t ∈ s.threads) (hr : t.retire = some t') : (s.put t [t']).books = s.books := by
  rw [books_front ht]
  cases t with
  | idle _ => cases hr; rfl
  | holding _ hold _ => cases hr; cases hold <;> rfl
  | leaving _ => cases hr; rfl
  | _ => cases hr

theorem books_step {a : PoolAction} (hfair : s.queue.Fair) (hs : s.step a = some s') :
    s'.queue.Fair ∧ Books.Step s.books s'.books := by
  cases a with
  | submit job =>
    dsimp only [step] at hs
    split at hs
    · cases hs
      exact ⟨hfair, Books.Step.stay _⟩
    · rename_i hnew
      rw [List.contains_iff_mem] at hnew
      cases hs
      exact ⟨hfair, Books.Step.claim _ { job with number := s.next } hnew rfl⟩
  | advance t =>
    dsimp only [step] at hs
    split at hs
    · rename_i ht
      exact books_advance hfair ht hs
    · cases hs
  | addWorker =>
    cases hs
    exact ⟨hfair, Books.Step.stay _⟩
  | retire t =>
    dsimp only [step] at hs
    split at hs
    · rename_i ht
      obtain ⟨t', hr, rfl⟩ := Option.map_eq_some_iff.mp hs
      rw [books_retire ht hr]
      exact ⟨hfair, Books.Step.stay _⟩
    · cases hs
  | removeScope scope =>
    cases hs
    obtain ⟨hfair', hjobs⟩ := hfair.removeScope scope
    exact ⟨hfair', books_remove hjobs⟩
  | discardPending =>
    cases hs
    obtain ⟨hfair', hjobs⟩ := FairQueue.fair_discardAll (q := s.queue)
    exact ⟨hfair', books_remove hjobs⟩
  | close =>
    cases hs
    exact ⟨hfair.close, Books.Step.stay _⟩
  | cancel =>
    cases hs
    exact ⟨hfair, Books.Step.stay _⟩

end Pooling

section Runs

variable {capacity : Nat} {ok : Pooling → PoolAction → Prop} {s : Pooling}

theorem balanced_of_reach (h : Reach (pooling capacity) ok s) : s.queue.Fair ∧ s.books.Balanced := by
  refine Reach.invariant (I := fun s => s.queue.Fair ∧ s.books.Balanced) ?_ ?_ h
  · rintro s rfl
    refine ⟨⟨List.nodup_nil, fun g => ?_, fun id => ?_, rfl, List.nodup_nil⟩, ⟨rfl, ?_, ?_, ?_, ?_, rfl⟩⟩
    · simp [emptyPool]
    · simp [emptyPool, FairQueue.jobs]
    · exact List.nodup_nil
    · intro j hj
      cases hj
    · exact List.nodup_nil
    · intro id
      simp [emptyPool, Pooling.books, Books.live, FairQueue.jobs, Pooling.held, Pooling.submitted]
  · rintro s a s' ⟨hfair, hbalanced⟩ - hs
    obtain ⟨hfair', hstep⟩ := Pooling.books_step hfair hs
    exact ⟨hfair', hbalanced.step hstep⟩

/-- A job's place, its calls and its ID's. -/
structure EndsOnce (s : Pooling) : Prop where
  placed : ∀ j ∈ s.accepted, s.queue.jobs.count j + s.held.count j + s.finished.count j = 1
  ended : ∀ j ∈ s.finished, s.calls.count (.run, j) + s.calls.count (.drop, j) = 1
  refuses : ∀ id, s.known.contains id ↔ ∃ j ∈ s.submitted ++ (s.held ++ s.queue.jobs), j.id = id

theorem count_map_snd (calls : List (JobEnd × QueueJob)) (j : QueueJob) :
    (calls.map Prod.snd).count j = calls.count (.run, j) + calls.count (.drop, j) + calls.count (.lockFailed, j) := by
  induction calls with
  | nil => rfl
  | cons c calls ih =>
    obtain ⟨ending, k⟩ := c
    rw [List.map_cons, List.count_cons, ih]
    simp only [List.count_cons, beq_iff_eq, Prod.mk.injEq]
    cases ending <;> simp <;> omega

theorem accepted_nodup (h : s.books.Balanced) : s.accepted.Nodup := by
  have hnumbers := h.numbers
  rw [Multiset.map_add, Multiset.nodup_add] at hnumbers
  exact List.Nodup.of_map _ (Multiset.coe_nodup.mp hnumbers.2.1)

theorem placed_of_balanced (h : s.books.Balanced) {j : QueueJob} (hj : j ∈ s.accepted) :
    s.queue.jobs.count j + s.held.count j + s.finished.count j = 1 := by
  have hone : s.accepted.count j = 1 := List.count_eq_one_of_mem (accepted_nodup h) hj
  have hplaces := congrArg (Multiset.count j) h.places
  simp only [Multiset.count_add, Pooling.books, Multiset.coe_count] at hplaces
  omega

theorem Thread.holds_of_spends {t : Thread} {j : QueueJob} (h : t.spends = some j) : t.holds = some j := by
  unfold Thread.spends at h
  split at h <;> first | exact h | cases h

theorem calls_of_balanced (h : s.books.Balanced) {j : QueueJob} (hj : j ∈ s.finished) :
    s.calls.count (.run, j) + s.calls.count (.drop, j) + s.calls.count (.lockFailed, j) = 1 := by
  have haccepted : j ∈ s.books.accepted := by
    rw [h.places]
    exact Multiset.mem_add.mpr (.inr hj)
  have hplaced := placed_of_balanced h haccepted
  have hfinished : 0 < s.finished.count j := List.count_pos_iff.mpr hj
  have hheld : j ∉ s.held := List.count_eq_zero.mp (by omega)
  have hspent : j ∉ s.threads.filterMap Thread.spends := by
    intro hmem
    obtain ⟨t, ht, hspends⟩ := List.mem_filterMap.mp hmem
    exact hheld (List.mem_filterMap.mpr ⟨t, ht, Thread.holds_of_spends hspends⟩)
  have hcalls := congrArg (Multiset.count j) h.calls
  simp only [Multiset.count_add, Pooling.books, Multiset.coe_count, List.count_eq_zero_of_not_mem hspent] at hcalls
  rw [← count_map_snd]
  omega

theorem refuses_of_balanced (h : s.books.Balanced) (id : String) :
    s.known.contains id ↔ ∃ j ∈ s.submitted ++ (s.held ++ s.queue.jobs), j.id = id := by
  rw [List.contains_iff_mem]
  exact h.known id

theorem endsOnce_iff (h : Reach (pooling capacity) ok s) :
    EndsOnce s ↔ ∀ j ∈ s.finished, (.lockFailed, j) ∉ s.calls := by
  obtain ⟨-, hb⟩ := balanced_of_reach h
  constructor
  · intro hends j hj
    have hone := hends.ended j hj
    have hcalls := calls_of_balanced hb hj
    exact List.count_eq_zero.mp (by omega)
  · intro hlocks
    refine ⟨fun j hj => placed_of_balanced hb hj, fun j hj => ?_, refuses_of_balanced hb⟩
    have hcalls := calls_of_balanced hb hj
    have hzero : s.calls.count (.lockFailed, j) = 0 := List.count_eq_zero.mpr (hlocks j hj)
    omega

/-! ## Stopping the pool -/

def Pooling.Waits (s : Pooling) : Prop :=
  ∃ retired job, Thread.holding retired .locking job ∈ s.threads ∧ job.lockKey ≠ ""

def Settled (s : Pooling) (a : PoolAction) : Prop := a = .cancel → ¬ s.Waits

structure Unbroken (s : Pooling) : Prop where
  calm : s.stopped = true → ¬ s.Waits
  calls : ∀ j, (.lockFailed, j) ∉ s.calls

variable {s' : Pooling} {t : Thread}

theorem advance_waits (hs : s.advance t = some s') :
    ∃ ts, s'.threads = ts ++ s.threads.erase t ∧ s'.stopped = s.stopped ∧
      (∀ retired job, .holding retired .locking job ∈ ts → s.stopped = false) ∧
      ∀ job, (.lockFailed, job) ∈ s'.calls → (.lockFailed, job) ∈ s.calls ∨
        s.stopped = true ∧ job.lockKey ≠ "" ∧ ∃ retired, t = .holding retired .locking job := by
  cases t with
  | submitting job =>
    dsimp only [Pooling.advance] at hs
    split at hs
    · cases hs
      exact ⟨[], rfl, rfl, by simp, fun _ h => .inl h⟩
    · cases hs
      exact ⟨_, rfl, rfl, by simp, fun _ h => .inl h⟩
  | idle retired =>
    dsimp only [Pooling.advance] at hs
    split at hs
    · cases hs
      exact ⟨_, rfl, rfl, by simp, fun _ h => .inl h⟩
    · split at hs
      · cases hs
        exact ⟨[], rfl, rfl, by simp, fun _ h => .inl h⟩
      · cases hs
  | leaving retired =>
    cases hs
    refine ⟨_, rfl, rfl, fun _ _ hmem => ?_, fun _ h => .inl h⟩
    split at hmem <;> simp at hmem
  | holding retired hold job =>
    cases hold with
    | popped =>
      cases hs
      refine ⟨_, rfl, rfl, fun _ _ hmem => ?_, fun _ h => .inl h⟩
      split at hmem
      · simp at hmem
      · rename_i hrunning
        simpa using hrunning
    | locking =>
      dsimp only [Pooling.advance] at hs
      split at hs
      · rename_i hfail
        rw [Bool.and_eq_true, bne_iff_ne] at hfail
        cases hs
        refine ⟨_, rfl, rfl, by simp, fun k hk => ?_⟩
        rcases List.mem_cons.mp hk with heq | hk
        · cases heq
          exact .inr ⟨hfail.1, hfail.2, retired, rfl⟩
        · exact .inl hk
      · cases hs
        exact ⟨_, rfl, rfl, by simp, fun _ h => .inl h⟩
    | _ =>
      cases hs
      exact ⟨_, rfl, rfl, by simp, fun _ h => .inl (by simpa [Pooling.complete, Pooling.put] using h)⟩
  | removing job =>
    cases hs
    exact ⟨_, rfl, rfl, by simp, fun _ h => .inl (by simpa using h)⟩
  | _ =>
    cases hs
    exact ⟨[], rfl, rfl, by simp, fun _ h => .inl h⟩

theorem Unbroken.advance (h : Unbroken s) (ht : t ∈ s.threads) (hs : s.advance t = some s') : Unbroken s' := by
  obtain ⟨ts, hthreads, hstopped, hstart, hcalls⟩ := advance_waits hs
  constructor
  · rintro hs' ⟨retired, job, hmem, hkey⟩
    rw [hstopped] at hs'
    rw [hthreads] at hmem
    rcases List.mem_append.mp hmem with hnew | hold
    · rw [hstart retired job hnew] at hs'
      cases hs'
    · exact h.calm hs' ⟨retired, job, List.erase_subset hold, hkey⟩
  · intro job hjob
    rcases hcalls job hjob with hjob | ⟨hs', hkey, retired, rfl⟩
    · exact h.calls job hjob
    · exact h.calm hs' ⟨retired, job, ht, hkey⟩

theorem waits_of_retire {t' : Thread} (ht : t ∈ s.threads) (hr : t.retire = some t') (hw : (s.put t [t']).Waits) :
    s.Waits := by
  obtain ⟨retired, job, hmem, hkey⟩ := hw
  rcases List.mem_append.mp hmem with hnew | hold
  · -- the worker waited before it was retired
    rw [List.mem_singleton] at hnew
    subst hnew
    cases t with
    | holding was hold job' =>
      cases hr
      exact ⟨was, job, ht, hkey⟩
    | _ => cases hr
  · exact ⟨retired, job, List.erase_subset hold, hkey⟩

theorem Unbroken.step {a : PoolAction} (h : Unbroken s) (hok : Settled s a) (hs : s.step a = some s') :
    Unbroken s' := by
  cases a with
  | submit job =>
    dsimp only [Pooling.step] at hs
    split at hs
    · cases hs
      exact h
    · cases hs
      refine ⟨fun hstopped hw => h.calm hstopped ?_, h.calls⟩
      simpa [Pooling.Waits] using hw
  | advance t =>
    dsimp only [Pooling.step] at hs
    split at hs
    · rename_i ht
      exact h.advance ht hs
    · cases hs
  | addWorker =>
    cases hs
    refine ⟨fun hstopped hw => h.calm hstopped ?_, h.calls⟩
    simpa [Pooling.Waits] using hw
  | retire t =>
    dsimp only [Pooling.step] at hs
    split at hs
    · rename_i ht
      obtain ⟨t', hr, rfl⟩ := Option.map_eq_some_iff.mp hs
      exact ⟨fun hstopped hw => h.calm hstopped (waits_of_retire ht hr hw), h.calls⟩
    · cases hs
  | removeScope scope | discardPending =>
    cases hs
    refine ⟨fun hstopped hw => h.calm hstopped ?_, h.calls⟩
    simpa [Pooling.Waits, Pooling.remove] using hw
  | close =>
    cases hs
    exact ⟨h.calm, h.calls⟩
  | cancel =>
    cases hs
    exact ⟨fun _ => hok rfl, h.calls⟩

theorem unbroken_of_reach (h : Reach (pooling capacity) Settled s) : Unbroken s := by
  refine Reach.invariant (I := Unbroken) ?_ (fun s a s' hs hok => hs.step hok) h
  rintro s rfl
  refine ⟨fun hstopped => ?_, fun j hj => ?_⟩
  · cases hstopped
  · cases hj

end Runs

/-- An accepted job ends exactly once unless the wait for its lock was cancelled, and so it does in every run that
cancels the pool's context only while no worker waits for a lock. -/
theorem accepted_ends_once (capacity : Nat) :
    (∀ s, Reach (pooling capacity) free s → (EndsOnce s ↔ ∀ j ∈ s.finished, (.lockFailed, j) ∉ s.calls)) ∧
      ∀ s, Reach (pooling capacity) Settled s → EndsOnce s := by
  refine ⟨fun s h => endsOnce_iff h, fun s h => ?_⟩
  have hunbroken := unbroken_of_reach h
  exact (endsOnce_iff h).mpr fun j _ => hunbroken.calls j

def berth : QueueJob := ⟨0, "snapshot:tank", 1, "tank", "tank", "tank", true⟩

def moored : List PoolAction :=
  [.submit berth, .advance (.submitting berth), .addWorker, .advance (.idle false),
    .advance (.holding false .popped berth), .advance (.holding false .locking berth),
    .advance (.holding false .locked berth), .advance (.holding false .running berth)]

theorem moored_ends : ∃ s, Reach (pooling 4) Settled s ∧ s.finished = [berth] ∧ EndsOnce s := by
  have hrun : (runOk (pooling 4) (fun _ a => a != .cancel) moored (emptyPool 4)).map Pooling.finished =
      some [berth] := by decide
  obtain ⟨s, hs, hfinished⟩ := Option.map_eq_some_iff.mp hrun
  have hreach : Reach (pooling 4) Settled s := by
    refine (Reach.runOk (.init rfl) hs).mono fun _ a hok hcancel => ?_
    simp [hcancel] at hok
  exact ⟨s, hreach, hfinished, (accepted_ends_once 4).2 s hreach⟩

def berthed : List PoolAction :=
  [.submit berth, .advance (.submitting berth), .addWorker, .advance (.idle false),
    .advance (.holding false .popped berth), .cancel, .advance (.holding false .locking berth),
    .advance (.holding false .abandoned berth)]

theorem berthed_unended : ¬ ∀ s, Reach (pooling 4) free s → EndsOnce s := by
  intro hall
  have hrun : (run (pooling 4) berthed (emptyPool 4)).map (fun s => (s.finished, s.calls)) =
      some ([berth], [(.lockFailed, berth)]) := by decide
  obtain ⟨s, hs, hfinal⟩ := Option.map_eq_some_iff.mp hrun
  have hreach : Reach (pooling 4) free s := Reach.run (.init rfl) (fun _ _ => trivial) hs
  have hended := (hall s hreach).ended berth
  simp only [Prod.mk.injEq] at hfinal
  rw [hfinal.1, hfinal.2] at hended
  exact absurd (hended (by simp)) (by decide)

end Boomerangz.Daemon
