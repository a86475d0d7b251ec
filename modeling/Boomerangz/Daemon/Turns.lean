import Boomerangz.Daemon.FairQueue
import Boomerangz.Lib.Run

/-! # Turns in the fair queue

Groups take turns: one that has been popped comes after every other one that has jobs.
-/

open Transition

namespace Boomerangz.Daemon

inductive QueueStep where
  | offer (job : QueueJob)
  | pop
  | removeScope (scope : String)
  | discardAll
  | close
deriving DecidableEq, Repr

/-- `snapshotLocked`; `none` where it would read past the end of a group. -/
def snapshotIDs : Nat → (String → List QueueJob) → List String → Option (List String)
  | _, _, [] => some []
  | 0, _, _ :: _ => none
  | fuel + 1, groups, group :: order =>
    match groups group with
    | [] => none
    | job :: rest =>
      (if rest.isEmpty then snapshotIDs fuel groups order
        else snapshotIDs fuel (Function.update groups group rest) (order ++ [group])).map (job.id :: ·)

namespace FairQueue

def new (capacity : Nat) : FairQueue := ⟨capacity, 0, fun _ => [], [], [], false⟩

def drain : Nat → FairQueue → List QueueJob × FairQueue
  | 0, q => ([], q)
  | n + 1, q =>
    match q.pop with
    | none => ([], q)
    | some (job, q') => (job :: (drain n q').1, (drain n q').2)

end FairQueue

structure QueueLog where
  queue : FairQueue
  came : List QueueJob
  popped : List QueueJob
  left : List QueueJob

namespace QueueLog

def step (s : QueueLog) : QueueStep → Option QueueLog
  | .offer job =>
    match s.queue.offer job with
    | .ok (some q) => some { s with queue := q, came := s.came ++ [job] }
    | _ => some s
  | .pop => s.queue.pop.map fun x => { s with queue := x.2, popped := s.popped ++ [x.1], left := s.left ++ [x.1] }
  | .removeScope scope =>
    some { s with queue := (s.queue.removeScope scope).2, left := s.left ++ (s.queue.removeScope scope).1 }
  | .discardAll => some { s with queue := s.queue.discardAll.2, left := s.left ++ s.queue.discardAll.1 }
  | .close => some { s with queue := s.queue.close }

def pops (s : QueueLog) (g : String) : Nat := s.popped.countP (·.group == g)

end QueueLog

def fairQueue : System QueueLog QueueStep where
  init s := ∃ capacity, 1 ≤ capacity ∧ s = ⟨.new capacity, [], [], []⟩
  step := QueueLog.step

structure Exact (s : QueueLog) : Prop where
  fair : s.queue.Fair
  owned : ∀ g, ∀ j ∈ s.queue.groups g, j.group = g
  bounded : s.queue.count ≤ s.queue.capacity
  accounted : s.came.Perm (s.left ++ s.queue.jobs)
  inOrder : ∀ g, (s.popped.filter (·.group == g) ++ s.queue.groups g).Sublist (s.came.filter (·.group == g))

/-- A part of a run in which `g` is not popped, and `g` and `h` always have jobs. -/
inductive Between (g h : String) : QueueLog → QueueLog → Prop where
  | refl {s : QueueLog} : s.queue.groups g ≠ [] → s.queue.groups h ≠ [] → Between g h s s
  | step {s t u : QueueLog} {a : QueueStep} : Between g h s t → t.step a = some u → u.pops g = t.pops g →
      u.queue.groups g ≠ [] → u.queue.groups h ≠ [] → Between g h s u

/-! ## The jobs -/

section Jobs

variable {s s' : QueueLog} {job : QueueJob} {q : FairQueue}

theorem offer_count (ho : s.queue.offer job = .ok (some q)) : s.queue.count < s.queue.capacity := by
  unfold FairQueue.offer at ho
  split at ho
  · cases ho
  · split at ho
    · cases ho
    · split at ho
      · cases ho
      · split at ho
        · cases ho
        · next hroom => exact Nat.lt_of_not_le hroom

theorem Exact.offer (h : Exact s) (ho : s.queue.offer job = .ok (some q)) :
    Exact { s with queue := q, came := s.came ++ [job] } := by
  obtain ⟨hfair, hjobs⟩ := h.fair.offer ho
  have hroom := offer_count ho
  obtain ⟨-, -, rfl⟩ := FairQueue.offer_eq_ok ho
  unfold FairQueue.push
  refine ⟨hfair, fun g j hj => ?_, hroom, ?_, fun g => ?_⟩
  · by_cases hg : g = job.group
    · subst hg
      simp only [Function.update_self, List.mem_append, List.mem_singleton] at hj
      rcases hj with hj | rfl
      · exact h.owned _ j hj
      · rfl
    · simp only [Function.update_of_ne hg] at hj
      exact h.owned _ j hj
  · have hcame : (s.came ++ [job]).Perm (s.left ++ job :: s.queue.jobs) :=
      (List.perm_append_singleton _ _).trans ((h.accounted.cons job).trans List.perm_middle.symm)
    exact hcame.trans (hjobs.symm.append_left _)
  · by_cases hg : g = job.group
    · subst hg
      simpa using (h.inOrder job.group).append (List.Sublist.refl [job])
    · simp only [Function.update_of_ne hg, List.filter_append]
      exact (h.inOrder g).trans (List.sublist_append_left _ _)

theorem Exact.pop (h : Exact s) (hp : s.queue.pop = some (job, q)) :
    Exact { s with queue := q, popped := s.popped ++ [job], left := s.left ++ [job] } := by
  obtain ⟨hfair, hjobs⟩ := h.fair.pop hp
  obtain ⟨group, order, rest, horder, hgroup, rfl⟩ := FairQueue.pop_eq_some hp
  have hjob : job.group = group := h.owned group job (by simp [hgroup])
  refine ⟨hfair, fun g j hj => ?_, (Nat.sub_le _ _).trans h.bounded, ?_, fun g => ?_⟩
  · by_cases hg : g = group
    · subst hg
      simp only [Function.update_self] at hj
      exact h.owned _ j (by simp [hgroup, hj])
    · simp only [Function.update_of_ne hg] at hj
      exact h.owned _ j hj
  · refine h.accounted.trans ?_
    rw [List.append_assoc]
    exact hjobs.append_left _
  · have hbefore := h.inOrder g
    by_cases hg : g = group
    · subst hg
      rw [hgroup] at hbefore
      simpa [List.filter_append, hjob] using hbefore
    · have hother : (job.group == g) = false := by simpa [hjob] using Ne.symm hg
      simpa [List.filter_append, hother, Function.update_of_ne hg] using hbefore

theorem Exact.removeScope (h : Exact s) (scope : String) :
    Exact { s with queue := (s.queue.removeScope scope).2, left := s.left ++ (s.queue.removeScope scope).1 } := by
  obtain ⟨hfair, hjobs⟩ := h.fair.removeScope scope
  refine ⟨hfair, fun g j hj => h.owned g j (List.mem_of_mem_filter hj), (Nat.sub_le _ _).trans h.bounded, ?_, fun g => ?_⟩
  · refine h.accounted.trans ?_
    rw [List.append_assoc]
    exact hjobs.append_left _
  · exact ((List.Sublist.refl _).append List.filter_sublist).trans (h.inOrder g)

theorem Exact.discardAll (h : Exact s) :
    Exact { s with queue := s.queue.discardAll.2, left := s.left ++ s.queue.discardAll.1 } := by
  obtain ⟨hfair, hjobs⟩ := FairQueue.fair_discardAll (q := s.queue)
  refine ⟨hfair, fun g j hj => absurd hj List.not_mem_nil, Nat.zero_le _, ?_, fun g => ?_⟩
  · refine h.accounted.trans ?_
    rw [List.append_assoc]
    exact hjobs.append_left _
  · have hpopped := (List.sublist_append_left (s.popped.filter (·.group == g)) (s.queue.groups g)).trans (h.inOrder g)
    simpa [FairQueue.discardAll] using hpopped

theorem Exact.close (h : Exact s) : Exact { s with queue := s.queue.close } :=
  ⟨h.fair.close, h.owned, h.bounded, h.accounted, h.inOrder⟩

theorem Exact.step {a : QueueStep} (h : Exact s) (hs : s.step a = some s') : Exact s' := by
  cases a with
  | offer job =>
    simp only [QueueLog.step] at hs
    split at hs
    · next q ho =>
      cases hs
      exact h.offer ho
    · cases hs
      exact h
  | pop =>
    obtain ⟨⟨job, q⟩, hp, rfl⟩ := Option.map_eq_some_iff.mp hs
    exact h.pop hp
  | removeScope scope =>
    cases hs
    exact h.removeScope scope
  | discardAll =>
    cases hs
    exact h.discardAll
  | close =>
    cases hs
    exact h.close

end Jobs

/-! ## The turns -/

section Turns

variable {s t u : QueueLog} {g h : String}

theorem pops_append (s : QueueLog) (q : FairQueue) (left : List QueueJob) (job : QueueJob) (g : String) :
    QueueLog.pops { s with queue := q, popped := s.popped ++ [job], left := left } g =
      s.pops g + if job.group = g then 1 else 0 := by
  simp [QueueLog.pops, List.countP_append, List.countP_singleton]

theorem order_pop (hexact : Exact t) (hs : t.step .pop = some u) : ∃ group order, t.queue.order = group :: order ∧
    group ∉ order ∧ (u.queue.order = order ∨ u.queue.order = order ++ [group]) ∧
    (u.queue.groups group ≠ [] → u.queue.order = order ++ [group]) ∧
    ∀ x, u.pops x = t.pops x + if group = x then 1 else 0 := by
  obtain ⟨⟨job, q⟩, hp, rfl⟩ := Option.map_eq_some_iff.mp hs
  obtain ⟨group, order, rest, horder, hgroup, rfl⟩ := FairQueue.pop_eq_some hp
  have hjob : job.group = group := hexact.owned group job (by simp [hgroup])
  have hnodup := hexact.fair.turns
  rw [horder, List.nodup_cons] at hnodup
  refine ⟨group, order, horder, hnodup.1, ?_, fun hne => ?_, fun x => by rw [pops_append, hjob]⟩
  · split
    · exact .inl rfl
    · exact .inr rfl
  · simp only [Function.update_self] at hne
    simp [hne]

theorem head_of_sublist {a b x : String} {l : List String} (h : [a, b].Sublist (x :: l)) (hne : x ≠ a) :
    [a, b].Sublist l := by
  cases h with
  | cons _ h => exact h
  | cons_cons _ h => exact absurd rfl hne

theorem order_step {a : QueueStep} (hexact : Exact t) (hs : t.step a = some u) (hgu : u.queue.groups g ≠ [])
    (hhu : u.queue.groups h ≠ []) (horder : [h, g].Sublist t.queue.order) :
    u.pops g = t.pops g ∧ ([h, g].Sublist u.queue.order ∧ u.pops h = t.pops h ∨
      [g, h].Sublist u.queue.order ∧ u.pops h = t.pops h + 1) := by
  cases a with
  | offer job =>
    simp only [QueueLog.step] at hs
    split at hs
    · next q ho =>
      cases hs
      obtain ⟨-, -, rfl⟩ := FairQueue.offer_eq_ok ho
      refine ⟨rfl, .inl ⟨?_, rfl⟩⟩
      unfold FairQueue.push
      dsimp only
      split
      · exact horder.trans (List.sublist_append_left _ _)
      · exact horder
    · cases hs
      exact ⟨rfl, .inl ⟨horder, rfl⟩⟩
  | pop =>
    obtain ⟨group, order, heq, hnot, hlast, hmore, hpops⟩ := order_pop hexact hs
    rw [heq] at horder
    have hdistinct : h ≠ g := by
      have hnodup := horder.nodup (heq ▸ hexact.fair.turns)
      simpa using hnodup
    by_cases hh : group = h
    · subst hh
      have hg : [g].Sublist order := by
        cases horder with
        | cons _ hin => exact absurd (hin.subset List.mem_cons_self) hnot
        | cons_cons _ hin => exact hin
      refine ⟨by rw [hpops, if_neg hdistinct, Nat.add_zero], .inr ⟨?_, by rw [hpops, if_pos rfl]⟩⟩
      rw [hmore hhu]
      exact hg.append (List.Sublist.refl [group])
    · have hin := head_of_sublist horder hh
      have hg : group ≠ g := by
        rintro rfl
        exact hnot (hin.subset (by simp))
      refine ⟨by rw [hpops, if_neg hg, Nat.add_zero], .inl ⟨?_, by rw [hpops, if_neg hh, Nat.add_zero]⟩⟩
      rcases hlast with hlast | hlast
      · rw [hlast]
        exact hin
      · rw [hlast]
        exact hin.trans (List.sublist_append_left _ _)
  | removeScope scope =>
    cases hs
    refine ⟨rfl, .inl ⟨?_, rfl⟩⟩
    have hkept := horder.filter fun x => !((t.queue.removeScope scope).2.groups x).isEmpty
    have hboth : [h, g].filter (fun x => !((t.queue.removeScope scope).2.groups x).isEmpty) = [h, g] := by
      simp [hgu, hhu]
    rw [hboth] at hkept
    exact hkept
  | discardAll =>
    cases hs
    exact absurd rfl hgu
  | close =>
    cases hs
    exact ⟨rfl, .inl ⟨horder, rfl⟩⟩

theorem Between.nonempty (hb : Between g h s t) : s.queue.groups g ≠ [] ∧ s.queue.groups h ≠ [] := by
  induction hb with
  | refl hg hh => exact ⟨hg, hh⟩
  | step _ _ _ _ _ ih => exact ih

theorem Between.turns (hb : Between g h s t) (hexact : Exact s) (horder : [h, g].Sublist s.queue.order) :
    Exact t ∧ ([h, g].Sublist t.queue.order ∧ t.pops h = s.pops h ∨
      [g, h].Sublist t.queue.order ∧ t.pops h = s.pops h + 1) := by
  induction hb with
  | refl _ _ => exact ⟨hexact, .inl ⟨horder, rfl⟩⟩
  | step _ hs hpops hg hh ih =>
    obtain ⟨ht, hturn⟩ := ih
    refine ⟨ht.step hs, ?_⟩
    rcases hturn with ⟨hin, hcount⟩ | ⟨hin, hcount⟩
    · rcases (order_step ht hs hg hh hin).2 with ⟨hin', hsame⟩ | ⟨hin', hone⟩
      · exact .inl ⟨hin', hsame.trans hcount⟩
      · exact .inr ⟨hin', by rw [hone, hcount]⟩
    · obtain ⟨hsame, hin' | ⟨-, hone⟩⟩ := order_step ht hs hh hg hin
      · exact .inr ⟨hin'.1, hsame.trans hcount⟩
      · omega

theorem one_turn {s' t' : QueueLog} (hexact : Exact s) (hne : g ≠ h) (hfirst : s.step .pop = some s')
    (hpopped : s'.pops g = s.pops g + 1) (hb : Between g h s' t) (hsecond : t.step .pop = some t')
    (hagain : t'.pops g = t.pops g + 1) : t.pops h = s'.pops h + 1 := by
  have hs' := hexact.step hfirst
  obtain ⟨hg, hh⟩ := hb.nonempty
  have horder : [h, g].Sublist s'.queue.order := by
    obtain ⟨group, order, -, -, -, hmore, hpops⟩ := order_pop hexact hfirst
    have hgroup : group = g := by
      by_contra hother
      rw [hpops, if_neg hother] at hpopped
      omega
    subst hgroup
    have hmem := (hs'.fair.grouped h).mpr hh
    rw [hmore hg, List.mem_append, List.mem_singleton] at hmem
    rw [hmore hg]
    exact (List.singleton_sublist.mpr (hmem.resolve_right (Ne.symm hne))).append (List.Sublist.refl [group])
  obtain ⟨ht, ⟨hin, -⟩ | ⟨-, hcount⟩⟩ := hb.turns hs' horder
  · -- `h` is still before `g`, so that the second pop cannot be of `g`
    obtain ⟨group, order, heq, hnot, -, -, hpops⟩ := order_pop ht hsecond
    have hgroup : group = g := by
      by_contra hother
      rw [hpops, if_neg hother] at hagain
      omega
    subst hgroup
    rw [heq] at hin
    exact absurd ((head_of_sublist hin hne).subset (by simp)) hnot
  · exact hcount

end Turns

/-! ## Snapshots -/

section Snapshots

variable {q : FairQueue}

theorem snapshotIDs_congr {fuel : Nat} {groups groups' : String → List QueueJob} {order : List String}
    (h : ∀ g ∈ order, groups g = groups' g) : snapshotIDs fuel groups order = snapshotIDs fuel groups' order := by
  induction fuel generalizing groups groups' order with
  | zero => cases order <;> rfl
  | succ fuel ih =>
    cases order with
    | nil => rfl
    | cons group order =>
      have hrest : ∀ g ∈ order, groups g = groups' g := fun g hg => h g (List.mem_cons_of_mem _ hg)
      simp only [snapshotIDs, h group List.mem_cons_self]
      split
      · rfl
      · next job rest _ =>
        have hmore : ∀ g ∈ order ++ [group], Function.update groups group rest g = Function.update groups' group rest g := by
          intro g hg
          by_cases hself : g = group
          · rw [hself, Function.update_self, Function.update_self]
          · rw [Function.update_of_ne hself, Function.update_of_ne hself]
            exact hrest g ((List.mem_append.mp hg).resolve_right (by simpa using hself))
        rw [ih hrest, ih hmore]

theorem order_of_count (h : q.Fair) (hcount : q.count = 0) : q.order = [] := by
  have hjobs : q.jobs = [] := List.length_eq_zero_iff.mp (h.count ▸ hcount)
  rw [FairQueue.jobs, List.flatMap_eq_nil_iff] at hjobs
  exact List.eq_nil_iff_forall_not_mem.mpr fun g hg => (h.grouped g).mp hg (hjobs g hg)

theorem snapshot_drains (h : q.Fair) : ((q.drain q.count).1.Perm q.jobs ∧ (q.drain q.count).2.jobs = []) ∧
    ∀ fuel ≥ q.count, snapshotIDs fuel q.groups q.order = some ((q.drain q.count).1.map QueueJob.id) := by
  induction hn : q.count generalizing q with
  | zero =>
    have horder := order_of_count h hn
    have hjobs : q.jobs = [] := by rw [FairQueue.jobs, horder]; rfl
    refine ⟨⟨by rw [hjobs]; exact .refl _, hjobs⟩, fun fuel _ => ?_⟩
    rw [horder]
    cases fuel <;> rfl
  | succ n ih =>
    obtain ⟨job, q', hp⟩ := h.exists_pop (by omega)
    obtain ⟨hfair, hjobs⟩ := h.pop hp
    have hcount : q'.count = n := by
      have hlength := hjobs.length_eq
      rw [List.length_cons, ← h.count, ← hfair.count, hn] at hlength
      omega
    obtain ⟨⟨hperm, hempty⟩, hids⟩ := ih hfair hcount
    have hdrain : q.drain (n + 1) = (job :: (q'.drain n).1, (q'.drain n).2) := by simp only [FairQueue.drain, hp]
    rw [hdrain]
    refine ⟨⟨(hperm.cons job).trans hjobs.symm, hempty⟩, fun fuel hfuel => ?_⟩
    obtain ⟨k, rfl⟩ : ∃ k, fuel = k + 1 := ⟨fuel - 1, by omega⟩
    have hrest := hids k (by omega)
    obtain ⟨group, order, rest, horder, hgroup, rfl⟩ := FairQueue.pop_eq_some hp
    have hnot : group ∉ order := (List.nodup_cons.mp (horder ▸ h.turns)).1
    simp only [snapshotIDs, horder, hgroup]
    by_cases hlast : rest.isEmpty = true
    · simp only [hlast, if_true] at hrest ⊢
      have hother : ∀ g ∈ order, q.groups g = Function.update q.groups group rest g := by
        intro g hg
        rw [Function.update_of_ne]
        rintro rfl
        exact hnot hg
      rw [snapshotIDs_congr hother, hrest]
      rfl
    · simp only [hlast, if_false, Bool.false_eq_true] at hrest ⊢
      rw [hrest]
      rfl

end Snapshots

structure FairRun (s : QueueLog) : Prop where
  exact : Exact s
  turns : ∀ g h s' t t', g ≠ h → s.step .pop = some s' → s'.pops g = s.pops g + 1 → Between g h s' t →
    t.step .pop = some t' → t'.pops g = t.pops g + 1 → t.pops h = s'.pops h + 1
  drains : (s.queue.drain s.queue.count).1.Perm s.queue.jobs ∧ (s.queue.drain s.queue.count).2.jobs = []
  snapshot : ∀ fuel ≥ s.queue.count, snapshotIDs fuel s.queue.groups s.queue.order =
    some ((s.queue.drain s.queue.count).1.map QueueJob.id)

/-- The queue is exact, bounded and fair in every run. -/
theorem queue_fair {s : QueueLog} (h : Reach fairQueue free s) : FairRun s := by
  have hexact : Exact s := by
    refine h.invariant ?_ fun s a s' hs _ hstep => hs.step hstep
    rintro s ⟨capacity, -, rfl⟩
    refine ⟨⟨List.nodup_nil, ?_, ?_, rfl, List.nodup_nil⟩, ?_, Nat.zero_le _, .refl _, fun g => .refl _⟩
    · simp [FairQueue.new]
    · simp [FairQueue.new, FairQueue.jobs]
    · exact fun g j hj => absurd hj List.not_mem_nil
  obtain ⟨hdrains, hsnapshot⟩ := snapshot_drains hexact.fair
  exact ⟨hexact, fun g h s' t t' => one_turn hexact, hdrains, hsnapshot⟩

section Sample

def pierJob (number : Nat) (id group scope : String) : QueueJob := ⟨number, id, number, group, scope, "", true⟩

def emptyLog : QueueLog := ⟨.new 8, [], [], []⟩

theorem emptyLog_starts : Reach fairQueue free emptyLog := .init ⟨8, by decide, rfl⟩

/-- A job is removed with its scope, although an earlier one of its group is still queued. -/
theorem later_leaves_first : ∃ s first second, Reach fairQueue free s ∧ first.group = second.group ∧
    s.came = [first, second] ∧ s.left = [second, first] := by
  let first := pierJob 1 "one" "pier" "north"
  let second := pierJob 2 "two" "pier" "south"
  obtain ⟨s, hrun, hcame, hleft⟩ : ∃ s, run fairQueue [.offer first, .offer second, .removeScope "south", .pop]
      emptyLog = some s ∧ s.came = [first, second] ∧ s.left = [second, first] := ⟨_, rfl, rfl, rfl⟩
  exact ⟨s, first, second, emptyLog_starts.run (fun _ _ => trivial) hrun, rfl, hcame, hleft⟩

def pierOffers : List QueueStep :=
  [.offer (pierJob 1 "a1" "quay" "a"), .offer (pierJob 2 "a2" "quay" "a"), .offer (pierJob 3 "a3" "quay" "a"),
    .offer (pierJob 4 "b1" "mole" "b"), .offer (pierJob 5 "b2" "mole" "b")]

theorem pier_takes_turns : ∃ s s' t t', run fairQueue pierOffers emptyLog = some s ∧ s.step .pop = some s' ∧
    s'.step .pop = some t ∧ t.step .pop = some t' ∧ t.pops "mole" = s'.pops "mole" + 1 ∧
    snapshotIDs 5 s.queue.groups s.queue.order = some ["a1", "b1", "a2", "b2", "a3"] := by
  obtain ⟨s, hs⟩ : ∃ s, run fairQueue pierOffers emptyLog = some s := ⟨_, rfl⟩
  obtain ⟨s', hs'⟩ : ∃ s', s.step .pop = some s' := by
    cases hs
    exact ⟨_, rfl⟩
  obtain ⟨t, ht⟩ : ∃ t, s'.step .pop = some t := by
    cases hs
    cases hs'
    exact ⟨_, rfl⟩
  obtain ⟨t', ht'⟩ : ∃ t', t.step .pop = some t' := by
    cases hs
    cases hs'
    cases ht
    exact ⟨_, rfl⟩
  have hfair := queue_fair (emptyLog_starts.run (fun _ _ => trivial) hs)
  refine ⟨s, s', t, t', hs, hs', ht, ht', hfair.turns "quay" "mole" s' t t' (by decide) hs' ?_ ?_ ht' ?_, ?_⟩
  · cases hs
    cases hs'
    rfl
  · refine .step (.refl ?_ ?_) ht ?_ ?_ ?_ <;> cases hs <;> cases hs' <;> cases ht <;> decide
  · cases hs
    cases hs'
    cases ht
    cases ht'
    rfl
  · cases hs
    rfl

end Sample

end Boomerangz.Daemon
