import Boomerangz.Zfs.Command

/-! # The fair queue

Every call is described by what it does to the jobs that are pending.
-/

namespace Boomerangz.Daemon

open Zfs

/-- `number` tells two values of one job apart. -/
structure QueueJob where
  number : Nat
  id : String
  runID : Nat
  group : String
  scope : String
  lockKey : String
  hasRun : Bool
deriving DecidableEq, Repr

structure FairQueue where
  capacity : Nat
  count : Nat
  groups : String → List QueueJob
  order : List String
  ids : List String
  closed : Bool

namespace FairQueue

variable (q : FairQueue)

def jobs : List QueueJob := q.order.flatMap q.groups

def push (job : QueueJob) : FairQueue := { q with
  order := if (q.groups job.group).isEmpty then q.order ++ [job.group] else q.order
  groups := Function.update q.groups job.group (q.groups job.group ++ [job])
  ids := job.id :: q.ids
  count := q.count + 1 }

/-- `Offer`. It adds nothing when the ID is already pending. -/
def offer (job : QueueJob) : Except Error (Option FairQueue) :=
  if job.id == "" || job.runID == 0 || job.group == "" || job.scope == "" || !job.hasRun then
    .error (.plain "complete queue job metadata is required")
  else if q.closed then .error (.plain "queue is closed")
  else if q.ids.contains job.id then .ok none
  else if q.capacity ≤ q.count then .error (.plain "queue capacity %d reached")
  else .ok (some (q.push job))

/-- `Pop` when something is pending. -/
def pop : Option (QueueJob × FairQueue) :=
  if q.count = 0 then none
  else match q.order with
    | [] => none
    | group :: order =>
      match q.groups group with
      | [] => none
      | job :: rest => some (job, { q with
          order := if rest.isEmpty then order else order ++ [group]
          groups := Function.update q.groups group rest
          ids := q.ids.filter (· != job.id)
          count := q.count - 1 })

/-- `RemoveScope` up to the calls of `Drop`: the jobs it drops, and what is left. -/
def removeScope (scope : String) : List QueueJob × FairQueue :=
  let dropped := q.order.flatMap fun g => (q.groups g).filter (·.scope == scope)
  let groups := fun g => (q.groups g).filter (·.scope != scope)
  (dropped, { q with
    groups := groups
    order := q.order.filter fun g => !(groups g).isEmpty
    ids := q.ids.filter fun id => !dropped.any (·.id == id)
    count := q.count - dropped.length })

/-- `DiscardAll` up to the calls of `Drop`. -/
def discardAll : List QueueJob × FairQueue :=
  (q.jobs, { q with groups := fun _ => [], order := [], ids := [], count := 0 })

def close : FairQueue := { q with closed := true }

structure Fair : Prop where
  turns : q.order.Nodup
  grouped : ∀ g, g ∈ q.order ↔ q.groups g ≠ []
  ids : ∀ id, id ∈ q.ids ↔ ∃ j ∈ q.jobs, j.id = id
  count : q.count = q.jobs.length
  distinct : (q.jobs.map QueueJob.id).Nodup

variable {q} {q' : FairQueue} {job j : QueueJob}

theorem flatMap_update_of_not_mem {order : List String} {groups : String → List QueueJob} {g : String}
    {l : List QueueJob} (h : g ∉ order) : order.flatMap (Function.update groups g l) = order.flatMap groups := by
  refine List.flatMap_congr fun g' hg' => ?_
  rw [Function.update_of_ne]
  rintro rfl
  exact h hg'

theorem flatMap_update_perm {order : List String} (groups : String → List QueueJob) {g : String}
    (l : List QueueJob) (hnodup : order.Nodup) (hg : g ∈ order) :
    ∃ rest, (order.flatMap groups).Perm (groups g ++ rest) ∧
      (order.flatMap (Function.update groups g l)).Perm (l ++ rest) := by
  obtain ⟨before, after, rfl⟩ := List.append_of_mem hg
  obtain ⟨-, hafter, hdisjoint⟩ := List.nodup_append.mp hnodup
  have hbefore : g ∉ before := fun hmem => hdisjoint g hmem g (by simp) rfl
  have hnot : g ∉ after := (List.nodup_cons.mp hafter).1
  refine ⟨before.flatMap groups ++ after.flatMap groups, ?_, ?_⟩
  · rw [List.flatMap_append, List.flatMap_cons]
    exact List.perm_append_comm_assoc _ _ _
  · rw [List.flatMap_append, List.flatMap_cons, flatMap_update_of_not_mem hbefore, flatMap_update_of_not_mem hnot,
      Function.update_self]
    exact List.perm_append_comm_assoc _ _ _

theorem Fair.of_jobs {l : List QueueJob} (hturns : q'.order.Nodup) (hgrouped : ∀ g, g ∈ q'.order ↔ q'.groups g ≠ [])
    (hjobs : q'.jobs.Perm l) (hids : ∀ id, id ∈ q'.ids ↔ ∃ j ∈ l, j.id = id) (hcount : q'.count = l.length)
    (hdistinct : (l.map QueueJob.id).Nodup) : q'.Fair := by
  refine ⟨hturns, hgrouped, fun id => ?_, ?_, ?_⟩
  · rw [hids]
    exact exists_congr fun j => and_congr_left fun _ => hjobs.mem_iff.symm
  · rw [hcount, hjobs.length_eq]
  · exact (hjobs.map _).nodup_iff.mpr hdistinct

/-! ## Offering -/

theorem jobs_push (h : q.Fair) : (q.push job).jobs.Perm (job :: q.jobs) := by
  unfold FairQueue.jobs push
  dsimp only
  split
  · rename_i hempty
    rw [List.isEmpty_iff] at hempty
    have hnot : job.group ∉ q.order := fun hmem => (h.grouped _).mp hmem hempty
    rw [List.flatMap_append, flatMap_update_of_not_mem hnot, List.flatMap_singleton, Function.update_self, hempty]
    exact List.perm_append_singleton _ _
  · rename_i hne
    have hmem : job.group ∈ q.order := (h.grouped _).mpr (by simpa [List.isEmpty_iff] using hne)
    obtain ⟨rest, hold, hnew⟩ := flatMap_update_perm q.groups (q.groups job.group ++ [job]) h.turns hmem
    refine hnew.trans (List.Perm.trans ?_ (hold.symm.cons job))
    rw [List.append_assoc]
    exact List.perm_middle

theorem offer_eq_ok (ho : q.offer job = .ok (some q')) :
    q.closed = false ∧ job.id ∉ q.ids ∧ q' = q.push job := by
  unfold FairQueue.offer at ho
  split at ho
  · cases ho
  · split at ho
    · cases ho
    · split at ho
      · cases ho
      · split at ho
        · cases ho
        · rename_i hopen hnew _
          cases ho
          exact ⟨by simpa using hopen, by simpa using hnew, rfl⟩

theorem Fair.offer (h : q.Fair) (ho : q.offer job = .ok (some q')) : q'.Fair ∧ q'.jobs.Perm (job :: q.jobs) := by
  obtain ⟨-, hnew, rfl⟩ := offer_eq_ok ho
  unfold push
  refine ⟨Fair.of_jobs ?_ ?_ (jobs_push h) ?_ ?_ ?_, jobs_push h⟩
  · split
    · rename_i hempty
      rw [List.isEmpty_iff] at hempty
      have hnot : job.group ∉ q.order := fun hmem => (h.grouped _).mp hmem hempty
      exact h.turns.append (List.nodup_singleton _) (by simpa using hnot)
    · exact h.turns
  · intro g
    dsimp only
    by_cases hg : g = job.group
    · subst hg
      split
      · simp
      · rename_i hne
        simpa [h.grouped, List.isEmpty_iff] using hne
    · rw [Function.update_of_ne hg, ← h.grouped]
      split
      · simp [hg]
      · rfl
  · intro id
    simp only [List.mem_cons, h.ids, or_and_right, exists_or, exists_eq_left]
    exact or_congr_left eq_comm
  · simp [h.count]
  · rw [List.map_cons, List.nodup_cons]
    refine ⟨fun hmem => hnew ((h.ids _).mpr ?_), h.distinct⟩
    exact List.mem_map.mp hmem

/-! ## Taking one job -/

theorem pop_eq_some (hp : q.pop = some (job, q')) :
    ∃ group order rest, q.order = group :: order ∧ q.groups group = job :: rest ∧ q' = { q with
      order := if rest.isEmpty then order else order ++ [group]
      groups := Function.update q.groups group rest
      ids := q.ids.filter (· != job.id)
      count := q.count - 1 } := by
  unfold pop at hp
  split at hp
  · cases hp
  · split at hp
    · cases hp
    · rename_i group order horder
      split at hp
      · cases hp
      · rename_i head rest hgroup
        cases hp
        exact ⟨group, order, rest, horder, hgroup, rfl⟩

theorem Fair.pop (h : q.Fair) (hp : q.pop = some (job, q')) : q'.Fair ∧ q.jobs.Perm (job :: q'.jobs) := by
  obtain ⟨group, order, rest, horder, hgroup, rfl⟩ := pop_eq_some hp
  have hturns := h.turns
  rw [horder, List.nodup_cons] at hturns
  have hjobs : q.jobs = job :: (rest ++ order.flatMap q.groups) := by
    unfold jobs
    rw [horder, List.flatMap_cons, hgroup, List.cons_append]
  have hrest : ((if rest.isEmpty then order else order ++ [group]).flatMap (Function.update q.groups group rest)).Perm
      (rest ++ order.flatMap q.groups) := by
    split
    · rename_i hempty
      rw [List.isEmpty_iff] at hempty
      rw [flatMap_update_of_not_mem hturns.1, hempty, List.nil_append]
    · rw [List.flatMap_append, flatMap_update_of_not_mem hturns.1, List.flatMap_singleton, Function.update_self]
      exact List.perm_append_comm
  have hdistinct := h.distinct
  rw [hjobs, List.map_cons, List.nodup_cons] at hdistinct
  refine ⟨Fair.of_jobs ?_ ?_ hrest ?_ ?_ hdistinct.2, ?_⟩
  · split
    · exact hturns.2
    · exact hturns.2.append (List.nodup_singleton _) (by simpa using hturns.1)
  · intro g
    have hgrouped := h.grouped g
    rw [horder, List.mem_cons] at hgrouped
    dsimp only
    by_cases hg : g = group
    · subst hg
      split
      · rename_i hempty
        simpa [hturns.1] using hempty
      · rename_i hempty
        simpa using hempty
    · rw [Function.update_of_ne hg, ← hgrouped]
      split <;> simp [hg]
  · intro id
    have hids := h.ids id
    rw [hjobs] at hids
    simp only [List.mem_filter, hids, List.mem_cons, exists_eq_or_imp, bne_iff_ne, ne_eq]
    constructor
    · rintro ⟨heq | hmem, hne⟩
      · exact absurd heq.symm hne
      · exact hmem
    · rintro ⟨j, hj, rfl⟩
      exact ⟨.inr ⟨j, hj, rfl⟩, fun heq => hdistinct.1 (heq ▸ List.mem_map_of_mem hj)⟩
  · have hcount := h.count
    rw [hjobs, List.length_cons] at hcount
    dsimp only
    omega
  · rw [hjobs]
    exact hrest.symm.cons job

/-! ## Dropping many jobs -/

theorem flatMap_filter_nonempty {order : List String} {groups : String → List QueueJob} :
    (order.filter fun g => !(groups g).isEmpty).flatMap groups = order.flatMap groups := by
  induction order with
  | nil => rfl
  | cons g order ih =>
    rw [List.filter_cons]
    split
    · rw [List.flatMap_cons, List.flatMap_cons, ih]
    · rename_i hempty
      have hnil : groups g = [] := by simpa using hempty
      rw [List.flatMap_cons, ih, hnil, List.nil_append]

theorem jobs_removeScope (scope : String) : (q.removeScope scope).2.jobs = q.jobs.filter (·.scope != scope) := by
  unfold removeScope jobs
  rw [List.filter_flatMap]
  exact flatMap_filter_nonempty

theorem removeScope_fst (scope : String) : (q.removeScope scope).1 = q.jobs.filter (·.scope == scope) := by
  unfold removeScope jobs
  rw [List.filter_flatMap]

theorem Fair.removeScope (h : q.Fair) (scope : String) :
    (q.removeScope scope).2.Fair ∧ q.jobs.Perm ((q.removeScope scope).1 ++ (q.removeScope scope).2.jobs) := by
  have hsplit : q.jobs.Perm ((q.removeScope scope).1 ++ (q.removeScope scope).2.jobs) := by
    rw [jobs_removeScope, removeScope_fst]
    exact (List.filter_append_perm (fun j : QueueJob => j.scope == scope) q.jobs).symm
  have hdistinct := (hsplit.map QueueJob.id).nodup_iff.mp h.distinct
  rw [List.map_append, List.nodup_append] at hdistinct
  obtain ⟨-, hleft, hapart⟩ := hdistinct
  refine ⟨⟨h.turns.filter _, fun g => ?_, fun id => ?_, ?_, hleft⟩, hsplit⟩
  · unfold FairQueue.removeScope
    simp only [List.mem_filter, Bool.not_eq_true', List.isEmpty_eq_false_iff, ne_eq, and_iff_right_iff_imp]
    intro hne
    rw [h.grouped]
    intro hnil
    exact hne (by rw [hnil, List.filter_nil])
  · have hids : id ∈ (q.removeScope scope).2.ids ↔ id ∈ q.ids ∧ ∀ j ∈ (q.removeScope scope).1, j.id ≠ id := by
      have hfilter : (q.removeScope scope).2.ids =
          q.ids.filter fun id => !(q.removeScope scope).1.any (·.id == id) := rfl
      simp [hfilter, List.mem_filter]
    rw [hids, h.ids]
    constructor
    · rintro ⟨⟨j, hj, rfl⟩, hnot⟩
      rcases List.mem_append.mp (hsplit.mem_iff.mp hj) with hdropped | hkept
      · exact absurd rfl (hnot j hdropped)
      · exact ⟨j, hkept, rfl⟩
    · rintro ⟨j, hj, rfl⟩
      refine ⟨⟨j, hsplit.mem_iff.mpr (List.mem_append_right _ hj), rfl⟩, fun k hk heq => ?_⟩
      exact hapart _ (List.mem_map_of_mem hk) _ (List.mem_map_of_mem hj) heq
  · have hcount : (q.removeScope scope).2.count = q.count - (q.removeScope scope).1.length := rfl
    have hlength := hsplit.length_eq
    rw [List.length_append] at hlength
    have := h.count
    omega

theorem fair_discardAll : q.discardAll.2.Fair ∧ q.jobs.Perm (q.discardAll.1 ++ q.discardAll.2.jobs) := by
  unfold FairQueue.discardAll
  refine ⟨⟨List.nodup_nil, by simp, by simp [jobs], by simp [jobs], by simp [jobs]⟩, ?_⟩
  simp [jobs]

theorem Fair.close (h : q.Fair) : q.close.Fair := ⟨h.turns, h.grouped, h.ids, h.count, h.distinct⟩

theorem Fair.exists_pop (h : q.Fair) (hcount : q.count ≠ 0) : ∃ job q', q.pop = some (job, q') := by
  unfold FairQueue.pop
  rw [if_neg hcount]
  split
  · rename_i horder
    have hjobs := h.count
    simp [jobs, horder] at hjobs
    exact absurd hjobs hcount
  · rename_i group order horder
    have hne : q.groups group ≠ [] := (h.grouped group).mp (by simp [horder])
    split
    · rename_i hnil
      exact absurd hnil hne
    · exact ⟨_, _, rfl⟩

end FairQueue

end Boomerangz.Daemon
