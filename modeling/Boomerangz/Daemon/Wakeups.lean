import Boomerangz.Daemon.Retirement

/-! # No retirement is lost

A marked inactive root is `Live` while a job has yet to look at it or a wakeup for it is recorded.
-/

namespace Boomerangz.Daemon

open Transition Zfs Lifecycle Discovery

namespace Retiring

/-! ## The property -/

def watched (installation : ID) (s : Retiring) (d : Dataset) : Bool :=
  s.known.contains d && !s.active.contains d && (markerSince s.pool installation d).isSome && 0 < s.grace

def attended (s : Retiring) (d : Dataset) : Bool :=
  s.jobs.jobs.any (·.id.dataset == d) || (s.delayed.lookup (.retire d)).isSome

def unfinished (s : Retiring) (id : RetireID) : Bool := (s.jobs.find id).all (·.phase != .ended)

def due (installation : ID) (s : Retiring) (d : Dataset) (now : Time) : Bool :=
  (markerSince s.pool installation d).any (fun since => since + (s.graceOf d).toNat ≤ now) &&
    0 < s.graceOf d && decide (locallyActive (activationProperties s.pool) d ≠ .ok true)

def punctual (installation : ID) (s : Retiring) : Action → Bool
  | .apply g => (g.ownedRoots installation).all fun d =>
      !s.reconciles installation g d || s.unfinished (.inactive d false)
  | .configure grace => 0 < s.grace || grace ≤ 0 ||
      s.known.all fun d => s.active.contains d || (markerSince s.pool installation d).isNone
  | .reconcile d active _ fault _ => active || !s.known.contains d || s.active.contains d ||
      (fault.isNone && !s.enabled.contains d && s.unfinished (.retire d))
  | .preview d now _ _ _ => !s.watched installation d || s.due installation d now
  | .retire d now _ _ _ _ => !s.watched installation d || s.due installation d now
  | .expire (.retire d) => !s.watched installation d || s.unfinished (.retire d)
  | _ => true

/-! ## Liveness of one root -/

def Live (s : Retiring) (d : Dataset) : Prop :=
  (∃ j ∈ s.jobs.jobs, (j.id = .inactive d false ∨ j.id = .retire d) ∧ j.phase ≠ .ended) ∨
    (s.delayed.lookup (.retire d)).isSome = true

section Live

variable {s : Retiring} {d : Dataset} {id : RetireID}

theorem Live.attended (h : s.Live d) : s.attended d = true := by
  rw [Retiring.attended, Bool.or_eq_true, List.any_eq_true]
  refine h.imp_left ?_
  rintro ⟨j, hj, hid, -⟩
  refine ⟨j, hj, ?_⟩
  rcases hid with hid | hid <;> simp [hid, RetireID.dataset]

theorem Live.submit (h : s.Live d) : (s.submit id).Live d := by
  refine h.imp_left ?_
  rintro ⟨j, hj, hlive⟩
  exact ⟨j, Pool.mem_submit.mpr (.inl hj), hlive⟩

theorem live_submit (hu : s.unfinished id = true) (hid : id = .inactive d false ∨ id = .retire d) :
    (s.submit id).Live d := by
  rcases s.jobs.exists_submit id id.dataset .begun with ⟨j, hfind, hmem⟩ | hmem
  · refine .inl ⟨j, hmem, ?_, ?_⟩
    · rw [(Pool.find_eq_some.mp hfind).2]
      exact hid
    · simpa [unfinished, hfind] using hu
  · exact .inl ⟨_, hmem, hid, by simp⟩

theorem Live.schedule (h : s.Live d) (at_ : Time) :
    ({ s with delayed := s.delayed.schedule id at_ () } : Retiring).Live d := by
  refine h.imp_right ?_
  intro hd
  by_cases hid : RetireID.retire d = id
  · subst hid
    exact Delayed.lookup_schedule_isSome
  · change ((s.delayed.schedule id at_ ()).lookup (.retire d)).isSome = true
    rw [Delayed.lookup_schedule_ne hid]
    exact hd

theorem live_schedule (at_ : Time) :
    ({ s with delayed := s.delayed.schedule (.retire d) at_ () } : Retiring).Live d :=
  .inr Delayed.lookup_schedule_isSome

theorem Live.ended (h : s.Live d) (h1 : id ≠ .inactive d false) (h2 : id ≠ .retire d) : (s.ended id).Live d := by
  refine h.imp_left ?_
  rintro ⟨j, hj, hid, hphase⟩
  refine ⟨j, Pool.mem_update.mpr (.inl ⟨hj, ?_⟩), hid, hphase⟩
  rcases hid with hid | hid <;> rw [hid]
  · exact h1.symm
  · exact h2.symm

theorem Live.running (h : s.Live d) (work : Progress) : (s.progress id .running work).Live d := by
  refine h.imp_left ?_
  rintro ⟨j, hj, hid, hphase⟩
  by_cases hi : j.id = id
  · exact ⟨_, Pool.mem_update.mpr (.inr ⟨j, hj, hi, rfl⟩), hid, by simp⟩
  · exact ⟨j, Pool.mem_update.mpr (.inl ⟨hj, hi⟩), hid, hphase⟩

theorem Live.postponed {e : Dataset} (h : s.Live d) (at_ : Time) : (s.postponed e at_).Live d := by
  by_cases he : e = d
  · subst he
    exact live_schedule at_
  · exact (h.ended (by simp) (by simpa using he)).schedule at_

end Live

/-! ## The invariant -/

def Scoped (p : Pool RetireID Progress) : Prop := ∀ j ∈ p.jobs, j.scope = j.id.dataset

structure Inv (installation : ID) (s : Retiring) : Prop where
  jobs : Scoped s.jobs
  live : ∀ d, s.watched installation d = true → s.Live d

section Jobs

variable {p : Pool RetireID Progress}

theorem Scoped.submit (h : Scoped p) (id : RetireID) (work : Progress) : Scoped (p.submit id id.dataset work) := by
  intro j hj
  rcases Pool.mem_submit.mp hj with hj | ⟨-, rfl⟩
  · exact h j hj
  · rfl

theorem Scoped.update (h : Scoped p) (id : RetireID) (phase : Phase) (work : Progress) :
    Scoped (p.update id phase work) := by
  intro j hj
  rcases Pool.mem_update.mp hj with ⟨hj, -⟩ | ⟨i, hi, -, rfl⟩
  · exact h j hj
  · exact h i hi

theorem Scoped.filter (h : Scoped p) (keep : Job RetireID Progress → Bool) : Scoped (p.filter keep) :=
  fun j hj => h j (Pool.mem_filter.mp hj).1

theorem Scoped.enqueueInactive (h : Scoped p) (active : Bool) (l : List Dataset) :
    Scoped (enqueueInactive active p l) := by
  induction l generalizing p with
  | nil => exact h
  | cons name l ih => exact ih (h.submit (.inactive name active) .begun)

theorem mem_enqueueInactive {active : Bool} {l : List Dataset} {j : Job RetireID Progress}
    (h : j ∈ (enqueueInactive active p l).jobs) :
    j ∈ p.jobs ∨ j.phase = .queued ∧ ∃ name ∈ l, j.id = .inactive name active := by
  induction l generalizing p with
  | nil => exact .inl h
  | cons name l ih =>
    rcases ih h with hj | ⟨hphase, n, hn, hid⟩
    · rcases Pool.mem_submit.mp hj with hj | ⟨-, rfl⟩
      · exact .inl hj
      · exact .inr ⟨rfl, name, by simp, rfl⟩
    · exact .inr ⟨hphase, n, by simp [hn], hid⟩

theorem enqueueInactive_keeps {j : Job RetireID Progress} (h : j ∈ p.jobs) (active : Bool) (l : List Dataset) :
    j ∈ (enqueueInactive active p l).jobs := by
  induction l generalizing p with
  | nil => exact h
  | cons name l ih => exact ih (Pool.mem_submit.mpr (.inl h))

theorem enqueueInactive_live {l : List Dataset} {d : Dataset} (hd : d ∈ l)
    (h : ∀ j ∈ p.jobs, j.id = .inactive d false → j.phase ≠ .ended) :
    ∃ j ∈ (enqueueInactive false p l).jobs, j.id = .inactive d false ∧ j.phase ≠ .ended := by
  induction l generalizing p with
  | nil => simp at hd
  | cons name l ih =>
    by_cases hn : name = d
    · subst hn
      rcases p.exists_submit (.inactive name false) name .begun with ⟨j, hfind, hmem⟩ | hmem
      · obtain ⟨hj, hid⟩ := Pool.find_eq_some.mp hfind
        exact ⟨j, enqueueInactive_keeps hmem false l, hid, h j hj hid⟩
      · exact ⟨_, enqueueInactive_keeps hmem false l, rfl, by simp⟩
    · refine ih ((List.mem_cons.mp hd).resolve_left (Ne.symm hn)) ?_
      intro j hj hid
      rcases Pool.mem_submit.mp hj with hj | ⟨-, rfl⟩
      · exact h j hj hid
      · simp

end Jobs

section Steps

variable {installation : ID} {s : Retiring}

theorem watched_iff {d : Dataset} : s.watched installation d = true ↔ d ∈ s.known ∧ d ∉ s.active ∧
    (∃ since, markerSince s.pool installation d = some since) ∧ 0 < s.grace := by
  simp [watched, Option.isSome_iff_exists, and_assoc]

theorem Inv.apply {g : Generation} (h : Inv installation s)
    (hok : s.punctual installation (.apply g) = true) : Inv installation (s.applyGeneration installation g) := by
  refine ⟨((h.jobs.enqueueInactive true _).filter _).enqueueInactive false _, ?_⟩
  intro d hd
  obtain ⟨hknown, hinactive, hmarked, hgrace⟩ := watched_iff.mp hd
  have howned : d ∈ g.ownedRoots installation := (List.mem_append.mp hknown).resolve_left hinactive
  have hina : (g.activeRoots installation).contains d = false := by
    simp only [List.contains_eq_mem, decide_eq_false_iff_not]
    exact hinactive
  by_cases hrec : s.reconciles installation g d = true
  · -- A reconciliation is submitted, under an ID no ended job keeps.
    have hu : s.unfinished (.inactive d false) = true := by
      have := List.all_eq_true.mp hok d howned
      simpa [hrec] using this
    obtain ⟨j, hj, hid, hphase⟩ := enqueueInactive_live (List.mem_filter.mpr ⟨howned, hrec⟩)
      (p := s.deactivatedJobs installation g) (d := d) (by
        intro j hj hid
        rcases mem_enqueueInactive (Pool.mem_filter.mp hj).1 with hj | ⟨-, name, -, hid'⟩
        · simpa [unfinished, Pool.find_eq_some.mpr ⟨hj, hid⟩] using hu
        · rw [hid] at hid'
          cases hid')
    exact .inl ⟨j, hj, .inl hid, hphase⟩
  · -- The root was known, inactive and watched already, and its jobs stay.
    have hstays : s.deactivated installation g d = false := by
      have hact : s.active.contains d = false := by
        cases hc : s.active.contains d with
        | false => rfl
        | true => exact absurd (by simp only [Published.reconciles, hc, hina]; rfl) hrec
      rw [Published.deactivated, hact, Bool.false_and, Bool.false_or, Bool.and_eq_false_iff]
      exact .inr (Bool.not_eq_true _ ▸ hrec)
    have hbefore : s.watched installation d = true := by
      simp only [Published.reconciles, hina, Bool.not_false, Bool.true_and, Bool.or_eq_true, not_or,
        Bool.not_eq_true] at hrec
      refine watched_iff.mpr ⟨?_, ?_, hmarked, hgrace⟩
      · simpa using hrec.1.2
      · simpa using hrec.1.1
    refine (h.live d hbefore).imp_left ?_
    rintro ⟨j, hj, hid, hphase⟩
    refine ⟨j, enqueueInactive_keeps (Pool.mem_filter.mpr ⟨enqueueInactive_keeps hj true _, ?_⟩) false _, hid, hphase⟩
    have hscope : j.scope = d := by
      rw [h.jobs j hj]
      rcases hid with hid | hid <;> rw [hid] <;> rfl
    simp [hscope, hstays]

theorem Inv.of_live {s' : Retiring} (h : Inv installation s) (hjobs : Scoped s'.jobs)
    (hwatched : ∀ d, s'.watched installation d = true → s.watched installation d = true)
    (hlive : ∀ d, s'.watched installation d = true → s.Live d → s'.Live d) : Inv installation s' :=
  ⟨hjobs, fun d hd => hlive d hd (h.live d (hwatched d hd))⟩

theorem isMarking_ne_public {d : Dataset} {r : Property} (h : isMarking d r = true) : r.name.isPublic = false := by
  simp only [isMarking, isAuthority, Bool.or_eq_true, Bool.and_eq_true, beq_iff_eq] at h
  rcases h with ⟨-, (hk | hk) | hk⟩ | ⟨-, hk⟩ <;> rw [hk] <;> rfl

theorem markerSince_onPolicy {pool pool' : State} {c : Command} {d : Dataset} (h : c.run pool = .ok pool')
    (hc : onPolicy c = true) : markerSince pool' installation d = markerSince pool installation d := by
  have hkeep : ∀ (n : Name) (k : Key), k.isPublic = true → ∀ r, isMarking d r = true →
      (!(r.dataset == n && r.name == k)) = true := by
    intro n k hk r hr
    have : r.name ≠ k := by
      intro he
      rw [← he, isMarking_ne_public hr] at hk
      cases hk
    simp [this]
  unfold onPolicy at hc
  split at hc
  · obtain ⟨-, rfl⟩ := State.setProperty_eq_ok.mp h
    refine markerSince_congr ?_ rfl rfl
    rename_i e k v
    have hnew : isMarking d ⟨.dataset e, k, v, .sourceLocal⟩ = false := by
      rw [← Bool.not_eq_true]
      intro hm
      have hfalse : k.isPublic = false := isMarking_ne_public hm
      rw [hfalse] at hc
      cases hc
    rw [List.filter_append, State.filter_restrict (hkeep _ _ hc), List.filter_singleton, hnew]
    simp
  · obtain ⟨-, rfl⟩ := State.inheritProperty_eq_ok.mp h
    exact markerSince_congr (State.filter_restrict (hkeep _ _ hc)) rfl rfl
  · cases hc

theorem Inv.configure {grace : Int} (h : Inv installation s)
    (hok : s.punctual installation (.configure grace) = true) : Inv installation { s with grace := grace } := by
  refine h.of_live h.jobs ?_ fun d _ hl => hl
  intro d hd
  obtain ⟨hknown, hinactive, ⟨since, hm⟩, hgrace⟩ := watched_iff.mp hd
  refine watched_iff.mpr ⟨hknown, hinactive, ⟨since, hm⟩, ?_⟩
  simp only [punctual, Bool.or_eq_true, decide_eq_true_eq, List.all_eq_true] at hok
  rcases hok with (hs | hg) | hnone
  · exact hs
  · exact absurd hgrace (not_lt.mpr hg)
  · rcases hnone d hknown with ha | hn
    · exact absurd (by simpa using ha) hinactive
    · have hm' : markerSince s.pool installation d = some since := hm
      rw [hm'] at hn
      cases hn

theorem Inv.complete {id : RetireID} {j : Job RetireID Progress} (h : Inv installation s)
    (hfind : s.jobs.find id = some j) (hphase : j.phase = .ended) :
    Inv installation { s with jobs := s.jobs.complete id } := by
  refine h.of_live (h.jobs.filter _) (fun d hd => hd) ?_
  intro d _ hl
  refine hl.imp_left ?_
  rintro ⟨i, hi, hid, hne⟩
  refine ⟨i, Pool.mem_filter.mpr ⟨hi, ?_⟩, hid, hne⟩
  rw [bne_iff_ne]
  intro he
  have hji : i = j := Option.some.inj ((Pool.find_eq_some.mpr ⟨hi, he⟩).symm.trans hfind)
  exact hne (hji ▸ hphase)

theorem Inv.expire [Digests] {id : RetireID} (h : Inv installation s)
    (hok : s.punctual installation (.expire id) = true) {s' : Retiring}
    (hs : Retiring.step installation s (.expire id) = some s') : Inv installation s' := by
  cases hd : s.delayed.lookup id with
  | none => simp [Retiring.step, hd] at hs
  | some w =>
    cases id with
    | retire d =>
      simp only [Retiring.step, hd, Option.some.injEq] at hs
      subst hs
      refine h.of_live (h.jobs.submit _ _) (fun d hd => hd) ?_
      intro e he hl
      by_cases hde : e = d
      · subst hde
        refine live_submit ?_ (.inr rfl)
        have he' : s.watched installation e = true := he
        simp only [punctual, he', Bool.not_true, Bool.false_or] at hok
        exact hok
      · have hl' : ({ s with delayed := s.delayed.erase (.retire d) } : Retiring).Live e := by
          refine hl.imp_right ?_
          intro hw
          change ((s.delayed.erase (.retire d)).lookup (.retire e)).isSome = true
          rw [AList.lookup_erase_ne (by simpa using hde)]
          exact hw
        exact hl'.submit
    | inactive d active =>
      simp only [Retiring.step, hd, Option.some.injEq] at hs
      have hl' : ∀ e, s.Live e →
          ({ s with delayed := s.delayed.erase (.inactive d active) } : Retiring).Live e := by
        intro e hl
        refine hl.imp_right ?_
        intro hw
        change ((s.delayed.erase (.inactive d active)).lookup (.retire e)).isSome = true
        rw [AList.lookup_erase_ne (by simp)]
        exact hw
      subst hs
      split
      · exact h.of_live (h.jobs.submit _ _) (fun d hd => hd) fun e _ hl => (hl' e hl).submit
      · exact h.of_live h.jobs (fun d hd => hd) fun e _ hl => hl' e hl

section Reconciled

variable {d : Dataset} {active : Bool} {at_ : Time}

theorem watched_reconciled (result : Except Error InactivePlan) (e : Dataset) :
    (s.reconciled d active at_ result).watched installation e = s.watched installation e := by
  unfold reconciled
  split
  · rfl
  · rfl
  · split
    · rfl
    · split
      · rfl
      · split <;> rfl

theorem Scoped.reconciled (h : Scoped s.jobs) (result : Except Error InactivePlan) :
    Scoped (s.reconciled d active at_ result).jobs := by
  unfold Retiring.reconciled
  split
  · exact h
  · exact h
  · split
    · exact h
    · split
      · exact h
      · split
        · exact h.submit _ _
        · exact h

theorem Live.reconciled {e : Dataset} (h : s.Live e) (result : Except Error InactivePlan) :
    (s.reconciled d active at_ result).Live e := by
  unfold Retiring.reconciled
  split
  · exact h.schedule at_
  · exact h
  · split
    · exact h
    · split
      · exact h
      · rename_i deadline _
        split
        · exact h.submit
        · exact h.schedule deadline

theorem live_reconciled {plan : InactivePlan} (hdeadline : plan.deadline.isSome = true)
    (hu : s.unfinished (.retire d) = true) : (s.reconciled d false at_ (.ok plan)).Live d := by
  obtain ⟨deadline, hd⟩ := Option.isSome_iff_exists.mp hdeadline
  simp only [Retiring.reconciled, hd, Bool.false_eq_true, if_false]
  split
  · exact live_submit hu (.inr rfl)
  · exact live_schedule deadline

end Reconciled

theorem unfinished_ended {id other : RetireID} (h : other ≠ id) :
    (s.ended id).unfinished other = s.unfinished other := by
  have hfind : (s.ended id).jobs.find other = s.jobs.find other := by
    cases hf : s.jobs.find other with
    | none =>
      rw [Pool.find_eq_none] at hf ⊢
      intro j hj
      rcases Pool.mem_update.mp hj with ⟨hj, -⟩ | ⟨i, hi, -, rfl⟩
      · exact hf j hj
      · exact hf i hi
    | some j =>
      obtain ⟨hj, hid⟩ := Pool.find_eq_some.mp hf
      exact Pool.find_eq_some.mpr ⟨Pool.mem_update.mpr (.inl ⟨hj, hid ▸ h⟩), hid⟩
  rw [unfinished, hfind, unfinished]

theorem Inv.reconcile [Digests] {d : Dataset} {active : Bool} {now : Time} {fault : Option Fault} {delay : Nat}
    (h : Inv installation s) (hok : s.punctual installation (.reconcile d active now fault delay) = true)
    {s' : Retiring} (hs : Retiring.step installation s (.reconcile d active now fault delay) = some s') :
    Inv installation s' := by
  simp only [Retiring.step, Option.ite_none_right_eq_some, Bool.and_eq_true] at hs
  obtain ⟨⟨-, hnow⟩, hs⟩ := hs
  -- Only a known inactive root needs what the guard asks for.
  have hguard : active = false → d ∈ s.known → d ∉ s.active →
      fault = none ∧ d ∉ s.enabled ∧ s.unfinished (.retire d) = true := by
    intro hactive hk hi
    simpa [punctual, hactive, hk, hi, and_assoc] using hok
  have hother : ∀ e, (e ≠ d ∨ active = true) → s.Live e → (s.ended (.inactive d active)).Live e := by
    intro e he hl
    refine hl.ended ?_ (by simp)
    rintro ⟨rfl, rfl⟩
    simp at he
  split at hs
  · rename_i hblocked
    cases hs
    simp only [Bool.not_eq_true', List.contains_iff_mem] at hblocked
    refine h.of_live (h.jobs.update _ _ _) (fun _ hd => hd) ?_
    intro e he hl
    refine hother e ?_ hl
    by_contra hcon
    simp only [not_or, not_not] at hcon
    obtain ⟨hk, hi, -⟩ := watched_iff.mp he
    exact (hguard hblocked.1 (hcon.1 ▸ hk) (hcon.1 ▸ hi)).2.1 hblocked.2
  · cases hr : reconcileInactive s.pool installation d active now s.grace fault with
    | mk result pool =>
      rw [hr] at hs
      cases hs
      refine ⟨(h.jobs.update _ _ _).reconciled _, ?_⟩
      intro e he
      rw [watched_reconciled] at he
      obtain ⟨hk, hi, ⟨since, hm⟩, hg⟩ := watched_iff.mp he
      by_cases hmine : e = d ∧ active = false
      · obtain ⟨rfl, rfl⟩ := hmine
        obtain ⟨hfault, -, hu⟩ := hguard rfl hk hi
        subst hfault
        obtain ⟨plan, rfl, hdeadline⟩ := reconcileInactive_deadline hr hm hnow hg
        refine live_reconciled hdeadline ?_
        exact (unfinished_ended (by simp)).trans hu
      · -- The marker was there before, and what the root waits for is not this job.
        have hbefore : markerSince s.pool installation e = some since := by
          by_cases hed : e = d
          · subst hed
            cases active with
            | false => simp at hmine
            | true => exact reconcileInactive_active hr hm
          · rw [← reconcileInactive_ne hr (Ne.symm hed)]
            exact hm
        have hl := h.live e (watched_iff.mpr ⟨hk, hi, ⟨since, hbefore⟩, hg⟩)
        refine Live.reconciled (s := { s with pool := pool }.ended (.inactive d active)) ?_ _
        refine hother e ?_ hl
        by_cases hed : e = d
        · exact .inr (by simpa [hed] using hmine)
        · exact .inl hed

section Attempts

variable {d : Dataset}

theorem watched_of_thinned {pool : State} (hp : Thinned pool s.pool) {e : Dataset}
    (he : { s with pool := pool }.watched installation e = true) : s.watched installation e = true := by
  obtain ⟨hk, hi, ⟨since, hm⟩, hg⟩ := watched_iff.mp he
  exact watched_iff.mpr ⟨hk, hi, ⟨since, markerSince_of_thinned hp hm⟩, hg⟩

theorem Inv.postpone {pool : State} (h : Inv installation s) (hp : Thinned pool s.pool) (at_ : Time) :
    Inv installation ({ s with pool := pool }.postponed d at_) := by
  exact h.of_live (h.jobs.update _ _ _) (fun _ => watched_of_thinned hp) fun e _ hl => Live.postponed (s := { s with pool := pool }) hl at_

theorem Inv.attempted {pool : State} (h : Inv installation s) (hp : Thinned pool s.pool) (work : Progress) :
    Inv installation ({ s with pool := pool }.progress (.retire d) .running work) := by
  exact h.of_live (h.jobs.update _ _ _) (fun _ => watched_of_thinned hp) fun e _ hl => Live.running (s := { s with pool := pool }) hl work

theorem Inv.abandon {s' : Retiring} (h : Inv installation s) (hjobs : s'.jobs = (s.ended (.retire d)).jobs)
    (hdelayed : s'.delayed = s.delayed) (hwatched : ∀ e, s'.watched installation e = true →
      e ≠ d ∧ s.watched installation e = true) : Inv installation s' := by
  refine h.of_live (by rw [hjobs]; exact h.jobs.update _ _ _) (fun e he => (hwatched e he).2) ?_
  intro e he hl
  have hl' : (s.ended (.retire d)).Live e := hl.ended (by simp) (by simpa using Ne.symm (hwatched e he).1)
  rw [Live, hjobs, hdelayed]
  exact hl'

theorem due_spec {now : Time} (h : s.due installation d now = true) {since : Time}
    (hm : markerSince s.pool installation d = some since) : 0 < s.graceOf d ∧
      since + (s.graceOf d).toNat ≤ now ∧ locallyActive (activationProperties s.pool) d ≠ .ok true := by
  simp only [due, hm, Option.any_some, Bool.and_eq_true, decide_eq_true_eq] at h
  exact ⟨h.1.2, h.1.1, h.2⟩

theorem graceOf_running {work : Progress} (h : s.running (.retire d) work = true) :
    s.graceOf d = match work with
      | .begun => s.grace
      | .previewed grace => grace
      | .targeted grace => grace := by
  unfold running at h
  cases hf : s.jobs.find (.retire d) with
  | none => simp [hf] at h
  | some j =>
    simp only [hf, Option.any_some, Bool.and_eq_true, beq_iff_eq] at h
    simp only [graceOf, hf, Option.map_some, h.2]
    cases work <;> rfl

theorem Inv.preview [Digests] {now : Time} {safety : CleanSafety} {fault : Option Error} {delay : Nat}
    (h : Inv installation s) (hok : s.punctual installation (.preview d now safety fault delay) = true)
    {s' : Retiring} (hs : Retiring.step installation s (.preview d now safety fault delay) = some s') :
    Inv installation s' := by
  simp only [Retiring.step, Option.ite_none_right_eq_some, Bool.and_eq_true] at hs
  obtain ⟨⟨hrunning, hnow⟩, hs⟩ := hs
  have hgrace : s.graceOf d = s.grace := graceOf_running hrunning
  split at hs
  · cases hs
    exact h.postpone (.refl _) _
  · rename_i plan hplan
    split at hs
    · rename_i hnot
      cases hs
      refine h.abandon rfl rfl ?_
      intro e he
      refine ⟨?_, he⟩
      rintro rfl
      -- A watched root is due by the guard, and so eligible.
      obtain ⟨-, -, ⟨since, hm⟩, hg⟩ := watched_iff.mp he
      have he' : s.watched installation e = true := he
      simp only [punctual, he', Bool.not_true, Bool.false_or] at hok
      obtain ⟨-, hdue, hoff⟩ := due_spec hok hm
      rw [hgrace] at hdue
      have := retire_eligible (Prod.ext hplan rfl) hm hnow hg hdue hoff
      simp [this] at hnot
    · split at hs
      · cases hs
        exact h.attempted (.refl _) _
      · cases hs
        exact h.postpone (.refl _) _

theorem Inv.retire [Digests] {now : Time} {safety : CleanSafety} {fault : Option Error} {cut : Option Nat} {delay : Nat}
    (h : Inv installation s) (hok : s.punctual installation (.retire d now safety fault cut delay) = true)
    {s' : Retiring} (hs : Retiring.step installation s (.retire d now safety fault cut delay) = some s') :
    Inv installation s' := by
  simp only [Retiring.step, Option.ite_none_right_eq_some, Bool.and_eq_true] at hs
  obtain ⟨⟨-, hnow⟩, hs⟩ := hs
  split at hs
  · rename_i e pool hr
    cases hs
    exact h.postpone (retire_thinned hr) _
  · rename_i plan pool hr
    cases hs
    have hwas : ∀ e since, markerSince pool installation e = some since →
        markerSince s.pool installation e = some since :=
      fun e since hm => markerSince_of_thinned (retire_thinned hr) hm
    split
    · -- Retired: the root is forgotten.
      refine h.abandon rfl rfl ?_
      intro e he
      obtain ⟨hk, hi, ⟨since, hm⟩, hg⟩ := watched_iff.mp he
      have hk' : e ∈ s.known.filter (· != d) := hk
      rw [List.mem_filter, bne_iff_ne] at hk'
      exact ⟨hk'.2, watched_iff.mpr ⟨hk'.1, hi, ⟨since, hwas e since hm⟩, hg⟩⟩
    · rename_i hnot
      refine h.abandon rfl rfl ?_
      intro e he
      obtain ⟨hk, hi, ⟨since, hm⟩, hg⟩ := watched_iff.mp he
      have he' : s.watched installation e = true := watched_iff.mpr ⟨hk, hi, ⟨since, hwas e since hm⟩, hg⟩
      refine ⟨?_, he'⟩
      rintro rfl
      simp only [punctual, he', Bool.not_true, Bool.false_or] at hok
      obtain ⟨hpos, hdue, hoff⟩ := due_spec hok (hwas e since hm)
      exact hnot (retire_eligible hr (hwas e since hm) hnow hpos hdue hoff)

theorem Inv.targets [Digests] {cs : List Command} {verified : Bool} {now : Time} {delay : Nat} (h : Inv installation s)
    {s' : Retiring} (hs : Retiring.step installation s (.targets d cs verified now delay) = some s') :
    Inv installation s' := by
  simp only [Retiring.step, Option.ite_none_right_eq_some, Bool.and_eq_true, List.all_eq_true] at hs
  obtain ⟨⟨-, hcs⟩, hs⟩ := hs
  have hthin : Thinned (runUntil s.pool cs none).1 s.pool := by
    refine runUntil_thinned fun c hc => ?_
    have := hcs c hc
    unfold onReplica at this
    split at this
    · rfl
    · rfl
    · cases this
  cases hs
  split
  · exact h.attempted hthin _
  · exact h.postpone hthin _

end Attempts

theorem Inv.step [Digests] {a : Action} {s' : Retiring} (h : Inv installation s) (hok : s.punctual installation a = true)
    (hs : Retiring.step installation s a = some s') : Inv installation s' := by
  cases a with
  | apply g =>
    cases hs
    exact h.apply hok
  | configure grace =>
    simp only [Retiring.step, Option.ite_none_right_eq_some] at hs
    obtain ⟨-, hs⟩ := hs
    cases hs
    exact h.configure hok
  | operator c =>
    simp only [Retiring.step] at hs
    split at hs
    · rename_i pool hrun
      split at hs
      · rename_i hc
        cases hs
        refine h.of_live h.jobs ?_ fun d _ hl => hl
        intro d hd
        obtain ⟨hk, hi, ⟨since, hm⟩, hg⟩ := watched_iff.mp hd
        exact watched_iff.mpr ⟨hk, hi, ⟨since, (markerSince_onPolicy hrun hc).symm.trans hm⟩, hg⟩
      · cases hs
    · cases hs
  | start id =>
    simp only [Retiring.step] at hs
    split at hs
    · rename_i j hj
      simp only [Option.ite_none_right_eq_some] at hs
      obtain ⟨-, hs⟩ := hs
      cases hs
      exact h.of_live (h.jobs.update _ _ _) (fun _ hd => hd) fun _ _ hl => hl.running j.work
    · cases hs
  | reconcile d active now fault delay => exact h.reconcile hok hs
  | preview d now safety fault delay => exact h.preview hok hs
  | targets d cs verified now delay => exact h.targets hs
  | retire d now safety fault cut delay => exact h.retire hok hs
  | complete id =>
    simp only [Retiring.step] at hs
    split at hs
    · rename_i j hj
      simp only [Option.ite_none_right_eq_some] at hs
      obtain ⟨hphase, hs⟩ := hs
      cases hs
      exact h.complete hj hphase
    · cases hs
  | expire id => exact h.expire hok hs

end Steps

end Retiring

/-- In every run whose wakeups are punctual, a known owned root that is inactive and marked while
automatic retirement is on has a job or a retirement wakeup. -/
theorem retirement_attended [Digests] {installation : ID} {s : Retiring}
    (h : Reach (retiring installation) (fun s a => s.punctual installation a = true) s) (d : Dataset)
    (hd : s.watched installation d = true) : s.attended d = true := by
  have hinv : Retiring.Inv installation s := by
    refine h.invariant ?_ fun s a s' hi hok hs => hi.step hok hs
    rintro s ⟨hpublished, -, hjobs, -⟩
    refine ⟨?_, ?_⟩
    · intro j hj
      rw [hjobs] at hj
      simp [Pool.empty] at hj
    · intro d hd
      have := (Retiring.watched_iff.mp hd).1
      simp [hpublished, Published.none] at this
  exact (hinv.live d hd).attended

/-! ### One root, retired in time or never -/

def idleGrid : Policy.Grid := .windows 1 2

section Sample

attribute [local instance] symbolicDigests

def idleRoot : Entry where
  dataset := ["tank"]
  inspected := true
  coveredBy := []
  member := false
  members := [["tank"]]
  policy := { Policy.Effective.plain idleGrid [] [] with enabled := false }
  stored := authorityRows ["tank"] ⟨9, 9⟩ ⟨1, 1⟩
  blocked := []
  rest := ""

def idlePool : State where
  objects := [.ofRow (.dataset ["tank"]) .filesystem 1 5 (by decide)]
  properties := authorityRows ["tank"] ⟨9, 9⟩ ⟨1, 1⟩
  distinct := by decide

def idleDaemon : Retiring := ⟨.none, idlePool, 10, .empty, ∅⟩

def noChecks : CleanSafety := ⟨fun _ => .ok (), fun _ _ => .ok ()⟩

def markedAt100 : List Retiring.Action :=
  [.apply ⟨[idleRoot], by decide⟩, .start (.inactive ["tank"] false), .reconcile ["tank"] false 100 none 0,
    .complete (.inactive ["tank"] false)]

def attemptAt110 : List Retiring.Action :=
  [.expire (.retire ["tank"]), .start (.retire ["tank"]), .preview ["tank"] 110 noChecks none 0]

/-- The grace period grows to 50 before the wakeup: the attempt finds the root not due, and nothing
is left to retire it. -/
theorem retirement_lost : ∃ s, Reach (retiring ⟨9, 9⟩) free s ∧ s.watched ⟨9, 9⟩ ["tank"] = true ∧
    s.attended ["tank"] = false := by
  obtain ⟨s, hs⟩ : ∃ s, run (retiring ⟨9, 9⟩)
      (markedAt100 ++ .configure 50 :: attemptAt110 ++ [.complete (.retire ["tank"])]) idleDaemon = some s := ⟨_, rfl⟩
  have hinit : (retiring ⟨9, 9⟩).init idleDaemon := ⟨rfl, by decide, rfl, rfl⟩
  exact ⟨s, Reach.run (.init hinit) (fun _ _ => trivial) hs, by cases hs; decide, by cases hs; decide⟩

theorem retirement_attended_at_110 : ∃ s : Retiring,
    Reach (retiring ⟨9, 9⟩) (fun s a => s.punctual ⟨9, 9⟩ a = true) s ∧
    s.watched ⟨9, 9⟩ ["tank"] = true ∧ s.attended ["tank"] = true := by
  obtain ⟨s, hs⟩ : ∃ s, runOk (retiring ⟨9, 9⟩) (Retiring.punctual ⟨9, 9⟩) (markedAt100 ++ attemptAt110)
      idleDaemon = some s := ⟨_, rfl⟩
  have hinit : (retiring ⟨9, 9⟩).init idleDaemon := ⟨rfl, by decide, rfl, rfl⟩
  have hreach := Reach.runOk (.init hinit) hs
  have hwatched : s.watched ⟨9, 9⟩ ["tank"] = true := by cases hs; decide
  exact ⟨s, hreach, hwatched, retirement_attended hreach _ hwatched⟩

end Sample

end Boomerangz.Daemon
