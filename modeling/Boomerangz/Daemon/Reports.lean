import Boomerangz.Daemon.Endings

/-! # What a pool reports

The pool with its reports, each where it is made. A silent outcome is not reported, and an outcome may be in a state
that a run which goes on is in.
-/

open Transition

namespace Boomerangz.Daemon

/-! ## Histories -/

/-- `start` is the job's own start state, `inProgress` a phase of a transfer, and `ended` every other state, such as
`succeeded`, `waiting-retry` or `cancelled`. -/
inductive ReportKind where
  | pending
  | waitingLock
  | start
  | inProgress
  | ended
deriving DecidableEq, Repr

/-- `Outcome`, which no run of the daemon gives in a pending state. -/
structure RunOutcome where
  state : ReportKind
  silent : Bool
  told : state ≠ .pending
deriving DecidableEq, Repr

structure JobReport where
  job : QueueJob
  kind : ReportKind
deriving DecidableEq, Repr

inductive Told (vague : List QueueJob) : List JobReport → Option QueueJob → Prop where
  | nil : Told vague [] none
  | pending {l : List JobReport} {j : QueueJob} (h : Told vague l none) (hnew : ∀ r ∈ l, r.job ≠ j) :
    Told vague (l ++ [⟨j, .pending⟩]) (some j)
  | goes {l : List JobReport} {j : QueueJob} {kind : ReportKind} (h : Told vague l (some j)) (hpending : kind ≠ .pending)
      (hover : kind ≠ .ended) : Told vague (l ++ [⟨j, kind⟩]) (some j)
  | ended {l : List JobReport} {j : QueueJob} (h : Told vague l (some j)) : Told vague (l ++ [⟨j, .ended⟩]) none
  | hush {l : List JobReport} {j : QueueJob} (h : Told vague l (some j)) (hj : j ∈ vague) : Told vague l none
  | unsaid {l : List JobReport} {j : QueueJob} {kind : ReportKind} (h : Told vague l (some j)) (hj : j ∈ vague)
      (hpending : kind ≠ .pending) : Told vague (l ++ [⟨j, kind⟩]) none

theorem Told.mono {vague vague' : List QueueJob} (hsub : ∀ j ∈ vague, j ∈ vague') {l : List JobReport}
    {o : Option QueueJob} (h : Told vague l o) : Told vague' l o := by
  induction h with
  | nil => exact .nil
  | pending _ hnew ih => exact .pending ih hnew
  | goes _ hpending hover ih => exact .goes ih hpending hover
  | ended _ ih => exact .ended ih
  | hush _ hj ih => exact .hush ih (hsub _ hj)
  | unsaid _ hj hpending ih => exact .unsaid ih (hsub _ hj) hpending

structure Block where
  job : QueueJob
  later : List ReportKind

def Block.reports (b : Block) : List JobReport := ⟨b.job, .pending⟩ :: b.later.map fun kind => ⟨b.job, kind⟩

structure Split (blocks : List Block) (l : List JobReport) : Prop where
  reports : l = blocks.flatMap Block.reports
  once : (blocks.map Block.job).Nodup
  first : ∀ b ∈ blocks, .pending ∉ b.later

def InBlocks (l : List JobReport) : Prop := ∃ blocks, Split blocks l

section Telling

variable {vague : List QueueJob} {l : List JobReport} {o : Option QueueJob} {j : QueueJob} {r : JobReport}

theorem job_mem_of_mem {blocks : List Block} {b : Block} (hb : b ∈ blocks) :
    ∃ r ∈ blocks.flatMap Block.reports, r.job = b.job :=
  ⟨⟨b.job, .pending⟩, List.mem_flatMap.mpr ⟨b, hb, List.mem_cons_self⟩, rfl⟩

theorem Split.pending {blocks : List Block} (h : Split blocks l) (hnew : ∀ r ∈ l, r.job ≠ j) :
    Split (blocks ++ [⟨j, []⟩]) (l ++ [⟨j, .pending⟩]) := by
  refine ⟨by rw [List.flatMap_append, ← h.reports]; rfl, ?_, ?_⟩
  · rw [List.map_append, List.nodup_append]
    refine ⟨h.once, by simp, ?_⟩
    intro k hk k' hk' heq
    obtain ⟨b, hb, rfl⟩ := List.mem_map.mp hk
    obtain ⟨r, hr, hjob⟩ := job_mem_of_mem hb
    rw [← h.reports] at hr
    rw [List.map_singleton, List.mem_singleton] at hk'
    exact hnew r hr (hjob.trans (heq.trans hk'))
  · intro b hb
    rcases List.mem_append.mp hb with hb | hb
    · exact h.first b hb
    · rw [List.mem_singleton.mp hb]
      exact List.not_mem_nil

theorem Split.goes {blocks : List Block} {later : List ReportKind} {kind : ReportKind}
    (h : Split (blocks ++ [⟨j, later⟩]) l) (hkind : kind ≠ .pending) :
    Split (blocks ++ [⟨j, later ++ [kind]⟩]) (l ++ [⟨j, kind⟩]) := by
  refine ⟨?_, ?_, ?_⟩
  · rw [h.reports]
    simp [Block.reports]
  · have honce := h.once
    rw [List.map_append] at honce ⊢
    exact honce
  · intro b hb
    rcases List.mem_append.mp hb with hb | hb
    · exact h.first b (List.mem_append_left _ hb)
    · rw [List.mem_singleton.mp hb]
      have hlater := h.first ⟨j, later⟩ (by simp)
      simp only [List.mem_append, List.mem_singleton, not_or]
      exact ⟨hlater, hkind.symm⟩

theorem Told.split (h : Told vague l o) :
    ∃ blocks, Split blocks l ∧ ∀ j, o = some j → ∃ before later, blocks = before ++ [⟨j, later⟩] := by
  induction h with
  | nil => exact ⟨[], ⟨rfl, List.nodup_nil, by simp⟩, by rintro j ⟨⟩⟩
  | pending _ hnew ih =>
    obtain ⟨blocks, hsplit, -⟩ := ih
    refine ⟨_, hsplit.pending hnew, ?_⟩
    rintro k ⟨⟩
    exact ⟨blocks, [], rfl⟩
  | goes _ hpending _ ih =>
    obtain ⟨blocks, hsplit, hlast⟩ := ih
    obtain ⟨before, later, rfl⟩ := hlast _ rfl
    refine ⟨_, hsplit.goes hpending, ?_⟩
    rintro k ⟨⟩
    exact ⟨before, _, rfl⟩
  | ended _ ih =>
    obtain ⟨blocks, hsplit, hlast⟩ := ih
    obtain ⟨before, later, rfl⟩ := hlast _ rfl
    exact ⟨_, hsplit.goes (by decide), by rintro k ⟨⟩⟩
  | unsaid _ _ hpending ih =>
    obtain ⟨blocks, hsplit, hlast⟩ := ih
    obtain ⟨before, later, rfl⟩ := hlast _ rfl
    exact ⟨_, hsplit.goes hpending, by rintro k ⟨⟩⟩
  | hush _ _ ih =>
    obtain ⟨blocks, hsplit, -⟩ := ih
    exact ⟨blocks, hsplit, by rintro k ⟨⟩⟩

theorem Told.current (h : Told vague l (some j)) : ∃ kind, l.getLast? = some ⟨j, kind⟩ := by
  cases h with
  | pending => exact ⟨_, List.getLast?_concat⟩
  | goes => exact ⟨_, List.getLast?_concat⟩

theorem Told.last (h : Told vague l none) (hr : l.getLast? = some r) : r.kind = .ended ∨ r.job ∈ vague := by
  cases h with
  | nil => cases hr
  | ended =>
    rw [List.getLast?_concat, Option.some.injEq] at hr
    exact .inl (by rw [← hr])
  | hush h hj =>
    obtain ⟨kind, hlast⟩ := h.current
    rw [hlast, Option.some.injEq] at hr
    exact .inr (by rw [← hr]; exact hj)
  | unsaid _ hj =>
    rw [List.getLast?_concat, Option.some.injEq] at hr
    exact .inr (by rw [← hr]; exact hj)

end Telling

/-! ## What a pool tells -/

structure Telling where
  current : Multiset QueueJob
  reports : List JobReport
  vague : List QueueJob

def historyOf (id : String) (reports : List JobReport) : List JobReport := reports.filter (·.job.id == id)

namespace Telling

inductive Step : Telling → Telling → Prop where
  | stay (b : Telling) : Step b b
  | offer (b : Telling) (j : QueueJob) (hnew : ∀ r ∈ b.reports, r.job ≠ j) (hid : ∀ k ∈ b.current, k.id ≠ j.id) :
    Step b { b with current := j ::ₘ b.current, reports := b.reports ++ [⟨j, .pending⟩] }
  | goes (b : Telling) (j : QueueJob) (kind : ReportKind) (hj : j ∈ b.current) (hpending : kind ≠ .pending)
      (hover : kind ≠ .ended) : Step b { b with reports := b.reports ++ [⟨j, kind⟩] }
  | ended (b : Telling) (js : List QueueJob) (rest : Multiset QueueJob) (hcurrent : b.current = js + rest) :
    Step b { b with current := rest, reports := b.reports ++ js.map fun j => ⟨j, .ended⟩ }
  | hush (b : Telling) (j : QueueJob) (rest : Multiset QueueJob) (hcurrent : b.current = j ::ₘ rest) :
    Step b { b with current := rest, vague := j :: b.vague }
  | unsaid (b : Telling) (j : QueueJob) (rest : Multiset QueueJob) (kind : ReportKind) (hcurrent : b.current = j ::ₘ rest)
      (hpending : kind ≠ .pending) :
    Step b { current := rest, reports := b.reports ++ [⟨j, kind⟩], vague := j :: b.vague }

structure Orderly (b : Telling) : Prop where
  ids : (b.current.map QueueJob.id).Nodup
  running : ∀ j ∈ b.current, Told b.vague (historyOf j.id b.reports) (some j)
  idle : ∀ id, (∀ j ∈ b.current, j.id ≠ id) → Told b.vague (historyOf id b.reports) none

variable {b b' : Telling} {j : QueueJob} {rest : Multiset QueueJob}

theorem historyOf_concat (id : String) (reports : List JobReport) (j : QueueJob) (kind : ReportKind) :
    historyOf id (reports ++ [⟨j, kind⟩]) =
      if j.id = id then historyOf id reports ++ [⟨j, kind⟩] else historyOf id reports := by
  unfold historyOf
  rw [List.filter_append]
  by_cases hid : j.id = id <;> simp [hid]

theorem Orderly.report (h : b.Orderly) (kind : ReportKind) {vague : List QueueJob} {current : Multiset QueueJob}
    (hvague : ∀ k ∈ b.vague, k ∈ vague) (hids : (current.map QueueJob.id).Nodup)
    (hothers : ∀ k, k.id ≠ j.id → (k ∈ current ↔ k ∈ b.current))
    (hrunning : ∀ k ∈ current, k.id = j.id → Told vague (historyOf j.id b.reports ++ [⟨j, kind⟩]) (some k))
    (hidle : (∀ k ∈ current, k.id ≠ j.id) → Told vague (historyOf j.id b.reports ++ [⟨j, kind⟩]) none) :
    Orderly ⟨current, b.reports ++ [⟨j, kind⟩], vague⟩ := by
  refine ⟨hids, fun k hk => ?_, fun id hid => ?_⟩
  · simp only [historyOf_concat]
    by_cases hsame : k.id = j.id
    · rw [if_pos hsame.symm, hsame]
      exact hrunning k hk hsame
    · rw [if_neg (Ne.symm hsame)]
      exact (h.running k ((hothers k hsame).mp hk)).mono hvague
  · simp only [historyOf_concat]
    by_cases hsame : j.id = id
    · rw [if_pos hsame, ← hsame]
      exact hidle fun k hk => hsame ▸ hid k hk
    · rw [if_neg hsame]
      refine (h.idle id fun k hk hkid => ?_).mono hvague
      exact hid k ((hothers k (by rw [hkid]; exact Ne.symm hsame)).mpr hk) hkid

theorem Orderly.not_mem_rest (h : b.Orderly) (hcurrent : b.current = j ::ₘ rest) :
    (rest.map QueueJob.id).Nodup ∧ ∀ k ∈ rest, k.id ≠ j.id := by
  have hids := h.ids
  rw [hcurrent, Multiset.map_cons, Multiset.nodup_cons] at hids
  refine ⟨hids.2, fun k hk heq => hids.1 ?_⟩
  rw [← heq]
  exact Multiset.mem_map_of_mem _ hk

theorem mem_rest_iff (hcurrent : b.current = j ::ₘ rest) {k : QueueJob} (hk : k.id ≠ j.id) : k ∈ rest ↔ k ∈ b.current := by
  rw [hcurrent, Multiset.mem_cons]
  exact ⟨.inr, fun hmem => hmem.resolve_left fun heq => hk (by rw [heq])⟩

theorem Orderly.ended_one (h : b.Orderly) (hcurrent : b.current = j ::ₘ rest) :
    Orderly { b with current := rest, reports := b.reports ++ [⟨j, .ended⟩] } := by
  obtain ⟨hids, hne⟩ := h.not_mem_rest hcurrent
  refine h.report .ended (fun _ hk => hk) hids (fun k hk => mem_rest_iff hcurrent hk) ?_ ?_
  · exact fun k hk heq => absurd heq (hne k hk)
  · exact fun _ => .ended (h.running j (by rw [hcurrent]; exact Multiset.mem_cons_self j rest))

theorem Orderly.ended (h : b.Orderly) (js : List QueueJob) (hcurrent : b.current = js + rest) :
    Orderly { b with current := rest, reports := b.reports ++ js.map fun j => ⟨j, .ended⟩ } := by
  induction js generalizing b with
  | nil =>
    rw [Multiset.coe_nil, zero_add] at hcurrent
    simpa [← hcurrent] using h
  | cons j js ih =>
    rw [← Multiset.cons_coe, Multiset.cons_add] at hcurrent
    have hnext := ih (h.ended_one hcurrent) rfl
    simpa using hnext

theorem Orderly.step (h : b.Orderly) (hs : Step b b') : b'.Orderly := by
  cases hs with
  | stay => exact h
  | offer j hnew hid =>
    refine h.report .pending (fun _ hk => hk) ?_ (fun k hk => ?_) (fun k hk heq => ?_) (fun hidle => ?_)
    · rw [Multiset.map_cons, Multiset.nodup_cons]
      refine ⟨fun hmem => ?_, h.ids⟩
      obtain ⟨k, hk, heq⟩ := Multiset.mem_map.mp hmem
      exact hid k hk heq
    · rw [Multiset.mem_cons]
      exact ⟨fun hmem => hmem.resolve_left fun heq => hk (by rw [heq]), .inr⟩
    · obtain rfl : k = j := (Multiset.mem_cons.mp hk).resolve_right fun hmem => hid k hmem heq
      exact .pending (h.idle k.id hid) fun r hr => hnew r (List.mem_of_mem_filter hr)
    · exact absurd rfl (hidle j (Multiset.mem_cons_self j _))
  | goes j kind hj hpending hover =>
    refine h.report kind (fun _ hk => hk) h.ids (fun _ _ => Iff.rfl) (fun k hk heq => ?_) (fun hidle => ?_)
    · obtain rfl : k = j := Multiset.inj_on_of_nodup_map h.ids k hk j hj heq
      exact .goes (h.running k hj) hpending hover
    · exact absurd rfl (hidle j hj)
  | ended js rest hcurrent => exact h.ended js hcurrent
  | hush j rest hcurrent =>
    obtain ⟨hids, hne⟩ := h.not_mem_rest hcurrent
    have hmono : ∀ k ∈ b.vague, k ∈ j :: b.vague := fun k hk => List.mem_cons_of_mem j hk
    refine ⟨hids, fun k hk => ?_, fun id hid => ?_⟩
    · exact (h.running k (by rw [hcurrent]; exact Multiset.mem_cons_of_mem hk)).mono hmono
    · by_cases hsame : j.id = id
      · subst hsame
        exact .hush ((h.running j (by rw [hcurrent]; exact Multiset.mem_cons_self j rest)).mono hmono) List.mem_cons_self
      · refine (h.idle id fun k hk hkid => ?_).mono hmono
        rw [hcurrent, Multiset.mem_cons] at hk
        rcases hk with rfl | hk
        · exact hsame hkid
        · exact hid k hk hkid
  | unsaid j rest kind hcurrent hpending =>
    obtain ⟨hids, hne⟩ := h.not_mem_rest hcurrent
    have hmono : ∀ k ∈ b.vague, k ∈ j :: b.vague := fun k hk => List.mem_cons_of_mem j hk
    refine h.report kind hmono hids (fun k hk => mem_rest_iff hcurrent hk) (fun k hk heq => absurd heq (hne k hk)) ?_
    have hj := (h.running j (by rw [hcurrent]; exact Multiset.mem_cons_self j rest)).mono hmono
    exact fun _ => .unsaid hj List.mem_cons_self hpending

theorem Step.mem_reports (hs : Step b b') {r : JobReport} (hr : r ∈ b'.reports) :
    r ∈ b.reports ∨ r.job ∈ b.current ∨ r.job ∈ b'.current := by
  cases hs with
  | stay => exact .inl hr
  | offer j =>
    refine (List.mem_append.mp hr).imp_right fun hr => ?_
    rw [List.mem_singleton.mp hr]
    exact .inr (Multiset.mem_cons_self j _)
  | goes j kind hj =>
    refine (List.mem_append.mp hr).imp_right fun hr => ?_
    rw [List.mem_singleton.mp hr]
    exact .inl hj
  | ended js rest hcurrent =>
    refine (List.mem_append.mp hr).imp_right fun hr => ?_
    obtain ⟨j, hj, rfl⟩ := List.mem_map.mp hr
    rw [hcurrent]
    exact .inl (Multiset.mem_add.mpr (.inl hj))
  | hush => exact .inl hr
  | unsaid j rest kind hcurrent =>
    refine (List.mem_append.mp hr).imp_right fun hr => ?_
    rw [List.mem_singleton.mp hr, hcurrent]
    exact .inl (Multiset.mem_cons_self j rest)

end Telling

/-! ## The pool with its reports -/

/-- `returned` are the jobs whose `Run` has returned, `vague` those whose outcome did not say that the run is over. -/
structure Reporting where
  pool : Pooling
  returned : List QueueJob
  reports : List JobReport
  vague : List QueueJob

inductive ReportAction where
  | pool (a : PoolAction)
  /-- a wait for the job's lock, which may be reported again with another blocker -/
  | waiting (t : Thread)
  /-- a phase of a transfer -/
  | phase (t : Thread)
  | outcome (t : Thread) (o : RunOutcome)
deriving DecidableEq, Repr

def RunOutcome.reports (o : RunOutcome) (job : QueueJob) : List JobReport := if o.silent then [] else [⟨job, o.state⟩]

def RunOutcome.vague (o : RunOutcome) : Bool := o.silent || o.state != .ended

def Pooling.told (s : Pooling) : PoolAction → List JobReport
  | .advance (.submitting job) =>
    match s.queue.offer job with
    | .ok (some _) => [⟨job, .pending⟩]
    | _ => []
  | .advance (.holding _ .popped job) => if s.stopped then [⟨job, .ended⟩] else []
  | .advance (.holding _ .locking job) => if s.stopped && job.lockKey != "" then [⟨job, .ended⟩] else []
  | .advance (.holding _ .locked job) => [⟨job, .start⟩]
  | .removeScope scope => (s.queue.removeScope scope).1.map fun j => ⟨j, .ended⟩
  | .discardPending => s.queue.discardAll.1.map fun j => ⟨j, .ended⟩
  | _ => []

namespace Reporting

variable (s : Reporting)

/-- `complete` after a run comes after its outcome. -/
def ready : PoolAction → Bool
  | .advance (.holding _ .running job) => s.returned.contains job
  | _ => true

def tell (job : QueueJob) (kind : ReportKind) : Reporting := { s with reports := s.reports ++ [⟨job, kind⟩] }

def step : ReportAction → Option Reporting
  | .pool a =>
    if s.ready a then
      (s.pool.step a).map fun pool => { s with pool := pool, reports := s.reports ++ s.pool.told a }
    else none
  | .waiting t =>
    match t with
    | .holding _ .locking job => if t ∈ s.pool.threads ∧ job.lockKey ≠ "" then some (s.tell job .waitingLock) else none
    | _ => none
  | .phase t =>
    match t with
    | .holding _ .running job => if t ∈ s.pool.threads ∧ job ∉ s.returned then some (s.tell job .inProgress) else none
    | _ => none
  | .outcome t o =>
    match t with
    | .holding _ .running job =>
      if t ∈ s.pool.threads ∧ job ∉ s.returned then
        some ⟨s.pool, job :: s.returned, s.reports ++ o.reports job, if o.vague then job :: s.vague else s.vague⟩
      else none
    | _ => none

end Reporting

def reporting (capacity : Nat) : System Reporting ReportAction where
  init s := s = ⟨emptyPool capacity, [], [], []⟩
  step := Reporting.step

/-! ## Steps -/

def Thread.works (returned : List QueueJob) : Thread → Option QueueJob
  | .holding _ .popped job => some job
  | .holding _ .locking job => some job
  | .holding _ .locked job => some job
  | .holding _ .running job => if job ∈ returned then none else some job
  | _ => none

theorem Thread.holds_of_works {returned : List QueueJob} {t : Thread} {j : QueueJob} (h : t.works returned = some j) :
    t.holds = some j := by
  unfold Thread.works at h
  split at h <;> first | exact h | skip
  · split at h
    · cases h
    · exact h
  · cases h

def Reporting.telling (s : Reporting) : Telling where
  current := (s.pool.queue.jobs : Multiset QueueJob) + s.pool.threads.filterMap (Thread.works s.returned)
  reports := s.reports
  vague := s.vague

section Steps

variable {s s' : Reporting} {t : Thread} {j : QueueJob}

theorem current_front (ht : t ∈ s.pool.threads) : s.telling.current =
    (s.pool.queue.jobs : Multiset QueueJob) + ([t] ++ s.pool.threads.erase t).filterMap (Thread.works s.returned) := by
  have hperm : s.pool.threads.Perm ([t] ++ s.pool.threads.erase t) := List.perm_cons_erase ht
  have hcoe := Multiset.coe_eq_coe.mpr (hperm.filterMap (Thread.works s.returned))
  simp only [Reporting.telling, hcoe]

theorem step_stay (hcurrent : s'.telling.current = s.telling.current) (hreports : s'.reports = s.reports)
    (hvague : s'.vague = s.vague) : Telling.Step s.telling s'.telling := by
  have hsame : s'.telling = s.telling := by
    unfold Reporting.telling at hcurrent ⊢
    simp only at hcurrent
    rw [hcurrent, hreports, hvague]
  rw [hsame]
  exact .stay _

theorem step_over (js : List QueueJob) (hcurrent : s.telling.current = js + s'.telling.current)
    (hreports : s'.reports = s.reports ++ js.map fun j => ⟨j, .ended⟩) (hvague : s'.vague = s.vague) :
    Telling.Step s.telling s'.telling := by
  have hnext : s'.telling = { s.telling with
      current := s'.telling.current, reports := s.telling.reports ++ js.map fun j => ⟨j, .ended⟩ } := by
    unfold Reporting.telling
    simp only [hreports, hvague]
  rw [hnext]
  exact .ended _ js _ hcurrent

theorem step_goes (j : QueueJob) (kind : ReportKind) (hj : j ∈ s.telling.current) (hpending : kind ≠ .pending) (hover : kind ≠ .ended)
    (hcurrent : s'.telling.current = s.telling.current) (hreports : s'.reports = s.reports ++ [⟨j, kind⟩])
    (hvague : s'.vague = s.vague) : Telling.Step s.telling s'.telling := by
  have hnext : s'.telling = { s.telling with reports := s.telling.reports ++ [⟨j, kind⟩] } := by
    unfold Reporting.telling at hcurrent ⊢
    simp only at hcurrent
    simp only [hcurrent, hreports, hvague]
  rw [hnext]
  exact .goes _ j kind hj hpending hover

structure Reporting.Sound (s : Reporting) : Prop where
  fair : s.pool.queue.Fair
  balanced : s.pool.books.Balanced
  reported : ∀ r ∈ s.reports, r.job ∈ s.pool.accepted
  returned : ∀ j ∈ s.returned, j ∈ s.pool.finished ∨ ∃ retired, .holding retired .running j ∈ s.pool.threads

theorem Reporting.Sound.held (h : s.Sound) (ht : t ∈ s.pool.threads) (hj : t.holds = some j) :
    j ∈ s.pool.accepted ∧ j ∉ s.pool.finished ∧ j ∉ (s.pool.threads.erase t).filterMap Thread.holds := by
  have hheld : j ∈ s.pool.held := List.mem_filterMap.mpr ⟨t, ht, hj⟩
  have haccepted : j ∈ s.pool.books.accepted := by
    rw [h.balanced.places, Multiset.mem_add, Multiset.mem_add]
    exact .inl (.inl hheld)
  have hplaced := placed_of_balanced h.balanced haccepted
  have hperm : s.pool.held.Perm (j :: (s.pool.threads.erase t).filterMap Thread.holds) := by
    have hfront := (List.perm_cons_erase ht).filterMap Thread.holds
    rw [List.filterMap_cons_some hj] at hfront
    exact hfront
  rw [hperm.count_eq, List.count_cons_self] at hplaced
  exact ⟨haccepted, List.count_eq_zero.mp (by omega), List.count_eq_zero.mp (by omega)⟩

theorem Reporting.Sound.not_returned (h : s.Sound) {retired : Bool} {hold : Hold}
    (ht : .holding retired hold j ∈ s.pool.threads) (hhold : hold ≠ .running) : j ∉ s.returned := by
  intro hmem
  obtain ⟨-, hfinished, hothers⟩ := h.held ht rfl
  rcases h.returned j hmem with hdone | ⟨retired', hrunning⟩
  · exact hfinished hdone
  · refine hothers (List.mem_filterMap.mpr ⟨.holding retired' .running j, ?_, rfl⟩)
    refine (List.mem_erase_of_ne ?_).mpr hrunning
    intro heq
    cases heq
    exact hhold rfl

theorem tells_offer (h : s.Sound) {queue : FairQueue} (ht : .submitting j ∈ s.pool.threads)
    (hoffer : s.pool.queue.offer j = .ok (some queue)) (hqueue : s'.pool.queue = queue)
    (hthreads : s'.pool.threads = s.pool.threads.erase (.submitting j)) (hreturned : s'.returned = s.returned)
    (hreports : s'.reports = s.reports ++ [⟨j, .pending⟩]) (hvague : s'.vague = s.vague) :
    Telling.Step s.telling s'.telling := by
  obtain ⟨-, hjobs⟩ := h.fair.offer hoffer
  have hclaim : j ∈ s.pool.books.claims := List.mem_filterMap.mpr ⟨_, ht, rfl⟩
  have hcurrent : s'.telling.current = j ::ₘ s.telling.current := by
    rw [current_front ht]
    unfold Reporting.telling
    rw [hqueue, hthreads, hreturned, Multiset.coe_eq_coe.mpr hjobs, ← Multiset.cons_coe, Multiset.cons_add]
    rfl
  have hnext : s'.telling = { s.telling with
      current := j ::ₘ s.telling.current, reports := s.telling.reports ++ [⟨j, .pending⟩] } := by
    rw [← hcurrent]
    unfold Reporting.telling
    simp only [hreports, hvague]
  rw [hnext]
  refine .offer _ j (fun r hr heq => ?_) (fun k hk heq => ?_)
  · -- the number of a claimed job is not that of an accepted one
    have hnumbers := h.balanced.numbers
    rw [Multiset.map_add, Multiset.nodup_add] at hnumbers
    exact Multiset.disjoint_left.mp hnumbers.2.2 (Multiset.mem_map_of_mem _ hclaim)
      (Multiset.mem_map_of_mem _ (heq ▸ h.reported r hr))
  · have hids := h.balanced.ids
    unfold Books.live at hids
    rw [Multiset.map_add, Multiset.nodup_add] at hids
    have hlive : k ∈ s.pool.books.held + s.pool.books.queued := by
      rw [Multiset.mem_add]
      rcases Multiset.mem_add.mp hk with hk | hk
      · exact .inr hk
      · obtain ⟨u, hu, hworks⟩ := List.mem_filterMap.mp hk
        exact .inl (List.mem_filterMap.mpr ⟨u, hu, Thread.holds_of_works hworks⟩)
    exact Multiset.disjoint_left.mp hids.2.2 (Multiset.mem_map_of_mem _ hclaim)
      (heq ▸ Multiset.mem_map_of_mem QueueJob.id hlive)

theorem tells_same {pool : Pooling} {ts : List Thread} (ht : t ∈ s.pool.threads) (hqueue : pool.queue = s.pool.queue)
    (hthreads : pool.threads = ts ++ s.pool.threads.erase t)
    (hworks : ts.filterMap (Thread.works s.returned) = [t].filterMap (Thread.works s.returned)) :
    Telling.Step s.telling (Reporting.telling { s with pool := pool, reports := s.reports ++ [] }) := by
  refine step_stay ?_ (List.append_nil _) rfl
  rw [current_front ht]
  unfold Reporting.telling
  simp only [hqueue, hthreads, List.filterMap_append, hworks]

theorem tells_over {pool : Pooling} {ts : List Thread} (ht : t ∈ s.pool.threads) (hqueue : pool.queue = s.pool.queue)
    (hthreads : pool.threads = ts ++ s.pool.threads.erase t) (hworks : t.works s.returned = some j)
    (hover : ts.filterMap (Thread.works s.returned) = []) :
    Telling.Step s.telling (Reporting.telling { s with pool := pool, reports := s.reports ++ [⟨j, .ended⟩] }) := by
  refine step_over [j] ?_ rfl rfl
  rw [current_front ht]
  unfold Reporting.telling
  simp only [hqueue, hthreads, List.filterMap_append, hover, List.filterMap_cons_some hworks, List.filterMap_nil,
    List.nil_append, ← Multiset.coe_add]
  exact add_left_comm _ _ _

theorem tells_advance (h : s.Sound) (ht : t ∈ s.pool.threads) (hready : s.ready (.advance t) = true) {pool : Pooling}
    (hs : s.pool.advance t = some pool) :
    Telling.Step s.telling
      (Reporting.telling { s with pool := pool, reports := s.reports ++ s.pool.told (.advance t) }) := by
  cases t with
  | submitting job =>
    dsimp only [Pooling.advance] at hs
    split at hs
    · rename_i queue hoffer
      cases hs
      exact tells_offer h ht hoffer rfl rfl rfl (by simp [Pooling.told, hoffer]) rfl
    · rename_i hoffer
      cases hs
      have hnone : s.pool.told (.advance (.submitting job)) = [] := by
        dsimp only [Pooling.told]
        split
        · rename_i queue hok
          exact absurd hok (hoffer queue)
        · rfl
      rw [hnone]
      exact tells_same ht rfl rfl rfl
  | refused | removing | removed =>
    cases hs
    exact tells_same ht rfl rfl rfl
  | idle retired =>
    dsimp only [Pooling.advance] at hs
    split at hs
    · rename_i job queue hpop
      cases hs
      obtain ⟨-, hjobs⟩ := h.fair.pop hpop
      refine step_stay ?_ (List.append_nil _) rfl
      rw [current_front ht, Multiset.coe_eq_coe.mpr hjobs, ← Multiset.cons_coe, Multiset.cons_add, ← Multiset.add_cons]
      rfl
    · split at hs
      · cases hs
        exact tells_same ht rfl rfl rfl
      · cases hs
  | leaving retired =>
    cases hs
    refine tells_same ht rfl rfl ?_
    split <;> rfl
  | holding retired hold job =>
    cases hold with
    | popped =>
      cases hs
      dsimp only [Pooling.told]
      cases hstopped : s.pool.stopped with
      | false => exact tells_same ht rfl rfl rfl
      | true => exact tells_over ht rfl rfl rfl rfl
    | cancelled | dropped | abandoned =>
      cases hs
      exact tells_same ht rfl rfl rfl
    | locking =>
      dsimp only [Pooling.advance] at hs
      dsimp only [Pooling.told]
      split at hs
      · rename_i hfail
        cases hs
        rw [if_pos hfail]
        exact tells_over ht rfl rfl rfl rfl
      · rename_i hfail
        cases hs
        rw [if_neg hfail]
        exact tells_same ht rfl rfl rfl
    | locked =>
      cases hs
      have hnew := h.not_returned ht (by decide)
      have hworks : Thread.works s.returned (.holding retired .running job) = some job := if_neg hnew
      refine step_goes job .start ?_ (by decide) (by decide) ?_ rfl rfl
      · rw [current_front ht]
        exact Multiset.mem_add.mpr (.inr List.mem_cons_self)
      · rw [current_front ht]
        unfold Reporting.telling
        simp only [Pooling.put, List.filterMap_append, List.filterMap_cons_some hworks]
        rfl
    | running =>
      cases hs
      have hreturned : job ∈ s.returned := List.contains_iff_mem.mp hready
      have hworks : Thread.works s.returned (.holding retired .running job) = none := if_pos hreturned
      refine tells_same ht rfl rfl ?_
      rw [List.filterMap_cons_none hworks]
      rfl

theorem tells_remove {result : List QueueJob × FairQueue} (hjobs : s.pool.queue.jobs.Perm (result.1 ++ result.2.jobs)) :
    Telling.Step s.telling (Reporting.telling { s with
      pool := s.pool.remove result, reports := s.reports ++ result.1.map fun j => ⟨j, .ended⟩ }) := by
  refine step_over result.1 ?_ rfl rfl
  have hnone : (result.1.map Thread.removing).filterMap (Thread.works s.returned) = [] := by
    rw [List.filterMap_map, List.filterMap_eq_nil_iff]
    exact fun j _ => rfl
  unfold Reporting.telling
  simp only [Pooling.remove, List.filterMap_append, hnone, List.nil_append, Multiset.coe_eq_coe.mpr hjobs]
  rw [← Multiset.coe_add, add_assoc]

theorem works_retire {t' : Thread} (hr : t.retire = some t') (returned : List QueueJob) :
    t'.works returned = t.works returned := by
  cases t with
  | idle _ => cases hr; rfl
  | holding _ hold _ => cases hr; cases hold <;> rfl
  | leaving _ => cases hr; rfl
  | _ => cases hr

theorem tells_pool (h : s.Sound) {a : PoolAction} (hready : s.ready a = true) {pool : Pooling}
    (hs : s.pool.step a = some pool) :
    Telling.Step s.telling (Reporting.telling { s with pool := pool, reports := s.reports ++ s.pool.told a }) := by
  cases a with
  | submit job =>
    dsimp only [Pooling.step] at hs
    split at hs <;> cases hs <;> exact step_stay rfl (List.append_nil _) rfl
  | advance t =>
    dsimp only [Pooling.step] at hs
    split at hs
    · rename_i ht
      exact tells_advance h ht hready hs
    · cases hs
  | addWorker | close | cancel =>
    cases hs
    exact step_stay rfl (List.append_nil _) rfl
  | retire t =>
    dsimp only [Pooling.step] at hs
    split at hs
    · rename_i ht
      obtain ⟨t', hr, rfl⟩ := Option.map_eq_some_iff.mp hs
      refine tells_same ht rfl rfl ?_
      simp only [List.filterMap_cons, works_retire hr]
    · cases hs
  | removeScope scope =>
    cases hs
    exact tells_remove (h.fair.removeScope scope).2
  | discardPending =>
    cases hs
    exact tells_remove (FairQueue.fair_discardAll (q := s.pool.queue)).2

theorem current_returned (h : s.Sound) {retired : Bool} (ht : .holding retired .running j ∈ s.pool.threads)
    (hj : j ∉ s.returned) (reports : List JobReport) (vague : List QueueJob) :
    s.telling.current = j ::ₘ (Reporting.telling ⟨s.pool, j :: s.returned, reports, vague⟩).current := by
  obtain ⟨-, -, hothers⟩ := h.held ht rfl
  have hsame : ∀ u ∈ s.pool.threads.erase (.holding retired .running j),
      Thread.works (j :: s.returned) u = Thread.works s.returned u := by
    intro u hu
    cases u with
    | holding retired' hold k =>
      have hk : k ≠ j := by
        rintro rfl
        exact hothers (List.mem_filterMap.mpr ⟨_, hu, rfl⟩)
      cases hold <;> simp [Thread.works, hk]
    | _ => rfl
  have hold : Thread.works s.returned (.holding retired .running j) = some j := if_neg hj
  have hnew : Thread.works (j :: s.returned) (.holding retired .running j) = none := if_pos List.mem_cons_self
  have hafter : (Reporting.telling ⟨s.pool, j :: s.returned, reports, vague⟩).current = _ := current_front ht
  rw [hafter, current_front ht]
  simp only [List.singleton_append, List.filterMap_cons_some hold, List.filterMap_cons_none hnew,
    List.filterMap_congr hsame]
  rw [← Multiset.cons_coe, Multiset.add_cons]

theorem step_cases {a : ReportAction} (hs : s.step a = some s') :
    (∃ b pool, s.ready b = true ∧ s.pool.step b = some pool ∧
      s' = { s with pool := pool, reports := s.reports ++ s.pool.told b }) ∨
    (∃ t ∈ s.pool.threads, ∃ job kind, t.works s.returned = some job ∧ kind ≠ .pending ∧ kind ≠ .ended ∧
      s' = s.tell job kind) ∨
    ∃ retired job o, a = .outcome (.holding retired .running job) o ∧ .holding retired .running job ∈ s.pool.threads ∧
      job ∉ s.returned ∧
      s' = ⟨s.pool, job :: s.returned, s.reports ++ o.reports job, if o.vague then job :: s.vague else s.vague⟩ := by
  cases a with
  | pool a =>
    dsimp only [Reporting.step] at hs
    split at hs
    · rename_i hready
      obtain ⟨pool, hpool, rfl⟩ := Option.map_eq_some_iff.mp hs
      exact .inl ⟨a, pool, hready, hpool, rfl⟩
    · cases hs
  | waiting t =>
    dsimp only [Reporting.step] at hs
    split at hs
    · obtain ⟨hguard, hs⟩ := Option.ite_none_right_eq_some.mp hs
      cases hs
      exact .inr (.inl ⟨_, hguard.1, _, .waitingLock, rfl, by decide, by decide, rfl⟩)
    · cases hs
  | phase t =>
    dsimp only [Reporting.step] at hs
    split at hs
    · obtain ⟨hguard, hs⟩ := Option.ite_none_right_eq_some.mp hs
      cases hs
      exact .inr (.inl ⟨_, hguard.1, _, .inProgress, if_neg hguard.2, by decide, by decide, rfl⟩)
    · cases hs
  | outcome t o =>
    dsimp only [Reporting.step] at hs
    split at hs
    · obtain ⟨hguard, hs⟩ := Option.ite_none_right_eq_some.mp hs
      cases hs
      exact .inr (.inr ⟨_, _, o, rfl, hguard.1, hguard.2, rfl⟩)
    · cases hs

theorem tells_step (h : s.Sound) {a : ReportAction} (hs : s.step a = some s') : Telling.Step s.telling s'.telling := by
  rcases step_cases hs with ⟨b, pool, hready, hpool, rfl⟩ | ⟨t, ht, job, kind, hworks, hpending, hover, rfl⟩ |
    ⟨retired, job, ⟨state, silent, hstate⟩, -, ht, hj, rfl⟩
  · exact tells_pool h hready hpool
  · refine step_goes job kind ?_ hpending hover rfl rfl rfl
    exact Multiset.mem_add.mpr (.inr (List.mem_filterMap.mpr ⟨t, ht, hworks⟩))
  · have hcurrent := current_returned h ht hj
    cases silent with
    | true =>
      rw [RunOutcome.reports, if_pos rfl, List.append_nil]
      exact .hush s.telling job _ (hcurrent _ _)
    | false =>
      by_cases hended : state = .ended
      · subst hended
        exact step_over [job] (hcurrent _ _) rfl rfl
      · rw [RunOutcome.vague, bne_iff_ne.mpr hended]
        exact .unsaid s.telling job _ state (hcurrent _ _) hstate

/-! ## Runs -/

theorem Books.Step.le {b b' : Books} (hs : Books.Step b b') : b.accepted ≤ b'.accepted ∧ b.finished ≤ b'.finished := by
  cases hs <;> simp [Multiset.le_cons_self]

theorem advance_threads {p p' : Pooling} (hs : p.advance t = some p') : ∃ ts, p'.threads = ts ++ p.threads.erase t := by
  unfold Pooling.advance at hs
  repeat' split at hs
  all_goals cases hs
  all_goals exact ⟨_, rfl⟩

theorem running_step {p p' : Pooling} {a : PoolAction} (hs : p.step a = some p') {retired : Bool}
    (hj : .holding retired .running j ∈ p.threads) :
    j ∈ p'.finished ∨ ∃ retired, .holding retired .running j ∈ p'.threads := by
  cases a with
  | submit job =>
    dsimp only [Pooling.step] at hs
    split at hs <;> cases hs
    · exact .inr ⟨retired, hj⟩
    · exact .inr ⟨retired, List.mem_cons_of_mem _ hj⟩
  | advance u =>
    obtain ⟨-, hs⟩ := Option.ite_none_right_eq_some.mp hs
    by_cases hu : u = .holding retired .running j
    · subst hu
      cases hs
      exact .inl List.mem_cons_self
    · obtain ⟨ts, hts⟩ := advance_threads hs
      exact .inr ⟨retired, hts ▸ List.mem_append_right _ ((List.mem_erase_of_ne (Ne.symm hu)).mpr hj)⟩
  | retire u =>
    obtain ⟨-, hs⟩ := Option.ite_none_right_eq_some.mp hs
    obtain ⟨u', hr, rfl⟩ := Option.map_eq_some_iff.mp hs
    by_cases hu : u = .holding retired .running j
    · subst hu
      cases hr
      exact .inr ⟨true, List.mem_cons_self⟩
    · exact .inr ⟨retired, List.mem_cons_of_mem _ ((List.mem_erase_of_ne (Ne.symm hu)).mpr hj)⟩
  | addWorker =>
    cases hs
    exact .inr ⟨retired, List.mem_cons_of_mem _ hj⟩
  | removeScope | discardPending =>
    cases hs
    exact .inr ⟨retired, List.mem_append_right _ hj⟩
  | close | cancel =>
    cases hs
    exact .inr ⟨retired, hj⟩

theorem accepted_of_current (hb : s.pool.books.Balanced) (hj : j ∈ s.telling.current) : j ∈ s.pool.accepted := by
  have haccepted : j ∈ s.pool.books.accepted := by
    rw [hb.places, Multiset.mem_add, Multiset.mem_add]
    rcases Multiset.mem_add.mp hj with hj | hj
    · exact .inl (.inr hj)
    · obtain ⟨u, hu, hworks⟩ := List.mem_filterMap.mp hj
      exact .inl (.inl (List.mem_filterMap.mpr ⟨u, hu, Thread.holds_of_works hworks⟩))
  exact haccepted

theorem pool_step {a : ReportAction} (hs : s.step a = some s') :
    (∃ b, s.pool.step b = some s'.pool ∧ s'.returned = s.returned) ∨
      s'.pool = s.pool ∧ ∀ j ∈ s'.returned, j ∈ s.returned ∨ ∃ retired, .holding retired .running j ∈ s.pool.threads := by
  rcases step_cases hs with ⟨b, pool, -, hpool, rfl⟩ | ⟨t, -, job, kind, -, -, -, rfl⟩ | ⟨retired, job, o, -, ht, -, rfl⟩
  · exact .inl ⟨b, hpool, rfl⟩
  · exact .inr ⟨rfl, fun _ hj => .inl hj⟩
  · refine .inr ⟨rfl, fun j hj => ?_⟩
    rcases List.mem_cons.mp hj with rfl | hj
    · exact .inr ⟨retired, ht⟩
    · exact .inl hj

theorem Reporting.Sound.step (h : s.Sound) {a : ReportAction} (hs : s.step a = some s') : s'.Sound := by
  have htold := tells_step h hs
  rcases pool_step hs with ⟨b, hpool, hreturned⟩ | ⟨hpool, hreturned⟩
  · obtain ⟨hfair, hbooks⟩ := Pooling.books_step h.fair hpool
    have hbalanced := h.balanced.step hbooks
    have haccepted : ∀ j ∈ s.pool.accepted, j ∈ s'.pool.accepted := fun j => Multiset.mem_of_le hbooks.le.1
    have hfinished : ∀ j ∈ s.pool.finished, j ∈ s'.pool.finished := fun j => Multiset.mem_of_le hbooks.le.2
    refine ⟨hfair, hbalanced, fun r hr => ?_, fun j hj => ?_⟩
    · rcases htold.mem_reports hr with hr | hr | hr
      · exact haccepted _ (h.reported r hr)
      · exact haccepted _ (accepted_of_current h.balanced hr)
      · exact accepted_of_current hbalanced hr
    · rw [hreturned] at hj
      rcases h.returned j hj with hj | ⟨retired, hj⟩
      · exact .inl (hfinished j hj)
      · exact running_step hpool hj
  · have hbalanced : s'.pool.books.Balanced := hpool ▸ h.balanced
    refine ⟨hpool ▸ h.fair, hbalanced, fun r hr => ?_, fun j hj => ?_⟩
    · rcases htold.mem_reports hr with hr | hr | hr
      · exact hpool ▸ h.reported r hr
      · exact hpool ▸ accepted_of_current h.balanced hr
      · exact accepted_of_current hbalanced hr
    · rw [hpool]
      exact (hreturned j hj).elim (h.returned j) .inr

end Steps

section Runs

variable {capacity : Nat} {ok : Reporting → ReportAction → Prop} {s : Reporting}

theorem orderly_of_reach (h : Reach (reporting capacity) ok s) : s.Sound ∧ s.telling.Orderly := by
  refine Reach.invariant (I := fun s => s.Sound ∧ s.telling.Orderly) ?_ ?_ h
  · rintro s rfl
    obtain ⟨hfair, hbalanced⟩ := balanced_of_reach (.init rfl : Reach (pooling capacity) free (emptyPool capacity))
    refine ⟨⟨hfair, hbalanced, by simp, by simp⟩, ?_, ?_, fun id _ => .nil⟩
    · exact List.nodup_nil
    · intro j hj
      cases hj
  · rintro s a s' ⟨hsound, htold⟩ - hs
    exact ⟨hsound.step hs, htold.step (tells_step hsound hs)⟩

def ReportAction.loud : ReportAction → Bool
  | .outcome _ o => !o.vague
  | _ => true

def Loud (_ : Reporting) (a : ReportAction) : Prop := a.loud = true

theorem vague_of_loud (h : Reach (reporting capacity) Loud s) : s.vague = [] := by
  refine Reach.invariant (I := fun s => s.vague = []) ?_ ?_ h
  · rintro s rfl
    rfl
  · intro s a s' hvague hloud hs
    rcases step_cases hs with ⟨b, pool, -, -, rfl⟩ | ⟨t, -, job, kind, -, -, -, rfl⟩ | ⟨retired, job, o, rfl, -, -, rfl⟩
    · exact hvague
    · exact hvague
    · have hclear : o.vague = false := by simpa [Loud, ReportAction.loud] using hloud
      simp only [hclear]
      exact hvague

def Reporting.Idle (s : Reporting) (id : String) : Prop :=
  (∀ j ∈ s.pool.queue.jobs, j.id ≠ id) ∧ ∀ retired hold j, .holding retired hold j ∈ s.pool.threads → j.id ≠ id

theorem Reporting.Idle.current {id : String} (h : s.Idle id) : ∀ j ∈ s.telling.current, j.id ≠ id := by
  intro j hj
  rcases Multiset.mem_add.mp hj with hj | hj
  · exact h.1 j hj
  · obtain ⟨t, ht, hworks⟩ := List.mem_filterMap.mp hj
    unfold Thread.works at hworks
    split at hworks <;> try cases hworks
    · exact h.2 _ _ _ ht
    · exact h.2 _ _ _ ht
    · exact h.2 _ _ _ ht
    · split at hworks
      · cases hworks
      · cases hworks
        exact h.2 _ _ _ ht

end Runs

/-- The reports of different runs never interleave, and in every run whose outcomes are told and say that it is over,
so does the last report of an ID. -/
theorem reports_told (capacity : Nat) :
    (∀ s, Reach (reporting capacity) free s → ∀ id, InBlocks (historyOf id s.reports)) ∧
      (∀ s, Reach (reporting capacity) free s → ∀ id, s.Idle id → ∀ r, (historyOf id s.reports).getLast? = some r →
        r.kind = .ended ∨ r.job ∈ s.vague) ∧
      ∀ s, Reach (reporting capacity) Loud s → ∀ id, s.Idle id → ∀ r, (historyOf id s.reports).getLast? = some r →
        r.kind = .ended := by
  have hlast : ∀ {ok : Reporting → ReportAction → Prop} s, Reach (reporting capacity) ok s → ∀ id, s.Idle id →
      ∀ r, (historyOf id s.reports).getLast? = some r → r.kind = .ended ∨ r.job ∈ s.vague :=
    fun s h id hidle r hr => ((orderly_of_reach h).2.idle id hidle.current).last hr
  refine ⟨fun s h id => ?_, fun s h => hlast s h, fun s h id hidle r hr => ?_⟩
  · obtain ⟨-, htold⟩ := orderly_of_reach h
    by_cases hrunning : ∃ j ∈ s.telling.current, j.id = id
    · obtain ⟨j, hj, rfl⟩ := hrunning
      obtain ⟨blocks, hsplit, -⟩ := (htold.running j hj).split
      exact ⟨blocks, hsplit⟩
    · obtain ⟨blocks, hsplit, -⟩ := (htold.idle id fun j hj heq => hrunning ⟨j, hj, heq⟩).split
      exact ⟨blocks, hsplit⟩
  · refine (hlast s h id hidle r hr).resolve_right ?_
    rw [vague_of_loud h]
    exact List.not_mem_nil

/-! ### A remote job whose outcome does not say that it is over -/

def ferry : QueueJob := ⟨0, "remote:tank:home", 1, "tank", "tank", "home", true⟩

def crossing (o : RunOutcome) : List ReportAction :=
  ([.submit ferry, .advance (.submitting ferry), .addWorker, .advance (.idle false),
    .advance (.holding false .popped ferry), .advance (.holding false .locking ferry),
    .advance (.holding false .locked ferry)] : List PoolAction).map .pool ++
    [.outcome (.holding false .running ferry) o, .pool (.advance (.holding false .running ferry))]

theorem idle_of_leaving {s : Reporting} (hthreads : s.pool.threads = [.leaving false]) (hjobs : s.pool.queue.jobs = [])
    (id : String) : s.Idle id := by
  refine ⟨fun j hj => ?_, fun retired hold j hj => ?_⟩
  · rw [hjobs] at hj
    exact absurd hj List.not_mem_nil
  · rw [hthreads, List.mem_singleton] at hj
    cases hj

/-- Before the deadline of its retry: `waiting-retry`, silently. -/
def early : RunOutcome := ⟨.ended, true, by decide⟩

/-- After two resumes the remote is still resumable, and the outcome is the `probing` it began with. -/
def resumable : RunOutcome := ⟨.start, false, by decide⟩

/-- The job is over, and it is shown as probing. -/
def ShownProbing (o : RunOutcome) : Prop :=
  ∃ s, run (reporting 4) (crossing o) ⟨emptyPool 4, [], [], []⟩ = some s ∧ s.Idle ferry.id ∧ s.pool.finished = [ferry] ∧
    (historyOf ferry.id s.reports).getLast? = some ⟨ferry, .start⟩

theorem over_shown_probing : ShownProbing early ∧ ShownProbing resumable := by
  have hshown : ∀ o ∈ [early, resumable], ShownProbing o := by
    intro o ho
    have hrun : ∀ o ∈ [early, resumable], (run (reporting 4) (crossing o) ⟨emptyPool 4, [], [], []⟩).map (fun s =>
        (s.pool.threads, s.pool.queue.jobs, s.pool.finished, (historyOf ferry.id s.reports).getLast?)) =
        some ([.leaving false], [], [ferry], some ⟨ferry, .start⟩) := by decide
    obtain ⟨s, hs, hfields⟩ := Option.map_eq_some_iff.mp (hrun o ho)
    simp only [Prod.mk.injEq] at hfields
    obtain ⟨hthreads, hjobs, hfinished, hlast⟩ := hfields
    exact ⟨s, hs, idle_of_leaving hthreads hjobs _, hfinished, hlast⟩
  exact ⟨hshown _ (by decide), hshown _ (by decide)⟩

/-- A loud outcome is the last report. -/
theorem crossing_over : ∃ s, Reach (reporting 4) Loud s ∧ s.Idle ferry.id ∧
    ∃ r, (historyOf ferry.id s.reports).getLast? = some r ∧ r.kind = .ended := by
  have hrun : (runOk (reporting 4) (fun _ a => a.loud) (crossing ⟨.ended, false, by decide⟩) ⟨emptyPool 4, [], [], []⟩).map (fun s => (s.pool.threads, s.pool.queue.jobs, s.reports)) =
      some ([.leaving false], [], [⟨ferry, .pending⟩, ⟨ferry, .start⟩, ⟨ferry, .ended⟩]) := by decide
  obtain ⟨s, hs, hfields⟩ := Option.map_eq_some_iff.mp hrun
  simp only [Prod.mk.injEq] at hfields
  obtain ⟨hthreads, hjobs, hreports⟩ := hfields
  have hreach : Reach (reporting 4) Loud s := Reach.runOk (.init rfl) hs
  have hidle := idle_of_leaving hthreads hjobs ferry.id
  obtain ⟨r, hr⟩ : ∃ r, (historyOf ferry.id s.reports).getLast? = some r := by
    rw [hreports]
    exact ⟨_, rfl⟩
  exact ⟨s, hreach, hidle, r, hr, (reports_told 4).2.2 s hreach ferry.id hidle r hr⟩

end Boomerangz.Daemon
