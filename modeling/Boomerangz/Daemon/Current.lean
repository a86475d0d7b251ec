import Boomerangz.Daemon.Transfers

/-! # The policy a transfer is queued with

A job carries the applied policy unless a generation replaces a policy that something outstanding captured.
-/

namespace Boomerangz.Daemon

open Transition Zfs Policy Discovery Transfer

namespace Transfers

def captures (s : Transfers) : List (Dataset × Effective) :=
  s.ticks ++ s.calls.map (fun c => (c.dataset, c.policy)) ++
    s.jobs.jobs.filterMap (fun j => j.work.map fun c => (j.id.1, c.policy)) ++
    s.delayed.entries.map (fun e => (e.1.1, e.2.2))

def carries (id : SendID) (c : Carried) : Bool :=
  policyOf c.under id.1 == some c.policy && transferStreams c.under id.1 c.policy id.2 == some c.members

/-- A generation that is applied agrees with what was captured. -/
def agrees (installation : ID) (s : Transfers) : Action → Bool
  | .apply g _ =>
    let enabled := (s.publish installation g).enabled
    s.captures.all (fun x => !enabled.contains x.1 || policyOf (some g) x.1 == some x.2) &&
      s.calls.all fun c => !enabled.contains c.dataset || c.streams == none ||
        transferStreams (some g) c.dataset c.policy c.target == c.streams
  | _ => true

theorem mem_captures {s : Transfers} {x : Dataset × Effective} : x ∈ s.captures ↔ x ∈ s.ticks ∨
    (∃ c ∈ s.calls, (c.dataset, c.policy) = x) ∨ (∃ j ∈ s.jobs.jobs, ∃ c, j.work = some c ∧ (j.id.1, c.policy) = x) ∨
    ∃ id t p, s.delayed.lookup id = some (t, p) ∧ (id.1, p) = x := by
  have hdelayed : x ∈ s.delayed.entries.map (fun e => (e.1.1, e.2.2)) ↔
      ∃ id t p, s.delayed.lookup id = some (t, p) ∧ (id.1, p) = x := by
    rw [List.mem_map]
    constructor
    · rintro ⟨⟨id, t, p⟩, he, rfl⟩
      exact ⟨id, t, p, AList.mem_lookup_iff.mpr he, rfl⟩
    · rintro ⟨id, t, p, he, rfl⟩
      exact ⟨⟨id, t, p⟩, AList.mem_lookup_iff.mp he, rfl⟩
  simp only [captures, List.mem_append, hdelayed, List.mem_map, List.mem_filterMap, Option.map_eq_some_iff,
    or_assoc]

structure Inv (s : Transfers) : Prop where
  captured : ∀ x ∈ s.captures, x.1 ∈ s.enabled → policyOf s.generation x.1 = some x.2
  prepared : ∀ c ∈ s.calls, ∀ ms, c.streams = some ms → c.dataset ∈ s.enabled →
    transferStreams s.generation c.dataset c.policy c.target = some ms
  jobs : ∀ j ∈ s.jobs.jobs, ∀ c, j.work = some c → carries j.id c = true

section Steps

variable {s : Transfers} {c : Enqueue}

def Known (s : Transfers) (d : Dataset) (p : Effective) : Prop :=
  (d, p) ∈ s.captures ∨ policyOf s.generation d = some p

theorem known_tick (s : Transfers) : ∀ x ∈ s.ticks, s.Known x.1 x.2 :=
  fun _ h => .inl (mem_captures.mpr (.inl h))

theorem known_call (h : c ∈ s.calls) : s.Known c.dataset c.policy :=
  .inl (mem_captures.mpr (.inr (.inl ⟨c, h, rfl⟩)))

theorem known_job {j : Job SendID (Option Carried)} {c : Carried} (h : j ∈ s.jobs.jobs) (hc : j.work = some c) :
    s.Known j.id.1 c.policy :=
  .inl (mem_captures.mpr (.inr (.inr (.inl ⟨j, h, c, hc, rfl⟩))))

theorem known_delayed (s : Transfers) : ∀ id t p, s.delayed.lookup id = some (t, p) → s.Known id.1 p :=
  fun id t p h => .inl (mem_captures.mpr (.inr (.inr (.inr ⟨id, t, p, h, rfl⟩))))

theorem Inv.known {d : Dataset} {p : Effective} (h : Inv s) (hk : s.Known d p) (hen : d ∈ s.enabled) :
    policyOf s.generation d = some p :=
  hk.elim (fun hc => h.captured _ hc hen) id

theorem Inv.pass {s' : Transfers} (h : Inv s) (hp : s'.toPublished = s.toPublished)
    (hticks : ∀ x ∈ s'.ticks, s.Known x.1 x.2)
    (hcalls : ∀ c ∈ s'.calls, c ∈ s.calls ∨ s.Known c.dataset c.policy ∧ (c.streams = none ∨
      transferStreams s.generation c.dataset c.policy c.target = c.streams))
    (hjobs : ∀ j ∈ s'.jobs.jobs, ∀ c, j.work = some c → s.Known j.id.1 c.policy ∧ carries j.id c = true)
    (hdelayed : ∀ id t p, s'.delayed.lookup id = some (t, p) → s.Known id.1 p) : Inv s' := by
  have hgen : s'.generation = s.generation := congrArg Published.generation hp
  have hen : s'.enabled = s.enabled := congrArg Published.enabled hp
  refine ⟨?_, ?_, fun j hj c hc => (hjobs j hj c hc).2⟩
  · intro x hx
    rw [hgen, hen]
    refine h.known ?_
    rcases mem_captures.mp hx with hx | ⟨c, hc, rfl⟩ | ⟨j, hj, c, hc, rfl⟩ | ⟨id, t, p, hl, rfl⟩
    · exact hticks x hx
    · rcases hcalls c hc with hc | ⟨hk, -⟩
      · exact known_call hc
      · exact hk
    · exact (hjobs j hj c hc).1
    · exact hdelayed id t p hl
  · intro c hc ms hms
    rw [hgen, hen]
    intro hce
    rcases hcalls c hc with hc | ⟨-, hnone | hread⟩
    · exact h.prepared c hc ms hms hce
    · rw [hnone] at hms
      cases hms
    · rw [hread, hms]

theorem Inv.job (h : Inv s) : ∀ j ∈ s.jobs.jobs, ∀ c, j.work = some c →
    s.Known j.id.1 c.policy ∧ carries j.id c = true :=
  fun j hj c hc => ⟨known_job hj hc, h.jobs j hj c hc⟩

theorem mem_enqueueTransfers {generation : Option Generation} {d : Dataset} {p : Effective} {origin : Origin}
    (h : c ∈ enqueueTransfers generation d p origin) :
    c.dataset = d ∧ c.policy = p ∧ c.streams = none := by
  obtain ⟨t, -, rfl⟩ := List.mem_map.mp h
  exact ⟨rfl, rfl, rfl⟩

theorem mem_applied {installation : ID} {g : Generation} {owned : List Dataset}
    (h : c ∈ s.applied installation g owned) :
    policyOf (some g) c.dataset = some c.policy ∧ c.streams = none := by
  obtain ⟨d, -, hc⟩ := List.mem_flatMap.mp h
  split at hc
  · rename_i e he
    split at hc
    · obtain ⟨rfl, hp, hs⟩ := mem_enqueueTransfers hc
      exact ⟨by rw [hp, policyOf, Option.bind_some, he]; rfl, hs⟩
    · cases hc
  · cases hc

theorem mem_reconciles {remotes : List String} (h : c ∈ s.reconciles remotes) :
    policyOf s.generation c.dataset = some c.policy ∧ c.streams = none := by
  obtain ⟨d, -, hc⟩ := List.mem_flatMap.mp h
  split at hc
  · rename_i p hp
    obtain ⟨r, -, rfl⟩ := List.mem_map.mp hc
    exact ⟨hp, rfl⟩
  · cases hc

theorem Inv.apply {installation : ID} {g : Generation} {owned : List Dataset} {s' : Transfers} (h : Inv s)
    (hok : s.agrees installation (.apply g owned) = true)
    (hs : Transfers.step installation s (.apply g owned) = some s') : Inv s' := by
  simp only [agrees, Bool.and_eq_true, List.all_eq_true, Bool.or_eq_true, Bool.not_eq_true', beq_iff_eq] at hok
  obtain ⟨hcap, hcalls⟩ := hok
  cases hs
  refine ⟨?_, ?_, ?_⟩
  · intro x hx hen
    have hold : x ∈ s.captures → policyOf (some g) x.1 = some x.2 := by
      intro hx
      rcases hcap x hx with hno | hp
      · exact absurd hen (by simpa using hno)
      · exact hp
    rcases mem_captures.mp hx with hx | ⟨c, hc, rfl⟩ | ⟨j, hj, c, hc, rfl⟩ | hx
    · exact hold (mem_captures.mpr (.inl hx))
    · rcases List.mem_append.mp hc with hc | hc
      · exact (mem_applied hc).1
      · exact hold (mem_captures.mpr (.inr (.inl ⟨c, hc, rfl⟩)))
    · exact hold (mem_captures.mpr (.inr (.inr (.inl ⟨j, (Pool.mem_filter.mp hj).1, c, hc, rfl⟩))))
    · exact hold (mem_captures.mpr (.inr (.inr (.inr hx))))
  · intro c hc ms hms hen
    rcases List.mem_append.mp hc with hc | hc
    · rw [(mem_applied hc).2] at hms
      cases hms
    · rcases hcalls c hc with (hno | hnone) | hread
      · exact absurd hen (by simpa using hno)
      · rw [hnone] at hms
        cases hms
      · exact hread.trans hms
  · intro j hj
    exact h.jobs j (Pool.mem_filter.mp hj).1

theorem Inv.tick {d : Dataset} {p : Effective} (h : Inv s) (hp : policyOf s.generation d = some p) :
    Inv { s with ticks := (d, p) :: s.ticks } := by
  refine h.pass rfl ?_ (fun c hc => .inl hc) h.job s.known_delayed
  intro x hx
  rcases List.mem_cons.mp hx with rfl | hx
  · exact .inr hp
  · exact s.known_tick _ hx

theorem Inv.create {d : Dataset} {p : Effective} (h : Inv s) (hmem : (d, p) ∈ s.ticks) :
    Inv { s with ticks := s.ticks.erase (d, p), calls := enqueueTransfers s.generation d p .tick ++ s.calls } := by
  refine h.pass rfl (fun x hx => s.known_tick _ (List.mem_of_mem_erase hx)) ?_ h.job s.known_delayed
  intro c hc
  rcases List.mem_append.mp hc with hc | hc
  · obtain ⟨rfl, rfl, hnone⟩ := mem_enqueueTransfers hc
    exact .inr ⟨s.known_tick _ hmem, .inl hnone⟩
  · exact .inl hc

theorem Inv.erase (h : Inv s) (c : Enqueue) : Inv { s with calls := s.calls.erase c } :=
  h.pass rfl s.known_tick (fun _ hc => .inl (List.mem_of_mem_erase hc)) h.job s.known_delayed

theorem Inv.marks (h : Inv s) (roads : Roads) (dirty : List SendID) : Inv { s with roads := roads, dirty := dirty } :=
  ⟨h.captured, h.prepared, h.jobs⟩

theorem Inv.submit (h : Inv s) (id : SendID) {work : Option Carried}
    (hw : ∀ c, work = some c → s.Known id.1 c.policy ∧ carries id c = true) :
    Inv { s with jobs := s.jobs.submit id id.1 work } := by
  refine h.pass rfl s.known_tick (fun _ hc => .inl hc) ?_ s.known_delayed
  intro j hj c hc
  rcases Pool.mem_submit.mp hj with hj | ⟨-, rfl⟩
  · exact h.job j hj c hc
  · exact hw c hc

theorem Inv.protectCreated (h : Inv s) {streams : List Member} (hc : c ∈ s.calls)
    (hread : transferStreams s.generation c.dataset c.policy c.target = some streams) (hasProtected : Bool)
    (roads : Roads) :
    Inv ({ s with calls := s.calls.erase c, roads := roads }.protectCreated c hasProtected streams) := by
  have hprepared : Inv { s with calls := { c with streams := some streams } :: s.calls.erase c } := by
    refine h.pass rfl s.known_tick ?_ h.job s.known_delayed
    intro b hb
    rcases List.mem_cons.mp hb with rfl | hb
    · exact .inr ⟨known_call (c := c) hc, .inr hread⟩
    · exact .inl (List.mem_of_mem_erase hb)
  unfold Transfers.protectCreated
  split
  · split
    · exact hprepared.marks _ _
    · exact (h.erase c).marks _ _
  · exact hprepared.marks _ _

theorem Inv.prepare (h : Inv s) (hc : c ∈ s.calls) (hasProtected : Bool) :
    Inv (s.prepare c hasProtected) := by
  unfold Transfers.prepare
  split
  · exact h.erase c
  rename_i streams hread
  split
  · exact (h.erase c).submit (c.dataset, c.target) (by simp)
  split
  · split
    · exact h.erase c
    · exact h.protectCreated hc hread hasProtected s.roads
  · split
    · exact (h.erase c).marks _ _
    · rename_i road roads hroad
      have hr : road = ⟨c.policy, streams⟩ := road_eq_some (congrArg Prod.fst hroad)
      subst hr
      exact h.protectCreated hc hread hasProtected roads

theorem Inv.queue (h : Inv s) {members : List Member} (hc : c ∈ s.calls) (hms : c.streams = some members)
    (hen : c.dataset ∈ s.enabled) : Inv { s with
      calls := s.calls.erase c
      jobs := s.jobs.submit (c.dataset, c.target) c.dataset (some ⟨c.policy, members, s.generation, none⟩) } := by
  have hpolicy := h.known (known_call hc) hen
  refine (h.erase c).submit (c.dataset, c.target) ?_
  intro b hb
  cases hb
  refine ⟨.inr hpolicy, ?_⟩
  simp [carries, hpolicy, h.prepared c hc members hms hen]

theorem Inv.update (h : Inv s) {id : SendID} {j : Job SendID (Option Carried)} (hfind : s.jobs.find id = some j)
    (phase : Phase) {work : Option Carried}
    (hwork : ∀ c, work = some c → ∃ b, j.work = some b ∧ c = { b with retryAt := c.retryAt }) :
    Inv { s with jobs := s.jobs.update id phase work } := by
  refine h.pass rfl s.known_tick (fun _ hc => .inl hc) ?_ s.known_delayed
  intro i hi c hc
  rcases Pool.mem_update.mp hi with ⟨hi, -⟩ | ⟨k, hk, hid, rfl⟩
  · exact h.job i hi c hc
  · obtain ⟨b, hb, hcb⟩ := hwork c hc
    have hkj : k = j := Option.some.inj ((Pool.find_eq_some.mpr ⟨hk, hid⟩).symm.trans hfind)
    subst hkj
    rw [hcb]
    exact h.job k hk b hb

theorem Inv.retry (h : Inv s) {id : SendID} {c : Carried} (hk : s.Known id.1 c.policy) :
    Inv { s with delayed := s.retry id c } := by
  refine h.pass rfl s.known_tick (fun _ hc => .inl hc) h.job ?_
  intro i t p hl
  unfold Transfers.retry at hl
  split at hl
  · rcases Delayed.mem_schedule hl with hl | ⟨rfl, -, rfl⟩
    · exact s.known_delayed i t p hl
    · exact hk
  · exact s.known_delayed i t p hl

theorem Inv.finish (h : Inv s) {id : SendID} {scope : Dataset} {c : Carried} {retryAt : Option Time}
    (hfind : s.jobs.find id = some ⟨id, scope, .running, some c⟩) :
    Inv (s.finish id { c with retryAt := retryAt }) := by
  have hk : s.Known id.1 c.policy := known_job (Pool.find_eq_some.mp hfind).1 rfl
  have hwork : ∀ b, some { c with retryAt := retryAt } = some b →
      ∃ a, some c = some a ∧ b = { a with retryAt := b.retryAt } := by
    intro b hb
    cases hb
    exact ⟨c, rfl, rfl⟩
  unfold Transfers.finish
  split
  · exact (h.retry (c := { c with retryAt := retryAt }) hk).update hfind .ended hwork
  · exact h.update hfind .ended hwork

theorem Inv.complete (h : Inv s) {id : SendID} {scope : Dataset} {work : Option Carried}
    (hfind : s.jobs.find id = some ⟨id, scope, .ended, work⟩) : Inv (s.complete id work) := by
  have hdone : ∀ t : Transfers, Inv t → Inv { t with jobs := t.jobs.complete id } := fun t ht =>
    ht.pass rfl t.known_tick (fun _ hc => .inl hc) (fun j hj => ht.job j (Pool.mem_filter.mp hj).1) t.known_delayed
  cases work with
  | none => exact hdone s h
  | some c =>
    have hk : s.Known id.1 c.policy := known_job (Pool.find_eq_some.mp hfind).1 rfl
    simp only [Transfers.complete]
    split
    · refine hdone { s with calls := ⟨id.1, id.2, c.policy, .other, none⟩ :: s.calls } ?_
      refine h.pass rfl s.known_tick ?_ h.job s.known_delayed
      intro b hb
      rcases List.mem_cons.mp hb with rfl | hb
      · exact .inr ⟨hk, .inl rfl⟩
      · exact .inl hb
    · split
      · exact hdone s h
      · exact hdone _ (h.retry hk)

theorem Inv.expire (h : Inv s) {id : SendID} {t : Time} {p : Effective} (hl : s.delayed.lookup id = some (t, p)) :
    Inv { s with delayed := s.delayed.erase id, calls := ⟨id.1, id.2, p, .other, none⟩ :: s.calls } := by
  refine h.pass rfl s.known_tick ?_ h.job ?_
  · intro c hc
    rcases List.mem_cons.mp hc with rfl | hc
    · exact .inr ⟨s.known_delayed id t p hl, .inl rfl⟩
    · exact .inl hc
  · intro i u q hi
    by_cases hid : i = id
    · subst hid
      rw [AList.lookup_erase] at hi
      cases hi
    · rw [AList.lookup_erase_ne hid] at hi
      exact s.known_delayed i u q hi

theorem Inv.commitConfig (h : Inv s) (remotes : List String) (refresh : Bool) :
    Inv (s.commitConfig remotes refresh) := by
  unfold Transfers.commitConfig
  split
  · refine h.pass rfl s.known_tick ?_ (fun j hj => h.job j (Pool.mem_filter.mp hj).1) ?_
    · intro c hc
      rcases List.mem_append.mp hc with hc | hc
      · obtain ⟨hp, hnone⟩ := mem_reconciles hc
        exact .inr ⟨.inr hp, .inl hnone⟩
      · exact .inl hc
    · intro id t p hl
      exact s.known_delayed id t p (AList.mem_lookup_iff.mpr (List.mem_filter.mp (AList.mem_lookup_iff.mp hl)).1)
  · exact h

theorem Inv.step {installation : ID} {a : Action} {s' : Transfers} (h : Inv s)
    (hok : s.agrees installation a = true) (hs : Transfers.step installation s a = some s') : Inv s' := by
  cases a with
  | apply g owned => exact h.apply hok hs
  | tick d =>
    obtain ⟨-, hs⟩ := Option.ite_none_right_eq_some.mp hs
    obtain ⟨p, hp, rfl⟩ := Option.map_eq_some_iff.mp hs
    exact h.tick hp
  | drop d p =>
    obtain ⟨-, hs⟩ := Option.ite_none_right_eq_some.mp hs
    cases hs
    exact h.pass rfl (fun x hx => s.known_tick x (List.mem_of_mem_erase hx)) (fun _ hc => .inl hc) h.job s.known_delayed
  | create d p =>
    obtain ⟨hmem, hs⟩ := Option.ite_none_right_eq_some.mp hs
    cases hs
    exact h.create hmem
  | prepare c hasProtected =>
    obtain ⟨⟨hc, -⟩, hs⟩ := Option.ite_none_right_eq_some.mp hs
    cases hs
    exact h.prepare hc hasProtected
  | submit c backoff =>
    simp only [Transfers.step] at hs
    split at hs
    · cases hs
    · rename_i members hms
      obtain ⟨hc, hs⟩ := Option.ite_none_right_eq_some.mp hs
      split at hs
      · cases hs
        exact h.erase c
      · rename_i hgate
        cases hs
        simp only [Bool.or_eq_true, Bool.not_eq_true', not_or, Bool.not_eq_false, List.contains_iff_mem] at hgate
        exact h.queue hc hms hgate.1
  | start id =>
    simp only [Transfers.step] at hs
    split at hs
    · rename_i j hfind
      obtain ⟨-, hs⟩ := Option.ite_none_right_eq_some.mp hs
      cases hs
      exact (h.update hfind .running fun c hc => ⟨c, hc, rfl⟩).marks _ _
    · cases hs
  | finish id retryAt =>
    simp only [Transfers.step] at hs
    split at hs
    · rename_i i scope c hfind
      cases hs
      obtain rfl : i = id := (Pool.find_eq_some.mp hfind).2
      exact h.finish hfind
    · rename_i hfind
      cases hs
      exact h.update hfind .ended (by simp)
    · cases hs
  | complete id =>
    simp only [Transfers.step] at hs
    split at hs
    · rename_i i scope work hfind
      cases hs
      obtain rfl : i = id := (Pool.find_eq_some.mp hfind).2
      exact h.complete hfind
    · cases hs
  | expire id =>
    simp only [Transfers.step] at hs
    split at hs
    · rename_i hl
      cases hs
      exact h.expire hl
    · cases hs
  | reload remotes refresh =>
    cases hs
    exact h.commitConfig remotes refresh

end Steps

end Transfers

/-- In every run whose applied generations agree with what was captured, every job carries the policy and the streams
of the generation it was queued under. -/
theorem jobs_carry_applied_policy {installation : ID} {s : Transfers}
    (h : Reach (transferring installation) (fun s a => s.agrees installation a = true) s)
    (j : Job SendID (Option Carried)) (hj : j ∈ s.jobs.jobs) (c : Carried) (hc : j.work = some c) :
    Transfers.carries j.id c = true := by
  have hinv : Transfers.Inv s := by
    refine h.invariant ?_ fun s a s' hi hok hs => hi.step hok hs
    rintro s ⟨-, -, hticks, hcalls, hjobs, hdelayed, -⟩
    refine ⟨?_, ?_, ?_⟩
    · intro x hx
      simp [Transfers.captures, hticks, hcalls, hjobs, hdelayed, Pool.empty] at hx
    · intro c hc
      simp [hcalls] at hc
    · intro j hj
      simp [hjobs, Pool.empty] at hj
  exact hinv.jobs j hj c hc

/-! ### A root whose target changes while a retry waits -/

def senderGrid : Policy.Grid := .windows 1 60

def sender (locals : List Dataset) : Entry where
  dataset := ["tank"]
  inspected := true
  coveredBy := []
  member := false
  members := [["tank"]]
  policy := .plain senderGrid locals [⟨"enabled", "on", ["tank"]⟩]
  stored := []
  blocked := []
  rest := ""

def sendsTo (locals : List Dataset) : Generation := ⟨[sender locals], List.nodup_singleton _⟩

def startedDaemon : Transfers := ⟨.none, [], ∅, [], [], .empty, ∅, []⟩

def retryLeft : List Transfers.Action :=
  let call : Enqueue := ⟨["tank"], .localRoot ["old"], (sender [["old"]]).policy, .other, none⟩
  let id : SendID := (["tank"], .localRoot ["old"])
  [.apply (sendsTo [["old"]]) [["tank"]], .prepare call true, .submit { call with streams := some [] } false,
    .start id, .finish id (some 7), .complete id]

def retryFires : List Transfers.Action :=
  let call : Enqueue := ⟨["tank"], .localRoot ["old"], (sender [["old"]]).policy, .other, none⟩
  [.expire (["tank"], .localRoot ["old"]), .prepare call true, .submit { call with streams := some [] } false]

/-- The root is given another backup before the retry fires: the retry still sends to the old one. -/
theorem retry_sends_to_old_target : ∃ s, Reach (transferring ⟨9, 9⟩) free s ∧ ∃ j ∈ s.jobs.jobs, ∃ c,
    j.work = some c ∧ j.id = (["tank"], .localRoot ["old"]) ∧ c.under = some (sendsTo [["new"]]) ∧
    transferStreams c.under ["tank"] (sender [["new"]]).policy (.localRoot ["old"]) = none ∧
    Transfers.carries j.id c = false := by
  obtain ⟨s, hs⟩ : ∃ s, run (transferring ⟨9, 9⟩)
      (retryLeft ++ .apply (sendsTo [["new"]]) [["tank"]] :: retryFires) startedDaemon = some s := ⟨_, rfl⟩
  have hinit : (transferring ⟨9, 9⟩).init startedDaemon := ⟨rfl, rfl, rfl, rfl, rfl, rfl, rfl⟩
  refine ⟨s, Reach.run (.init hinit) (fun _ _ => trivial) hs, ?_⟩
  cases hs
  exact ⟨_, List.mem_singleton_self _, _, rfl, rfl, rfl, by decide, by decide⟩

theorem retry_carries_applied_policy : ∃ s : Transfers,
    Reach (transferring ⟨9, 9⟩) (fun s a => s.agrees ⟨9, 9⟩ a = true) s ∧ ∃ j ∈ s.jobs.jobs, ∃ c,
    j.work = some c ∧ c.under = some (sendsTo [["old"]]) ∧ Transfers.carries j.id c = true := by
  obtain ⟨s, hs⟩ : ∃ s, runOk (transferring ⟨9, 9⟩) (Transfers.agrees ⟨9, 9⟩) (retryLeft ++ retryFires)
      startedDaemon = some s := ⟨_, rfl⟩
  have hinit : (transferring ⟨9, 9⟩).init startedDaemon := ⟨rfl, rfl, rfl, rfl, rfl, rfl, rfl⟩
  have hreach := Reach.runOk (.init hinit) hs
  obtain ⟨j, hj, c, hc, hunder⟩ : ∃ j ∈ s.jobs.jobs, ∃ c, j.work = some c ∧ c.under = some (sendsTo [["old"]]) := by
    cases hs
    exact ⟨_, List.mem_singleton_self _, _, rfl, rfl⟩
  exact ⟨s, hreach, j, hj, c, hc, hunder, jobs_carry_applied_policy hreach j hj c hc⟩

end Boomerangz.Daemon
