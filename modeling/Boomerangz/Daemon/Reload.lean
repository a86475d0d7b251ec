import Boomerangz.Daemon.Transfers

/-! # Reloads

Changed remotes discard the remote work, and what active roots' own policies name is asked for again.
-/

namespace Boomerangz.Daemon

open Zfs Policy Discovery Transfer

structure Reloading extends Transfers where
  notBefore : Dataset × String → Time

namespace Reloading

def backoff (now : Time) (notBefore : Dataset × String → Time) (c : Enqueue) : Bool :=
  match c.target with
  | .localRoot _ => false
  | .remote name => now < notBefore (c.dataset, name)

def enqueueRemote (installation : ID) (now : Time) (s : Reloading) (c : Enqueue) : Reloading :=
  let prepared := s.toTransfers.prepare c false
  -- A coordinator that `road` has just made has no deadline.
  let notBefore := fun key => if prepared.roads.lookup key = s.roads.lookup key then s.notBefore key else 0
  let streams := transferStreams s.generation c.dataset c.policy c.target
  { toTransfers := (prepared.step installation (.submit { c with streams := streams }
      (backoff now notBefore c))).getD prepared
    notBefore := notBefore }

def commitConfig (installation : ID) (now : Time) (s : Reloading) (remotes : List String) (refresh : Bool) :
    Reloading :=
  if refresh then
    (s.reconciles remotes).foldl (enqueueRemote installation now)
      ⟨s.toTransfers.commitConfig remotes true, fun _ => 0⟩
  else s

/-! ## One call -/

structure IsReconcile (s : Transfers) (c : Enqueue) : Prop where
  origin : c.origin = .reload
  unread : c.streams = none
  enabled : c.dataset ∈ s.enabled
  remote : ∃ name, c.target = .remote name ∧ name ∈ s.remotes ∧ name ∈ c.policy.remote

def payload (s : Transfers) (c : Enqueue) : Option Carried :=
  if s.blocked c.dataset c.target then none
  else (transferStreams s.generation c.dataset c.policy c.target).map fun members =>
    ⟨c.policy, members, s.generation, none⟩

theorem road_configured {s : Transfers} {d : Dataset} {name : String} {p : Effective} {members : List Member}
    (h : name ∈ s.remotes) : (s.road d name p members).1 = some ⟨p, members⟩ := by
  have hfresh : (s.freshRoad d name p members).1 = some ⟨p, members⟩ := by
    rw [Transfers.freshRoad, if_pos (List.contains_iff_mem.mpr h)]
  unfold Transfers.road
  cases hl : s.roads.lookup (d, name) with
  | none => exact hfresh
  | some existing =>
    by_cases hsame : existing.policy = p ∧ existing.members = members
    · obtain ⟨rfl, rfl⟩ := hsame
      simp
    · simp only [hsame, if_false]
      exact hfresh

section Call

variable {installation : ID} {now : Time} {s : Reloading} {c : Enqueue}

theorem IsReconcile.streams (h : IsReconcile s.toTransfers c) :
    ∃ members, transferStreams s.generation c.dataset c.policy c.target = some members := by
  obtain ⟨name, htarget, -, hname⟩ := h.remote
  refine Option.isSome_iff_exists.mp (transferStreams_isSome.mpr ⟨⟨c.dataset, c.policy, none⟩, ?_, ?_⟩)
  · exact List.mem_cons_self
  · rw [htarget]
    exact List.mem_append_right _ (List.mem_map_of_mem hname)

theorem prepare_blocked {members : List Member} (hblocked : s.blocked c.dataset c.target = true)
    (hm : transferStreams s.generation c.dataset c.policy c.target = some members) :
    s.toTransfers.prepare c false = { s.toTransfers with
      calls := s.calls.erase c, jobs := s.jobs.submit (c.dataset, c.target) c.dataset none } := by
  simp only [Transfers.prepare, hm, hblocked, if_true]

theorem prepare_unblocked {members : List Member} (h : IsReconcile s.toTransfers c)
    (hblocked : s.blocked c.dataset c.target = false)
    (hm : transferStreams s.generation c.dataset c.policy c.target = some members) :
    ∃ roads, s.toTransfers.prepare c false = { s.toTransfers with
      calls := { c with streams := some members } :: s.calls.erase c, roads := roads } := by
  obtain ⟨name, htarget, hconfigured, -⟩ := h.remote
  have hroad : (s.toTransfers.road c.dataset name c.policy members).1 = some ⟨c.policy, members⟩ :=
    road_configured hconfigured
  cases hr : s.toTransfers.road c.dataset name c.policy members with
  | mk road roads =>
    rw [hr] at hroad
    obtain rfl : road = some ⟨c.policy, members⟩ := hroad
    rw [htarget] at hblocked hm
    refine ⟨roads, ?_⟩
    simp [Transfers.prepare, htarget, hm, hblocked, hr, Transfers.protectCreated, h.origin]

theorem submit_open {t : Transfers} {members : List Member} (henabled : c.dataset ∈ t.enabled) :
    t.step installation (.submit { c with streams := some members } false) =
      if { c with streams := some members } ∈ t.calls then some { t with
        calls := t.calls.erase { c with streams := some members }
        jobs := t.jobs.submit (c.dataset, c.target) c.dataset (some ⟨c.policy, members, t.generation, none⟩) }
      else none := by
  simp [Transfers.step, henabled]

theorem enqueueRemote_spec (h : IsReconcile s.toTransfers c) (hzero : ∀ key, s.notBefore key = 0) :
    ((enqueueRemote installation now s c).jobs =
        s.jobs.submit (c.dataset, c.target) c.dataset (payload s.toTransfers c)) ∧
      (enqueueRemote installation now s c).dirty = s.dirty ∧
      (enqueueRemote installation now s c).toPublished = s.toPublished ∧
      (enqueueRemote installation now s c).remotes = s.remotes ∧
      ∀ key, (enqueueRemote installation now s c).notBefore key = 0 := by
  obtain ⟨members, hm⟩ := h.streams
  have hnever : ∀ key, (enqueueRemote installation now s c).notBefore key = 0 := by
    intro key
    simp [enqueueRemote, hzero]
  have hopen : backoff now (enqueueRemote installation now s c).notBefore c = false := by
    obtain ⟨name, htarget, -, -⟩ := h.remote
    simp [backoff, htarget, hnever]
  obtain ⟨t, hp⟩ : ∃ t, s.toTransfers.prepare c false = t := ⟨_, rfl⟩
  have heq : (enqueueRemote installation now s c).toTransfers =
      (t.step installation (.submit { c with streams := some members } false)).getD t := by
    have hdef : (enqueueRemote installation now s c).toTransfers =
        ((s.toTransfers.prepare c false).step installation
          (.submit { c with streams := transferStreams s.generation c.dataset c.policy c.target }
            (backoff now (enqueueRemote installation now s c).notBefore c))).getD
          (s.toTransfers.prepare c false) := rfl
    rw [hdef, hopen, hm, hp]
  have hsubmit : c.dataset ∈ t.enabled → _ := @submit_open installation c t members
  rw [heq]
  cases hblocked : s.blocked c.dataset c.target with
  | true =>
    rw [prepare_blocked hblocked hm] at hp
    subst hp
    -- An equal call that is past its reading submits the same ID, which is taken.
    have htaken : ∀ work, (s.jobs.submit (c.dataset, c.target) c.dataset none).submit
        (c.dataset, c.target) c.dataset work = s.jobs.submit (c.dataset, c.target) c.dataset none := by
      intro work
      rw [Pool.submit, dif_neg]
      simp [Pool.find_submit]
    rw [hsubmit h.enabled]
    split <;> simp [payload, hblocked, htaken, hnever]
  | false =>
    obtain ⟨roads, hprepared⟩ := prepare_unblocked h hblocked hm
    rw [hprepared] at hp
    subst hp
    rw [hsubmit h.enabled, if_pos List.mem_cons_self]
    simp [payload, hblocked, hm, hnever]

end Call

/-! ## The calls of a reload -/

section Calls

variable {installation : ID} {now : Time}

theorem IsReconcile.congr {s t : Transfers} {c : Enqueue} (hpublished : t.toPublished = s.toPublished)
    (hremotes : t.remotes = s.remotes) (h : IsReconcile s c) : IsReconcile t c :=
  ⟨h.origin, h.unread, hpublished ▸ h.enabled, hremotes ▸ h.remote⟩

theorem payload_congr {s t : Transfers} {c : Enqueue} (hpublished : t.toPublished = s.toPublished) :
    payload t c = payload s c := by
  unfold payload Transfers.blocked
  rw [hpublished]

theorem foldl_enqueueRemote {cs : List Enqueue} {s : Reloading} {id : SendID} {work : Option Carried}
    (hzero : ∀ key, s.notBefore key = 0) (h : ∀ c ∈ cs, IsReconcile s.toTransfers c)
    (hwork : ∀ c ∈ cs, (c.dataset, c.target) = id → payload s.toTransfers c = work) :
    (cs.foldl (enqueueRemote installation now) s).dirty = s.dirty ∧
      (cs.foldl (enqueueRemote installation now) s).jobs.find id =
        if ∃ c ∈ cs, (c.dataset, c.target) = id then
          some ((s.jobs.find id).getD ⟨id, id.1, .queued, work⟩)
        else s.jobs.find id := by
  induction cs generalizing s with
  | nil => simp
  | cons c cs ih =>
    obtain ⟨hjobs, hdirty, hpublished, hremotes, hnever⟩ :=
      @enqueueRemote_spec installation now s c (h c List.mem_cons_self) hzero
    obtain ⟨hdirty', hfind⟩ := ih hnever (fun c' hc' => (h c' (List.mem_cons_of_mem _ hc')).congr hpublished hremotes)
      (fun c' hc' hid => (payload_congr hpublished).trans (hwork c' (List.mem_cons_of_mem _ hc') hid))
    refine ⟨hdirty'.trans hdirty, ?_⟩
    rw [List.foldl_cons, hfind, hjobs, Pool.find_submit]
    by_cases hid : (c.dataset, c.target) = id
    · subst hid
      simp [hwork c List.mem_cons_self rfl]
    · simp [hid]

end Calls

end Reloading

namespace Published

def Applied (installation : ID) (p : Published) : Prop := ∃ (q : Published) (g : Generation), p = q.publish installation g

theorem Applied.enabled {installation : ID} {p : Published} (h : p.Applied installation) {d : Dataset}
    (hd : d ∈ p.active) : d ∈ p.enabled := by
  obtain ⟨q, g, rfl⟩ := h
  have hd : d ∈ g.activeRoots installation := hd
  have hopened : d ∈ g.openedRoots installation := by
    obtain ⟨e, he, rfl⟩ := List.mem_map.mp hd
    exact List.mem_map_of_mem (List.mem_of_mem_filter he)
  have hkept : q.deactivated installation g d = false := by
    simp [deactivated, reconciles, hd]
  simp [publish, hopened, hkept]

end Published

namespace Reloading

/-- A transfer of the pair is queued, or running with its mark set. -/
def requeued (s : Reloading) (id : SendID) : Bool :=
  (s.jobs.find id).any fun j => j.work.isSome && (j.phase == .queued || s.dirty.contains id)

def reporting (s : Reloading) (id : SendID) : Bool :=
  (s.jobs.find id).any fun j => j.work.isNone && j.phase != .queued

theorem mem_reconciles {s : Transfers} {remotes : List String} {c : Enqueue} :
    c ∈ s.reconciles remotes ↔ ∃ d ∈ s.active, ∃ p, Transfers.policyOf s.generation d = some p ∧
      ∃ r ∈ p.remote, r ∈ remotes ∧ c = ⟨d, .remote r, p, .reload, none⟩ := by
  simp only [Transfers.reconciles, List.mem_flatMap]
  refine exists_congr fun d => and_congr_right fun _ => ?_
  cases Transfers.policyOf s.generation d with
  | none => simp
  | some p => simp [and_assoc, eq_comm]

section Reload

variable {installation : ID} {now : Time} {s : Reloading} {remotes : List String} {d : Dataset} {p : Effective}
  {r : String}

theorem commitConfig_find (happlied : s.toPublished.Applied installation) (hd : d ∈ s.active)
    (hp : Transfers.policyOf s.generation d = some p) (hr : r ∈ remotes) :
    ((d, .remote r) ∈ (s.commitConfig installation now remotes true).dirty ↔ r ∈ p.remote) ∧
      (s.commitConfig installation now remotes true).jobs.find (d, .remote r) =
        if r ∈ p.remote then
          some (((s.jobs.find (d, .remote r)).filter (·.phase != .queued)).getD
            ⟨(d, .remote r), d, .queued, payload s.toTransfers ⟨d, .remote r, p, .reload, none⟩⟩)
        else (s.jobs.find (d, .remote r)).filter (·.phase != .queued) := by
  have hmine : (∃ c ∈ s.reconciles remotes, (c.dataset, c.target) = (d, .remote r)) ↔ r ∈ p.remote := by
    constructor
    · rintro ⟨c, hc, hid⟩
      obtain ⟨d', -, p', hp', r', hr', -, rfl⟩ := mem_reconciles.mp hc
      cases hid
      rw [hp] at hp'
      cases hp'
      exact hr'
    · intro hmem
      exact ⟨_, mem_reconciles.mpr ⟨d, hd, p, hp, r, hmem, hr, rfl⟩, rfl⟩
  have hcalls : ∀ c ∈ s.reconciles remotes, IsReconcile (s.toTransfers.commitConfig remotes true) c := by
    intro c hc
    obtain ⟨d', hd', p', -, r', hr', hconfigured, rfl⟩ := mem_reconciles.mp hc
    exact ⟨rfl, rfl, happlied.enabled hd', r', rfl, hconfigured, hr'⟩
  have hwork : ∀ c ∈ s.reconciles remotes, (c.dataset, c.target) = (d, .remote r) →
      payload (s.toTransfers.commitConfig remotes true) c =
        payload s.toTransfers ⟨d, .remote r, p, .reload, none⟩ := by
    intro c hc hid
    obtain ⟨d', -, p', hp', r', -, -, rfl⟩ := mem_reconciles.mp hc
    cases hid
    rw [hp] at hp'
    cases hp'
    exact payload_congr rfl
  obtain ⟨hdirty, hfind⟩ := @foldl_enqueueRemote installation now _
    ⟨s.toTransfers.commitConfig remotes true, fun _ => 0⟩ _ _ (fun _ => rfl) hcalls hwork
  have hdef : s.commitConfig installation now remotes true = (s.reconciles remotes).foldl
      (enqueueRemote installation now) ⟨s.toTransfers.commitConfig remotes true, fun _ => 0⟩ := rfl
  rw [hdef]
  constructor
  · rw [hdirty, ← hmine]
    simp [Transfers.commitConfig, Transfers.isRemote]
  · rw [hfind]
    have hdiscarded : (s.toTransfers.commitConfig remotes true).jobs.find (d, .remote r) =
        (s.jobs.find (d, .remote r)).filter (·.phase != .queued) := by
      rw [show (s.toTransfers.commitConfig remotes true).jobs =
        s.jobs.filter fun j => !(j.phase == .queued && Transfers.isRemote j.id.2) from rfl, Pool.find_filter]
      cases hj : s.jobs.find (d, .remote r) with
      | none => rfl
      | some j =>
        obtain ⟨-, hid⟩ := Pool.find_eq_some.mp hj
        simp [Option.filter, hid, Transfers.isRemote, bne]
    simp only [hmine, hdiscarded]

end Reload

end Reloading

/-- A reload that changes the remotes requeues the remote work of an active root exactly when the root's own policy
names the remote, and no worker has an old report under the ID of its job. -/
theorem reload_requeues (installation : ID) (now : Time) (s : Reloading) (remotes : List String)
    (happlied : s.toPublished.Applied installation) (d : Dataset) (hd : d ∈ s.active) (p : Effective)
    (hp : Transfers.policyOf s.generation d = some p) (r : String) (hr : r ∈ remotes)
    (hsends : (transferStreams s.generation d p (.remote r)).isSome = true)
    (hunblocked : s.blocked d (.remote r) = false) :
    (s.commitConfig installation now remotes true).requeued (d, .remote r) = true ↔
      r ∈ p.remote ∧ s.reporting (d, .remote r) = false := by
  obtain ⟨hdirty, hfind⟩ := @Reloading.commitConfig_find installation now s remotes d p r happlied hd hp hr
  obtain ⟨members, hmembers⟩ := Option.isSome_iff_exists.mp hsends
  have hpayload : Reloading.payload s.toTransfers ⟨d, .remote r, p, .reload, none⟩ =
      some ⟨p, members, s.generation, none⟩ := by
    simp [Reloading.payload, hunblocked, hmembers]
  unfold Reloading.requeued Reloading.reporting
  rw [hfind, hpayload]
  by_cases hnamed : r ∈ p.remote
  · have hmarked := hdirty.mpr hnamed
    simp only [hnamed, if_true, true_and]
    cases hj : s.jobs.find (d, .remote r) with
    | none => simp
    | some j =>
      cases hphase : j.phase <;> cases hw : j.work <;> simp [Option.filter, hphase, hw, hmarked]
  · have hunmarked : (d, .remote r) ∉ (s.commitConfig installation now remotes true).dirty :=
      fun h => hnamed (hdirty.mp h)
    simp only [hnamed, if_false, false_and, iff_false]
    cases hj : s.jobs.find (d, .remote r) with
    | none => simp
    | some j => cases hphase : j.phase <;> simp [Option.filter, hphase, hunmarked]

/-! ### A remote that only a member sends to -/

def bargeGrid : Grid := .windows 5 30

def bargeEntry (d covered : Dataset) (members : List Dataset) (remote : List String) : Entry where
  dataset := d
  inspected := true
  coveredBy := covered
  member := covered != []
  members := members
  policy := { Effective.plain bargeGrid [] [⟨"enabled", "on", ["barge"]⟩] with remote := remote }
  stored := []
  blocked := []
  rest := ""

def bargeScan (own theirs : List String) : Generation where
  entries := [bargeEntry ["barge"] [] [["barge"], ["barge", "hold"]] own,
    bargeEntry ["barge", "hold"] ["barge"] [] theirs]
  distinct := by simp [bargeEntry]

def bargeLoaded (own theirs : List String) : Reloading where
  toPublished := Published.none.publish ⟨6, 5⟩ (bargeScan own theirs)
  remotes := ["dock"]
  roads := ∅
  ticks := []
  calls := []
  jobs := Pool.empty.submit (["barge"], .remote "dock") ["barge"]
    (some ⟨(bargeEntry ["barge"] [] [] own).policy, [], some (bargeScan own theirs), none⟩)
  delayed := ∅
  dirty := []
  notBefore := fun _ => 0

/-- The reload drops the queued transfer and asks for nothing. -/
theorem member_remote_not_requeued :
    let s := bargeLoaded [] ["dock"]
    let id : SendID := (["barge"], .remote "dock")
    ["barge"] ∈ s.active ∧ s.requeued id = true ∧ s.blocked id.1 id.2 = false ∧
      (transferStreams s.generation ["barge"] (bargeEntry ["barge"] [] [] []).policy id.2).isSome = true ∧
      (s.commitConfig ⟨6, 5⟩ 0 ["dock"] true).requeued id = false ∧
      (s.commitConfig ⟨6, 5⟩ 0 ["dock"] true).jobs.find id = none := by
  decide

theorem root_remote_requeued :
    ((bargeLoaded ["dock"] ["dock"]).commitConfig ⟨6, 5⟩ 0 ["dock"] true).requeued (["barge"], .remote "dock") = true :=
  (reload_requeues ⟨6, 5⟩ 0 (bargeLoaded ["dock"] ["dock"]) ["dock"] ⟨_, _, rfl⟩ ["barge"] (by decide)
    (bargeEntry ["barge"] [] [] ["dock"]).policy (by decide) "dock" (by decide) (by decide) (by decide)).mpr (by decide)

end Boomerangz.Daemon
