import Boomerangz.Daemon.Cadence
import Boomerangz.Discovery.Partition
import Boomerangz.Lifecycle.Planned

/-! # No cadence is undercut

A job reads the snapshots anew, so that it depends on no deadline that a restart could lose.
-/

namespace Boomerangz.Daemon

open Check Transition Zfs Policy Lifecycle Discovery

/-! ## The newest snapshot -/

section Newest

variable {s pool : State} {lineage installation : ID} {root d : Dataset} {x : Snapshot} {m : Metadata}

theorem le_later (latest : Time × Option Name) (x : Snapshot) : latest.1 ≤ (later lineage latest x).1 := by
  unfold later
  split
  · split
    · rename_i hlt
      exact le_of_lt hlt
    · exact le_refl _
  · exact le_refl _

theorem created_le_later (latest : Time × Option Name) (h : ownership x lineage = .ok m) :
    m.created ≤ (later lineage latest x).1 := by
  unfold later
  rw [h]
  simp only
  split
  · exact le_refl _
  · rename_i hle
    exact not_lt.mp hle

theorem le_foldl_later (l : List Snapshot) (latest : Time × Option Name) :
    latest.1 ≤ (l.foldl (later lineage) latest).1 := by
  induction l generalizing latest with
  | nil => exact le_refl _
  | cons y l ih => exact (le_later latest y).trans (ih _)

theorem created_le_newest (hx : x ∈ snapshotsIn s d) (h : ownership x lineage = .ok m) :
    m.created ≤ (newest s lineage d).1 := by
  unfold newest
  generalize snapshotsIn s d = l at hx
  generalize (0, none) = latest
  induction l generalizing latest with
  | nil => cases hx
  | cons y l ih =>
    rcases List.mem_cons.mp hx with rfl | hx
    · exact (created_le_later latest h).trans (le_foldl_later l _)
    · exact ih hx _

end Newest

/-! ## The members that are covered -/

section Satisfied

variable {s pool : State} {lineage installation : ID} {root d : Dataset} {schedule : Schedule} {now : Time}
  {m : ScheduleMember} {members : List ScheduleMember} {satisfied : List (Dataset × Time)} {latest : Option Name}

def Covered (s : State) (lineage : ID) (now : Time) (m : ScheduleMember) : Prop :=
  (newest s lineage m.dataset).1 ≠ 0 ∧ now < (newest s lineage m.dataset).1 + m.grid.cadence

theorem satisfyMember_mono (found : Satisfied) (m : ScheduleMember) :
    found.satisfied ⊆ (satisfyMember s lineage root now found m).satisfied := by
  unfold satisfyMember
  simp only
  split
  · exact List.Subset.refl _
  · simp only
    split
    · exact List.subset_cons_self _ _
    · exact List.Subset.refl _

theorem satisfyMember_covered (root : Dataset) (found : Satisfied) (h : Covered s lineage now m) :
    ∃ t, (m.dataset, t) ∈ (satisfyMember s lineage root now found m).satisfied := by
  unfold satisfyMember
  simp only
  rw [if_neg h.1]
  simp only
  rw [if_pos h.2]
  exact ⟨_, List.mem_cons_self⟩

theorem foldl_satisfy_mono (members : List ScheduleMember) (found : Satisfied) :
    found.satisfied ⊆ (members.foldl (satisfyMember s lineage root now) found).satisfied := by
  induction members generalizing found with
  | nil => exact List.Subset.refl _
  | cons m members ih => exact fun _ hx => ih _ (satisfyMember_mono found m hx)

theorem foldl_satisfy_covered (found : Satisfied) (hm : m ∈ members) (h : Covered s lineage now m) :
    ∃ t, (m.dataset, t) ∈ (members.foldl (satisfyMember s lineage root now) found).satisfied := by
  induction members generalizing found with
  | nil => cases hm
  | cons y members ih =>
    rcases List.mem_cons.mp hm with rfl | hm
    · obtain ⟨t, ht⟩ := satisfyMember_covered root found h
      exact ⟨t, foldl_satisfy_mono members _ ht⟩
    · exact ih _ hm

theorem elapsed_of_not_covered (h : ¬ Covered s lineage now m) : Elapsed s lineage m.dataset m.grid.cadence now := by
  intro x hx μ hμ
  have hle := created_le_newest hx hμ
  have hpos := (ownership_eq_ok hμ).2.2.1
  have hne : (newest s lineage m.dataset).1 ≠ 0 := fun h0 => hpos (Nat.le_zero.mp (h0 ▸ hle))
  have hpast : ¬ now < (newest s lineage m.dataset).1 + m.grid.cadence := fun hnow => h ⟨hne, hnow⟩
  exact (Nat.add_le_add_right hle _).trans (not_lt.mp hpast)

theorem not_covered_of_lookup (root : Dataset) (hm : m ∈ schedule.members)
    (h : (schedule.members.foldl (satisfyMember s lineage root now) ⟨[], none, none, 0⟩).satisfied.lookup m.dataset =
      none) : ¬ Covered s lineage now m := by
  intro hcovered
  obtain ⟨t, ht⟩ := foldl_satisfy_covered ⟨[], none, none, 0⟩ hm hcovered
  have hne := List.lookup_eq_none_iff.mp h _ ht
  simp at hne

theorem satisfiedMembers_spec (h : satisfiedMembers pool installation schedule now = .ok (satisfied, latest))
    (hforce : schedule.force = false) (hauth : rootAuthority pool schedule.dataset installation = .ok lineage) :
    ∃ s, pool.inspect schedule.dataset true = .ok s ∧
      (schedule.policy.send.replicate = false → ∀ m ∈ schedule.members, m.dataset ∈ stillDue schedule satisfied →
        Elapsed s lineage m.dataset m.grid.cadence now) ∧
      (schedule.policy.send.replicate = true → stillDue schedule satisfied ≠ [] →
        ∀ m ∈ schedule.members, m.dataset = schedule.dataset → Elapsed s lineage m.dataset m.grid.cadence now) := by
  simp only [satisfiedMembers, hforce, Bool.false_eq_true, if_false, bind_eq_ok] at h
  obtain ⟨s, hs, h⟩ := h
  refine ⟨s, hs, ?_⟩
  have hseen : rootAuthority s schedule.dataset installation = .ok lineage := by
    obtain ⟨-, rfl⟩ := State.inspect_eq_ok.mp hs
    rw [rootAuthority_restrict installation (by simp [inside_self]), hauth]
  rw [hseen] at h
  simp only [pure_eq_ok, Prod.mk.injEq] at h
  obtain ⟨rfl, -⟩ := h
  constructor
  · intro hsend m hm hdue
    rw [hsend] at hdue
    refine elapsed_of_not_covered (not_covered_of_lookup schedule.dataset hm ?_)
    have := (List.mem_filter.mp hdue).2
    simpa using this
  · intro hsend hdue m hm hroot
    rw [hsend] at hdue
    refine elapsed_of_not_covered (not_covered_of_lookup schedule.dataset hm ?_)
    by_contra hfound
    obtain ⟨t, ht⟩ := Option.ne_none_iff_exists'.mp hfound
    rw [hroot] at ht
    simp only [if_true, ht] at hdue
    refine hdue (List.filter_eq_nil_iff.mpr fun name hname hnone => ?_)
    have hpair : (name, t) ∈ schedule.due.map (fun name => (name, t)) := List.mem_map.mpr ⟨name, hname, rfl⟩
    have hne := List.lookup_eq_none_iff.mp (Option.isNone_iff_eq_none.mp hnone) _ (List.mem_append_left _ hpair)
    simp at hne

theorem Elapsed.of_restrict {p : Dataset → Bool} {cadence : Duration} (hp : p d = true)
    (h : Elapsed (pool.restrict p) lineage d cadence now) : Elapsed pool lineage d cadence now := by
  intro x hx μ hμ
  obtain ⟨o, ho, htype, rfl, rfl⟩ := mem_snapshotsIn.mp hx
  have hmem : snapshotOf (pool.restrict p) o ∈ snapshotsIn (pool.restrict p) o.name.base :=
    mem_snapshotsIn.mpr ⟨o, State.mem_restrict_objects.mpr ⟨ho, hp⟩, htype, rfl, rfl⟩
  refine h _ hmem μ ?_
  rw [ownership_snapshotOf, owns_restrict lineage hp]
  exact hμ

end Satisfied

/-! ## What CreateSnapshot sends -/

section Create

variable {pool s : State} {installation : ID} {root : Dataset} {members ms : List Dataset} {now : Time} {p : Effective}
  {ids : Fresh} {births : Dataset → State.Birth} {m : Metadata}

theorem validateMembers_go {seen members : List Dataset} {w : Unit} (h : validateMembers.go root seen members = .ok w) :
    ∀ d ∈ members, inside d root = true := by
  induction members generalizing seen with
  | nil => simp
  | cons d members ih =>
    simp only [validateMembers.go, ok_iff] at h
    obtain ⟨-, hin, -, h⟩ := h
    intro x hx
    rcases List.mem_cons.mp hx with rfl | hx
    · exact hin
    · exact ih h x hx

theorem snapshotsSent_write {α : Type} {w : Write} {next : State → Sent α} {x : List Dataset × Metadata}
    (hx : x ∈ snapshotsSent (Sent.write pool w next).writes) :
    createdBy w = some x ∨ ∃ pool', w.run pool = .ok pool' ∧ x ∈ snapshotsSent (next pool').writes := by
  unfold Sent.write at hx
  split at hx
  · obtain ⟨y, hy, hsome⟩ := List.mem_filterMap.mp hx
    obtain rfl := List.mem_singleton.mp hy
    exact .inl hsome
  · rename_i pool' hrun
    obtain ⟨y, hy, hsome⟩ := List.mem_filterMap.mp hx
    rcases List.mem_cons.mp hy with rfl | hy
    · exact .inl hsome
    · exact .inr ⟨pool', hrun, List.mem_filterMap.mpr ⟨y, hy, hsome⟩⟩

theorem createSnapshot_sent
    (h : (ms, m) ∈ snapshotsSent (createSnapshot pool installation root members now p ids births).writes) :
    ms = members ∧ (∀ d ∈ members, inside d root = true) ∧ ∃ s fresh,
      pool.inspect root true = .ok s ∧ createPlan s installation root now ids = .ok (m, fresh) := by
  unfold createSnapshot at h
  simp only at h
  split at h
  · cases h
  · rename_i s μ fresh hplanned
    simp only [ok_iff, Prod.exists, Prod.mk.injEq] at hplanned
    obtain ⟨-, u, -, v, hmembers, s', hs, μ', fresh', hplan, rfl, rfl, rfl⟩ := hplanned
    have hcreate : ∀ pool', (ms, m) ∈ snapshotsSent (Sent.write pool' (.snapshot members μ' births) fun after =>
        ⟨[], checkCreated after s' root members μ', after⟩).writes → ms = members ∧ m = μ' := by
      intro pool' hsent
      rcases snapshotsSent_write hsent with hself | ⟨_, -, hnone⟩
      · simp only [createdBy, Option.some.injEq, Prod.mk.injEq] at hself
        exact ⟨hself.1.symm, hself.2.symm⟩
      · cases hnone
    have hsame : ms = members ∧ m = μ' := by
      split at h
      · rcases snapshotsSent_write h with hself | ⟨current, -, hsent⟩
        · cases hself
        · split at hsent
          · cases hsent
          · exact hcreate _ hsent
      · exact hcreate _ h
    simp only [validateMembers, ok_iff] at hmembers
    exact ⟨hsame.1, validateMembers_go hmembers.2, s', fresh', hs, by rw [hsame.2, hplan]⟩

theorem createPlan_lineage {fresh : Bool} (h : createPlan s installation root now ids = .ok (m, fresh)) :
    rootAuthority s root installation = .ok m.lineage ∨ ∀ p ∈ s.properties, p.name.isState = false := by
  simp only [createPlan, bind_eq_ok] at h
  obtain ⟨-, -, stored, -, h⟩ := h
  cases stored with
  | none =>
    simp only [ok_iff, checkFresh] at h
    refine .inr fun p hp => ?_
    have hfresh := h.1
    simp only [Bool.not_eq_true', List.any_eq_false, Bool.not_eq_true] at hfresh
    exact hfresh.1 p hp
  | some l =>
    simp only [ok_iff, Prod.mk.injEq] at h
    obtain ⟨lineage, hlineage, -, -, -, rfl, -⟩ := h
    exact .inl hlineage

theorem elapsed_of_stateless {lineage : ID} {d : Dataset} {cadence : Duration}
    (h : ∀ p ∈ s.properties, p.name.isState = false) : Elapsed s lineage d cadence now := by
  intro x hx μ hμ
  obtain ⟨o, -, -, -, rfl⟩ := mem_snapshotsIn.mp hx
  have hrows : (snapshotOf s o).properties.filter (fun p => p.name == .lineage || p.name == .snapshot) = [] := by
    refine List.filter_eq_nil_iff.mpr fun p hp hkey => ?_
    have hstate := h p (List.mem_filter.mp hp).1
    simp only [Bool.or_eq_true, beq_iff_eq] at hkey
    rcases hkey with hkey | hkey <;> rw [hkey] at hstate <;> cases hstate
  simp only [ownership, hrows, ok_iff] at hμ
  obtain ⟨-, hμ⟩ := hμ
  split at hμ
  · simp [Lifecycle.valueOf] at hμ
  · cases hμ

end Create

/-! ## The members of a schedule -/

def Leads (root : Dataset) (d : Deadline) : Prop :=
  d.policy.send.replicate = true → ⟨root, d.policy.grid⟩ ∈ d.replicate

def AllLead (entries : Entries) : Prop := ∀ root d, entries.lookup root = some d → Leads root d

structure Formed (x : Schedule) : Prop where
  due : ∀ d ∈ x.due, ∃ m ∈ x.members, m.dataset = d
  root : x.policy.send.replicate = true → ⟨x.dataset, x.policy.grid⟩ ∈ x.members

structure Led (s : Firing) : Prop where
  entries : AllLead s.entries
  copies : ∀ id u, s.updates.lookup id = some u → AllLead u.next ∧ ∀ e ∈ u.todo, e.dataset ∈ e.members

section Scheduler

variable {s t : Firing} {root : Dataset} {d : Deadline} {c : Call} {entries : Entries}

theorem mem_members_of_all (root : Dataset) {name : Dataset} (now : Time) (h : name ∈ d.all) :
    ∃ m ∈ (d.schedule root now).members, m.dataset = name := by
  unfold Deadline.all at h
  unfold Deadline.schedule
  simp only
  split at h
  · rename_i hnone
    obtain ⟨m, hm, rfl⟩ := List.mem_map.mp h
    rw [if_pos hnone]
    exact ⟨⟨m.1, m.2.grid⟩, List.mem_map.mpr ⟨m, hm, rfl⟩, rfl⟩
  · rename_i hsome
    rw [if_neg hsome]
    exact List.mem_map.mp h

theorem schedule_due_all {name : Dataset} {now : Time} (h : name ∈ (d.schedule root now).due) : name ∈ d.all := by
  unfold Deadline.schedule at h
  simp only at h
  split at h
  · cases h
  · split at h
    · rename_i hnone
      obtain ⟨m, hm, rfl⟩ := List.mem_map.mp h
      unfold Deadline.all
      rw [if_pos hnone]
      exact List.mem_map.mpr ⟨m, (List.mem_filter.mp hm).1, rfl⟩
    · split at h
      · exact h
      · cases h

theorem schedule_root (h : Leads root d) (now : Time) (hsend : d.policy.send.replicate = true) :
    ⟨root, d.policy.grid⟩ ∈ (d.schedule root now).members := by
  have hmem := h hsend
  unfold Deadline.schedule
  simp only
  rw [if_neg (List.ne_nil_of_mem hmem)]
  exact hmem

theorem schedule_formed (h : Leads root d) (now : Time) : Formed (d.schedule root now) :=
  ⟨fun _ hdue => mem_members_of_all root now (schedule_due_all hdue), schedule_root h now⟩

theorem AllLead.insert (h : AllLead entries) (hd : Leads root d) : AllLead (entries.insert root d) := by
  intro r e he
  by_cases hr : r = root
  · subst hr
    rw [AList.lookup_insert] at he
    exact Option.some.inj he ▸ hd
  · rw [AList.lookup_insert_ne hr] at he
    exact h r e he

def Call.Rooted : Call → Prop
  | .start _ generation _ => ∀ e ∈ generation, isSchedulable e = true → e.dataset ∈ e.members
  | _ => True

theorem item_leads {u : Updating} {e : Entry} (he : e.dataset ∈ e.members) (previous : Option Deadline) :
    Leads e.dataset (u.item e previous) := by
  intro hsend
  have hsend' : e.policy.send.replicate = true := hsend
  unfold Updating.item
  simp only
  rw [if_pos hsend']
  exact List.mem_map.mpr ⟨e.dataset, he, rfl⟩

theorem Led.read {id : Nat} {u u' : Updating} (h : Led s) (hu : s.updates.lookup id = some u)
    (hread : u.read s.entries = some u') : AllLead u'.next ∧ ∀ e ∈ u'.todo, e.dataset ∈ e.members := by
  obtain ⟨hnext, htodo⟩ := h.copies id u hu
  unfold Updating.read at hread
  split at hread
  · cases hread
  · rename_i e todo hcons
    cases hread
    rw [hcons] at htodo
    refine ⟨?_, fun x hx => htodo x (List.mem_cons_of_mem _ hx)⟩
    simp only
    split
    · exact hnext
    · exact hnext.insert (item_leads (htodo e List.mem_cons_self) _)

theorem Led.step (h : Led s) (hc : c.Rooted) (hs : s.step c = some t) : Led t := by
  cases c with
  | start id generation now =>
    simp only [Firing.step] at hs
    split at hs
    · cases hs
    · cases hs
      refine ⟨h.entries, fun id' u hu => ?_⟩
      by_cases hid : id' = id
      · subst hid
        rw [AList.lookup_insert] at hu
        cases hu
        refine ⟨fun r e he => by simp [Updating.start] at he, fun e he => ?_⟩
        obtain ⟨hmem, hschedulable⟩ := List.mem_filter.mp he
        exact hc e hmem hschedulable
      · rw [AList.lookup_insert_ne hid] at hu
        exact h.copies id' u hu
  | read id =>
    simp only [Firing.step, Option.bind_eq_bind, Option.bind_eq_some_iff] at hs
    obtain ⟨u, hu, u', hu', hs⟩ := hs
    cases hs
    refine ⟨h.entries, fun id' w hw => ?_⟩
    by_cases hid : id' = id
    · subst hid
      rw [AList.lookup_insert] at hw
      exact Option.some.inj hw ▸ h.read hu hu'
    · rw [AList.lookup_insert_ne hid] at hw
      exact h.copies id' w hw
  | write id =>
    simp only [Firing.step, Option.bind_eq_bind, Option.bind_eq_some_iff] at hs
    obtain ⟨u, hu, hs⟩ := hs
    split at hs
    · cases hs
      refine ⟨(h.copies id u hu).1, fun id' w hw => ?_⟩
      by_cases hid : id' = id
      · subst hid
        rw [AList.lookup_erase] at hw
        cases hw
      · rw [AList.lookup_erase_ne hid] at hw
        exact h.copies id' w hw
    · cases hs
  | next root visit now fired =>
    obtain ⟨d, hd, -, rfl⟩ := Firing.next_spec hs
    exact ⟨h.entries.insert (h.entries root d hd), h.copies⟩
  | complete root due completed deferred | retry root notBefore =>
    simp only [Firing.step] at hs
    split at hs
    · cases hs
      exact ⟨h.entries, h.copies⟩
    · rename_i d hd
      cases hs
      exact ⟨h.entries.insert (h.entries root d hd), h.copies⟩

theorem Led.new : Led .new :=
  ⟨fun _ _ h => by simp [Firing.new] at h, fun _ _ h => by simp [Firing.new] at h⟩

theorem Led.fired (h : Led s) {visit : List Dataset} {now fired : Time} {x : Schedule}
    (hs : s.step (.next root visit now fired) = some t) (hx : t.outstanding.getLast? = some x) : Formed x := by
  obtain ⟨d, hd, -, rfl⟩ := Firing.next_spec hs
  simp only [List.getLast?_append, List.getLast?_singleton, Option.some_or, Option.some.injEq] at hx
  rw [← hx]
  exact schedule_formed (h.entries root d hd) _

end Scheduler

/-! ## One job -/

section Job

variable {pool : State} {installation lineage : ID} {x : Schedule} {dec : Deciding} {members ms : List Dataset}
  {now : Time} {ids : Fresh} {births : Dataset → State.Birth} {m : Metadata} {c : Creation} {d : Dataset}
  {cadence : Duration}

structure Right (installation : ID) (x : Schedule) (dec : Deciding) : Prop where
  saw : ∃ latest, satisfiedMembers dec.seen installation x dec.time = .ok (dec.satisfied, latest)
  due : dec.due = stillDue x dec.satisfied
  nonempty : dec.due ≠ []

theorem elapsed_of_owns
    (hsent : (ms, m) ∈ snapshotsSent (createSnapshot pool installation x.dataset members now x.policy ids births).writes)
    (hd : inside d x.dataset = true)
    (h : ∀ l, rootAuthority dec.seen x.dataset installation = .ok l → Elapsed dec.seen l d cadence dec.time)
    (howns : (Creation.mk x dec pool ms m).Owns installation lineage) : Elapsed dec.seen lineage d cadence dec.time := by
  rcases howns with hauth | ⟨hsame, rfl⟩
  · exact h lineage hauth
  · obtain ⟨-, -, s, fresh, hs, hplan⟩ := createSnapshot_sent hsent
    have hpool : pool = dec.seen := hsame
    obtain ⟨-, rfl⟩ := State.inspect_eq_ok.mp hs
    rcases createPlan_lineage hplan with hauth | hnone
    · rw [rootAuthority_restrict installation (by simp [inside_self]), hpool] at hauth
      exact h _ hauth
    · rw [← hpool]
      exact Elapsed.of_restrict (by simpa using hd) (elapsed_of_stateless hnone)

theorem kept_of_sent (hformed : Formed x) (hright : Right installation x dec) (hforce : x.force = false)
    (hmembers : snapshotMembers pool x dec.due = .ok members)
    (hsent : (ms, m) ∈ snapshotsSent
      (createSnapshot pool installation x.dataset members now x.policy ids births).writes) :
    (Creation.mk x dec pool ms m).Kept installation := by
  obtain ⟨rfl, hinside, -⟩ := createSnapshot_sent hsent
  obtain ⟨latest, hsaw⟩ := hright.saw
  have hdue : x.policy.send.replicate = false → ms = dec.due := by
    intro hsend
    unfold snapshotMembers at hmembers
    rw [hsend] at hmembers
    exact (Except.ok.inj hmembers).symm
  refine ⟨?_, ?_, ?_⟩
  · intro hsend d hd
    have hd' : d ∈ stillDue x dec.satisfied := hright.due ▸ hdue hsend ▸ hd
    exact hformed.due d (List.mem_filter.mp hd').1
  · intro hsend member hmember hd l howns
    have hin := hinside _ hd
    refine elapsed_of_owns hsent hin (fun l hauth => ?_) howns
    obtain ⟨s, hs, hmember', -⟩ := satisfiedMembers_spec hsaw hforce hauth
    obtain ⟨-, rfl⟩ := State.inspect_eq_ok.mp hs
    exact Elapsed.of_restrict (by simpa using hin) (hmember' hsend member hmember (hright.due ▸ hdue hsend ▸ hd))
  · intro hsend l howns
    refine elapsed_of_owns hsent (inside_self _) (fun l hauth => ?_) howns
    obtain ⟨s, hs, -, hroot⟩ := satisfiedMembers_spec hsaw hforce hauth
    obtain ⟨-, rfl⟩ := State.inspect_eq_ok.mp hs
    exact Elapsed.of_restrict (by simp [inside_self])
      (hroot hsend (hright.due ▸ hright.nonempty) _ (hformed.root hsend) rfl)

end Job

/-! ## Runs -/

structure Keeping (installation : ID) (s : Snapshotting) : Prop where
  led : Led s.scheduler
  jobs : ∀ job ∈ s.jobs, Formed job.schedule ∧ ∀ dec, job.decision = some dec → Right installation job.schedule dec
  made : ∀ c ∈ s.made, c.schedule.force = false → c.Kept installation

section Runs

variable {installation : ID} {s t : Snapshotting} {c : Call} {a : SnapshotAction}

theorem Keeping.call (h : Keeping installation s) (hs : s.call c = some t) (hc : c.Rooted) : Keeping installation t := by
  simp only [Snapshotting.call, Option.bind_eq_bind, Option.bind_eq_some_iff] at hs
  obtain ⟨f, hf, ht⟩ := hs
  cases ht
  exact ⟨h.led.step hc hf, h.jobs, h.made⟩

theorem Keeping.finish (h : Keeping installation s) (i : Nat) : Keeping installation (s.finish i) :=
  ⟨h.led, fun job hjob => h.jobs job (List.mem_of_mem_eraseIdx hjob), h.made⟩

theorem Keeping.submit (h : Keeping installation s) {x : Schedule} (hx : Formed x) :
    Keeping installation { s with jobs := s.jobs ++ [⟨x, none⟩] } := by
  refine ⟨h.led, fun job hjob => ?_, h.made⟩
  rcases List.mem_append.mp hjob with hjob | hjob
  · exact h.jobs job hjob
  · obtain rfl := List.mem_singleton.mp hjob
    exact ⟨hx, by rintro dec ⟨⟩⟩

theorem Keeping.decideOn (h : Keeping installation s) {i : Nat} {now completed notBefore : Time}
    (hs : s.decideOn installation i now completed notBefore = some t) : Keeping installation t := by
  simp only [Snapshotting.decideOn, Option.bind_eq_bind, Option.bind_eq_some_iff] at hs
  obtain ⟨job, hjob, hs⟩ := hs
  have hmem := List.mem_of_getElem? hjob
  split at hs
  · cases hs
  · exact (h.finish i).call hs trivial
  · rename_i satisfied latest _ hsatisfied
    split at hs
    · exact (h.finish i).call hs trivial
    · rename_i hdue
      cases hs
      refine ⟨h.led, fun job' hjob' => ?_, h.made⟩
      rcases List.mem_or_eq_of_mem_set hjob' with hjob' | rfl
      · exact h.jobs job' hjob'
      · refine ⟨(h.jobs job hmem).1, ?_⟩
        rintro dec ⟨⟩
        exact ⟨⟨latest, hsatisfied⟩, rfl, hdue⟩

theorem Keeping.createFor (h : Keeping installation s) {i : Nat} {now completed notBefore : Time} {ids : Fresh}
    {births : Dataset → State.Birth}
    (hs : s.createFor installation i now completed notBefore ids births = some t) : Keeping installation t := by
  simp only [Snapshotting.createFor, Option.bind_eq_bind, Option.bind_eq_some_iff] at hs
  obtain ⟨job, hjob, dec, hdec, hs⟩ := hs
  obtain ⟨hformed, hright⟩ := h.jobs job (List.mem_of_getElem? hjob)
  split at hs
  · exact (h.finish i).call hs trivial
  · rename_i members hmembers
    have hmade : Keeping installation { s.finish i with
        pool := (createSnapshot s.pool installation job.schedule.dataset members now job.schedule.policy ids births).pool
        made := s.made ++ (snapshotsSent (createSnapshot s.pool installation job.schedule.dataset members now
          job.schedule.policy ids births).writes).map fun (x : List Dataset × Metadata) =>
            Creation.mk job.schedule dec s.pool x.1 x.2 } := by
      refine ⟨h.led, (h.finish i).jobs, fun c hc hforce => ?_⟩
      rcases List.mem_append.mp hc with hc | hc
      · exact h.made c hc hforce
      · obtain ⟨⟨ms, m⟩, hsent, rfl⟩ := List.mem_map.mp hc
        exact kept_of_sent hformed (hright dec hdec) hforce hmembers hsent
    split at hs
    · exact hmade.call hs trivial
    · exact hmade.call hs trivial

theorem generationOf_rooted {texts : Texts} {reader : Reader} {options : Options} {retained : List Dataset} {g : Scanned}
    (h : scan texts reader options retained = .ok g) (blocked : Dataset → List Target) (rest : Dataset → String) :
    ∀ e ∈ generationOf g blocked rest, isSchedulable e = true → e.dataset ∈ e.members := by
  intro e he hschedulable
  obtain ⟨d, hd, rfl⟩ := List.mem_map.mp he
  simp only [isSchedulable, Bool.and_eq_true, beq_iff_eq] at hschedulable
  obtain ⟨⟨⟨⟨hcovered, -⟩, henabled⟩, -⟩, -⟩ := hschedulable
  have hhead := (partition_of_scan h).starts d ⟨hd, hcovered, henabled⟩
  show (g.entries d).dataset ∈ (g.entries d).members
  rw [scan_dataset h hd]
  exact List.mem_of_head? hhead

theorem Keeping.fire (h : Keeping installation s) {root : Dataset} {visit : List Dataset} {now fired : Time}
    (hs : s.step installation (.fire root visit now fired) = some t) : Keeping installation t := by
  simp only [Snapshotting.step, Option.bind_eq_bind, Option.bind_eq_some_iff] at hs
  obtain ⟨s', hcall, x, hx, ht⟩ := hs
  cases ht
  refine (h.call hcall trivial).submit ?_
  simp only [Snapshotting.call, Option.bind_eq_bind, Option.bind_eq_some_iff] at hcall
  obtain ⟨f, hf, hs'⟩ := hcall
  cases hs'
  exact h.led.fired hf hx

theorem Keeping.trigger (h : Keeping installation s) {root : Dataset}
    (hs : s.step installation (.trigger root) = some t) : Keeping installation t := by
  simp only [Snapshotting.step, Snapshotting.lookup, Option.bind_eq_bind, Option.bind_eq_some_iff,
    Option.map_eq_some_iff] at hs
  obtain ⟨x, ⟨d, hd, rfl⟩, ht⟩ := hs
  cases ht
  exact h.submit ⟨fun _ hdue => mem_members_of_all root 0 hdue, schedule_root (h.led.entries root d hd) 0⟩

theorem Keeping.step (h : Keeping installation s) (hs : s.step installation a = some t) : Keeping installation t := by
  cases a with
  | update id texts reader options retained blocked rest now =>
    simp only [Snapshotting.step] at hs
    split at hs
    · cases hs
    · rename_i g hscan
      exact h.call hs (generationOf_rooted hscan blocked rest)
  | read id => exact h.call hs trivial
  | write id => exact h.call hs trivial
  | fire root visit now fired => exact h.fire hs
  | trigger root => exact h.trigger hs
  | drop i notBefore =>
    simp only [Snapshotting.step, Option.bind_eq_bind, Option.bind_eq_some_iff] at hs
    obtain ⟨job, -, hs⟩ := hs
    split at hs
    · exact Option.some.inj hs ▸ h.finish i
    · exact (h.finish i).call hs trivial
  | stop i => exact Option.some.inj hs ▸ h.finish i
  | decide i now completed notBefore => exact h.decideOn hs
  | create i now completed notBefore ids births => exact h.createFor hs
  | world pool =>
    cases hs
    exact ⟨h.led, h.jobs, h.made⟩
  | restart =>
    cases hs
    exact ⟨Led.new, fun job hjob => absurd hjob List.not_mem_nil, h.made⟩

/-- No snapshot that was not forced undercuts a cadence, over restarts, clock steps and whatever else happens to the
pool. -/
theorem cadence_kept (h : Reach (snapshotting installation) free s) :
    ∀ c ∈ s.made, c.schedule.force = false → c.Kept installation := by
  refine (h.invariant (I := Keeping installation) ?_ fun _ _ _ hs _ hstep => hs.step hstep).made
  rintro _ ⟨pool, rfl⟩
  exact ⟨Led.new, fun job hjob => absurd hjob List.not_mem_nil, fun c hc => absurd hc List.not_mem_nil⟩

end Runs

def quayReader : Reader where
  listDatasets := .ok [⟨["quay"], .filesystem, ""⟩]
  activationProperties := .ok [row "enabled" "on"]
  lifecycleProperties := none
  storedProperties _ := .ok [row "enabled" "on", row "policy" "24x1h"]
where
  row (name text : String) : Property := ⟨.dataset ["quay"], .policy name, .text text, .sourceLocal⟩

def quayPool : State where
  objects := [.ofRow (.dataset ["quay"]) .filesystem 1 5 (by decide)]
  properties := []
  distinct := by decide

def quayRound (now n : Nat) : List SnapshotAction :=
  [.update 0 plainTexts quayReader ⟨128, 32768, []⟩ [] (fun _ => []) (fun _ => "") now, .read 0, .write 0,
    .fire ["quay"] [["quay"]] now now, .decide 0 now now now,
    .create 0 now now now ⟨⟨1, 1⟩, ⟨n, n⟩⟩ fun _ => ⟨n + 1, n + 1, n.succ_ne_zero, n.succ_ne_zero⟩]

/-- A restart loses the deadline; an hour after the first snapshot there is a second one. -/
theorem quay_cadence_kept : ∃ s, Reach (snapshotting ⟨9, 9⟩) free s ∧
    s.made.map (fun c => (c.decision.time, c.members, c.schedule.force)) =
      [(10 * minute, [["quay"]], false), (80 * minute, [["quay"]], false)] ∧
    ∀ c ∈ s.made, c.schedule.force = false → c.Kept ⟨9, 9⟩ := by
  have hmade : (run (snapshotting ⟨9, 9⟩) (quayRound (10 * minute) 7 ++ .restart :: quayRound (80 * minute) 8)
      ⟨quayPool, .new, [], []⟩).map (fun s => s.made.map fun c => (c.decision.time, c.members, c.schedule.force)) =
      some [(10 * minute, [["quay"]], false), (80 * minute, [["quay"]], false)] := by decide +kernel
  obtain ⟨s, hs, hmade⟩ := Option.map_eq_some_iff.mp hmade
  have hreach : Reach (snapshotting ⟨9, 9⟩) free s := .run (.init ⟨quayPool, rfl⟩) (fun _ _ => trivial) hs
  exact ⟨s, hreach, hmade, cadence_kept hreach⟩

end Boomerangz.Daemon
