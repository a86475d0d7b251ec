import Boomerangz.Lifecycle.Ledger
import Boomerangz.Migrate.Plan
import Boomerangz.Zfs.Listed

/-! # Runs of a migration

Planning a stopped migration again gives exactly the writes that remain.
-/

namespace Boomerangz.Migrate

open Check Zfs Lifecycle

/-! ## Written records -/

def written (s : State) (root : Dataset) (actions : List Action) : State :=
  { s with
    properties := s.properties.filter (fun p => !(p.dataset == .dataset root &&
      actions.any (·.property == p.name))) ++ actions.map (Action.row root) }

section Written

variable {s s' : State} {root : Dataset} {actions xs ys : List Action} {k : Key}

@[simp] theorem written_nil (s : State) (root : Dataset) : written s root [] = s := by simp [written]

theorem setProperty_written {a : Action} (h : s.hasObject (.dataset root) = true) :
    s.setProperty (.dataset root) a.property a.value = .ok (written s root [a]) := by
  refine State.setProperty_eq_ok.mpr ⟨h, ?_⟩
  have hkeep : ∀ p : Property, (!(p.dataset == .dataset root && [a].any (·.property == p.name))) =
      !(p.dataset == .dataset root && p.name == a.property) := by
    intro p
    rw [List.any_cons, List.any_nil, Bool.or_false, Bool.beq_comm (a := a.property)]
  simp only [written, hkeep, List.map_cons, List.map_nil, Action.row]

theorem written_append (h : ((xs ++ ys).map Action.property).Nodup) :
    written (written s root xs) root ys = written s root (xs ++ ys) := by
  rw [List.map_append, List.nodup_append] at h
  have hrows : (xs.map (Action.row root)).filter (fun p => !(p.dataset == .dataset root &&
      ys.any (·.property == p.name))) = xs.map (Action.row root) := by
    rw [List.filter_eq_self]
    intro p hp
    obtain ⟨x, hx, rfl⟩ := List.mem_map.mp hp
    simp only [Action.row, beq_self_eq_true, Bool.true_and, Bool.not_eq_true', List.any_eq_false, beq_iff_eq]
    intro y hy heq
    exact h.2.2 _ (List.mem_map_of_mem hx) _ (List.mem_map_of_mem hy) heq.symm
  simp only [written, List.filter_append, hrows, List.filter_filter, List.map_append, List.any_append,
    ← List.append_assoc]
  congr 3
  refine List.filter_congr fun p _ => ?_
  cases p.dataset == .dataset root <;> simp [Bool.and_comm]

theorem localValue_written (h : ∀ a ∈ actions, a.property ≠ k) :
    localValue (written s root actions) root k = localValue s root k := by
  have hrows : (actions.map (Action.row root)).find? (fun p => p.dataset == .dataset root && p.name == k &&
      p.source == .sourceLocal) = none := by
    rw [List.find?_eq_none]
    intro p hp
    obtain ⟨a, ha, rfl⟩ := List.mem_map.mp hp
    simp [Action.row, h a ha]
  simp only [localValue, written, List.find?_append, hrows, Option.or_none, List.find?_filter]
  congr 1
  refine congrFun (congrArg List.find? (funext fun p => ?_)) _
  by_cases hk : p.name = k
  · have : actions.any (·.property == p.name) = false := by
      simpa [hk] using h
    rw [Bool.eq_iff_iff]
    simp [this]
  · simp [hk]

theorem localValue_row {a : Action} (ha : a ∈ actions) (h : (actions.map Action.property).Nodup) :
    localValue (written s root actions) root a.property = some a.value := by
  have hnone : (s.properties.filter (fun p => !(p.dataset == .dataset root &&
      actions.any (·.property == p.name)))).find? (fun p => p.dataset == .dataset root && p.name == a.property &&
        p.source == .sourceLocal) = none := by
    rw [List.find?_eq_none]
    intro p hp hcond
    simp only [Bool.and_eq_true, beq_iff_eq] at hcond
    have := (List.mem_filter.mp hp).2
    simp only [hcond.1.1, hcond.1.2, beq_self_eq_true, Bool.true_and, Bool.not_eq_true', List.any_eq_false,
      beq_iff_eq] at this
    exact this a ha rfl
  have hsome : (actions.map (Action.row root)).find? (fun p => p.dataset == .dataset root && p.name == a.property &&
      p.source == .sourceLocal) = some (a.row root) := by
    refine Lists.find?_unique (List.mem_map_of_mem ha) (by simp [Action.row]) ?_
    intro p hp hcond
    obtain ⟨b, hb, rfl⟩ := List.mem_map.mp hp
    have : b.property = a.property := by simpa [Action.row] using hcond
    rw [List.inj_on_of_nodup_map h hb ha this]
  simp only [localValue, written, List.find?_append, hnone, Option.none_or, hsome]
  rfl

theorem written_restrict {p : Dataset → Bool} (hp : p root = true) :
    (written s root actions).restrict p = written (s.restrict p) root actions := by
  have hrows : (actions.map (Action.row root)).filter (fun r => p r.dataset.base) = actions.map (Action.row root) := by
    rw [List.filter_eq_self]
    intro r hr
    obtain ⟨a, -, rfl⟩ := List.mem_map.mp hr
    exact hp
  simp only [written, State.restrict, List.filter_append, hrows, List.filter_filter]
  congr 2
  exact List.filter_congr fun r _ => Bool.and_comm ..

theorem localValue_restrict {p : Dataset → Bool} (hp : p root = true) :
    localValue (s.restrict p) root k = localValue s root k := by
  simp only [localValue, State.restrict, List.find?_filter]
  congr 1
  refine congrFun (congrArg List.find? (funext fun r => ?_)) _
  rw [Bool.eq_iff_iff]
  by_cases hr : r.dataset = .dataset root
  · simp [hr, hp]
  · simp [hr]

end Written

/-! ## Applying actions -/

section Apply

variable {pool : State} {root : Dataset} {actions xs ys : List Action}

theorem holds_eq_ok {k : Key} {v : Option Value} {u : Unit} :
    holds pool root k v = .ok u ↔ pool.hasObject (.dataset root) = true ∧ localValue pool root k = v := by
  simp only [holds, ok_iff, beq_iff_eq, State.inspect_eq_ok]
  constructor
  · rintro ⟨s, ⟨hroot, rfl⟩, hv⟩
    rw [localValue_restrict (by simp)] at hv
    exact ⟨hroot, hv⟩
  · rintro ⟨hroot, hv⟩
    refine ⟨_, ⟨hroot, rfl⟩, ?_⟩
    rw [localValue_restrict (by simp), hv]

theorem applyActions_append : applyActions root (xs ++ ys) pool =
    match applyActions root xs pool with
    | (.ok (), pool') => applyActions root ys pool'
    | (.error e, pool') => (.error e, pool') := by
  induction xs generalizing pool with
  | nil => rfl
  | cons a xs ih =>
    rw [List.cons_append, applyActions, applyActions]
    rcases applyAction root pool a with ⟨⟨e⟩ | ⟨⟨⟩⟩, pool'⟩
    · rfl
    · exact ih

theorem applyActions_written (hroot : pool.hasObject (.dataset root) = true) (h : (actions.map Action.property).Nodup)
    (hprevious : ∀ a ∈ actions, localValue pool root a.property = a.previous) :
    applyActions root actions pool = (.ok (), written pool root actions) := by
  induction actions generalizing pool with
  | nil => simp [applyActions]
  | cons a rest ih =>
    obtain ⟨hfresh, hrest⟩ := List.nodup_cons.mp h
    have hone : ([a].map Action.property).Nodup := List.nodup_singleton _
    have hbefore : holds pool root a.property a.previous = .ok () :=
      holds_eq_ok.mpr ⟨hroot, hprevious a List.mem_cons_self⟩
    have hafter : holds (written pool root [a]) root a.property (some a.value) = .ok () :=
      holds_eq_ok.mpr ⟨hroot, localValue_row List.mem_cons_self hone⟩
    have hothers : ∀ b ∈ rest, localValue (written pool root [a]) root b.property = b.previous := by
      intro b hb
      rw [localValue_written, hprevious b (List.mem_cons_of_mem _ hb)]
      intro x hx heq
      rw [List.mem_singleton.mp hx] at heq
      exact hfresh (heq ▸ List.mem_map_of_mem hb)
    rw [applyActions, applyAction, hbefore, setProperty_written hroot]
    simp only [hafter]
    have hroot' : (written pool root [a]).hasObject (.dataset root) = true := hroot
    have happend : written (written pool root [a]) root rest = written pool root (a :: rest) := written_append h
    rw [ih hroot' hrest hothers, happend]

end Apply

/-! ## What is rewritten -/

section Rewritten

variable {c : Codec} {s : State} {root : Dataset} {p : Property} {a : Action} {v : Value}

def Action.recorded (a : Action) : Prop :=
  (a.property.isReference = true ∧ ∃ r, a.value = .reference r) ∨
    (a.property.isReference = false ∧ isBindingKey a.property = true ∧ ∃ b, a.value = .binding b)

theorem rewritten_some (h : rewritten c s root p = .ok (some v)) :
    p.dataset = .dataset root ∧ p.source = .sourceLocal ∧
      (Action.recorded ⟨p.name, some p.value, v⟩ ∧ ∃ t, p.value = .text t) := by
  unfold rewritten at h
  split at h
  · cases h
  · rename_i hrow
    simp only [Bool.or_eq_true, bne_iff_ne, ne_eq, not_or, not_not] at hrow
    refine ⟨hrow.1, hrow.2, ?_⟩
    split at h
    · rename_i href
      unfold v1Proof at h
      split at h
      · cases h
      · rename_i t ht
        refine ⟨.inl ⟨href, ?_⟩, t, ht⟩
        split at h
        · simp only [ok_iff, Option.some.injEq] at h
          obtain ⟨record, -, rfl⟩ := h
          exact ⟨record, rfl⟩
        · cases h
      · cases h
    · rename_i href
      split at h
      · rename_i hkey
        unfold v1BindingRecord at h
        split at h
        · cases h
        · rename_i t ht
          refine ⟨.inr ⟨by simpa using href, hkey, ?_⟩, t, ht⟩
          split at h
          · simp only [ok_iff, Option.some.injEq] at h
            obtain ⟨record, -, rfl⟩ := h
            exact ⟨record, rfl⟩
          · cases h
        · cases h
      · cases h

theorem rewriteAction_eq_some : rewriteAction c s root p = some a ↔
    rewritten c s root p = .ok (some a.value) ∧ a.property = p.name ∧ a.previous = some p.value := by
  obtain ⟨k, previous, value⟩ := a
  unfold rewriteAction
  split
  · rename_i v hv
    simp only [Option.some.injEq, Action.mk.injEq, hv, Except.ok.injEq]
    tauto
  · rename_i hnone
    simp only [reduceCtorEq, false_iff, not_and]
    intro hv
    exact absurd hv (hnone value)

theorem rewritten_recorded (h : a.recorded) : rewritten c s root (a.row root) = .ok none := by
  unfold rewritten Action.row
  rcases h with ⟨href, r, hr⟩ | ⟨href, hkey, b, hb⟩
  · simp [href, hr, v1Proof]
  · simp [href, hkey, hb, v1BindingRecord]

theorem recorded_ne (h : a.recorded) : a.property ≠ .version ∧ a.property ≠ .lineage ∧ a.property ≠ .owner := by
  refine ⟨?_, ?_, ?_⟩ <;>
  · intro heq
    rcases h with ⟨href, -⟩ | ⟨-, hkey, -⟩
    · simp [heq, Key.isReference] at href
    · simp [heq, isBindingKey] at hkey

theorem rewritten_congr {s' : State} (hlineage : localValue s' root .lineage = localValue s root .lineage)
    (hobjects : s'.objects = s.objects) : rewritten c s' root p = rewritten c s root p := by
  have hobject : ∀ n, s'.object n = s.object n := fun n => by simp only [State.object, hobjects]
  have hsources : ∀ old u l, v1Sources s' old u l = v1Sources s old u l := by
    intro old u l
    induction l with
    | nil => rfl
    | cons x l ih => simp only [v1Sources, hobject, ih]
  simp only [rewritten, v1Proof, v1Record, hlineage, hsources]

end Rewritten

/-! ## Pending migrations -/

structure Pending (c : Codec) (s : State) (root : Dataset) (actions : List Action) : Prop where
  version : stateVersion s root = .ok 1
  managed : managed s root = true
  step : v1ToV2 c s root = (actions, [])
  reads : ∃ refs, referenceRecords (applied (applied s root actions) root [marker]) root
    (lineageOf (applied (applied s root actions) root [marker]) root) = .ok refs

section Pending

variable {c : Codec} {s pool : State} {root : Dataset} {actions xs ys : List Action} {a : Action}

theorem planRoot_pending (hvalid : validDataset root = true) (hroot : pool.hasObject (.dataset root) = true)
    (h : Pending c (pool.restrict (inside · root)) root actions) :
    planRoot c pool root = .ok ⟨root, .pending, 1, actions ++ [marker], []⟩ := by
  obtain ⟨refs, hrefs⟩ := h.reads
  have hplan : planV1 c (pool.restrict (inside · root)) root 1 = ⟨root, .pending, 1, actions ++ [marker], []⟩ := by
    simp [planV1, h.step, hrefs, blocker]
  simp only [planRoot, ok_iff]
  refine ⟨hvalid, _, State.inspect_eq_ok.mpr ⟨hroot, rfl⟩, ?_⟩
  simp only [if_true, h.version, h.managed, hplan]
  rfl

theorem pending_of_planRoot {plan : Plan} (h : planRoot c pool root = .ok plan) (hversion : plan.version = 1)
    (hblockers : plan.blockers = []) :
    validDataset root = true ∧ pool.hasObject (.dataset root) = true ∧ ∃ actions,
      plan.actions = actions ++ [marker] ∧ Pending c (pool.restrict (inside · root)) root actions := by
  simp only [planRoot, ok_iff] at h
  obtain ⟨hvalid, s, hs, h⟩ := h
  obtain ⟨hroot, rfl⟩ := State.inspect_eq_ok.mp hs
  refine ⟨hvalid, hroot, ?_⟩
  simp only [if_true] at h
  cases hv : stateVersion (pool.restrict (inside · root)) root with
  | error e =>
    rw [hv] at h
    cases h
    simp at hblockers
  | ok version =>
    simp only [hv] at h
    split at h
    · cases h
      simp at hblockers
    · split at h
      · rename_i hcurrent
        cases h
        simp only [beq_iff_eq] at hcurrent
        simp [hcurrent, currentVersion] at hversion
      · split at h
        · cases h
          simp at hversion
        · rename_i hmanaged
          rw [pure_eq_ok] at h
          subst h
          rcases hstep : v1ToV2 c (pool.restrict (inside · root)) root with ⟨actions, blockers⟩
          simp only [planV1, hstep] at hversion hblockers ⊢
          cases blockers with
          | cons e es => simp at hblockers
          | nil =>
            simp only [List.isEmpty_nil, if_true] at hversion hblockers ⊢
            refine ⟨actions, rfl, ?_, by simpa using hmanaged, hstep, ?_⟩
            · rw [← hversion]
              exact hv
            · cases hrefs : referenceRecords (applied (applied (pool.restrict (inside · root)) root actions) root [marker])
                root (lineageOf (applied (applied (pool.restrict (inside · root)) root actions) root [marker]) root) with
              | error e =>
                rw [hrefs] at hblockers
                simp [blocker] at hblockers
              | ok refs => exact ⟨refs, rfl⟩

theorem Pending.actions_eq (h : Pending c s root actions) :
    actions = sortActions c (s.properties.filterMap (rewriteAction c s root)) := (congrArg Prod.fst h.step).symm

theorem Pending.mem_iff (h : Pending c s root actions) :
    a ∈ actions ↔ ∃ p ∈ s.properties, rewriteAction c s root p = some a := by
  rw [h.actions_eq, sortActions, List.mem_insertionSort, List.mem_filterMap]

theorem Pending.recorded (h : Pending c s root actions) (ha : a ∈ actions) : a.recorded := by
  obtain ⟨p, -, hp⟩ := h.mem_iff.mp ha
  obtain ⟨hvalue, hname, hprevious⟩ := rewriteAction_eq_some.mp hp
  obtain ⟨k, previous, value⟩ := a
  obtain rfl : k = p.name := hname
  obtain rfl : previous = some p.value := hprevious
  exact (rewritten_some hvalue).2.2.1

theorem Pending.row (h : Pending c s root actions) (ha : a ∈ actions) : ∃ p ∈ s.properties,
    p.dataset = .dataset root ∧ p.source = .sourceLocal ∧ p.name = a.property ∧ a.previous = some p.value := by
  obtain ⟨p, hp, haction⟩ := h.mem_iff.mp ha
  obtain ⟨hvalue, hname, hprevious⟩ := rewriteAction_eq_some.mp haction
  obtain ⟨hdataset, hsource, -⟩ := rewritten_some hvalue
  exact ⟨p, hp, hdataset, hsource, hname.symm, hprevious⟩

theorem Pending.unblocked (h : Pending c s root actions) {p : Property} (hp : p ∈ s.properties) :
    ∃ v, rewritten c s root p = .ok v := by
  have hnone := List.filterMap_eq_nil_iff.mp (congrArg Prod.snd h.step) p hp
  cases hv : rewritten c s root p with
  | error e => simp [rewriteBlocker, hv] at hnone
  | ok v => exact ⟨v, rfl⟩

theorem Pending.mem_of_rewritten (h : Pending c s root actions) {p : Property} {v : Value} (hp : p ∈ s.properties)
    (hv : rewritten c s root p = .ok (some v)) : ⟨p.name, some p.value, v⟩ ∈ actions :=
  h.mem_iff.mpr ⟨p, hp, rewriteAction_eq_some.mpr ⟨hv, rfl, rfl⟩⟩

theorem Pending.nodup (h : Pending c s root actions) (hone : OneValue s) : (actions.map Action.property).Nodup := by
  have hperm : actions.Perm (s.properties.filterMap (rewriteAction c s root)) := by
    rw [h.actions_eq]
    exact List.perm_insertionSort _ _
  rw [(hperm.map _).nodup_iff, List.Nodup, List.pairwise_map, List.pairwise_filterMap]
  refine (List.pairwise_map.mp hone).imp ?_
  intro p q hpq a ha b hb heq
  obtain ⟨hva, hna, -⟩ := rewriteAction_eq_some.mp ha
  obtain ⟨hvb, hnb, -⟩ := rewriteAction_eq_some.mp hb
  refine hpq (Prod.ext ?_ ?_)
  · rw [(rewritten_some hva).1, (rewritten_some hvb).1]
  · rw [← hna, ← hnb, heq]

theorem localValue_of_row {p : Property} (hone : OneValue s) (hp : p ∈ s.properties) (hd : p.dataset = .dataset root)
    (hs : p.source = .sourceLocal) : localValue s root p.name = some p.value := by
  unfold Migrate.localValue
  rw [Lists.find?_unique hp (by simp [hd, hs])]
  · rfl
  · intro q hq hcond
    simp only [Bool.and_eq_true, beq_iff_eq] at hcond
    exact hone.eq hq hp (hcond.1.1.trans hd.symm) hcond.1.2

theorem Pending.previous (h : Pending c s root actions) (hone : OneValue s) (ha : a ∈ actions) :
    Migrate.localValue s root a.property = a.previous := by
  obtain ⟨p, hp, hd, hs, hname, hprevious⟩ := h.row ha
  rw [← hname, localValue_of_row hone hp hd hs, hprevious]

theorem applied_eq_written (hone : OneValue s) (hrow : ∀ a ∈ actions, ∃ p ∈ s.properties,
    p.dataset = .dataset root ∧ p.source = .sourceLocal ∧ p.name = a.property) :
    applied s root actions = written s root actions := by
  unfold applied written
  congr 2
  refine List.filter_congr fun p hp => ?_
  by_cases hd : p.dataset = .dataset root
  · by_cases hk : actions.any (·.property == p.name) = true
    · obtain ⟨x, hx, hname⟩ := List.any_eq_true.mp hk
      obtain ⟨q, hq, hqd, hqs, hqname⟩ := hrow x hx
      obtain rfl : p = q := hone.eq hp hq (hd.trans hqd.symm) ((beq_iff_eq.mp hname).symm.trans hqname.symm)
      simp [hd, hqs]
    · simp [hk]
  · simp [beq_eq_false_iff_ne.mpr hd]

theorem written_oneValue (hone : OneValue s) (hnodup : (actions.map Action.property).Nodup) :
    OneValue (written s root actions) := by
  unfold OneValue written
  rw [List.map_append, List.nodup_append]
  refine ⟨(List.Sublist.map _ List.filter_sublist).nodup hone, ?_, ?_⟩
  · rw [List.map_map]
    have : ((fun p : Property => (p.dataset, p.name)) ∘ Action.row root) =
        (fun k => (Name.dataset root, k)) ∘ Action.property := rfl
    rw [this, ← List.map_map]
    exact hnodup.map fun _ _ heq => (Prod.mk.inj heq).2
  · intro x hx y hy heq
    subst heq
    obtain ⟨p, hp, rfl⟩ := List.mem_map.mp hx
    obtain ⟨q, hq, hkey⟩ := List.mem_map.mp hy
    obtain ⟨a, ha, rfl⟩ := List.mem_map.mp hq
    obtain ⟨hd, hk⟩ := Prod.mk.inj hkey
    have := (List.mem_filter.mp hp).2
    simp only [← hd, ← hk, Action.row, beq_self_eq_true, Bool.true_and, Bool.not_eq_true', List.any_eq_false,
      beq_iff_eq] at this
    exact this a ha rfl

theorem filter_written {q : Property → Bool} (hq : ∀ p, q p = true → ∀ a ∈ actions, p.name ≠ a.property) :
    (written s root actions).properties.filter q = s.properties.filter q := by
  have hrows : (actions.map (Action.row root)).filter q = [] := by
    rw [List.filter_eq_nil_iff]
    intro p hp hcond
    obtain ⟨a, ha, rfl⟩ := List.mem_map.mp hp
    exact hq _ hcond a ha rfl
  simp only [written, List.filter_append, hrows, List.append_nil, List.filter_filter]
  refine List.filter_congr fun p _ => ?_
  cases hp : q p with
  | false => rfl
  | true =>
    have : actions.any (·.property == p.name) = false := by
      simpa using fun a ha => Ne.symm (hq p hp a ha)
    simp [this]

theorem stateVersion_written (h : ∀ a ∈ actions, a.property ≠ .version) :
    stateVersion (written s root actions) root = stateVersion s root := by
  unfold stateVersion State.localRows
  rw [filter_written]
  intro p hp a ha heq
  simp only [Bool.and_eq_true, beq_iff_eq] at hp
  exact h a ha (heq.symm.trans hp.1.2)

theorem managed_written (hrecorded : ∀ a ∈ actions, a.recorded) (h : managed s root = true) :
    managed (written s root actions) root = true := by
  obtain ⟨p, hp, hcond⟩ := List.any_eq_true.mp h
  by_cases hk : actions.any (·.property == p.name) = true
  · obtain ⟨a, ha, -⟩ := List.any_eq_true.mp hk
    refine List.any_eq_true.mpr ⟨a.row root, List.mem_append_right _ (List.mem_map_of_mem ha), ?_⟩
    rcases hrecorded a ha with ⟨href, -⟩ | ⟨-, hkey, -⟩
    · simp [Action.row, href]
    · have : a.property.isTargetState = true := by
        cases hk' : a.property <;> simp_all [isBindingKey, Key.isTargetState]
      simp [Action.row, this]
  · refine List.any_eq_true.mpr ⟨p, List.mem_append_left _ (List.mem_filter.mpr ⟨hp, ?_⟩), hcond⟩
    simp [Bool.eq_false_iff.mpr hk]

theorem sortActions_sorted (c : Codec) (l : List Action) :
    (sortActions c l).Pairwise fun a b => textLe (c.keyText a.property) (c.keyText b.property) = true :=
  pairwise_sort_text (fun a : Action => c.keyText a.property) l

theorem sortActions_eq {l l' : List Action} (hperm : l.Perm l')
    (hsorted : l'.Pairwise fun a b => textLe (c.keyText a.property) (c.keyText b.property) = true)
    (hnodup : (l'.map Action.property).Nodup) : sortActions c l = l' := by
  have hsort : (sortActions c l).Perm l' := (List.perm_insertionSort _ _).trans hperm
  refine List.Perm.eq_of_pairwise ?_ (sortActions_sorted c l) hsorted hsort
  intro a b ha hb hab hba
  exact List.inj_on_of_nodup_map hnodup (hsort.subset ha) hb (c.injective (textLe_antisymm hab hba))

theorem Pending.step_resume (h : Pending c s root (xs ++ ys)) (hone : OneValue s) :
    v1ToV2 c (written s root xs) root = (ys, []) := by
  have hnodup := h.nodup hone
  have hrec : ∀ a ∈ xs, a.recorded := fun a ha => h.recorded (List.mem_append_left _ ha)
  have hsame : rewritten c (written s root xs) root = rewritten c s root := by
    funext p
    exact rewritten_congr (localValue_written fun a ha => (recorded_ne (hrec a ha)).2.1) rfl
  have haction : rewriteAction c (written s root xs) root = rewriteAction c s root := by
    funext p
    simp only [rewriteAction, hsame]
  have hblocker : rewriteBlocker c (written s root xs) root = rewriteBlocker c s root := by
    funext p
    simp only [rewriteBlocker, hsame]
  have hnone : ∀ p ∈ xs.map (Action.row root), rewritten c s root p = .ok none := by
    intro p hp
    obtain ⟨a, ha, rfl⟩ := List.mem_map.mp hp
    exact rewritten_recorded (hrec a ha)
  have hactions : (written s root xs).properties.filterMap (rewriteAction c s root) =
      (s.properties.filterMap (rewriteAction c s root)).filter fun a => !xs.any (·.property == a.property) := by
    have hnew : (xs.map (Action.row root)).filterMap (rewriteAction c s root) = [] := by
      rw [List.filterMap_eq_nil_iff]
      intro p hp
      simp [rewriteAction, hnone p hp]
    rw [written, List.filterMap_append, hnew, List.append_nil, List.filterMap_filter, List.filter_filterMap]
    refine List.filterMap_congr fun p _ => ?_
    cases hp : rewriteAction c s root p with
    | none => simp
    | some a =>
      obtain ⟨hvalue, hname, -⟩ := rewriteAction_eq_some.mp hp
      simp only [(rewritten_some hvalue).1, beq_self_eq_true, Bool.true_and, ← hname, Option.filter]
  have hblockers : (written s root xs).properties.filterMap (rewriteBlocker c s root) = [] := by
    have hold : s.properties.filterMap (rewriteBlocker c s root) = [] := congrArg Prod.snd h.step
    rw [List.filterMap_eq_nil_iff] at hold ⊢
    intro p hp
    rcases List.mem_append.mp hp with hp | hp
    · exact hold p (List.mem_of_mem_filter hp)
    · simp [rewriteBlocker, hnone p hp]
  have hperm : (xs ++ ys).Perm (s.properties.filterMap (rewriteAction c s root)) := by
    rw [h.actions_eq]
    exact List.perm_insertionSort _ _
  have hrest : (xs ++ ys).filter (fun a => !xs.any (·.property == a.property)) = ys := by
    rw [List.map_append, List.nodup_append] at hnodup
    rw [List.filter_append, List.filter_eq_nil_iff.mpr, List.filter_eq_self.mpr, List.nil_append]
    · intro y hy
      simp only [Bool.not_eq_true', List.any_eq_false, beq_iff_eq]
      exact fun x hx => hnodup.2.2 _ (List.mem_map_of_mem hx) _ (List.mem_map_of_mem hy)
    · intro x hx
      simp only [Bool.not_eq_true, Bool.not_eq_false', List.any_eq_true, beq_iff_eq]
      exact ⟨x, hx, rfl⟩
  rw [v1ToV2, haction, hblocker, hactions, hblockers]
  refine Prod.ext (sortActions_eq ?_ ?_ ?_) rfl
  · rw [← hrest]
    exact (hperm.filter _).symm
  · have hsorted := sortActions_sorted c (s.properties.filterMap (rewriteAction c s root))
    rw [← h.actions_eq] at hsorted
    exact (List.pairwise_append.mp hsorted).2.1
  · rw [List.map_append, List.nodup_append] at hnodup
    exact hnodup.2.1

theorem Pending.resume (h : Pending c s root (xs ++ ys)) (hone : OneValue s) : Pending c (written s root xs) root ys where
  version := by
    rw [stateVersion_written, h.version]
    exact fun a ha => (recorded_ne (h.recorded (List.mem_append_left _ ha))).1
  managed := managed_written (fun a ha => h.recorded (List.mem_append_left _ ha)) h.managed
  step := h.step_resume hone
  reads := by
    have hnodup := h.nodup hone
    have hxs : ((xs.map Action.property).Nodup) := by
      rw [List.map_append, List.nodup_append] at hnodup
      exact hnodup.1
    have hsame : applied (written s root xs) root ys = applied s root (xs ++ ys) := by
      rw [applied_eq_written hone, applied_eq_written (written_oneValue hone hxs), written_append hnodup]
      · intro y hy
        obtain ⟨p, hp, hd, hs, hname, -⟩ := h.row (List.mem_append_right _ hy)
        refine ⟨p, List.mem_append_left _ (List.mem_filter.mpr ⟨hp, ?_⟩), hd, hs, hname⟩
        rw [List.map_append, List.nodup_append] at hnodup
        simp only [hname, Bool.not_eq_true', Bool.and_eq_false_iff, List.any_eq_false, beq_iff_eq]
        exact .inr fun x hx => hnodup.2.2 _ (List.mem_map_of_mem hx) _ (List.mem_map_of_mem hy)
      · intro a ha
        obtain ⟨p, hp, hd, hs, hname, -⟩ := h.row ha
        exact ⟨p, hp, hd, hs, hname⟩
    rw [hsame]
    exact h.reads

end Pending

/-! ## Whole runs -/

section Runs

variable {c : Codec} {pool : State} {root : Dataset} {actions xs ys : List Action}

structure Migrating (c : Codec) (pool : State) (root : Dataset) (actions : List Action) : Prop where
  valid : validDataset root = true
  hasRoot : pool.hasObject (.dataset root) = true
  oneValue : OneValue pool
  pending : Pending c (pool.restrict (inside · root)) root actions

theorem Migrating.nodup (h : Migrating c pool root actions) : ((actions ++ [marker]).map Action.property).Nodup := by
  rw [List.map_append, List.nodup_append]
  refine ⟨h.pending.nodup h.oneValue.restrict, List.nodup_singleton _, ?_⟩
  intro k hk k' hk' heq
  obtain ⟨a, ha, rfl⟩ := List.mem_map.mp hk
  rw [List.map_singleton, List.mem_singleton] at hk'
  exact (recorded_ne (h.pending.recorded ha)).1 (heq.trans hk')

theorem Migrating.previous (h : Migrating c pool root actions) {a : Action} (ha : a ∈ actions) :
    localValue pool root a.property = a.previous := by
  rw [← localValue_restrict (p := (inside · root)) (inside_self root)]
  exact h.pending.previous h.oneValue.restrict ha

theorem Migrating.version_written (h : Migrating c pool root (xs ++ ys)) :
    localValue (written pool root xs) root .version = localValue pool root .version :=
  localValue_written fun _ ha => (recorded_ne (h.pending.recorded (List.mem_append_left _ ha))).1

theorem Migrating.records_written (h : Migrating c pool root (xs ++ ys)) :
    applyActions root xs pool = (.ok (), written pool root xs) := by
  refine applyActions_written h.hasRoot ?_ fun a ha => h.previous (List.mem_append_left _ ha)
  have := h.pending.nodup h.oneValue.restrict
  rw [List.map_append, List.nodup_append] at this
  exact this.1

theorem Migrating.resume (h : Migrating c pool root (xs ++ ys)) : Migrating c (written pool root xs) root ys where
  valid := h.valid
  hasRoot := h.hasRoot
  oneValue := by
    have := h.pending.nodup h.oneValue.restrict
    rw [List.map_append, List.nodup_append] at this
    exact written_oneValue h.oneValue this.1
  pending := by
    rw [written_restrict (p := (inside · root)) (inside_self root)]
    exact h.pending.resume h.oneValue.restrict

theorem Migrating.plan (h : Migrating c pool root actions) :
    planRoot c pool root = .ok ⟨root, .pending, 1, actions ++ [marker], []⟩ :=
  planRoot_pending h.valid h.hasRoot h.pending

theorem Migrating.apply (h : Migrating c pool root actions) (hmarker : localValue pool root .version = none) :
    apply c pool root = (.ok ⟨root, .migrated, 1, actions ++ [marker], []⟩, written pool root (actions ++ [marker])) := by
  have hall : applyActions root (actions ++ [marker]) pool = (.ok (), written pool root (actions ++ [marker])) := by
    refine applyActions_written h.hasRoot h.nodup fun a ha => ?_
    rcases List.mem_append.mp ha with ha | ha
    · exact h.previous ha
    · rw [List.mem_singleton.mp ha]
      exact hmarker
  simp only [Migrate.apply, h.plan, List.isEmpty_nil, if_true, hall]

theorem Migrating.apply_marked (h : Migrating c pool root actions) (hmarker : localValue pool root .version ≠ none) :
    ∃ e, (Migrate.apply c pool root).1 = .error e := by
  have hrecords : applyActions root actions pool = (.ok (), written pool root actions) := by
    have h' : Migrating c pool root (actions ++ []) := by rwa [List.append_nil]
    exact h'.records_written
  have hversion : localValue (written pool root actions) root .version ≠ none := by
    have h' : Migrating c pool root (actions ++ []) := by rwa [List.append_nil]
    rwa [h'.version_written]
  have hrefused : ∀ u, holds (written pool root actions) root marker.property marker.previous ≠ .ok u :=
    fun u hu => hversion (holds_eq_ok.mp hu).2
  cases hholds : holds (written pool root actions) root marker.property marker.previous with
  | ok u => exact absurd hholds (hrefused u)
  | error e =>
    refine ⟨e, ?_⟩
    have hlast : applyActions root [marker] (written pool root actions) = (.error e, written pool root actions) := by
      simp only [applyActions, applyAction, hholds]
    simp only [Migrate.apply, h.plan, List.isEmpty_nil, if_true, applyActions_append, hrecords, hlast]

end Runs

end Boomerangz.Migrate
