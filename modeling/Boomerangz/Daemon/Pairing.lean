import Boomerangz.Daemon.Subscription

/-! # How transitions and states pair up

A state taken with room for its transitions is delivered with exactly those it includes.
-/

open Transition

namespace Boomerangz.Daemon.Status

/-! ## The log of changes -/

def changeLog (cs : List Change) : List Delivery := cs.flatMap fun c => c.transitions.map (⟨·, c.state.revision⟩)

def Numbered : Nat → List Change → Prop
  | _, [] => True
  | r, c :: cs => c.state.revision = r + 1 ∧ Numbered (r + 1) cs

section Log

variable {r : Nat} {cs cs' : List Change} {c : Change} {d : Delivery} {start : ControlSnapshot}

@[simp] theorem stateAfter_snoc : stateAfter start (cs ++ [c]) = c.state := by simp [stateAfter]

@[simp] theorem changeLog_append : changeLog (cs ++ cs') = changeLog cs ++ changeLog cs' := List.flatMap_append

theorem changeLog_events (cs : List Change) : (changeLog cs).map Delivery.event = cs.flatMap Change.transitions := by
  simp [changeLog, List.map_flatMap, Function.comp_def]

theorem numbered_append : Numbered r (cs ++ cs') ↔ Numbered r cs ∧ Numbered (r + cs.length) cs' := by
  induction cs generalizing r with
  | nil => simp [Numbered]
  | cons c cs ih =>
    simp only [List.cons_append, Numbered, ih, and_assoc, List.length_cons]
    rw [show r + 1 + cs.length = r + (cs.length + 1) by omega]

theorem stateAfter_revision (h : Numbered start.revision cs) :
    (stateAfter start cs).revision = start.revision + cs.length := by
  induction cs generalizing start with
  | nil => rfl
  | cons c cs ih =>
    obtain ⟨hc, hcs⟩ := h
    rw [← hc] at hcs
    have := ih hcs
    simp only [stateAfter, List.foldl_cons, List.length_cons] at this ⊢
    omega

theorem changeLog_revision (h : Numbered r cs) (hd : d ∈ changeLog cs) :
    r < d.revision ∧ d.revision ≤ r + cs.length := by
  induction cs generalizing r with
  | nil => simp [changeLog] at hd
  | cons c cs ih =>
    obtain ⟨hc, hcs⟩ := h
    simp only [changeLog, List.flatMap_cons, List.mem_append, List.mem_map] at hd
    rcases hd with ⟨e, -, rfl⟩ | hd
    · simp only [List.length_cons, hc]
      omega
    · have := ih hcs hd
      simp only [List.length_cons]
      omega

theorem changeLog_sorted (h : Numbered r cs) : (changeLog cs).Pairwise fun d d' => d.revision ≤ d'.revision := by
  induction cs generalizing r with
  | nil => exact List.Pairwise.nil
  | cons c cs ih =>
    obtain ⟨hc, hcs⟩ := h
    simp only [changeLog, List.flatMap_cons, List.pairwise_append, List.pairwise_map]
    refine ⟨List.pairwise_of_forall (fun _ _ => Nat.le_refl _), ih hcs, ?_⟩
    intro d hd d' hd'
    obtain ⟨e, -, rfl⟩ := List.mem_map.mp hd
    have := changeLog_revision hcs hd'
    simp only [hc]
    omega

theorem changeLog_cut {taken rest : List Delivery} (hnumbered : Numbered start.revision (cs ++ cs'))
    (hsplit : taken ++ rest = changeLog (cs ++ cs'))
    (htaken : ∀ d ∈ taken, d.revision ≤ (stateAfter start cs).revision)
    (hrest : ∀ d ∈ rest, (stateAfter start cs).revision < d.revision) : taken = changeLog cs := by
  obtain ⟨hcs, hcs'⟩ := numbered_append.mp hnumbered
  rw [stateAfter_revision hcs] at htaken hrest
  have hfilter := congrArg (List.filter fun d => decide (d.revision ≤ start.revision + cs.length)) hsplit
  rw [changeLog_append, List.filter_append, List.filter_append, List.filter_eq_self.mpr,
    List.filter_eq_nil_iff.mpr, List.filter_eq_self.mpr, List.filter_eq_nil_iff.mpr] at hfilter
  · simpa using hfilter
  · intro d hd
    have := changeLog_revision hcs' hd
    simp only [decide_eq_true_eq]
    omega
  · intro d hd
    simpa using (changeLog_revision hcs hd).2
  · intro d hd
    simpa using hrest d hd
  · intro d hd
    simpa using htaken d hd

end Log

/-! ## The invariant -/

namespace Link

def unsent (s : Link) : List Delivery :=
  match s.fan with
  | .sending rest => rest.map (⟨·, s.owner.revision⟩)
  | _ => []

def room (s : Link) : Nat := if s.mode = .draining then transitionBound - s.pending.length else 0

def Around (s : Link) (x : ControlSnapshot) : Prop := s.stateChan = some x ∨ s.state = some x

end Link

structure Inv (s : Link) : Prop where
  current : stateAfter s.start s.changes = s.owner.state
  numbered : Numbered s.start.revision s.changes
  registered : s.fan ≠ .idle → s.subscribed = true
  sent : s.taken ++ s.transitions <+: changeLog s.changes
  complete : s.subscribed = true → s.taken ++ s.transitions ++ s.unsent = changeLog s.changes
  past : ∀ x, s.Around x → ∃ cs, cs <+: s.changes ∧ x = stateAfter s.start cs
  ahead : ∀ x, s.Around x → ∀ d ∈ (changeLog s.changes).drop (s.taken ++ s.transitions).length, x.revision < d.revision
  kept : ∀ x, s.state = some x → ∀ d ∈ (changeLog s.changes).drop (s.taken.length + s.room), x.revision < d.revision
  newer : ∀ x y, s.state = some x → s.stateChan = some y → x.revision ≤ y.revision
  events : s.taken.map Delivery.event = s.delivered.flatMap Update.transitions ++ s.pending
  covered : ∀ d ∈ s.taken, d.revision ≤ s.covered
  first : s.state = none → s.delivered = []
  served : s.pending = [] → ∀ x, s.state = some x → ∀ d ∈ s.taken, d.revision ≤ x.revision
  offered : s.mode = .waiting → s.offering = true → s.offers = true
  matching : Matching s
  overflowed : s.overflowed = true → s.subscribed = false
  exited : s.mode = .exited → s.ended = none → s.err = some .overflow

theorem offers_elapse {s : Link} (h : s.offers = true) : Link.offers { s with due := true } = true := by
  unfold Link.offers at h ⊢
  cases hstate : s.state with
  | none => simp [hstate] at h
  | some x =>
    simp only [hstate] at h ⊢
    split at h
    · rename_i hempty
      rw [if_pos hempty, (Bool.and_eq_true_iff.mp h).1, Bool.true_and]
    · rename_i hpending
      rwa [if_neg hpending]

namespace Inv

variable {s t : Link} {o : StatusOwner} {transitions rest : List Event} {event : Event} {x : ControlSnapshot}

theorem register (o : StatusOwner) : Inv (.register o) where
  current := rfl
  numbered := trivial
  registered h := absurd rfl h
  sent := List.prefix_rfl
  complete _ := rfl
  past x hx := by
    rcases hx with hx | hx
    · obtain rfl : o.state = x := Option.some.inj hx
      exact ⟨[], List.prefix_rfl, rfl⟩
    · cases hx
  ahead := by simp [Link.register, changeLog]
  kept x hx := by cases hx
  newer x y hx := by cases hx
  events := rfl
  covered := by simp [Link.register]
  first _ := rfl
  served _ x hx := by cases hx
  offered h := by cases h
  matching us u us' h := by simp [Link.register] at h
  overflowed h := by cases h
  exited h := by cases h

theorem past_le (h : Inv s) (hx : s.Around x) : x.revision ≤ s.owner.revision := by
  obtain ⟨cs, ⟨cs', hcs⟩, rfl⟩ := h.past x hx
  have hnumbered := h.numbered
  have hcurrent := congrArg ControlSnapshot.revision h.current
  rw [stateAfter_revision h.numbered, StatusOwner.state_revision] at hcurrent
  rw [← hcs, numbered_append] at hnumbered
  rw [stateAfter_revision hnumbered.1, ← hcurrent, ← hcs, List.length_append]
  omega

theorem matching_mono {cs : List Change} (h : Matching s) (hdelivered : t.delivered = s.delivered)
    (hstart : t.start = s.start) (hchanges : t.changes = s.changes ++ cs) : Matching t := by
  intro us u us' husplit
  obtain ⟨cs', hcs, heq, hstate⟩ := h us u us' (hdelivered ▸ husplit)
  refine ⟨cs', ?_, heq, hstart ▸ hstate⟩
  rw [hchanges]
  exact hcs.trans (List.prefix_append _ _)

theorem matching_snoc {u : Update} (h : Matching s) (hdelivered : t.delivered = s.delivered ++ [u])
    (hstart : t.start = s.start) (hchanges : t.changes = s.changes)
    (hlast : ∃ cs, cs <+: s.changes ∧ (s.delivered ++ [u]).flatMap Update.transitions = cs.flatMap Change.transitions ∧
      u.state = stateAfter s.start cs) : Matching t := by
  intro us v us' hsplit
  rw [hstart, hchanges]
  rw [hdelivered] at hsplit
  rcases List.eq_nil_or_concat us' with rfl | ⟨us'', w, rfl⟩
  · obtain ⟨rfl, hv⟩ := List.append_inj' hsplit rfl
    obtain rfl := List.singleton_inj.mp hv
    exact hlast
  · rw [List.concat_eq_append, ← List.cons_append, ← List.append_assoc] at hsplit
    exact h us v us'' (List.append_inj' hsplit rfl).1

theorem change (h : Inv s) (hidle : s.fan = .idle) (hrevision : o.revision = s.owner.revision + 1) :
    Inv (s.change transitions o) := by
  have hcurrent := congrArg ControlSnapshot.revision h.current
  rw [stateAfter_revision h.numbered, StatusOwner.state_revision] at hcurrent
  have hlog : changeLog (s.change transitions o).changes =
      changeLog s.changes ++ transitions.map (⟨·, o.revision⟩) := by
    simp [Link.change, changeLog]
  have hnew : ∀ x, s.Around x → ∀ k, (∀ d ∈ (changeLog s.changes).drop k, x.revision < d.revision) →
      ∀ d ∈ (changeLog (s.change transitions o).changes).drop k, x.revision < d.revision := by
    intro x hx k hold d hd
    rw [hlog, List.drop_append, List.mem_append] at hd
    rcases hd with hd | hd
    · exact hold d hd
    · obtain ⟨e, -, rfl⟩ := List.mem_map.mp (List.mem_of_mem_drop hd)
      have := h.past_le hx
      simp only
      omega
  exact {
    current := by simp [Link.change]
    numbered := by
      refine numbered_append.mpr ⟨h.numbered, ?_, trivial⟩
      simp only [Link.change, StatusOwner.state_revision]
      omega
    registered := by
      simp only [Link.change]
      cases s.subscribed && s.mode != .exited <;> simp
    sent := by
      rw [hlog]
      exact h.sent.trans (List.prefix_append _ _)
    complete := by
      intro hlive
      have hlive' : (s.subscribed && s.mode != .exited) = true := hlive
      have hsub : s.subscribed = true := (Bool.and_eq_true_iff.mp hlive').1
      have hcomplete := h.complete hsub
      simp only [Link.unsent, hidle, List.append_nil] at hcomplete
      rw [hlog]
      simp [Link.change, Link.unsent, hlive', ← hcomplete]
    past := by
      intro x hx
      obtain ⟨cs, hcs, rfl⟩ := h.past x hx
      exact ⟨cs, hcs.trans (List.prefix_append _ _), rfl⟩
    ahead := fun x hx => hnew x hx _ (h.ahead x hx)
    kept := fun x hx => hnew x (.inr hx) _ (h.kept x hx)
    newer := h.newer
    events := h.events
    covered := h.covered
    first := h.first
    served := h.served
    offered := h.offered
    matching := matching_mono h.matching rfl rfl rfl
    overflowed := by
      intro hover
      simp [Link.change, h.overflowed hover]
    exited := h.exited }

theorem push (h : Inv s) (hfan : s.fan = .sending (event :: rest)) : Inv (s.push event rest) := by
  have hsub := h.registered (by rw [hfan]; simp)
  have hcomplete := h.complete hsub
  simp only [Link.unsent, hfan, List.map_cons] at hcomplete
  exact { h with
    registered := fun _ => hsub
    sent := by
      change _ <+: changeLog s.changes
      rw [← hcomplete]
      exact ⟨rest.map (⟨·, s.owner.revision⟩), by simp [Link.push]⟩
    complete := by
      intro _
      change _ = changeLog s.changes
      rw [← hcomplete]
      simp [Link.push, Link.unsent]
    ahead := by
      intro x hx d hd
      refine h.ahead x hx d ((List.drop_sublist_drop_left _ ?_).subset hd)
      simp [Link.push]
    kept := h.kept }

theorem refuse (h : Inv s) : Inv s.refuse :=
  { h with
    registered := fun hne => absurd rfl hne
    complete := fun hsub => by cases hsub
    overflowed := fun _ => rfl }

theorem takeBack (h : Inv s) (hfan : s.fan = .sending []) : Inv { s with stateChan := none, fan := .storing } :=
  have hsub := h.registered (by rw [hfan]; simp)
  { h with
    registered := fun _ => hsub
    complete := by
      intro _
      have := h.complete hsub
      simpa [Link.unsent, hfan] using this
    past := fun x hx => h.past x (.inr (hx.resolve_left (by simp)))
    ahead := fun x hx => h.ahead x (.inr (hx.resolve_left (by simp)))
    newer := fun x y _ hy => by cases hy }

theorem store (h : Inv s) (hfan : s.fan = .storing) :
    Inv { s with stateChan := some s.owner.state, fan := .idle } := by
  have hsub := h.registered (by rw [hfan]; simp)
  have hcomplete := h.complete hsub
  simp only [Link.unsent, hfan, List.append_nil] at hcomplete
  exact { h with
    registered := fun hne => absurd rfl hne
    complete := fun _ => by simpa [Link.unsent] using hcomplete
    past := by
      rintro x (hx | hx)
      · cases hx
        exact ⟨s.changes, List.prefix_rfl, h.current.symm⟩
      · exact h.past x (.inr hx)
    ahead := by
      intro x _ d hd
      simp [← hcomplete] at hd
    newer := by
      intro x y hx hy
      cases hy
      exact h.past_le (.inr hx) }

theorem receive {m : Mode} (h : Inv s) (hready : s.ready = true) (hm : m = .loop ∧ s.mode ≠ .draining ∨
    m = .draining ∧ s.mode = .draining) (hreceive : s.receive m = some t) : Inv t := by
  simp only [Link.ready, Bool.and_eq_true, decide_eq_true_eq] at hready
  unfold Link.receive at hreceive
  cases hchan : s.transitions with
  | nil => simp [hchan] at hreceive
  | cons d rest =>
    simp only [hchan, Option.some.injEq] at hreceive
    subst hreceive
    have hsent := h.sent
    rw [hchan] at hsent
    have hsorted := (changeLog_sorted h.numbered).sublist hsent.sublist
    rw [List.pairwise_append] at hsorted
    exact { h with
      sent := by simpa using hsent
      complete := by
        intro hsub
        have := h.complete hsub
        rw [hchan] at this
        simpa [Link.unsent] using this
      ahead := by
        intro x hx
        have := h.ahead x hx
        rw [hchan] at this
        simpa using this
      kept := by
        intro x hx e he
        refine h.kept x hx e ((List.drop_sublist_drop_left _ ?_).subset he)
        rcases hm with ⟨rfl, hmode⟩ | ⟨rfl, hmode⟩
        · simp [Link.room, hmode]
        · simp only [Link.room, hmode, if_true, List.length_append, List.length_singleton]
          omega
      events := by
        rw [List.map_append, h.events, List.append_assoc]
        rfl
      covered := by
        intro e he
        rcases List.mem_append.mp he with he | he
        · exact hsorted.2.2 e he d List.mem_cons_self
        · rw [List.mem_singleton.mp he]
      served := fun hnil => by simp at hnil
      offered := by rcases hm with ⟨rfl, -⟩ | ⟨rfl, -⟩ <;> simp
      exited := by rcases hm with ⟨rfl, -⟩ | ⟨rfl, -⟩ <;> simp }

theorem takeState (h : Inv s) (hchan : s.stateChan = some x)
    (hpaired : ∀ d ∈ s.transitions.drop (transitionBound - s.pending.length), x.revision < d.revision) :
    Inv { s with stateChan := none, state := some x, dirty := true, mode := .draining } := by
  have hx : s.Around x := .inl hchan
  have haround : ∀ y, (none = some y ∨ some x = some y) → y = x := by
    rintro y (hy | hy)
    · cases hy
    · exact (Option.some.inj hy).symm
  exact { h with
    past := by
      intro y hy
      obtain rfl := haround y hy
      exact h.past y hx
    ahead := by
      intro y hy
      obtain rfl := haround y hy
      exact h.ahead y hx
    kept := by
      intro y hy d hd
      cases hy
      obtain ⟨rest, hrest⟩ := h.sent
      have hahead := h.ahead x hx
      rw [← hrest, List.drop_left] at hahead
      rw [← hrest, List.append_assoc, List.drop_length_add_append, List.drop_append, List.mem_append] at hd
      exact hd.elim (hpaired d) fun hd => hahead d (List.mem_of_mem_drop hd)
    newer := fun y z _ hz => by cases hz
    first := fun hnone => by cases hnone
    served := by
      intro hnil y hy d hd
      cases hy
      cases hstate : s.state with
      | none =>
        have hevents := h.events
        rw [hnil, h.first hstate] at hevents
        simp only [List.flatMap_nil, List.append_nil, List.map_eq_nil_iff] at hevents
        simp [hevents] at hd
      | some y => exact (h.served hnil y hstate d hd).trans (h.newer y x hstate hchan)
    offered := fun hwaiting => by cases hwaiting
    exited := fun hexited => by cases hexited }

theorem kept_of_mode {k : Nat} (h : Inv s) (hmode : s.mode ≠ .draining) (hk : k = s.taken.length) :
    ∀ x, s.state = some x → ∀ d ∈ (changeLog s.changes).drop k, x.revision < d.revision := by
  intro x hx
  have := h.kept x hx
  rwa [Link.room, if_neg hmode, Nat.add_zero, ← hk] at this

theorem hand (h : Inv s) (hmode : s.mode = .waiting) (hoffering : s.offering = true) (hstate : s.state = some x) :
    Inv (s.hand x) := by
  have hoffers := h.offered hmode hoffering
  have htaken : ∀ d ∈ s.taken, d.revision ≤ x.revision := by
    intro d hd
    cases hpending : s.pending with
    | nil => exact h.served hpending x hstate d hd
    | cons e es =>
      simp only [Link.offers, hstate, hpending, List.isEmpty_cons, Bool.false_eq_true, if_false,
        decide_eq_true_eq] at hoffers
      exact (h.covered d hd).trans hoffers
  have hkept := h.kept_of_mode (by simp [hmode]) rfl x hstate
  obtain ⟨cs, ⟨cs', hcs⟩, rfl⟩ := h.past x (.inr hstate)
  have hcut : s.taken = changeLog cs := by
    obtain ⟨rest, hrest⟩ := h.sent
    rw [List.append_assoc] at hrest
    refine changeLog_cut (hcs ▸ h.numbered) (hrest.trans (by rw [hcs])) htaken ?_
    rw [← hrest, List.drop_left] at hkept
    exact hkept
  exact { h with
    kept := by
      intro y hy
      obtain rfl := Option.some.inj (hstate.symm.trans hy)
      simpa [Link.room, Link.hand] using hkept
    events := by
      have := h.events
      simp only [Link.hand, List.flatMap_append, List.flatMap_cons, List.flatMap_nil, List.append_nil]
      exact this
    first := fun hnone => by
      change s.state = none at hnone
      rw [hstate] at hnone
      cases hnone
    served := by
      intro _ y hy
      obtain rfl := Option.some.inj (hstate.symm.trans hy)
      exact htaken
    offered := fun hwaiting => by cases hwaiting
    matching := by
      refine matching_snoc h.matching rfl rfl rfl ⟨cs, ⟨cs', hcs⟩, ?_, rfl⟩
      rw [← changeLog_events, ← hcut, h.events]
      simp
    exited := fun hexited => by cases hexited }

theorem drained (h : Inv s) (hmode : s.mode = .draining) (hready : s.ready = false) : Inv { s with mode := .loop } where
  __ := h
  kept := by
    intro x hx
    have hkept := h.kept x hx
    simp only [Link.ready, Bool.and_eq_false_iff, decide_eq_false_iff_not, Nat.not_lt, Bool.not_eq_false',
      List.isEmpty_iff] at hready
    rcases hready with hfull | hempty
    · rwa [Link.room, if_pos hmode, Nat.sub_eq_zero_of_le hfull] at hkept
    · have := h.ahead x (.inr hx)
      rwa [hempty, List.append_nil] at this
  offered := fun hwaiting => by cases hwaiting
  exited := fun hexited => by cases hexited

theorem step {a : Action} (h : Inv s) (hpaired : paired s a = true) (hstep : s.step a = some t) : Inv t := by
  cases moves_of_step hstep with
  | unchanged _ => exact h
  | change _ hidle hrevision => exact h.change hidle hrevision
  | push hfan => exact h.push hfan
  | refuse _ => exact h.refuse
  | takeBack hfan => exact h.takeBack hfan
  | store hfan => exact h.store hfan
  | receive _ hready hm hreceive => exact h.receive hready hm hreceive
  | poll hmode =>
    exact { h with
      kept := h.kept_of_mode (by simp [hmode]) rfl
      offered := fun _ hoffering => hoffering
      exited := fun hexited => by cases hexited }
  | takeState _ hchan =>
    refine h.takeState hchan fun d hd => ?_
    simp only [paired, hchan, List.all_eq_true, decide_eq_true_eq] at hpaired
    exact hpaired d hd
  | drained hmode hready => exact h.drained hmode hready
  | deliver hmode hoffering hstate => exact h.hand hmode hoffering hstate
  | wake hmode _ _ =>
    exact { h with
      kept := h.kept_of_mode (by simp [hmode]) rfl
      offered := fun hwaiting => by cases hwaiting
      exited := fun hexited => by cases hexited }
  | finish hmode _ =>
    exact { h with
      kept := h.kept_of_mode (by simp [hmode]) rfl
      offered := fun hwaiting => by cases hwaiting
      exited := fun _ _ => rfl }
  | quit hmode hended =>
    exact { h with
      kept := h.kept_of_mode (by simp [hmode]) rfl
      offered := fun hwaiting => by cases hwaiting
      exited := fun _ hnone => by simp [hended] at hnone }
  | cancel =>
    exact { h with
      kept := h.kept
      exited := fun _ hnone => by simp at hnone }
  | elapse =>
    exact { h with
      kept := h.kept
      offered := fun hmode hoffering => offers_elapse (h.offered hmode hoffering) }

theorem gapFree (h : Inv s) : GapFree s := by
  obtain ⟨rest, hrest⟩ := h.sent
  refine ⟨s.pending ++ (s.transitions ++ rest).map Delivery.event, ?_⟩
  rw [← changeLog_events, ← hrest, ← List.append_assoc, ← h.events]
  simp only [List.map_append, List.append_assoc]

end Inv

theorem inv_of_reach {s : Link} (h : Reach system (fun s a => paired s a = true) s) : Inv s := by
  refine h.invariant ?_ fun s a t hs hok hstep => hs.step hok hstep
  rintro s ⟨o, rfl⟩
  exact .register o

end Boomerangz.Daemon.Status
