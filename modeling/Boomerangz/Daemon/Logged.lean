import Boomerangz.Daemon.Log
import Mathlib.Data.List.ModifyLast
import Mathlib.Data.List.ReduceOption

/-! # The log accounts for everything

The line of entries from the owner to the writer always accounts for all that was handled.
-/

namespace Boomerangz.Daemon.Status

open Zfs Transition Gaps

/-! ## Deliveries -/

@[simp] theorem Logged.line_delivery (x : Logged) (revision : Nat) : (x.delivery revision).line = .item x := by
  cases x <;> rfl

@[simp] theorem Logged.at_delivery (x : Logged) (revision : Nat) : (x.delivery revision).at_ = x.time := by
  cases x <;> rfl

theorem LogDelivery.line_of_count {d : LogDelivery} (h : d.gap.count ≠ 0) :
    d.line = .gap d.gap.count d.gap.first d.gap.last := by
  unfold LogDelivery.line
  rw [if_pos (by omega)]

theorem Gap.add_of_count {g : Gap} (h : g.count ≠ 0) (t : Time) :
    g.add t = ⟨g.count + 1, min t g.first, max t g.last⟩ := by
  unfold Gap.add
  simp only [h, false_or, Gap.mk.injEq, true_and]
  constructor
  · rw [min_def_lt]
  · rw [max_comm, max_def_lt]

theorem accounts_refuse {es es' : List (Entry Logged Nat Time)} {refused : List LogDelivery} {x : Logged}
    {xs : List (Logged ⊕ Nat)} (revision : Nat)
    (h : Accounts Logged.time (es ++ refused.map LogDelivery.line ++ [.item x] ++ es') xs) :
    Accounts Logged.time
      (es ++ (Journal.refuse refused (x.delivery revision)).map LogDelivery.line ++ es') xs := by
  unfold Journal.refuse
  split
  · -- a gap of its own
    have hopened := Accounts.exchange (fun _ => Accounts.open_gap) h
    rw [List.modifyLast_concat, List.map_append, Logged.at_delivery, ← List.append_assoc]
    exact hopened
  · rename_i hlast
    obtain rfl | ⟨rest, last, rfl⟩ := refused.eq_nil_or_concat'
    · simp at hlast
    · have hcount : last.gap.count ≠ 0 := by simpa using hlast
      rw [List.map_append, List.map_singleton, LogDelivery.line_of_count hcount, ← List.append_assoc,
        List.append_assoc (es ++ _)] at h
      have hwidened := Accounts.exchange (fun _ => Accounts.widen) h
      rw [List.modifyLast_concat, List.map_append, List.map_singleton, Logged.at_delivery,
        Gap.add_of_count hcount, ← List.append_assoc]
      exact hwidened

/-! ## The line from the owner to the writer -/

def LogFan.due : LogFan → List Logged
  | idle => []
  | offering next calls => (next :: calls).reduceOption
  | sending next calls => next :: calls.reduceOption

def Journal.entries (s : Journal) : List (Entry Logged Nat Time) :=
  (s.received ++ s.batch ++ s.transitions).map LogDelivery.line ++ s.refused.map LogDelivery.line ++
    s.fan.due.map .item

def Journal.Ordered (s : Journal) : Prop := ∀ x calls, s.fan = .sending x calls → s.refused = []

variable {s t : Journal} {a : LogAction} {xs : List (Logged ⊕ Nat)}

theorem entries_proceed (s : Journal) (calls : List (Option Logged)) :
    (s.proceed calls).entries =
      (s.received ++ s.batch ++ s.transitions).map LogDelivery.line ++ s.refused.map LogDelivery.line ++
        calls.reduceOption.map .item := by
  cases calls <;> rfl

theorem ordered_proceed (s : Journal) (calls : List (Option Logged)) : (s.proceed calls).Ordered := by
  intro x rest h
  cases calls <;> cases h

theorem entries_fanOut (s : Journal) (logged : List Logged) :
    (s.fanOut logged).entries =
      (s.received ++ s.batch ++ s.transitions).map LogDelivery.line ++ s.refused.map LogDelivery.line ++
        logged.map .item := by
  unfold Journal.fanOut
  rw [entries_proceed, List.reduceOption_append]
  simp [List.reduceOption, List.filterMap_map]

theorem entries_eq_written (s : Journal) : s.entries = s.written.map LogDelivery.line ++
    ((s.writing ++ s.batch ++ s.transitions ++ s.refused).map LogDelivery.line ++ s.fan.due.map .item) := by
  simp [Journal.entries, Journal.received]

/-! ## One step -/

theorem skip_accounts (next : Option Logged) (calls : List (Option Logged))
    (h : Accounts Logged.time ((s.received ++ s.batch ++ s.transitions).map LogDelivery.line ++
      s.refused.map LogDelivery.line ++ (next :: calls).reduceOption.map .item) xs) :
    Accounts Logged.time ((s.skip next).proceed calls).entries xs := by
  rw [entries_proceed]
  cases next with
  | none => exact h
  | some x =>
    rw [List.reduceOption_cons_of_some, List.map_cons, ← List.singleton_append, ← List.append_assoc] at h
    exact accounts_refuse s.owner.revision h

theorem offer_accounts (hs : s.offer = some t) (hord : s.Ordered) (h : Accounts Logged.time s.entries xs) :
    Accounts Logged.time t.entries xs ∧ t.Ordered := by
  unfold Journal.offer at hs
  unfold Journal.entries at h
  cases hfan : s.fan with
  | idle =>
    rw [hfan] at hs
    cases hs
  | offering next calls =>
    simp only [hfan] at hs h
    cases hrefused : s.refused with
    | cons d rest =>
      simp only [hrefused] at hs
      split at hs
      · cases hs
        refine ⟨?_, fun x calls hx => by cases hx⟩
        unfold Journal.entries
        rw [hrefused] at h
        simpa [Journal.received] using h
      · cases hs
        exact ⟨skip_accounts next calls h, ordered_proceed _ _⟩
    | nil =>
      cases next with
      | none =>
        simp only [hrefused, Option.some.injEq] at hs
        subst hs
        rw [entries_proceed]
        exact ⟨h, ordered_proceed _ _⟩
      | some x =>
        simp only [hrefused, Option.some.injEq] at hs
        subst hs
        rw [hrefused] at h
        exact ⟨h, fun _ _ _ => rfl⟩
  | sending x calls =>
    simp only [hfan] at hs h
    split at hs
    · cases hs
      rw [hord x calls hfan] at h
      rw [entries_proceed, hord x calls hfan]
      exact ⟨by simpa [Journal.received, LogFan.due] using h, ordered_proceed _ _⟩
    · cases hs
      exact ⟨skip_accounts (some x) calls h, ordered_proceed _ _⟩

structure Framed (s t : Journal) : Prop where
  handled : t.handled = s.handled
  flushes : t.flushes = s.flushes
  written : t.written = s.written
  closed : t.closed = s.closed

theorem framed_skip (s : Journal) (next : Option Logged) : Framed s (s.skip next) := by
  cases next <;> exact ⟨rfl, rfl, rfl, rfl⟩

theorem offer_frame (hs : s.offer = some t) : Framed s t := by
  unfold Journal.offer at hs
  split at hs
  · cases hs
  · split at hs
    · split at hs
      · cases hs
        exact ⟨rfl, rfl, rfl, rfl⟩
      · cases hs
        have hskip := framed_skip s
        exact ⟨(hskip _).handled, (hskip _).flushes, (hskip _).written, (hskip _).closed⟩
    · cases hs
      exact ⟨rfl, rfl, rfl, rfl⟩
    · cases hs
      exact ⟨rfl, rfl, rfl, rfl⟩
  · split at hs
    · cases hs
      exact ⟨rfl, rfl, rfl, rfl⟩
    · cases hs
      exact ⟨rfl, rfl, rfl, rfl⟩

structure FlushesNumbered (s : Journal) : Prop where
  handled : s.handled.filterMap Sum.getRight? = List.range s.flushes
  closed : s.closed = (s.written.map LogDelivery.line).filterMap Entry.marked

theorem Framed.numbered (hf : Framed s t) (h : FlushesNumbered s) : FlushesNumbered t := by
  constructor
  · rw [hf.handled, hf.flushes]
    exact h.handled
  · rw [hf.closed, hf.written]
    exact h.closed

structure Journal.Inv (s : Journal) : Prop where
  accounts : Accounts Logged.time s.entries s.handled
  ordered : s.Ordered
  numbered : FlushesNumbered s

theorem entries_idle (hfan : s.fan = .idle) : s.entries = (s.received ++ s.batch ++ s.transitions).map LogDelivery.line ++
    s.refused.map LogDelivery.line := by
  unfold Journal.entries
  rw [hfan]
  exact List.append_nil _

theorem Journal.Inv.step (h : s.Inv) (hs : s.step a = some t) : t.Inv := by
  have ha := h.accounts
  have hn := h.numbered
  cases a with
  | handle now m =>
    simp only [Journal.step, Option.ite_none_right_eq_some] at hs
    obtain ⟨hfan, hs⟩ := hs
    rw [entries_idle hfan] at ha
    split at hs
    · cases hs
      exact ⟨entries_idle hfan ▸ ha, h.ordered, hn⟩
    · cases hs
      refine ⟨?_, ordered_proceed _ _, ?_, hn.closed⟩
      · rw [entries_fanOut]
        exact ha.append (Accounts.items _)
      · simpa [Journal.fanOut, Journal.proceed, List.filterMap_append, List.filterMap_map, Function.comp_def]
          using hn.handled
  | flush =>
    simp only [Journal.step, Option.ite_none_right_eq_some] at hs
    obtain ⟨hfan, hs⟩ := hs
    cases hs
    refine ⟨?_, ordered_proceed _ _, ?_, hn.closed⟩
    · rw [entries_fanOut]
      rw [entries_idle hfan] at ha
      have hmark := ha.append (Accounts.cons (.mark s.flushes) .nil)
      simpa [Journal.fanOut, Journal.proceed, Journal.received, LogDelivery.line, LogDelivery.zero] using hmark
    · simp [Journal.fanOut, Journal.proceed, List.filterMap_append, hn.handled, List.range_succ]
  | sample e =>
    simp only [Journal.step, Option.ite_none_right_eq_some] at hs
    obtain ⟨hfan, hs⟩ := hs
    split at hs
    · exact Option.some.inj hs ▸ h
    · cases hs
      refine ⟨?_, ordered_proceed _ _, hn.handled, hn.closed⟩
      rw [entries_fanOut, List.map_nil, List.append_nil]
      exact entries_idle hfan ▸ ha
  | retry =>
    simp only [Journal.step, Option.ite_none_right_eq_some] at hs
    obtain ⟨⟨hfan, -⟩, hs⟩ := hs
    cases hs
    refine ⟨?_, ordered_proceed _ _, hn.handled, hn.closed⟩
    rw [entries_fanOut, List.map_nil, List.append_nil]
    exact entries_idle hfan ▸ ha
  | offer =>
    have hframe := offer_frame hs
    obtain ⟨haccounts, hordered⟩ := offer_accounts hs h.ordered ha
    exact ⟨hframe.handled ▸ haccounts, hordered, hframe.numbered hn⟩
  | take =>
    simp only [Journal.step] at hs
    split at hs
    · rename_i d rest hchan
      simp only [Option.ite_none_right_eq_some, Option.some.injEq] at hs
      obtain ⟨-, rfl⟩ := hs
      refine ⟨?_, h.ordered, hn.handled, hn.closed⟩
      simpa [Journal.entries, Journal.received, hchan] using ha
    · cases hs
  | hand =>
    simp only [Journal.step, Option.ite_none_right_eq_some, Option.some.injEq] at hs
    obtain ⟨⟨-, hwriting⟩, rfl⟩ := hs
    refine ⟨?_, h.ordered, hn.handled, hn.closed⟩
    simpa [Journal.entries, Journal.received, hwriting] using ha
  | write =>
    simp only [Journal.step] at hs
    split at hs
    · rename_i d rest hwriting
      cases hs
      refine ⟨?_, h.ordered, hn.handled, ?_⟩
      · simpa [Journal.entries, Journal.received, hwriting] using ha
      · rw [hn.closed, List.map_append, List.filterMap_append, List.map_singleton, List.filterMap_cons]
        cases d.line.marked <;> rfl
    · cases hs

/-! ## Runs -/

theorem inv_of_logging (h : Reach logging free s) : s.Inv := by
  refine Reach.invariant (I := Journal.Inv) ?_ ?_ h
  · rintro s ⟨o, rfl⟩
    exact ⟨.nil, by rintro x calls ⟨⟩, rfl, rfl⟩
  · exact fun s a t hi _ hs => hi.step hs

theorem log_accounts (h : Reach logging free s) : Accounted s := by
  obtain ⟨ha, -, hn⟩ := inv_of_logging h
  constructor
  · have hentries : s.entries = s.received.map LogDelivery.line ++
        ((s.batch ++ s.transitions ++ s.refused).map LogDelivery.line ++ s.fan.due.map .item) := by
      simp [Journal.entries]
    exact (hentries ▸ ha).first
  · intro before k after hhandled hk
    -- the flush was written, and what was written before it stands before it in the line
    rw [hn.closed] at hk
    obtain ⟨e, he, hmark⟩ := List.mem_filterMap.mp hk
    cases e with
    | item x => cases hmark
    | gap n first last => cases hmark
    | mark j =>
      cases hmark
      obtain ⟨es, es', hwritten⟩ := List.append_of_mem he
      rw [entries_eq_written, hwritten, List.append_assoc, List.cons_append] at ha
      refine ⟨es, ⟨es', by rw [hwritten]; simp⟩, ?_⟩
      apply ha.before_mark hhandled
      rw [hn.handled]
      exact List.nodup_range

def mooring : Event := ⟨.transition, 0, 0, "snapshots", "mooring", "tank", "", "queued", "", 7, 0, 0, .zero⟩

theorem mooring_logged : ∃ s, Reach logging free s ∧ s.closed = [0] ∧ Accounted s := by
  have hrun : ∃ s, run logging
      [.handle 9 ⟨some mooring, [], none, none, none, none⟩, .offer, .offer, .offer, .flush, .offer, .take, .offer,
        .take, .hand, .write, .write] (.register .new) = some s ∧ s.closed = [0] := ⟨_, rfl, rfl⟩
  obtain ⟨s, hs, hclosed⟩ := hrun
  have hreach : Reach logging free s := .run (.init ⟨_, rfl⟩) (fun _ _ => trivial) hs
  exact ⟨s, hreach, hclosed, log_accounts hreach⟩

end Boomerangz.Daemon.Status
