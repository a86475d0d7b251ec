import Boomerangz.Zfs.Removal

/-! # What inspections list

An inspection reads the properties of what it lists, and one value for each.
-/

namespace Boomerangz.Zfs

def OneValue (s : State) : Prop := (s.properties.map fun p => (p.dataset, p.name)).Nodup

/-- Every row is of a dataset or a snapshot that is there. -/
structure Listed (s : State) : Prop where
  oneValue : OneValue s
  rows : ∀ p ∈ s.properties, s.hasObject p.dataset = true ∧ p.dataset.isBookmark = false
  received : ∀ r ∈ s.received, s.hasObject r.1 = true ∧ r.1.isBookmark = false

namespace OneValue

variable {s : State} {p q : Property}

theorem eq (hone : OneValue s) (hp : p ∈ s.properties) (hq : q ∈ s.properties) (hd : p.dataset = q.dataset)
    (hk : p.name = q.name) : p = q :=
  List.inj_on_of_nodup_map hone hp hq (Prod.ext hd hk)

theorem restrict {f : Dataset → Bool} (h : OneValue s) : OneValue (s.restrict f) :=
  (List.Sublist.map _ List.filter_sublist).nodup h

theorem filter_eq {f : Property → Bool} (hone : OneValue s) (hp : p ∈ s.properties) (hf : f p = true)
    (hkey : ∀ r, f r = true → r.dataset = p.dataset ∧ r.name = p.name) : s.properties.filter f = [p] := by
  have hcond : s.properties.filter f =
      s.properties.filter (fun r => decide ((r.dataset, r.name) = (p.dataset, p.name))) := by
    refine List.filter_congr fun r hr => ?_
    rw [Bool.eq_iff_iff, decide_eq_true_eq, Prod.mk.injEq]
    refine ⟨hkey r, fun h => ?_⟩
    rwa [hone.eq hr hp h.1 h.2]
  rw [hcond]
  refine Lists.filter_of_find? (k := (p.dataset, p.name)) hone (Lists.find?_unique hp (by simp) fun r hr h => ?_)
  obtain ⟨hd, hk⟩ := Prod.mk.inj (of_decide_eq_true h)
  exact hone.eq hr hp hd hk

end OneValue

theorem Listed.restrict {s : State} {f : Dataset → Bool} (h : Listed s) : Listed (s.restrict f) where
  oneValue := h.oneValue.restrict
  rows p hp := by
    obtain ⟨hmem, hf⟩ := State.mem_restrict_properties.mp hp
    rw [State.restrict_hasObject, hf, Bool.and_true]
    exact h.rows p hmem
  received r hr := by
    obtain ⟨hmem, hf⟩ := List.mem_filter.mp hr
    rw [State.restrict_hasObject, hf, Bool.and_true]
    exact h.received r hmem

theorem Listed.cleared {s : State} {cs : List Command} (h : Listed s) : Listed (s.cleared cs) where
  oneValue := (List.Sublist.map _ List.filter_sublist).nodup h.oneValue
  rows p hp := by
    obtain ⟨hmem, hkept⟩ := List.mem_filter.mp hp
    rw [Bool.not_eq_true', ← Bool.not_eq_true, Command.any_drops_iff, not_or, Bool.not_eq_true] at hkept
    rw [State.hasObject_cleared, hkept.2, Bool.not_false, Bool.and_true]
    exact h.rows p hmem
  received r hr := by
    obtain ⟨hmem, hkept⟩ := List.mem_filter.mp hr
    rw [State.hasObject_cleared, hkept, Bool.and_true]
    exact h.received r hmem

theorem Listed.run {s s' : State} {c : Command} (h : Listed s) (hc : c.removes = true) (hrun : c.run s = .ok s') :
    Listed s' := ((run_removal hc).mp hrun).2 ▸ h.cleared

end Boomerangz.Zfs
