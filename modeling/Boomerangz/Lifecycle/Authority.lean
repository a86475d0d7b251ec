import Boomerangz.Lifecycle.Ownership
import Boomerangz.Zfs.Effect

/-! # What authority depends on

A root's authority is read from its own markers, and a snapshot's ownership from its own two rows.
-/

namespace Boomerangz.Lifecycle

open Zfs

def isAuthority (root : Dataset) (r : Property) : Bool :=
  r.dataset == .dataset root && (r.name == .owner || r.name == .lineage || r.name == .version)

theorem filter_congr {s s' : State} {p q : Property → Bool}
    (h : s'.properties.filter p = s.properties.filter p) (hq : ∀ r, q r = true → p r = true) :
    s'.properties.filter q = s.properties.filter q := by
  rw [← State.filter_restrict hq, h, State.filter_restrict hq]

theorem hiddenLineage_congr {s s' : State} {root : Dataset}
    (h : s'.received.filter (·.1 == .dataset root) = s.received.filter (·.1 == .dataset root)) :
    s'.received.filter (fun r => r.1 == .dataset root && r.2.1 == .lineage) =
      s.received.filter (fun r => r.1 == .dataset root && r.2.1 == .lineage) := by
  have hsub : ∀ r : Name × Key × Value, (r.1 == .dataset root && r.2.1 == .lineage) = true →
      (r.1 == .dataset root) = true := by
    intro r hr
    exact ((Bool.and_eq_true _ _).mp hr).1
  rw [← State.filter_restrict hsub, h, State.filter_restrict hsub]

theorem rootAuthority_congr {s s' : State} {root : Dataset} (installation : ID)
    (h : s'.properties.filter (isAuthority root) = s.properties.filter (isAuthority root))
    (hreceived : s'.received.filter (·.1 == .dataset root) = s.received.filter (·.1 == .dataset root)) :
    rootAuthority s' root installation = rootAuthority s root installation := by
  have hmarkers : s'.properties.filter (fun r => r.dataset == .dataset root &&
      (r.name == .owner || r.name == .lineage)) = _ :=
    filter_congr h (by
      intro r hr
      simp only [isAuthority, Bool.and_eq_true, Bool.or_eq_true] at hr ⊢
      exact ⟨hr.1, .inl hr.2⟩)
  have hversion : s'.localRows root .version = s.localRows root .version :=
    filter_congr h (by
      intro r hr
      simp only [isAuthority, Bool.and_eq_true, Bool.or_eq_true] at hr ⊢
      exact ⟨hr.1.1, .inr hr.1.2⟩)
  simp only [rootAuthority, currentState, stateVersion, hmarkers, hversion, hiddenLineage_congr hreceived]

def isOwnership (n : Name) (r : Property) : Bool :=
  r.dataset == n && (r.name == .lineage || r.name == .snapshot)

theorem owns_congr {s s' : State} {o : Object} (lineage : ID)
    (h : s'.properties.filter (isOwnership o.name) = s.properties.filter (isOwnership o.name)) :
    owns s' o lineage = owns s o lineage := by
  have hrows : ∀ l : List Property, (l.filter (·.dataset == o.name)).filter
      (fun r => r.name == .lineage || r.name == .snapshot) = l.filter (isOwnership o.name) := by
    intro l
    rw [List.filter_filter]
    refine List.filter_congr fun r _ => ?_
    rw [isOwnership, Bool.and_comm]
  simp only [owns, ownership, hrows, h]

end Boomerangz.Lifecycle
