import Boomerangz.Lifecycle.Ownership

/-! # Inactive roots

When an owned source root first became inactive, and when it may retire.
-/

namespace Boomerangz.Lifecycle

open Check Zfs

inductive InactiveAction where
  | setMarker
  | clearMarker
deriving DecidableEq, Repr

structure InactivePlan where
  dataset : Dataset
  active : Bool
  marker : Option InactiveMarker
  action : Option InactiveAction
  deadline : Option Time
  due : Bool
  automatic : Bool
deriving DecidableEq, Repr

def inactiveMarkerVersion : Nat := 1

def exactDatasetGUID (s : State) (d : Dataset) : Except Error Nat :=
  match s.object (.dataset d) with
  | some o => .ok o.guid
  | none => .error (.plain "inactive source dataset is missing")

/-- Only a local marker is read. -/
def decodeInactiveMarker (s : State) (d : Dataset) : Except Error (Option InactiveMarker) :=
  match s.localRows d .inactive with
  | [] => .ok none
  | [⟨_, _, .inactive m, _⟩] => .ok (some m)
  | ⟨_, _, .inactive _, _⟩ :: _ => .error (.plain "inactive marker must be unambiguous")
  | _ => .error (.plain "invalid inactive marker")

def validateInactiveMarker (m : InactiveMarker) (guid : Nat) (lineage installation : ID) :
    Except Error Time := do
  require (m.version == inactiveMarkerVersion && m.datasetGUID == guid && m.lineage == lineage &&
      m.owner == installation && m.canonical)
    (.plain "inactive marker does not match current source authority")
  return m.since

/-- `offset` is the zone of the observation, in seconds east of UTC. -/
def inactivePlan (s : State) (d : Dataset) (installation : ID) (active : Bool) (observedAt : Time)
    (grace : Int) (offset : Int := 0) : Except Error InactivePlan := do
  require (validDataset d) (.invalidName d)
  require (observedAt != 0 && yearFits (observedAt + 1000000000 * offset) && 0 ≤ grace)
    (.plain "valid inactive observation time and nonnegative grace period required")
  let plan : InactivePlan := ⟨d, active, none, none, none, false, 0 < grace⟩
  match ← decodeInactiveMarker s d with
  | none =>
    if active then return plan
    else
      let lineage ← rootAuthority s d installation
      let guid ← exactDatasetGUID s d
      return { plan with
        -- the text is in UTC, and reads back when its year has four digits
        marker := some ⟨inactiveMarkerVersion, observedAt, observedAt < endOfTime, guid, lineage, installation⟩
        action := some .setMarker
        deadline := if 0 < grace then some (observedAt + grace.toNat) else none }
  | some marker =>
    let lineage ← rootAuthority s d installation
    let guid ← exactDatasetGUID s d
    let since ← validateInactiveMarker marker guid lineage installation
    if active then return { plan with marker := some marker, action := some .clearMarker }
    else if 0 < grace then
      return { plan with
        marker := some marker
        deadline := some (since + grace.toNat)
        due := since + grace.toNat ≤ observedAt }
    else return { plan with marker := some marker }

def enabledKey : Key := .policy "enabled"

/-- `GetActivationProperties`. -/
def activationProperties (pool : State) : List Property :=
  pool.properties.filter (fun p => p.name == enabledKey && p.dataset matches .dataset _)

/-- The loop of `locallyActive`: the nearest dataset so far and its value. -/
def nearestActivation (d : Dataset) : List Dataset → Dataset × Bool → List Property → Except Error Bool
  | _, (_, value), [] => .ok value
  | seen, (nearest, value), p :: ps =>
    if p.name != enabledKey || p.source != .sourceLocal || !inside d p.dataset.base then
      nearestActivation d seen (nearest, value) ps
    else do
      require (!seen.contains p.dataset.base && (p.value == .text "on" || p.value == .text "off"))
        (.plain "inactive source activation is ambiguous or invalid")
      let closer := nearest.length < p.dataset.base.length
      nearestActivation d (p.dataset.base :: seen)
        (if closer then (p.dataset.base, p.value == .text "on") else (nearest, value)) ps

def locallyActive (properties : List Property) (d : Dataset) : Except Error Bool :=
  nearestActivation d [] ([], false) properties

end Boomerangz.Lifecycle
