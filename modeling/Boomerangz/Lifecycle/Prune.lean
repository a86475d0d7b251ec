import Boomerangz.Lifecycle.Ownership
import Mathlib.Data.Prod.Lex
import Mathlib.Data.String.Basic

/-! # Retention

The grid keeps the oldest snapshot in each window, measured back from the newest owned one.
-/

namespace Boomerangz.Lifecycle

open Check Zfs Policy

inductive Reason where
  | foreign
  | older
  | oldest
  | duplicate
  | newest
  | holds
  | clones
  | resume
deriving DecidableEq, Repr

def Reason.text : Reason → String
  | foreign => "foreign or unproven ownership"
  | older => "older than retention grid"
  | oldest => "oldest snapshot in retention window"
  | duplicate => "newer duplicate in retention window"
  | newest => "newest owned snapshot"
  | holds => "snapshot has holds"
  | clones => "snapshot has clones"
  | resume => "snapshot is required by resumable receive"

structure Decision where
  snapshot : Name
  guid : Nat
  destroy : Bool
  reason : Reason
deriving DecidableEq, Repr

structure Candidate where
  snapshot : Snapshot
  created : Time
  owned : Bool
deriving DecidableEq, Repr

def candidate (lineage : ID) (s : Snapshot) : Candidate :=
  match ownership s lineage with
  | .ok m => ⟨s, m.created, true⟩
  | .error _ => ⟨s, 0, false⟩

/-! ## The order -/

/-- Sorts names as their text does: times and digits have a fixed width there. -/
def nameKey : Name → ℕ ×ₗ ℕ ×ₗ ℕ ×ₗ String
  | .snapshot _ (.owned created short) => toLex (0, toLex (created, toLex (short, "")))
  | .snapshot _ (.stray text) => toLex (1, toLex (0, toLex (0, text)))
  | .snapshot _ (.other text) => toLex (2, toLex (0, toLex (0, text)))
  | _ => toLex (3, toLex (0, toLex (0, "")))

def Candidate.key (x : Candidate) : ℕ ×ₗ ℕ ×ₗ ℕ ×ₗ ℕ ×ₗ String :=
  toLex (x.created, nameKey x.snapshot.name)

/-! ## Windows -/

/-- The window of an age: the bucket's position and the window's in it. -/
def windowOf : List Bucket → Nat → Duration → Duration → Option (Nat × Nat)
  | [], _, _, _ => none
  | b :: bs, group, offset, age =>
    let last := offset + b.count * b.span
    if offset ≤ age && age < last then some (group, (age - offset) / b.span)
    else windowOf bs (group + 1) last age

/-- `anchor.Sub(created)`, which saturates. -/
def ageAt (anchor created : Time) : Duration := min (anchor - created) maxDuration

def windowAt (anchor : Time) (buckets : List Bucket) (x : Candidate) : Option (Nat × Nat) :=
  if x.owned then windowOf buckets 0 0 (ageAt anchor x.created) else none

/-! ## Decisions -/

def verdict (anchor : Time) (buckets : List Bucket) (winners : List (Nat × Nat)) (x : Candidate)
    (rest : List Candidate) : Decision :=
  let grid : Bool × Reason := match windowAt anchor buckets x with
    | none => (true, .older)
    | some w => if winners.contains w then (true, .duplicate) else (false, .oldest)
  let (destroy, reason) :=
    if !x.owned then (false, .foreign)
    else if x.snapshot.resumeRequired then (false, .resume)
    else if !x.snapshot.clones.isEmpty then (false, .clones)
    else if !x.snapshot.holds.isEmpty then (false, .holds)
    else if rest.all (!·.owned) then (false, .newest)
    else grid
  ⟨x.snapshot.name, x.snapshot.guid, destroy, reason⟩

def decisions (anchor : Time) (buckets : List Bucket) :
    List (Nat × Nat) → List Candidate → List Decision
  | _, [] => []
  | winners, x :: rest => verdict anchor buckets winners x rest ::
      decisions anchor buckets ((windowAt anchor buckets x).toList ++ winners) rest

def anchorOf (items : List Candidate) : Time :=
  items.foldl (fun anchor x => if x.owned && anchor < x.created then x.created else anchor) 0

def planPrune (d : Dataset) (lineage : ID) (grid : Grid) (snapshots : List Snapshot) :
    Except Error (List Decision) := do
  require (validDataset d) (.invalidName d)
  require (0 < grid.cadence) (.plain "valid lineage and grid are required")
  require (snapshots.all (fun s => s.name.isSnapshot && s.name.base == d) &&
      decide (snapshots.map Snapshot.name).Nodup)
    (.plain "duplicate or out-of-scope snapshot %q")
  let items := snapshots.map (candidate lineage)
  return (decisions (anchorOf items) grid.buckets [] (items.insertionSort (fun a b => a.key ≤ b.key))).insertionSort
    (fun a b => nameKey a.snapshot ≤ nameKey b.snapshot)

end Boomerangz.Lifecycle
