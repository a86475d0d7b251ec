import Boomerangz.Zfs.Command

/-! # Policy

Retention grids and the effective policy of one dataset, as `Resolve` leaves them.
-/

namespace Boomerangz.Policy

open Zfs

/-! ## Grids -/

/-- Nanoseconds. -/
abbrev Duration := Nat

/-- `math.MaxInt64`, the longest `time.Duration`. -/
def maxDuration : Duration := 9223372036854775807

/-- `time.Minute`, the shortest unit of a grid. -/
def minute : Duration := 60000000000

structure Bucket where
  count : Nat
  span : Duration
deriving DecidableEq, Repr

/-- A grid that `ParseGrid` accepted, or the uninitialized one. -/
structure Grid where
  buckets : List Bucket
  positive : ∀ b ∈ buckets, 0 < b.count ∧ 0 < b.span
  increasing : (buckets.map Bucket.span).Pairwise (· < ·)
  fits : buckets.foldl (fun total b => total + b.count * b.span) 0 ≤ maxDuration
  minutes : ∀ b ∈ buckets, minute ∣ b.span
deriving DecidableEq

/-- A grid of one bucket, with its windows given in minutes. -/
def Grid.windows (count minutes : Nat)
    (h : 0 < count ∧ 0 < minutes ∧ count * (minutes * minute) ≤ maxDuration := by decide) : Grid where
  buckets := [⟨count, minutes * minute⟩]
  positive := by simpa [minute] using ⟨h.1, h.2.1⟩
  increasing := by simp
  fits := by
    rw [List.foldl_cons, List.foldl_nil, Nat.zero_add]
    exact h.2.2
  minutes := by
    intro b hb
    rw [List.mem_singleton.mp hb]
    exact Nat.dvd_mul_left _ _

/-- The smallest window, or zero for an uninitialized grid. -/
def Grid.cadence (g : Grid) : Duration :=
  match g.buckets with
  | [] => 0
  | b :: _ => b.span

/-! ## Effective policy -/

/-- The `incremental` setting; `other` is a text that `Resolve` reports. -/
inductive Incremental where
  | all
  | latest
  | other (text : String)
deriving DecidableEq, Repr

/-- The `discard` setting; `other` is a text that `Resolve` reports. -/
inductive Discard where
  | off
  | first
  | all
  | other (text : String)
deriving DecidableEq, Repr

structure Flags where
  largeBlocks : Bool
  compressed : Bool
  embeddedData : Bool
  raw : Bool
  props : Bool
  replicate : Bool
deriving DecidableEq, Repr

/-- A resolved public value and the dataset that set it; `[]` is an application default. -/
structure Setting where
  name : String
  value : String
  dataset : Dataset
deriving DecidableEq, Repr

structure Effective where
  enabled : Bool
  grid : Grid
  remote : List String
  locals : List Dataset
  incremental : Incremental
  requested : Flags
  send : Flags
  setProperties : List (String × String)
  ignoreProperties : List String
  discard : Discard
  values : List Setting
  warnings : List String
  errors : List String
deriving DecidableEq

namespace Effective

def plain (grid : Grid) (locals : List Dataset) (values : List Setting) : Effective where
  enabled := true
  grid := grid
  remote := []
  locals := locals
  incremental := .all
  requested := ⟨false, false, false, false, false, false⟩
  send := ⟨false, false, false, false, false, false⟩
  setProperties := []
  ignoreProperties := []
  discard := .off
  values := values
  warnings := []
  errors := []

def valid (p : Effective) : Bool := p.errors.isEmpty

def origin (p : Effective) (name : String) : Dataset :=
  ((p.values.find? (·.name == name)).map Setting.dataset).getD []

def validateRawReceive (p : Effective) : Effective :=
  let check := fun (errors : List String) (key : String) =>
    let errors := if p.setProperties.any (·.1 == key)
      then errors ++ ["raw encrypted stream cannot override " ++ key] else errors
    if p.ignoreProperties.contains key
      then errors ++ ["raw encrypted stream cannot exclude " ++ key] else errors
  { p with errors := ["encryption", "keyformat", "pbkdf2iters"].foldl check p.errors }

/-- `slices.Sort` and `slices.Compact` of the messages. -/
def sortMessages (p : Effective) : Effective :=
  { p with
    errors := Lists.compact (p.errors.insertionSort (fun a b => textLe a.toList b.toList))
    warnings := Lists.compact (p.warnings.insertionSort (fun a b => textLe a.toList b.toList)) }

/-- `ForReplicationScope`; `encryptedDescendant` is `[]` when there is none. -/
def forReplicationScope (p : Effective) (rootEncrypted : Bool) (encryptedDescendant : Dataset) : Effective :=
  let text := String.ofList (path encryptedDescendant)
  if !p.send.replicate || encryptedDescendant == [] then p
  else if p.send.raw then p.validateRawReceive.sortMessages
  else if p.origin "raw" != [] then
    { p with errors := p.errors ++ ["encrypted replication descendant " ++ text ++
        " requires raw=on; explicit raw setting forbids automatic selection"] }
  else
    let warnings := p.warnings ++
      ["raw enabled automatically for encrypted replication descendant " ++ text]
    if rootEncrypted then
      { p with send := { p.send with raw := true }, warnings := warnings }.validateRawReceive.sortMessages
    else
      { p with
        send := { p.send with raw := true, largeBlocks := true, compressed := true, embeddedData := true }
        warnings := if !p.requested.largeBlocks || !p.requested.compressed
          then warnings ++ ["raw sends of unencrypted data imply large_blocks and compressed"]
          else warnings }.validateRawReceive.sortMessages

/-- The scope decides on raw sends; what else a policy says of its dataset stays. -/
@[simp] theorem forReplicationScope_keeps (p : Effective) (e : Bool) (d : Dataset) :
    (p.forReplicationScope e d).send.replicate = p.send.replicate ∧
    (p.forReplicationScope e d).enabled = p.enabled ∧
    (p.forReplicationScope e d).setProperties = p.setProperties ∧
    (p.forReplicationScope e d).ignoreProperties = p.ignoreProperties ∧
    (p.forReplicationScope e d).values = p.values := by
  unfold forReplicationScope
  split_ifs <;> exact ⟨rfl, rfl, rfl, rfl, rfl⟩

end Effective

end Boomerangz.Policy
