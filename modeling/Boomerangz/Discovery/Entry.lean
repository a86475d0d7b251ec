import Boomerangz.Lifecycle.Ownership

/-! # Discovery generations -/

namespace Boomerangz.Discovery

open Zfs Policy

/-- Where a stream goes: a local destination root or a configured remote. -/
inductive Target where
  | localRoot (root : Dataset)
  | remote (name : String)
deriving DecidableEq, Repr

/-- One dataset of a discovery generation. `coveredBy` is `[]` for one that no root covers. -/
structure Entry where
  dataset : Dataset
  inspected : Bool
  coveredBy : Dataset
  member : Bool
  members : List Dataset
  policy : Effective
  stored : List Property
  blocked : List Target
  rest : String
deriving DecidableEq

structure Generation where
  entries : List Entry
  distinct : (entries.map Entry.dataset).Nodup
deriving DecidableEq

namespace Generation

def inspect (g : Generation) (name : Dataset) : Option Entry := g.entries.find? (·.dataset == name)

/-- The datasets whose inspection changed, including removed datasets. -/
def changed (g : Generation) (previous : Option Generation) : List Dataset :=
  ((g.entries.filter fun e => previous.bind (·.inspect e.dataset) != some e).map Entry.dataset) ++
    match previous with
    | none => []
    | some p => (p.entries.filter fun e => (g.inspect e.dataset).isNone).map Entry.dataset

end Generation

end Boomerangz.Discovery
