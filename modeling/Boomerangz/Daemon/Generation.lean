import Boomerangz.Daemon.Scheduler

/-! # Applying a generation

What `applyGeneration` reads off a discovery generation.
-/

open Boomerangz.Zfs Boomerangz.Discovery

namespace Boomerangz.Daemon

def storedValues (e : Entry) (k : Key) : List Value :=
  (e.stored.filter fun r => r.dataset == .dataset e.dataset && r.source == .sourceLocal && r.name == k).map
    Property.value

def ownedRoot (installation : ID) (e : Entry) : Bool :=
  match storedValues e .owner, storedValues e .lineage with
  | [.id owner], [.id _] => owner == installation
  | _, _ => false

def actionableRoot (installation : ID) (e : Entry) : Bool :=
  match storedValues e .owner with
  | [] => true
  | [.id owner] => owner == installation
  | _ => false

/-- The records of recovery references do not count. -/
def discoveryChangeRequiresReconcile (current previous : Option Entry) : Bool :=
  let strip := fun e : Entry => { e with stored := e.stored.filter (!·.name.isReference) }
  match current, previous with
  | some c, some p => strip c != strip p
  | _, _ => true

end Boomerangz.Daemon

namespace Boomerangz.Discovery.Generation

open Boomerangz.Daemon

variable (g : Generation) (installation : ID)

def schedulable : List Entry := g.entries.filter (actionableRoot installation)

def activeRoots : List Dataset :=
  let entries := g.schedulable installation
  ((entries.filter isSchedulable).filter fun e =>
    ((Updating.start entries 0).item e none).members != []).map Entry.dataset

def openedRoots : List Dataset := ((g.schedulable installation).filter isSchedulable).map Entry.dataset

def ownedRoots : List Dataset := (g.entries.filter (ownedRoot installation)).map Entry.dataset

/-- `changed[name]`. -/
def requiresReconcile (previous : Option Generation) (name : Dataset) : Bool :=
  (g.changed previous).contains name &&
    discoveryChangeRequiresReconcile (g.inspect name) (previous.bind (·.inspect name))

end Boomerangz.Discovery.Generation

namespace Boomerangz.Daemon

structure Published where
  generation : Option Generation
  known : List Dataset
  active : List Dataset
  enabled : List Dataset
deriving DecidableEq

namespace Published

def none : Published := ⟨.none, [], [], []⟩

variable (p : Published) (installation : ID) (g : Generation)

def reconciles (name : Dataset) : Bool :=
  !(g.activeRoots installation).contains name &&
    (p.active.contains name || !p.known.contains name || g.requiresReconcile p.generation name)

def deactivated (name : Dataset) : Bool :=
  (p.active.contains name && !(g.activeRoots installation).contains name) ||
    ((g.ownedRoots installation).contains name && p.reconciles installation g name)

def publish : Published where
  generation := some g
  known := g.activeRoots installation ++ g.ownedRoots installation
  active := g.activeRoots installation
  enabled := (p.enabled ++ g.openedRoots installation).filter (!p.deactivated installation g ·)

end Published

end Boomerangz.Daemon
