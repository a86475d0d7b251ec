import Boomerangz.Zfs.State

/-! # Texts of names

What the source sorts by. The texts of digests, UUIDs and times are given.
-/

namespace Boomerangz.Zfs

/-- How digests, UUIDs and the parts of snapshot names are written. -/
class Digests where
  target : TargetID → List Char
  stream : StreamID → List Char
  uuid : ID → List Char
  short : Nat → List Char
  time : Time → List Char

@[reducible] def symbolicDigests : Digests where
  target t := t.target.toList
  stream s := path s.dataset
  uuid u := Nat.toDigits 10 u.short ++ '-' :: Nat.toDigits 10 u.rest
  short := Nat.toDigits 10
  time := Nat.toDigits 10

variable [Digests]

/-- `policy.Namespace`. -/
def namespaceText : List Char := "org.boomerangz:".toList

def stateNamespace : List Char := namespaceText ++ "state:".toList

/-- `SnapshotPrefix`. -/
def snapshotStart : List Char := "boomerangz-".toList

def Key.text : Key → List Char
  | .lineage => stateNamespace ++ "lineage".toList
  | .snapshot => stateNamespace ++ "snapshot".toList
  | .owner => stateNamespace ++ "owner".toList
  | .version => stateNamespace ++ "version".toList
  | .inactive => stateNamespace ++ "inactive".toList
  | .reference t stream u => stateNamespace ++ "reference:".toList ++ Digests.target t ++
      ':' :: Digests.stream stream ++ ':' :: Digests.uuid u
  | .badReference text => stateNamespace ++ "reference:".toList ++ text.toList
  | .target t => stateNamespace ++ "target:".toList ++ Digests.target t
  | .suspended t => stateNamespace ++ "target:".toList ++ Digests.target t ++ ":suspended".toList
  | .badTarget text => stateNamespace ++ "target:".toList ++ text.toList
  | .state text => stateNamespace ++ text.toList
  | .placeholder => stateNamespace ++ "placeholder".toList
  | .policy text => namespaceText ++ text.toList
  | .native text => text.toList

def Tag.text : Tag → List Char
  | .target t => snapshotStart ++ Digests.target t
  | .stray text => snapshotStart ++ text.toList
  | .other text => text.toList

def Component.text : Component → List Char
  | .owned created short => snapshotStart ++ Digests.time created ++ '-' :: Digests.short short
  | .stray text => snapshotStart ++ text.toList
  | .other text => text.toList

def Mark.text : Mark → List Char
  | .target t u => snapshotStart ++ Digests.target t ++ '-' :: Digests.uuid u
  | .stray text => snapshotStart ++ text.toList
  | .other text => text.toList

def Name.text : Name → List Char
  | .dataset d => path d
  | .snapshot d c => path d ++ '@' :: c.text
  | .bookmark d m => path d ++ '#' :: m.text

/-! ## Rows as they are read -/

namespace Text

def lineageProperty : List Char := "org.boomerangz:state:lineage".toList

def snapshotProperty : List Char := "org.boomerangz:state:snapshot".toList

structure Row where
  dataset : List Char
  name : List Char
  value : List Char
  source : List Char
deriving DecidableEq, Repr

structure ObjectRow where
  name : List Char
  type : List Char
  guid : Nat
  creation : Int
  createTXG : Nat
deriving DecidableEq, Repr

end Text

end Boomerangz.Zfs
