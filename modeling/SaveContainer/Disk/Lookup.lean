import SaveContainer.Fault

/-!
A disk as a tree of nodes, and how a path is looked up in it: name by name from the root or
the working directory, through links, which are followed a limited number of times.
-/

namespace SaveContainer

inductive Node where
  | file (data : ByteArray)
  | link (target : Path)
  /-- Neither file nor directory; reading it gives nothing. -/
  | device
  | directory (entries : List (FileName × Node))

namespace Node

def isDirectory : Node → Bool
  | directory _ => true
  | _ => false

def entries : Node → List (FileName × Node)
  | directory es => es
  | _ => []

end Node

structure Disk where
  root : Node
  /-- The names from the root to the working directory. -/
  workPlace : List FileName

/-- Where a lookup has arrived: the root, and below it the nodes passed on the way, the last
one first. -/
structure Spot where
  top : Node
  trail : List (FileName × Node)

namespace Spot

def node (s : Spot) : Node :=
  match s.trail with
  | [] => s.top
  | (_, n) :: _ => n

/-- The root is above itself. -/
def up (s : Spot) : Spot :=
  { s with trail := s.trail.tail }

def toTop (s : Spot) : Spot :=
  { s with trail := [] }

def enter (s : Spot) (name : FileName) (n : Node) : Spot :=
  { s with trail := (name, n) :: s.trail }

/-- The names from the root to this spot. -/
def place (s : Spot) : List FileName :=
  (s.trail.map Prod.fst).reverse

/-- The name of the directory in the root where the devices are. -/
def devices : FileName :=
  Utf8.encode "dev".toList

/-- What goes wrong when the directory at this spot is read from its end, as a file would be.
Directories of devices have no end. -/
def readFault (s : Spot) : IoFault :=
  if s.place.head? = some devices then .noSuchPlace else .isADirectory

end Spot

/-- How a lookup treats the last name of a path. -/
structure LookupMode where
  /-- A link is followed there, too. -/
  follow : Bool
  /-- Nothing needs to be there yet; the spot then holds an empty file. -/
  create : Bool

namespace LookupMode

/-- The node that a path leads to. -/
def through : LookupMode := ⟨true, false⟩

/-- The node of the name itself, be it a link. -/
def itself : LookupMode := ⟨false, false⟩

end LookupMode

namespace Disk

/-- The longest name of an entry. -/
def nameLimit : Nat := 255

/-- Paths are shorter than this. -/
def pathLimit : Nat := 4096

/-- How many links one lookup follows. -/
def linkLimit : Nat := 40

/-- Passes the names one by one. A link on the way is left to `onLink`, together with the names
that its target puts in front of the remaining ones. -/
def passNames (mode : LookupMode) (onLink : List FileName → Spot → Except IoFault Spot) :
    List FileName → Spot → Except IoFault Spot
  | [], s => .ok s
  | name :: rest, s =>
    match s.node with
    | .directory entries =>
      if name = Path.dot then passNames mode onLink rest s
      else if name = Path.dotDot then passNames mode onLink rest s.up
      else if nameLimit < name.length then .error .nameTooLong
      else match entries.lookup name with
        | none =>
          if mode.create && rest.isEmpty then .ok (s.enter name (.file .empty))
          else .error .notFound
        | some (.link target) =>
          if mode.follow || !rest.isEmpty then
            onLink (target.steps ++ rest) (if target.isAbsolute then s.toTop else s)
          else .ok (s.enter name (.link target))
        | some n => passNames mode onLink rest (s.enter name n)
    | _ => .error .notADirectory

/-- Passes the names, following `links` links at most. -/
def passLinks (mode : LookupMode) : (links : Nat) → List FileName → Spot → Except IoFault Spot
  | 0 => passNames mode fun _ _ => .error .tooManyLinks
  | links + 1 => passNames mode (passLinks mode links)

/-- Where the names from `place` lead by themselves. -/
def descend : List FileName → Spot → Except IoFault Spot
  | [], s => .ok s
  | name :: rest, s =>
    match s.node.entries.lookup name with
    | some n => descend rest (s.enter name n)
    | none => .error .notFound

/-- Where the lookup of a path starts. -/
def start (d : Disk) (absolute : Bool) : Except IoFault Spot :=
  if absolute then .ok ⟨d.root, []⟩ else descend d.workPlace ⟨d.root, []⟩

def findNames (d : Disk) (mode : LookupMode) (absolute : Bool) (names : List FileName) :
    Except IoFault Spot := do
  passLinks mode linkLimit names (← d.start absolute)

def find (d : Disk) (mode : LookupMode) (p : Path) : Except IoFault Spot :=
  if (0 : UInt8) ∈ p.bytes then .error .zeroInName
  else if p.bytes = [] then .error .notFound
  else if pathLimit ≤ p.bytes.length then .error .nameTooLong
  else d.findNames mode p.isAbsolute p.steps

/-- The node that a path leads to. -/
def node (d : Disk) (p : Path) : Except IoFault Node :=
  (d.find .through p).map Spot.node

/-- The node of the name itself, be it a link. -/
def ownNode (d : Disk) (p : Path) : Except IoFault Node :=
  (d.find .itself p).map Spot.node

def holds (test : Node → Bool) : Except IoFault Node → Bool
  | .ok n => test n
  | .error _ => false

/-- Whether a path leads to a directory. -/
def isDirectory (d : Disk) (p : Path) : Bool :=
  holds Node.isDirectory (d.node p)

/-- Whether a path names a directory and no link to one. -/
def isRealDirectory (d : Disk) (p : Path) : Bool :=
  holds Node.isDirectory (d.ownNode p)

/-- The entries of a directory in the order of the bytes of their names. What is no directory
has none; a link at `p` itself is followed. -/
def listing (d : Disk) (p : Path) : Except IoFault (List (FileName × Node)) :=
  let target := match d.ownNode p with
    | .ok (.link _) => d.node p
    | other => other
  match target with
  | .ok n => .ok (n.entries.mergeSort fun a b => (compare a.1 b.1).isLE)
  | .error cause => .error (.listing p cause)

end Disk
end SaveContainer
