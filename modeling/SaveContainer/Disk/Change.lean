import SaveContainer.Disk.Lookup

/-!
Changes to a disk from outside: making, replacing, removing and renaming entries. A change that
cannot be made gives no disk.
-/

namespace SaveContainer

inductive Change where
  /-- Makes a directory and all that are missing on its way. -/
  | makeDirectory (path : Path)
  /-- Writes a file, which may be there already, and makes the directories on its way. -/
  | write (path : Path) (data : ByteArray)
  | makeLink (path target : Path)
  /-- Removes an entry with all that is below it; of a link, only the link. -/
  | remove (path : Path)
  | rename (path target : Path)

namespace Node

/-- Sets or removes the entry of a name. -/
def putEntry (name : FileName) (entry : Option Node) (entries : List (FileName × Node)) :
    List (FileName × Node) :=
  match entry with
  | none => entries.filter fun e => e.1 ≠ name
  | some n =>
    if entries.any fun e => e.1 = name then
      entries.map fun e => if e.1 = name then (name, n) else e
    else entries ++ [(name, n)]

/-- Sets or removes what the names lead to. Nothing changes where they lead nowhere. -/
def putAt (entry : Option Node) : List FileName → Node → Node
  | [], n => n
  | [name], directory es => directory (putEntry name entry es)
  | name :: rest, directory es =>
    directory (es.map fun e => if e.1 = name then (name, putAt entry rest e.2) else e)
  | _, n => n

end Node

namespace Disk

/-- An empty working directory, and one device. -/
def fresh : Disk where
  root := .directory
    [(Spot.devices, .directory [(Utf8.encode "null".toList, .device)]),
     (Utf8.encode "tmp".toList, .directory [(Utf8.encode "work".toList, .directory [])])]
  workPlace := [Utf8.encode "tmp".toList, Utf8.encode "work".toList]

def putAt (d : Disk) (entry : Option Node) (s : Spot) : Disk :=
  { d with root := d.root.putAt entry s.place }

/-- Where the names lead if all of them but the last one lead to a directory and the last one
is of nothing yet. -/
def vacancy (d : Disk) (absolute : Bool) (names : List FileName) : Option Spot :=
  match d.findNames .itself absolute names with
  | .error .notFound => (d.findNames ⟨false, true⟩ absolute names).toOption
  | _ => none

/-- Makes the directories that are missing on the way along the names; `done` lead to one. -/
def makeWay (absolute : Bool) : (done todo : List FileName) → Disk → Option Disk
  | _, [], d => some d
  | done, name :: rest, d =>
    let here := done ++ [name]
    match d.findNames .through absolute here with
    | .ok s => if s.node.isDirectory then makeWay absolute here rest d else none
    | .error _ => do
      makeWay absolute here rest (d.putAt (some (.directory [])) (← d.vacancy absolute here))

def plainSteps (p : Path) : List FileName :=
  p.steps.filter (· ≠ Path.dot)

def writeFile (d : Disk) (p : Path) (data : ByteArray) : Option Disk := do
  let d ← d.makeWay p.isAbsolute [] (plainSteps p).dropLast
  let s ← (d.find ⟨true, true⟩ p).toOption
  match s.node with
  | .file _ => some (d.putAt (some (.file data)) s)
  | .device => some d
  | _ => none

def apply (d : Disk) : Change → Option Disk
  | .makeDirectory p => d.makeWay p.isAbsolute [] (plainSteps p)
  | .write p data => d.writeFile p data
  | .makeLink p target => do
    some (d.putAt (some (.link target)) (← d.vacancy p.isAbsolute p.steps))
  | .remove p => do
    let s ← (d.find .itself p).toOption
    if s.trail.isEmpty then none else some (d.putAt none s)
  | .rename p target => do
    let s ← (d.find .itself p).toOption
    let t ← (d.findNames ⟨false, true⟩ target.isAbsolute (plainSteps target)).toOption
    some ((d.putAt none s).putAt (some s.node) t)

def applyAll : List Change → Disk → Option Disk
  | [], d => some d
  | c :: rest, d => (d.apply c).bind (applyAll rest)

end Disk
end SaveContainer
