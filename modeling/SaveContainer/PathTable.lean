import SaveContainer.Entry
import SaveContainer.Path
import Std.Data.TreeMap

/-!
The numbers of the entries of an extracted container. A path gets the next number when it is
first seen, and paths with the same components share one; the root has the first.
-/

namespace SaveContainer

/-- The path with number `n`, as it was first seen, is at position `n - 1`. -/
structure PathTable where
  paths : Array Path
  numbers : Std.TreeMap (List FileName) Ino

namespace PathTable

def empty : PathTable := ⟨#[], ∅⟩

def path? (t : PathTable) : Ino → Option Path
  | 0 => none
  | n + 1 => t.paths[n]?

def number? (t : PathTable) (p : Path) : Option Ino :=
  t.numbers[p.key]?

/-- The number of a path, which is a new one if the path is. -/
def assign (t : PathTable) (p : Path) : Ino × PathTable :=
  match t.number? p with
  | some ino => (ino, t)
  | none =>
    let ino := t.paths.size + 1
    (ino, ⟨t.paths.push p, t.numbers.insert p.key ino⟩)

/-- The table of a container in which only the root was seen. -/
def ofRoot (p : Path) : PathTable :=
  (empty.assign p).2

end PathTable
end SaveContainer
