import SaveContainer.Text.Utf8

/-!
Paths as byte strings. `join` hangs one path below another, and `key` is what two paths have
in common when they differ only in repeated slashes, slashes at the end and inner dots.
-/

namespace SaveContainer

/-- The pieces of a list between the places where `sep` stands. There is always one. -/
def pieces {α : Type} [DecidableEq α] (sep : α) : List α → List (List α)
  | [] => [[]]
  | a :: rest =>
    if a = sep then [] :: pieces sep rest
    else match pieces sep rest with
      | [] => [[a]]
      | p :: ps => (a :: p) :: ps

/-- The name of a directory entry: bytes other than zero and the slash. -/
abbrev FileName := List UInt8

structure Path where
  bytes : List UInt8
  deriving DecidableEq

namespace Path

def slash : UInt8 := 0x2F
def dot : FileName := [0x2E]
def dotDot : FileName := [0x2E, 0x2E]

def ofText (text : String) : Path :=
  ⟨Utf8.encode text.toList⟩

def display (p : Path) : String :=
  String.ofList (Utf8.lossy p.bytes)

def isAbsolute (p : Path) : Bool :=
  p.bytes.head? == some slash

def endsInSlash (p : Path) : Bool :=
  p.bytes.getLast? == some slash

/-- The path `q` as seen from the directory `p`; an absolute `q` stays as it is. -/
def join (p q : Path) : Path :=
  if q.isAbsolute then q
  else if p.bytes.isEmpty || p.endsInSlash then ⟨p.bytes ++ q.bytes⟩
  else ⟨p.bytes ++ slash :: q.bytes⟩

/-- The components that tell paths apart. A dot counts only at the start of a relative path;
the root is written as the slash, which no name contains. -/
def key (p : Path) : List FileName :=
  match pieces slash p.bytes with
  | [] => []
  | first :: rest =>
    (if p.isAbsolute then [[slash]] else if first = [] then [] else [first]) ++
      rest.filter fun name => name ≠ [] ∧ name ≠ dot

/-- The names to pass from directory to directory. A slash at the end asks for a directory,
as a dot after it would. -/
def steps (p : Path) : List FileName :=
  (pieces slash p.bytes).filter (· ≠ []) ++ if p.endsInSlash then [dot] else []

end Path
end SaveContainer
