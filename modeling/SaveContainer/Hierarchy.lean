import SaveContainer.Sink

/-!
Printing a container as a tree. A line is one space for each level, a sign and a name; the
sub-directories of a directory come first, each followed by what it holds, and then its files.
Whatever was opened on the way is released again, innermost first, also when something fails.
-/

namespace SaveContainer

/-- A container as the printer sees it: directories `D` are opened one by one, which may change
the state `σ` of the container. The last three say what else is seen in the trace. -/
structure Hierarchy (σ D : Type) where
  root : Act σ D
  ino : D → Ino
  list : D → EntryKind → Act σ (List Entry)
  subdirectory : D → ShortName → Act σ D
  gotEntry : D → EntryKind → Nat → Trace
  releasedList : D → EntryKind → Trace
  released : D → Trace

/-- The line of an entry of a directory at level `depth`. -/
def entryLine (depth : Nat) (marker : Char) (name : ShortName) : String :=
  String.ofList (List.replicate depth ' ' ++ marker :: Utf8.lossy name.toBytes ++ ['\n'])

namespace Hierarchy

variable {σ D : Type}

def writeLine (depth : Nat) (kind : EntryKind) (name : ShortName) : Act (σ × Sink) Unit :=
  (Sink.writeAll (Utf8.encode (entryLine depth kind.marker name).toList)).onSecond

/-- Does `body` with every entry and its position, counted from `start`. -/
def eachEntry (body : Nat → Entry → Act σ Unit) : Nat → List Entry → Act σ Unit
  | _, [] => pure ()
  | start, e :: rest => do
    body start e
    eachEntry body (start + 1) rest

/-- Lists the entries of one kind and does `body` with each. The list is released at the end;
the log has a line of it only if nothing failed. -/
def forEntries (h : Hierarchy σ D) (depth : Nat) (d : D) (kind : EntryKind)
    (body : Entry → Act (σ × Sink) Unit) : Act (σ × Sink) Unit := do
  let entries ← ((h.list d kind).mapFault (.list (h.ino d) kind)).onFirst
  Act.closing (h.releasedList d kind) do
    Act.log (.openList (h.ino d) kind)
    Act.log (.listed (h.ino d) depth kind entries.length)
    eachEntry (fun i e => do Act.notes (h.gotEntry d kind i); body e) 0 entries
    Act.log (.releaseList (h.ino d) kind)

/-- Prints what a directory at level `depth` holds, as long as `levels` allows it. -/
def printWithin (h : Hierarchy σ D) : Nat → Nat → D → Act (σ × Sink) Unit
  | 0, _, d => Act.fail (.corrupt (.directoryTooDeep (h.ino d)))
  | levels + 1, depth, d => do
    h.forEntries depth d .directory fun e => do
      writeLine depth .directory e.name
      let child ← ((h.subdirectory d e.name).mapFault (.enter e.name)).onFirst
      (printWithin h levels (depth + 1) child).closing (h.released child)
    h.forEntries depth d .file fun e => do
      Act.log (.file e.ino)
      writeLine depth .file e.name

/-- Prints what a directory holds, as if it stood at level `depth`. -/
def printBelow (h : Hierarchy σ D) (depth : Nat) (d : D) : Act (σ × Sink) Unit :=
  h.printWithin (maxDepth + 1 - depth) depth d

/-- Prints the whole container. The sink is flushed after the root is released. -/
def print (h : Hierarchy σ D) : Act (σ × Sink) Unit := do
  let d ← h.root.onFirst
  (h.printBelow 0 d).closing (h.released d)
  Sink.flush.onSecond

/-- What is printed, if nothing fails. -/
def text (h : Hierarchy σ D) : Act σ String := do
  let (result, text) ← Sink.buffered h.print
  Act.ofExcept (result.map fun _ => text)

end Hierarchy
end SaveContainer
