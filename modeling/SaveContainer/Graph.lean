import SaveContainer.Hierarchy

/-!
Containers given as nodes that refer to each other by number. They put every call into the
trace and can be told to fail, so that the order of calls can be studied. Nodes may be shared,
lie on cycles and have equal names.
-/

namespace SaveContainer

structure GraphNode where
  name : ShortName
  directories : List Ino
  files : List Ino
  /-- Whether the node can be opened by its number. -/
  isDirectory : Bool
  deriving DecidableEq, Inhabited

namespace GraphNode

def members (n : GraphNode) : EntryKind → List Ino
  | .directory => n.directories
  | .file => n.files

end GraphNode

/-- The node with number `n` is at position `n - 1`. -/
structure Graph where
  nodes : List GraphNode
  /-- Sub-directories of this name fail to open. -/
  refusedOpening : Option ShortName
  /-- Directories of this name fail to list their entries of this kind. -/
  refusedListing : Option (ShortName × EntryKind)
  deriving DecidableEq

namespace Graph

def node? (g : Graph) : Ino → Option GraphNode
  | 0 => none
  | n + 1 => g.nodes[n]?

def node (g : Graph) (ino : Ino) : GraphNode :=
  (g.node? ino).getD default

def openDirectory (g : Graph) (ino : Ino) : Act Unit Ino := do
  match g.node? ino with
  | some ⟨_, _, _, true⟩ => do
    Act.note (.call (.opened ino))
    return ino
  | _ => Act.fail (.missing (.node ino))

def list (g : Graph) (ino : Ino) (kind : EntryKind) : Act Unit (List Entry) := do
  let n := g.node ino
  if g.refusedListing = some (n.name, kind) then do
    Act.note (.call (.failedList kind ino))
    Act.fail (.missing (.refusedListing n.name))
  else do
    Act.note (.call (.listed kind ino))
    return (n.members kind).map fun i => ⟨(g.node i).name, i⟩

/-- Opens the first sub-directory of this name. -/
def subdirectory (g : Graph) (ino : Ino) (name : ShortName) : Act Unit Ino := do
  if g.refusedOpening = some name then do
    Act.note (.call (.failedOpen name))
    Act.fail (.missing (.refusedOpening name))
  else
    match (g.node ino).directories.find? fun i => (g.node i).name = name with
    | some child => do
      Act.note (.call (.opened child))
      return child
    | none => Act.fail (.missing (.child name))

def hierarchy (g : Graph) : Hierarchy Unit Ino where
  root := g.openDirectory rootIno
  ino := id
  list := g.list
  subdirectory := g.subdirectory
  gotEntry ino kind index := [.call (.got kind ino index)]
  releasedList ino kind := [.call (.releasedList kind ino)]
  released ino := [.call (.released ino)]

/-- Opens a node and prints what it holds, as if it stood at level `depth`. -/
def printFrom (g : Graph) (ino : Ino) (depth : Nat) : Act (Unit × Sink) Unit := do
  let d ← (g.openDirectory ino).onFirst
  (g.hierarchy.printBelow depth d).closing (g.hierarchy.released d)

end Graph
end SaveContainer
