import SaveContainer.Extracted
import SaveContainer.Packed

/-!
Opening containers on a disk, of either kind, and what can be done with them. The disk and the
tables of numbers of all extracted containers make up the world; whoever holds a container
holds the place of its table, and so shares it.
-/

namespace SaveContainer

structure World where
  disk : Disk
  tables : Array PathTable

namespace World

/-- The table at a place; nothing is at a place that was never given out. -/
def table (w : World) (place : Nat) : PathTable :=
  w.tables.getD place PathTable.empty

def putTable (w : World) (place : Nat) (t : PathTable) : World :=
  { w with tables := w.tables.setIfInBounds place t }

variable {α : Type}

/-- Acts on one container's table with the disk in sight. -/
def onTable (place : Nat) (m : Disk → Act PathTable α) : Act World α := fun w =>
  (m w.disk).within (fun w => w.table place) (fun t w => w.putTable place t) w

/-- As `onTable`, and writing. -/
def printing (place : Nat) (m : Disk → Act (PathTable × Sink) α) : Act (World × Sink) α :=
  fun ws => (m ws.1.disk).within (fun ws => (ws.1.table place, ws.2))
    (fun ts ws => (ws.1.putTable place ts.1, ts.2)) ws

end World

/-- An open container. -/
inductive Save where
  | extracted (place : Nat)
  | packed (c : Catalogue)

inductive OpenDirectory where
  | extracted (place : Nat) (d : ExtractedDirectory)
  | packed (c : Catalogue) (ino : Ino)

namespace OpenDirectory

def ino : OpenDirectory → Ino
  | extracted _ d => d.ino
  | packed _ ino => ino

def list (kind : EntryKind) : OpenDirectory → Act World (List Entry)
  | extracted place d => World.onTable place fun disk => Extracted.list disk d kind
  | packed c ino => Packed.list c ino kind

def subdirectory (name : ShortName) : OpenDirectory → Act World OpenDirectory
  | extracted place d =>
    extracted place <$> World.onTable place fun disk => Extracted.subdirectory disk d name
  | packed c ino => packed c <$> Packed.subdirectory c ino name

/-- Prints what the directory holds, as if it stood at level `depth`. -/
def printBelow (depth : Nat) : OpenDirectory → Act (World × Sink) Unit
  | extracted place d =>
    World.printing place fun disk => (Extracted.hierarchy disk).printBelow depth d
  | packed c ino => (Packed.hierarchy World c).printBelow depth ino

def released : OpenDirectory → Trace
  | extracted _ d => Extracted.released d
  | packed _ ino => Packed.released ino

end OpenDirectory

namespace Save

def kind : Save → SaveKind
  | extracted _ => .directory
  | packed _ => .archive

def openDirectory (ino : Ino) : Save → Act World OpenDirectory
  | extracted place =>
    .extracted place <$> World.onTable place fun disk => Extracted.openDirectory disk ino
  | packed c => .packed c <$> Packed.openDirectory c ino

def print : Save → Act (World × Sink) Unit
  | extracted place => World.printing place fun disk => (Extracted.hierarchy disk).print
  | packed c => (Packed.hierarchy World c).print

def text : Save → Act World String
  | extracted place => World.onTable place fun disk => (Extracted.hierarchy disk).text
  | packed c => (Packed.hierarchy World c).text

/-- Opens the directory at `p` as a container. -/
def ofDirectory (p : Path) : Act World Save := do
  let w ← Act.get
  let t ← Extracted.openRoot w.disk p
  Act.set { w with tables := w.tables.push t }
  return extracted w.tables.size

/-- Opens what is at `p` as an archive, without a look at how it begins. A device is an empty
file here. -/
def ofArchive (p : Path) : Act World Save := do
  match (← Act.get).disk.find .through p with
  | .error cause => Act.fail (.cannotOpen p cause)
  | .ok s =>
    match s.node with
    | .directory _ => Act.fail (.zip (.io s.readFault))
    | .file data => packed <$> Packed.ofBytes .disk data
    | _ => packed <$> Packed.ofBytes .disk .empty

end Save

/-- Opens containers by path. Relative paths start at the base directory, if there is one. -/
structure Opener where
  base : Option Path

namespace Opener

def new (base : Option Path) : Act World Opener := do
  let disk := (← Act.get).disk
  match base.filter fun b => !disk.isDirectory b with
  | some b => Act.fail (.noBaseDirectory b)
  | none => do
    Act.log (.openerMade base)
    return ⟨base⟩

def resolve (o : Opener) (p : Path) : Path :=
  match o.base with
  | some b => if p.isAbsolute then p else b.join p
  | none => p

/-- How an archive with members begins. -/
def memberMark : List UInt8 := [0x50, 0x4B, 0x03, 0x04]

/-- How an archive without members begins. -/
def emptyMark : List UInt8 := [0x50, 0x4B, 0x05, 0x06]

def looksPacked (data : ByteArray) : Bool :=
  let start := (data.extract 0 4).toList
  start == memberMark || start == emptyMark

/-- Opens a container of the kind that the path leads to. -/
def openSave (o : Opener) (p : Path) : Act World Save := do
  let p := o.resolve p
  let save ← match (← Act.get).disk.node p with
    | .error cause => Act.fail (.cannotOpen p cause)
    | .ok (.directory _) => Save.ofDirectory p
    | .ok (.file data) =>
      if looksPacked data then Save.ofArchive p else Act.fail (.unsupported p)
    | .ok _ => Act.fail (.unsupported p)
  Act.log (.openedSave p save.kind)
  return save

end Opener
end SaveContainer
