import SaveContainer.Disk.Lookup
import SaveContainer.Hierarchy
import SaveContainer.PathTable

/-!
Containers extracted to a directory on disk. Every act looks at the disk as it is then; what
stays is the table of numbers. Links are not followed below the root: they count as files.
-/

namespace SaveContainer

/-- An open directory keeps the path it was opened with. -/
structure ExtractedDirectory where
  path : Path
  ino : Ino
  deriving DecidableEq

namespace Extracted

/-- A new container with its root at `p`. -/
def openRoot {σ : Type} (disk : Disk) (p : Path) : Act σ PathTable :=
  match disk.node p with
  | .error cause => Act.fail (.cannotOpen p cause)
  | .ok (.directory _) => do
    Act.log (.openedDirectorySave p)
    return PathTable.ofRoot p
  | .ok _ => Act.fail (.unsupported p)

def assign (p : Path) : Act PathTable Ino := fun t =>
  let (ino, t) := t.assign p
  ⟨.ok ino, t, []⟩

def opened (path : Path) (ino : Ino) : Act PathTable ExtractedDirectory := do
  Act.log (.openDirectory .directory ino)
  return ⟨path, ino⟩

/-- Opens a directory by its number. Only the root may be a link to a directory. -/
def openDirectory (disk : Disk) (ino : Ino) : Act PathTable ExtractedDirectory := do
  match (← Act.get).path? ino with
  | none => Act.fail (.missing (.entry ino))
  | some path =>
    if if ino = rootIno then disk.isDirectory path else disk.isRealDirectory path then
      opened path ino
    else Act.fail (.missing (.notADirectory ino))

def entryName (raw : FileName) : Except Fault ShortName :=
  if (Utf8.decode? raw).isNone then .error (.badName (.notUtf8 raw))
  else (ShortName.ofBytes raw).mapError Fault.badName

def kindOf (n : Node) : EntryKind :=
  if n.isDirectory then .directory else .file

/-- Takes up the entries in order. Those in front of a bad name have their numbers by then. -/
def takeEntries (d : ExtractedDirectory) : List FileName → Act PathTable (List Entry)
  | [] => return []
  | raw :: rest => do
    let name ← Act.ofExcept (entryName raw)
    let ino ← assign (d.path.join ⟨raw⟩)
    return ⟨name, ino⟩ :: (← takeEntries d rest)

def list (disk : Disk) (d : ExtractedDirectory) (kind : EntryKind) :
    Act PathTable (List Entry) := do
  let found ← Act.ofExcept ((disk.listing d.path).mapError Fault.io)
  takeEntries d ((found.filter fun e => kindOf e.2 = kind).map Prod.fst)

/-- The name is hung below the path of the directory, whatever it looks like. -/
def subdirectory (disk : Disk) (d : ExtractedDirectory) (name : ShortName) :
    Act PathTable ExtractedDirectory := do
  let path := d.path.join (Path.ofText name.display)
  if disk.isRealDirectory path then opened path (← assign path)
  else Act.fail (.missing (.subdirectory name d.ino))

def released (d : ExtractedDirectory) : Trace :=
  [.event (.releaseDirectory .directory d.ino)]

def hierarchy (disk : Disk) : Hierarchy PathTable ExtractedDirectory where
  root := openDirectory disk rootIno
  ino := ExtractedDirectory.ino
  list := list disk
  subdirectory := subdirectory disk
  gotEntry _ _ _ := []
  releasedList _ _ := []
  released := released

end Extracted
end SaveContainer
