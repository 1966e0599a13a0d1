import SaveContainer.Catalogue
import SaveContainer.Hierarchy
import SaveContainer.Zip.Member

/-!
Containers packed into a zip archive. The names of all members are read once, when the archive
is opened; after that the archive itself is not needed any more.
-/

namespace SaveContainer.Packed

/-- Adds the members in order. A member whose own header is missing is found only when those
in front of it have been added. -/
def addAll (medium : Zip.Medium) (data : ByteArray) : List Zip.Member → Act Catalogue Unit
  | [] => pure ()
  | m :: rest => do
    Act.ofExcept ((m.checkHeader medium data).mapError Fault.zip)
    Catalogue.addMember m.name (if m.isDirectory then .directory else .file)
    addAll medium data rest

def ofBytes {σ : Type} (medium : Zip.Medium) (data : ByteArray) : Act σ Catalogue := do
  let members ← Act.ofExcept ((Zip.members medium data).mapError Fault.zip)
  let c ← Act.reaching Catalogue.empty (addAll medium data members.toList)
  Act.log (.indexed members.size c.nodes.size)
  return c

def openDirectory {σ : Type} (c : Catalogue) (ino : Ino) : Act σ Ino := do
  if c.isDirectory ino then do
    Act.log (.openDirectory .archive ino)
    return ino
  else Act.fail (.missing (.directory ino))

def list {σ : Type} (c : Catalogue) (ino : Ino) (kind : EntryKind) : Act σ (List Entry) :=
  if c.isDirectory ino then return c.entries ino kind
  else Act.fail (.missing (.directory ino))

def subdirectory {σ : Type} (c : Catalogue) (ino : Ino) (name : ShortName) : Act σ Ino :=
  let refused := Act.fail (.missing (.subdirectory name ino))
  match c.number? ino name with
  | some child =>
    if c.isDirectory child then do
      Act.log (.openDirectory .archive child)
      return child
    else refused
  | none => refused

def released (ino : Ino) : Trace :=
  [.event (.releaseDirectory .archive ino)]

def hierarchy (σ : Type) (c : Catalogue) : Hierarchy σ Ino where
  root := openDirectory c rootIno
  ino := id
  list := list c
  subdirectory := subdirectory c
  gotEntry _ _ _ := []
  releasedList _ _ := []
  released := released

end SaveContainer.Packed
