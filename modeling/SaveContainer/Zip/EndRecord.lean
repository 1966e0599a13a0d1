import SaveContainer.Zip.Bytes

/-!
The records at the end of a zip archive. They say where the central directory starts, how many
members it has, and by how much all places in it are shifted because something was put in
front of the archive.
-/

namespace SaveContainer.Zip

/-- The end record that every archive has, and where it was found. -/
structure EndRecord where
  place : Nat
  disk : Nat
  directoryDisk : Nat
  membersHere : Nat
  members : Nat
  directorySize : Nat
  directoryPlace : Nat
  commentSize : Nat

namespace EndRecord

def signature : Nat := 0x06054B50

/-- Without its comment. -/
def size : Nat := 22

/-- The last place with the signature, as far as a comment of the largest size reaches. -/
def find (data : ByteArray) : Except ZipFault Nat :=
  if data.size < size then .error .tooShort
  else
    let last := data.size - size
    match findDown data signature (min last full16 + 1) last with
    | some place => .ok place
    | none => .error .noEndRecord

def read (data : ByteArray) : Except ZipFault EndRecord := do
  let place ← find data
  let commentSize ← number data (place + 20) 2
  let _comment ← run data (place + size) commentSize
  return {
    place
    disk := ← number data (place + 4) 2
    directoryDisk := ← number data (place + 6) 2
    membersHere := ← number data (place + 8) 2
    members := ← number data (place + 10) 2
    directorySize := ← number data (place + 12) 4
    directoryPlace := ← number data (place + 16) 4
    commentSize }

/-- Whether some field cannot hold its value. -/
def tooSmall (r : EndRecord) : Bool :=
  [r.disk, r.directoryDisk, r.membersHere, r.members].contains full16 ||
    [r.directorySize, r.directoryPlace].contains full32

end EndRecord

/-- The place of the wide end record, as noted in front of the end record. -/
structure WideLocator where
  directoryDisk : Nat
  place : Nat

namespace WideLocator

def signature : Nat := 0x07064B50

def size : Nat := 20

/-- An archive without this record has no wide end record. -/
def read? (data : ByteArray) (e : EndRecord) : Except ZipFault (Option WideLocator) :=
  let behind := size + EndRecord.size + e.commentSize
  if data.size < behind then .ok none
  else
    let place := data.size - behind
    if hasSignature data signature place then do
      return some
        { directoryDisk := ← number data (place + 4) 4
          place := ← number data (place + 8) 8 }
    else .ok none

end WideLocator

/-- The end record with 64-bit fields, and where it was found. -/
structure WideEndRecord where
  place : Nat
  disk : Nat
  directoryDisk : Nat
  members : Nat
  directoryPlace : Nat

namespace WideEndRecord

def signature : Nat := 0x06064B50

/-- Together with the locator behind it. -/
def minimalSize : Nat := 60

/-- Looks from the place that the locator gives up to the last one with room for the record. -/
def read (data : ByteArray) (e : EndRecord) (l : WideLocator) :
    Except ZipFault WideEndRecord := do
  if e.place < minimalSize then throw .noRoomForWideEnd
  match findUp data signature (e.place - minimalSize + 1 - l.place) l.place with
  | none => throw .noWideEndRecord
  | some place =>
    return {
      place
      disk := ← number data (place + 16) 4
      directoryDisk := ← number data (place + 20) 4
      members := ← number data (place + 32) 8
      directoryPlace := ← number data (place + 48) 8 }

end WideEndRecord

structure DirectorySpan where
  /-- What to add to every place that the archive gives. -/
  shift : Nat
  start : Nat
  count : Nat

namespace DirectorySpan

/-- Where the end record alone puts the directory: right in front of itself. -/
def ofEndRecord (e : EndRecord) : Except ZipFault DirectorySpan :=
  if e.place < e.directorySize + e.directoryPlace then .error .badDirectoryPlace
  else
    let shift := e.place - e.directorySize - e.directoryPlace
    .ok ⟨shift, e.directoryPlace + shift, e.membersHere⟩

def ofWideRecord (data : ByteArray) (e : EndRecord) (l : WideLocator) :
    Except ZipFault DirectorySpan := do
  if !e.tooSmall && e.disk != l.directoryDisk then throw .severalDisks
  let w ← WideEndRecord.read data e l
  if w.disk != w.directoryDisk then throw .severalDisks
  let shift := w.place - l.place
  if wideLimit ≤ w.directoryPlace + shift then throw .badDirectoryPlace
  return ⟨shift, w.directoryPlace + shift, w.members⟩

def read (data : ByteArray) : Except ZipFault DirectorySpan := do
  let e ← EndRecord.read data
  if !e.tooSmall && e.disk != e.directoryDisk then throw .severalDisks
  match ← WideLocator.read? data e with
  | none => ofEndRecord e
  | some l => ofWideRecord data e l

end DirectorySpan
end SaveContainer.Zip
