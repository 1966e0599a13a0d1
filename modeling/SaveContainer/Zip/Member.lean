import SaveContainer.Text.CodePage437
import SaveContainer.Zip.EndRecord
import SaveContainer.Zip.Extra

/-!
The members of a zip archive as its central directory lists them. Of a member only the name and
the place of its own header matter; its contents are never read.
-/

namespace SaveContainer.Zip

structure Member where
  name : String
  headerPlace : Nat

namespace Member

def directorySignature : Nat := 0x02014B50
def localSignature : Nat := 0x04034B50

/-- The part of a directory header in front of the name. -/
def directoryHeaderSize : Nat := 46

/-- The part of a member's own header in front of the name. -/
def localHeaderSize : Nat := 30

/-- The method of encrypted members. -/
def aesMethod : Nat := 99

/-- Whether the flags mark the name as UTF-8. -/
def marksUtf8 (flags : Nat) : Bool :=
  flags.testBit 11

def decodeName (flags : Nat) (raw : List UInt8) : String :=
  String.ofList (if marksUtf8 flags then Utf8.lossy raw else CodePage437.decode raw)

/-- A name that ends in a slash of either kind is a directory's. -/
def isDirectory (m : Member) : Bool :=
  match m.name.toList.getLast? with
  | some c => c == '/' || c == '\\'
  | none => false

/-- Reads the directory header at `place`; also where the next one is. -/
def read (data : ByteArray) (shift place : Nat) : Except ZipFault (Member × Nat) := do
  if (← number data place 4) ≠ directorySignature then throw .badDirectoryHeader
  let flags ← number data (place + 8) 2
  let method ← number data (place + 10) 2
  let packedSize ← number data (place + 20) 4
  let fullSize ← number data (place + 24) 4
  let nameSize ← number data (place + 28) 2
  let extraSize ← number data (place + 30) 2
  let commentSize ← number data (place + 32) 2
  let headerPlace ← number data (place + 42) 4
  let namePlace := place + directoryHeaderSize
  let extraPlace := namePlace + nameSize
  let commentPlace := extraPlace + extraSize
  let rawName ← run data namePlace nameSize
  let _extra ← run data extraPlace extraSize
  let _comment ← run data commentPlace commentSize
  let v ← ExtraValues.read (data.extract extraPlace commentPlace)
    { fullSize, packedSize, headerPlace, method, aes := false }
  if v.method = aesMethod ∧ !v.aes then throw .aesFieldMissing
  if wideLimit ≤ v.headerPlace + shift then throw .headerPlaceTooLarge
  return (⟨decodeName flags rawName, v.headerPlace + shift⟩, commentPlace + commentSize)

/-- Reads `count` directory headers from `place` on, behind those in `done`. -/
def readAll (data : ByteArray) (shift : Nat) :
    (count place : Nat) → (done : Array Member) → Except ZipFault (Array Member)
  | 0, _, done => .ok done
  | count + 1, place, done => do
    let (m, next) ← read data shift place
    readAll data shift count next (done.push m)

/-- Looks whether the member's own header is where the directory says. -/
def checkHeader (medium : Medium) (data : ByteArray) (m : Member) : Except ZipFault Unit := do
  if !medium.reaches m.headerPlace then throw (.io .noSuchPlace)
  if (← number data m.headerPlace 4) ≠ localSignature then throw .badLocalHeader
  let _sizes ← number data (m.headerPlace + localHeaderSize - 4) 4
  return ()

end Member

/-- The members of an archive, in the order of its central directory. -/
def members (medium : Medium) (data : ByteArray) : Except ZipFault (Array Member) := do
  let span ← DirectorySpan.read data
  if !medium.reaches span.start then throw .directoryOutOfReach
  Member.readAll data span.shift span.count span.start #[]

end SaveContainer.Zip
