import SaveContainer.Entry
import SaveContainer.Path

/-!
Everything that can go wrong, by cause. A fault may have a cause of its own; `chain` lists the
messages from the outermost fault to the innermost.
-/

namespace SaveContainer

/-- What the file system or a writer refuses. -/
inductive IoFault where
  | notFound
  | notADirectory
  | isADirectory
  | nameTooLong
  | tooManyLinks
  | zeroInName
  | endOfData
  /-- A reader cannot go where it was sent. -/
  | noSuchPlace
  | writerClosed
  | flushFailed
  | nothingWritten
  /-- Listing the directory at `path` failed. -/
  | listing (path : Path) (cause : IoFault)
  deriving DecidableEq

namespace IoFault

def message : IoFault → String
  | notFound => "No such file or directory (os error 2)"
  | notADirectory => "Not a directory (os error 20)"
  | isADirectory => "Is a directory (os error 21)"
  | nameTooLong => "File name too long (os error 36)"
  | tooManyLinks => "Too many levels of symbolic links (os error 40)"
  | zeroInName => "file name contained an unexpected NUL byte"
  | endOfData => "failed to fill whole buffer"
  | noSuchPlace => "Invalid argument (os error 22)"
  | writerClosed => "closed"
  | flushFailed => "flush failed"
  | nothingWritten => "failed to write whole buffer"
  | listing path cause => s!"IO error for operation on {path.display}: {cause.message}"

def chain : IoFault → List String
  | listing path cause => (listing path cause).message :: cause.chain
  | fault => [fault.message]

end IoFault

/-- What is wrong with the bytes of a zip archive. -/
inductive ZipFault where
  | tooShort
  | noEndRecord
  | severalDisks
  | badDirectoryPlace
  | noRoomForWideEnd
  | noWideEndRecord
  | directoryOutOfReach
  | badDirectoryHeader
  | aesFieldSize
  | aesVendor
  | aesVersion
  | aesStrength
  | aesFieldMissing
  | headerPlaceTooLarge
  | badLocalHeader
  | io (cause : IoFault)
  deriving DecidableEq

namespace ZipFault

def message : ZipFault → String
  | tooShort => "invalid Zip archive: Invalid zip header"
  | noEndRecord => "invalid Zip archive: Could not find central directory end"
  | severalDisks =>
    "unsupported Zip archive: Support for multi-disk files is not implemented"
  | badDirectoryPlace => "invalid Zip archive: Invalid central directory size or offset"
  | noRoomForWideEnd =>
    "invalid Zip archive: File cannot contain ZIP64 central directory end"
  | noWideEndRecord => "invalid Zip archive: Could not find ZIP64 central directory end"
  | directoryOutOfReach =>
    "invalid Zip archive: Could not seek to start of central directory"
  | badDirectoryHeader => "invalid Zip archive: Invalid Central Directory header"
  | aesFieldSize =>
    "unsupported Zip archive: AES extra data field has an unsupported length"
  | aesVendor => "invalid Zip archive: Invalid AES vendor"
  | aesVersion => "invalid Zip archive: Invalid AES vendor version"
  | aesStrength => "invalid Zip archive: Invalid AES encryption strength"
  | aesFieldMissing => "invalid Zip archive: AES encryption without AES extra data field"
  | headerPlaceTooLarge => "invalid Zip archive: Archive header is too large"
  | badLocalHeader => "invalid Zip archive: Invalid local file header"
  | io cause => cause.message

def chain : ZipFault → List String
  | io cause => cause.message :: cause.chain
  | fault => [fault.message]

end ZipFault

/-- How the layout of a container contradicts itself. -/
inductive Corruption where
  /-- A directory lies deeper than the deepest level shown. -/
  | directoryTooDeep (ino : Ino)
  | memberTooDeep (levels : Nat)
  | badComponent (member : String)
  | badMemberName (member : String) (cause : NameFault)
  | fileAndDirectory (member : String) (name : ShortName)
  | duplicateMember (member : String)
  deriving DecidableEq

/-- What was asked for and is not there. -/
inductive Missing where
  /-- No entry of an extracted container has this number. -/
  | entry (ino : Ino)
  /-- The entry with this number is no directory now. -/
  | notADirectory (ino : Ino)
  /-- No directory of an archive has this number. -/
  | directory (ino : Ino)
  | subdirectory (name : ShortName) (ino : Ino)
  /-- No directory of a graph has this number. -/
  | node (ino : Ino)
  | child (name : ShortName)
  /-- A listing of a graph was told to fail. -/
  | refusedListing (name : ShortName)
  /-- An opening in a graph was told to fail. -/
  | refusedOpening (name : ShortName)
  deriving DecidableEq

inductive Fault where
  | cannotOpen (path : Path) (cause : IoFault)
  | unsupported (path : Path)
  | corrupt (how : Corruption)
  | list (ino : Ino) (kind : EntryKind) (cause : Fault)
  | enter (name : ShortName) (cause : Fault)
  | missing (what : Missing)
  | badName (cause : NameFault)
  | noBaseDirectory (path : Path)
  | io (cause : IoFault)
  | zip (cause : ZipFault)
  deriving DecidableEq

def badNameMessage (cause : NameFault) : String :=
  s!"invalid entry name: {cause.message}"

def Corruption.message : Corruption → String
  | directoryTooDeep ino => s!"directory #{ino} nested deeper than {maxDepth}"
  | memberTooDeep levels => s!"member nested {levels} levels deep, limit is {maxDepth}"
  | badComponent member => s!"bad path component in {Quoted.quote member.toList}"
  | badMemberName member cause => s!"{member}: {badNameMessage cause}"
  | fileAndDirectory member name => s!"{member}: {name.display} is both a file and a directory"
  | duplicateMember member => s!"duplicate member {Quoted.quote member.toList}"

def Missing.message : Missing → String
  | entry ino => s!"no entry #{ino}"
  | notADirectory ino => s!"#{ino} is not a directory"
  | directory ino => s!"no directory #{ino}"
  | subdirectory name ino => s!"{name.display} in directory #{ino}"
  | node ino => s!"#{ino}"
  | child name => name.display
  | refusedListing name => s!"injected list failure at {name.display}"
  | refusedOpening name => s!"injected open failure at {name.display}"

namespace Fault

/-- The message of the fault alone, without its causes. -/
def message : Fault → String
  | cannotOpen path _ => s!"cannot open container {path.display}"
  | unsupported path => s!"unsupported container: {path.display}"
  | corrupt how => s!"corrupt container: {how.message}"
  | list ino kind _ => s!"cannot list {kind.listName} of directory #{ino}"
  | enter name _ => s!"cannot open sub-directory {name.display}"
  | missing what => s!"not found: {what.message}"
  | badName cause => badNameMessage cause
  | noBaseDirectory path => s!"invalid configuration: base directory {path.display} does not exist"
  | io _ => "I/O error"
  | zip _ => "archive error"

def chain : Fault → List String
  | cannotOpen path cause => (cannotOpen path cause).message :: cause.chain
  | list ino kind cause => (list ino kind cause).message :: cause.chain
  | enter name cause => (enter name cause).message :: cause.chain
  | io cause => (io cause).message :: cause.chain
  | zip cause => (zip cause).message :: cause.chain
  | fault => [fault.message]

end Fault
end SaveContainer
