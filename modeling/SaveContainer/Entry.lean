import SaveContainer.ShortName

/-!
What a container shows of its directories: entries with a name and a number, in two lists, one
of sub-directories and one of all else.
-/

namespace SaveContainer

/-- The number of an entry in its container. -/
abbrev Ino := Nat

/-- The root of every container. -/
def rootIno : Ino := 1

/-- The deepest level of directories that is shown. The root is at level 0. -/
def maxDepth : Nat := 128

structure Entry where
  name : ShortName
  ino : Ino
  deriving DecidableEq

inductive EntryKind where
  | directory
  | file
  deriving DecidableEq

namespace EntryKind

/-- The name of the list of all entries of one kind. -/
def listName : EntryKind → String
  | directory => "sub-directories"
  | file => "sub-files"

/-- The sign in front of a name in a printed tree. -/
def marker : EntryKind → Char
  | directory => '+'
  | file => '-'

end EntryKind

/-- Where a container keeps its tree. -/
inductive SaveKind where
  | directory
  | archive
  deriving DecidableEq

def SaveKind.text : SaveKind → String
  | directory => "directory"
  | archive => "archive"

end SaveContainer
