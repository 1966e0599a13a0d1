import SaveContainer.Act
import Std.Data.TreeMap

/-!
The tree that the member names of an archive describe. Members are added one by one; a name
brings in the directories on its way, numbered in the order in which they first appear. A
member that contradicts the tree is refused, and what was added on its way stays.
-/

namespace SaveContainer

/-- Where a name is looked up. -/
structure ChildKey where
  parent : Ino
  name : ShortName
  deriving DecidableEq

namespace ChildKey

def order : ChildKey → ChildKey → Ordering :=
  compareLex (compareOn parent) (compareOn fun k => k.name.toBytes)

instance : Std.TransCmp order :=
  inferInstanceAs (Std.TransCmp (compareLex _ _))

instance : Std.LawfulEqCmp order where
  compare_self := Std.ReflCmp.compare_self
  eq_of_compare {a b} h := by
    obtain ⟨h₁, h₂⟩ := compareLex_eq_eq.1 h
    cases a; cases b
    simp only [ChildKey.mk.injEq]
    exact ⟨Std.LawfulEqCmp.eq_of_compare h₁,
      ShortName.toBytes_injective (Std.LawfulEqCmp.eq_of_compare h₂)⟩

end ChildKey

inductive Content where
  | directory (directories files : Array Ino)
  | file
  deriving DecidableEq

namespace Content

def isDirectory : Content → Bool
  | directory _ _ => true
  | file => false

def emptyDirectory : Content := .directory #[] #[]

/-- The numbers of the children of one kind; a file has none. -/
def children : Content → EntryKind → Array Ino
  | directory directories _, .directory => directories
  | directory _ files, .file => files
  | file, _ => #[]

def addChild (ino : Ino) : EntryKind → Content → Content
  | .directory, directory directories files => directory (directories.push ino) files
  | .file, directory directories files => directory directories (files.push ino)
  | _, file => file

end Content

structure CatalogueNode where
  name : ShortName
  content : Content
  deriving DecidableEq

/-- The node with number `n` is at position `n - 1`; the first one is the root. -/
structure Catalogue where
  nodes : Array CatalogueNode
  numbers : Std.TreeMap ChildKey Ino ChildKey.order

namespace Catalogue

def empty : Catalogue :=
  ⟨#[⟨ShortName.empty, Content.emptyDirectory⟩], ∅⟩

def node? (c : Catalogue) : Ino → Option CatalogueNode
  | 0 => none
  | n + 1 => c.nodes[n]?

def isDirectory (c : Catalogue) (ino : Ino) : Bool :=
  ((c.node? ino).map fun n => n.content.isDirectory).getD false

def number? (c : Catalogue) (parent : Ino) (name : ShortName) : Option Ino :=
  c.numbers[ChildKey.mk parent name]?

/-- Adds a node below `parent` and gives its number. -/
def insert (c : Catalogue) (parent : Ino) (name : ShortName) (kind : EntryKind) :
    Ino × Catalogue :=
  let content := match kind with
    | .directory => Content.emptyDirectory
    | .file => .file
  let ino := c.nodes.size + 1
  let nodes := (c.nodes.push ⟨name, content⟩).modify (parent - 1) fun n =>
    { n with content := n.content.addChild ino kind }
  (ino, ⟨nodes, c.numbers.insert ⟨parent, name⟩ ino⟩)

def add (parent : Ino) (name : ShortName) (kind : EntryKind) : Act Catalogue Ino := fun c =>
  let (ino, c) := c.insert parent name kind
  ⟨.ok ino, c, []⟩

/-- The directory of this name, which is added if there is nothing of this name. -/
def directoryAt (member : String) (parent : Ino) (name : ShortName) : Act Catalogue Ino := do
  let c ← Act.get
  match c.number? parent name with
  | none => add parent name .directory
  | some ino =>
    if c.isDirectory ino then return ino
    else Act.fail (.corrupt (.fileAndDirectory member name))

def fileAt (member : String) (parent : Ino) (name : ShortName) : Act Catalogue Unit := do
  let c ← Act.get
  match c.number? parent name with
  | none => do
    let _ ← add parent name .file
  | some _ => Act.fail (.corrupt (.duplicateMember member))

/-- The name that a component of a member's name stands for. -/
def componentName (member : String) (part : List Char) : Except Fault ShortName :=
  if part = [] ∨ part = ['.'] ∨ part = ['.', '.'] then
    .error (.corrupt (.badComponent member))
  else (ShortName.ofBytes (Utf8.encode part)).mapError fun cause =>
    .corrupt (.badMemberName member cause)

/-- Adds the rest of a member's path below `parent`. Only the last component can be a file. -/
def addPath (member : String) (kind : EntryKind) : Ino → List (List Char) → Act Catalogue Unit
  | _, [] => pure ()
  | parent, part :: rest => do
    let name ← Act.ofExcept (componentName member part)
    if rest = [] ∧ kind = .file then fileAt member parent name
    else do
      let ino ← directoryAt member parent name
      addPath member kind ino rest

/-- The components of a member's name. One slash at the end of a directory's name says nothing
more than that it is one. -/
def memberPath (member : String) (kind : EntryKind) : List (List Char) :=
  let text := member.toList
  pieces '/' (if kind = .directory ∧ text.getLast? = some '/' then text.dropLast else text)

def addMember (member : String) (kind : EntryKind) : Act Catalogue Unit := do
  let path := memberPath member kind
  if maxDepth < path.length then Act.fail (.corrupt (.memberTooDeep path.length))
  else addPath member kind rootIno path

def addMembers : List (String × EntryKind) → Act Catalogue Unit
  | [] => pure ()
  | (member, kind) :: rest => do
    addMember member kind
    addMembers rest

/-- The tree of a list of members. -/
def ofMembers (members : List (String × EntryKind)) : Except Fault Catalogue :=
  let o := addMembers members empty
  o.result.map fun _ => o.state

/-- The numbers of the children of one kind, in increasing order. -/
def children (c : Catalogue) (ino : Ino) (kind : EntryKind) : List Ino :=
  ((c.node? ino).map fun n => (n.content.children kind).toList).getD []

def nameOf (c : Catalogue) (ino : Ino) : ShortName :=
  ((c.node? ino).map CatalogueNode.name).getD ShortName.empty

def entries (c : Catalogue) (ino : Ino) (kind : EntryKind) : List Entry :=
  (c.children ino kind).map fun child => ⟨c.nameOf child, child⟩

end Catalogue
end SaveContainer
