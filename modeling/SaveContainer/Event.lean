import SaveContainer.Entry
import SaveContainer.Path

/-!
What the log tells of a run: which event, how loud and in whose name, and its line.
-/

namespace SaveContainer

/-- From the most to the least urgent. -/
inductive Level where
  | error
  | warn
  | info
  | debug
  | trace
  deriving DecidableEq

namespace Level

def text : Level → String
  | error => "ERROR"
  | warn => "WARN"
  | info => "INFO"
  | debug => "DEBUG"
  | trace => "TRACE"

def rank : Level → Nat
  | error => 1
  | warn => 2
  | info => 3
  | debug => 4
  | trace => 5

end Level

inductive Event where
  | openerMade (base : Option Path)
  | printing (container : Path)
  | openedDirectorySave (root : Path)
  | indexed (members nodes : Nat)
  | openedSave (path : Path) (kind : SaveKind)
  | openDirectory (kind : SaveKind) (ino : Ino)
  | releaseDirectory (kind : SaveKind) (ino : Ino)
  | openList (ino : Ino) (kind : EntryKind)
  | listed (ino : Ino) (depth : Nat) (kind : EntryKind) (count : Nat)
  | file (ino : Ino)
  | releaseList (ino : Ino) (kind : EntryKind)
  deriving DecidableEq

namespace Event

def level : Event → Level
  | openerMade _ | printing _ | indexed _ _ | listed _ _ _ _ => .debug
  | openedSave _ _ => .info
  | _ => .trace

/-- The part of a target that names where a container keeps its tree. -/
def backendTarget : SaveKind → String
  | .directory => "savetree_core::host"
  | .archive => "savetree_core::archive"

def target : Event → String
  | openerMade _ | openedSave _ _ => "savetree_core::resource"
  | printing _ => "savetree"
  | openedDirectorySave _ => backendTarget .directory
  | indexed _ _ => backendTarget .archive
  | openDirectory kind _ | releaseDirectory kind _ => backendTarget kind
  | openList _ _ | listed _ _ _ _ | file _ | releaseList _ _ => "savetree_core::enumerate"

def countName : EntryKind → String
  | .directory => "dirs"
  | .file => "files"

def message : Event → String
  | openerMade base =>
    let shown := match base with
      | none => "None"
      | some path => s!"Some({Quoted.quoteBytes path.bytes})"
    "resource created config=ResourceConfig \x7b base_dir: " ++ shown ++ " \x7d"
  | printing container => s!"printing tree container={container.display}"
  | openedDirectorySave root => s!"opened host save root={root.display}"
  | indexed members nodes => s!"indexed archive members={members} nodes={nodes}"
  | openedSave path kind => s!"opened save path={path.display} kind=\"{kind.text}\""
  | openDirectory _ ino => s!"open dir ino={ino}"
  | releaseDirectory _ ino => s!"release dir ino={ino}"
  | openList ino kind => s!"open list ino={ino} kind={kind.listName}"
  | listed ino depth kind count =>
    s!"listed {kind.listName} ino={ino} depth={depth} {countName kind}={count}"
  | file ino => s!"file ino={ino}"
  | releaseList ino kind => s!"release list ino={ino} kind={kind.listName}"

/-- The names of the fields that an event has. The text in front of them is one, too. -/
def fields : Event → List String
  | openerMade _ => ["message", "config"]
  | printing _ => ["message", "container"]
  | openedDirectorySave _ => ["message", "root"]
  | indexed _ _ => ["message", "members", "nodes"]
  | openedSave _ _ => ["message", "path", "kind"]
  | openDirectory _ _ | releaseDirectory _ _ | file _ => ["message", "ino"]
  | openList _ _ | releaseList _ _ => ["message", "ino", "kind"]
  | listed _ _ kind _ => ["message", "ino", "depth", countName kind]

def line (e : Event) : String :=
  s!"{e.level.text} {e.target}: {e.message}"

end Event
end SaveContainer
