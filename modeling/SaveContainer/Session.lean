import SaveContainer.Disk.Change
import SaveContainer.Opener

/-!
Sessions of named handles. A step opens, asks or releases something, or changes the disk; what
it makes is kept under a name, and what was there before is released then. A step that fails
keeps nothing. A table of numbers goes with the last handle that shares it.
-/

namespace SaveContainer

inductive Held where
  | opener (o : Opener)
  | save (s : Save)
  | directory (d : OpenDirectory)
  | list (entries : List Entry)

namespace Held

/-- What releasing a handle shows. -/
def released : Held → Trace
  | directory d => d.released
  | _ => []

def opener? : Held → Option Opener
  | opener o => some o
  | _ => none

def save? : Held → Option Save
  | save s => some s
  | _ => none

def directory? : Held → Option OpenDirectory
  | directory d => some d
  | _ => none

def list? : Held → Option (List Entry)
  | list entries => some entries
  | _ => none

/-- The place of the table that the handle shares with others. -/
def place? : Held → Option Nat
  | save (.extracted place) | directory (.extracted place _) => some place
  | _ => none

end Held

structure Session where
  world : World
  held : Std.TreeMap String Held

namespace Session

/-- In the steps that make something, `under` is the name to keep it under. -/
inductive Step where
  | change (c : Change)
  | makeOpener (base : Option Path) (under : Option String)
  | resolve (on : String) (path : Path)
  | openSave (on : String) (path : Path) (under : Option String)
  | openExtracted (path : Path) (under : Option String)
  | openPacked (path : Path) (under : Option String)
  | openBytes (data : ByteArray) (under : Option String)
  | kind (on : String)
  | text (on : String)
  | print (on : String)
  | openRoot (on : String) (under : Option String)
  | openDirectory (on : String) (ino : Ino) (under : Option String)
  | duplicate (on : String) (under : Option String)
  | ino (on : String)
  | list (on : String) (kind : EntryKind) (under : Option String)
  | subdirectory (on : String) (name : List UInt8) (under : Option String)
  | printBelow (on : String) (depth : Nat)
  | names (on : String)
  | size (on : String)
  | entry (on : String) (index : Nat)
  | same (on other : String)
  | release (on : String)

inductive Answer where
  | done
  | text (t : String)
  | path (p : Path)
  | kind (k : SaveKind)
  | ino (i : Ino)
  | entries (es : List Entry)
  | names (ns : List ShortName)
  | size (n : Nat)
  | entry (e : Entry)
  | flag (b : Bool)
  /-- How printing ended, and what was printed. -/
  | printed (result : Except Fault Unit) (text : String)
  /-- There is no handle of this name that could be asked this. -/
  | noHandle
  | outOfRange
  | changeFailed

/-- What becomes of handles at the end of a step. -/
inductive Move where
  | none
  | keep (under : Option String) (h : Held)
  | release (name : String)

namespace Move

/-- A handle that was made is kept under a name, or released if there is no name for it. -/
def apply : Move → Std.TreeMap String Held → Std.TreeMap String Held
  | keep (some name) h, held => held.insert name h
  | release name, held => held.erase name
  | _, held => held

def released (held : Std.TreeMap String Held) : Move → Trace
  | none => []
  | keep .none h => h.released
  | keep (some name) _ | release name => (held[name]?.map Held.released).getD []

end Move

section Act

variable (held : String → Option Held)

/-- Works on a handle, if there is one of this name that can be asked this. -/
def withHeld {α : Type} (as? : Held → Option α) (on : String)
    (f : α → Act World (Answer × Move)) : Act World (Answer × Move) :=
  match (held on).bind as? with
  | some a => f a
  | none => return (.noHandle, .none)

def answer (a : Answer) : Act World (Answer × Move) :=
  return (a, .none)

def keepSave (under : Option String) (s : Save) : Act World (Answer × Move) :=
  return (.done, .keep under (.save s))

def keepDirectory (under : Option String) (d : OpenDirectory) : Act World (Answer × Move) :=
  return (.ino d.ino, .keep under (.directory d))

def printed (m : Act (World × Sink) Unit) : Act World (Answer × Move) := do
  let (result, text) ← Sink.buffered m
  answer (.printed result text)

/-- What a step does with the handles that it works on, and what becomes of handles then. -/
def act : Step → Act World (Answer × Move)
  | .change c => do
    let w ← Act.get
    match w.disk.apply c with
    | some disk => do
      Act.set { w with disk }
      answer .done
    | none => answer .changeFailed
  | .makeOpener base under => do
    let o ← Opener.new base
    return (.done, .keep under (.opener o))
  | .resolve on path => withHeld held Held.opener? on fun o => answer (.path (o.resolve path))
  | .openSave on path under => withHeld held Held.opener? on fun o => do
    let s ← o.openSave path
    return (.kind s.kind, .keep under (.save s))
  | .openExtracted path under => do keepSave under (← Save.ofDirectory path)
  | .openPacked path under => do keepSave under (← Save.ofArchive path)
  | .openBytes data under => do keepSave under (.packed (← Packed.ofBytes .memory data))
  | .kind on => withHeld held Held.save? on fun s => answer (.kind s.kind)
  | .text on => withHeld held Held.save? on fun s => do answer (.text (← s.text))
  | .print on => withHeld held Held.save? on fun s => printed s.print
  | .openRoot on under => withHeld held Held.save? on fun s => do
    keepDirectory under (← s.openDirectory rootIno)
  | .openDirectory on ino under => withHeld held Held.save? on fun s => do
    keepDirectory under (← s.openDirectory ino)
  | .duplicate on under => withHeld held Held.save? on (keepSave under)
  | .ino on => withHeld held Held.directory? on fun d => answer (.ino d.ino)
  | .list on kind under => withHeld held Held.directory? on fun d => do
    let entries ← d.list kind
    return (.entries entries, .keep under (.list entries))
  | .subdirectory on name under => withHeld held Held.directory? on fun d => do
    let name ← Act.ofExcept ((ShortName.ofBytes name).mapError Fault.badName)
    keepDirectory under (← d.subdirectory name)
  | .printBelow on depth => withHeld held Held.directory? on fun d => printed (d.printBelow depth)
  | .names on => withHeld held Held.list? on fun entries => answer (.names (entries.map Entry.name))
  | .size on => withHeld held Held.list? on fun entries => answer (.size entries.length)
  | .entry on index => withHeld held Held.list? on fun entries =>
    answer ((entries[index]?.map Answer.entry).getD .outOfRange)
  | .same on other => withHeld held Held.list? on fun entries =>
    withHeld held Held.list? other fun others => answer (.flag (entries == others))
  | .release on => return (.flag (held on).isSome, .release on)

end Act

def handle? (s : Session) (name : String) : Option Held :=
  s.held[name]?

/-- Whether a handle that is held shares the table at a place. -/
def shares (s : Session) (place : Nat) : Bool :=
  s.held.toList.any fun e => e.2.place? = some place

/-- The session without the tables that no handle shares any more. -/
def swept (s : Session) : Session :=
  let kept place t := if s.shares place then t else PathTable.empty
  { s with world := { s.world with tables := s.world.tables.mapIdx kept } }

def step (st : Step) : Act Session Answer := do
  let s ← Act.get
  let (answer, move) ← (act s.handle? st).within world fun w s => { s with world := w }
  Act.notes (move.released s.held)
  Act.set (swept ⟨(← Act.get).world, move.apply s.held⟩)
  return answer

/-- What each step came to: its answer or fault, and what it left in the trace. -/
def run : List Step → Session → List (Except Fault Answer × Trace)
  | [], _ => []
  | st :: rest, s =>
    let o := step st s
    (o.result, o.trace) :: run rest o.state

/-- Starts with nothing open. -/
def start (disk : Disk) : Session :=
  ⟨⟨disk, #[]⟩, ∅⟩

end Session
end SaveContainer
