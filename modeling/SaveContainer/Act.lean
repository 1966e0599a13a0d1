import SaveContainer.Event
import SaveContainer.Fault

/-!
Acts on a state. An act ends with a result or a fault, and in both cases with the state it has
reached and with the trace of what it did until then. A fault takes nothing back.
-/

namespace SaveContainer

/-- A call that a container made for observation, or its writer, has seen. -/
inductive Call where
  | opened (ino : Ino)
  | listed (kind : EntryKind) (ino : Ino)
  | got (kind : EntryKind) (ino : Ino) (index : Nat)
  | releasedList (kind : EntryKind) (ino : Ino)
  | released (ino : Ino)
  | failedList (kind : EntryKind) (ino : Ino)
  | failedOpen (name : ShortName)
  | flushed
  deriving DecidableEq

namespace Call

def listWord : EntryKind → String
  | .directory => "dirs"
  | .file => "files"

def line : Call → String
  | opened ino => s!"open {ino}"
  | listed kind ino => s!"list {listWord kind} {ino}"
  | got kind ino index => s!"get {listWord kind} {ino} {index}"
  | releasedList kind ino => s!"release {listWord kind} {ino}"
  | released ino => s!"release {ino}"
  | failedList kind ino => s!"fail list {listWord kind} {ino}"
  | failedOpen name => s!"fail open {name.display}"
  | flushed => "flush"

end Call

/-- One thing that an act did. -/
inductive Action where
  | call (c : Call)
  | event (e : Event)
  /-- A writer accepted these bytes. -/
  | wrote (bytes : List UInt8)
  deriving DecidableEq

/-- What an act did, in order. -/
abbrev Trace := List Action

namespace Trace

def calls (t : Trace) : List Call :=
  t.filterMap fun | .call c => some c | _ => none

def events (t : Trace) : List Event :=
  t.filterMap fun | .event e => some e | _ => none

def written (t : Trace) : List UInt8 :=
  t.flatMap fun | .wrote bytes => bytes | _ => []

/-- What was written, as text. -/
def text (t : Trace) : String :=
  String.ofList (Utf8.lossy t.written)

/-- The trace without what its writer saw. -/
def unwritten (t : Trace) : Trace :=
  t.filter fun | .wrote _ | .call .flushed => false | _ => true

end Trace

structure Outcome (σ α : Type) where
  result : Except Fault α
  state : σ
  trace : Trace

def Act (σ α : Type) := σ → Outcome σ α

namespace Act

variable {σ τ α β : Type}

def ofExcept (r : Except Fault α) : Act σ α :=
  fun s => ⟨r, s, []⟩

instance : Monad (Act σ) where
  pure a := ofExcept (.ok a)
  bind m f := fun s =>
    match m s with
    | ⟨.ok a, s', t⟩ =>
      let rest := f a s'
      ⟨rest.result, rest.state, t ++ rest.trace⟩
    | ⟨.error e, s', t⟩ => ⟨.error e, s', t⟩

def fail (e : Fault) : Act σ α :=
  ofExcept (.error e)

/-- Puts something into the trace. -/
def note (a : Action) : Act σ Unit :=
  fun s => ⟨.ok (), s, [a]⟩

def notes (t : Trace) : Act σ Unit :=
  fun s => ⟨.ok (), s, t⟩

def log (e : Event) : Act σ Unit :=
  note (.event e)

def get : Act σ σ :=
  fun s => ⟨.ok s, s, []⟩

def set (s : σ) : Act σ Unit :=
  fun _ => ⟨.ok (), s, []⟩

/-- Gives a failing act another fault. -/
def mapFault (f : Fault → Fault) (m : Act σ α) : Act σ α :=
  fun s => let o := m s; { o with result := o.result.mapError f }

/-- Adds `t` to the trace when the act has ended, also when it has failed. -/
def closing (t : Trace) (m : Act σ α) : Act σ α :=
  fun s => let o := m s; { o with trace := o.trace ++ t }

/-- Acts on a part of a larger state. -/
def within (part : τ → σ) (put : σ → τ → τ) (m : Act σ α) : Act τ α :=
  fun s => let o := m (part s); { o with state := put o.state s }

/-- Acts on the first of two states. -/
def onFirst (m : Act σ α) : Act (σ × τ) α :=
  m.within Prod.fst fun s st => (s, st.2)

/-- Acts on the second of two states. -/
def onSecond (m : Act τ α) : Act (σ × τ) α :=
  m.within Prod.snd fun t st => (st.1, t)

/-- Acts on `t` alone, and gives what has become of it. -/
def reaching (t : τ) (m : Act τ Unit) : Act σ τ :=
  fun s => let o := m t; ⟨o.result.map fun _ => o.state, s, o.trace⟩

end Act
end SaveContainer
