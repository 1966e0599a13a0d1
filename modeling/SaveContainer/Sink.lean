import SaveContainer.Act

/-!
Where printed lines go. A sink takes a line in pieces of limited size until its budget is used
up. A refused piece is either an error of the sink or a write of no bytes.
-/

namespace SaveContainer

/-- A missing limit is no limit. -/
structure Sink where
  budget : Option Nat
  chunk : Option Nat
  /-- Past the budget a write takes no bytes instead of failing. -/
  zeroAtEnd : Bool
  flushFails : Bool
  deriving DecidableEq

namespace Sink

/-- Accepts everything. -/
def unlimited : Sink := ⟨none, none, false, false⟩

/-- How many of `size` bytes one write takes at most. -/
def pieceSize (s : Sink) (size : Nat) : Nat :=
  match s.chunk with
  | none => size
  | some c => min size c

def fits (s : Sink) (size : Nat) : Bool :=
  match s.budget with
  | none => true
  | some left => size ≤ left

def spend (s : Sink) (size : Nat) : Sink :=
  { s with budget := s.budget.map (· - size) }

/-- One write: how many bytes it took. -/
def write (bytes : List UInt8) : Act Sink Nat := fun s =>
  let size := s.pieceSize bytes.length
  if s.fits size then ⟨.ok size, s.spend size, [.wrote (bytes.take size)]⟩
  else if s.zeroAtEnd then ⟨.ok 0, s, []⟩
  else ⟨.error (.io .writerClosed), s, []⟩

/-- Writes again and again until all bytes are taken, at most `tries` times. -/
def writeWithin : Nat → List UInt8 → Act Sink Unit
  | _, [] => pure ()
  | 0, _ :: _ => Act.fail (.io .nothingWritten)
  | tries + 1, b :: bytes => do
    let taken ← write (b :: bytes)
    if taken = 0 then Act.fail (.io .nothingWritten)
    else writeWithin tries ((b :: bytes).drop taken)

/-- Writes all bytes. Every write that does not fail takes at least one. -/
def writeAll (bytes : List UInt8) : Act Sink Unit :=
  writeWithin bytes.length bytes

def flush : Act Sink Unit := fun s =>
  ⟨if s.flushFails then .error (.io .flushFailed) else .ok (), s, [.call .flushed]⟩

/-- Lets an act write into memory: how it ended and what it wrote. The writer is no part of the
trace. -/
def buffered {σ α : Type} (m : Act (σ × Sink) α) :
    Act σ (Except Fault α × String) := fun s =>
  let o := m (s, unlimited)
  ⟨.ok (o.result, o.trace.text), o.state.1, o.trace.unwritten⟩

end Sink
end SaveContainer
