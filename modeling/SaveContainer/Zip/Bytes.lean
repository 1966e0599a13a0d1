import SaveContainer.Fault

/-!
Little-endian numbers and runs of bytes of an archive. Reading past the end is a fault of the
reader.
-/

namespace SaveContainer.Zip

/-- The number that `size` bytes from `place` on form, the least significant byte first. -/
def number? (data : ByteArray) (place : Nat) : (size : Nat) → Option Nat
  | 0 => some 0
  | size + 1 =>
    match data[place]?, number? data (place + 1) size with
    | some b, some rest => some (b.toNat + 256 * rest)
    | _, _ => none

def number (data : ByteArray) (place size : Nat) : Except ZipFault Nat :=
  match number? data place size with
  | some n => .ok n
  | none => .error (.io .endOfData)

def run (data : ByteArray) (place size : Nat) : Except ZipFault (List UInt8) :=
  if place + size ≤ data.size then .ok (data.extract place (place + size)).toList
  else .error (.io .endOfData)

/-- What an archive is read from. -/
inductive Medium where
  | memory
  | disk
  deriving DecidableEq

/-- Where the longest file on a disk ends. It has one block less than 32 bits can count, of 4096
bytes each. -/
def diskLimit : Nat := 0xFFFFFFFF * 4096

/-- Whether a reader may go to `place`, be it in the archive or behind its end. In memory every
place will do; on a disk it is one that a file could have. -/
def Medium.reaches : Medium → (place : Nat) → Bool
  | memory, _ => true
  | disk, place => place ≤ diskLimit

/-- Whether the four bytes at `place` form this number. -/
def hasSignature (data : ByteArray) (signature place : Nat) : Bool :=
  number? data place 4 == some signature

/-- The first place with the signature among `count` places from `place` downwards. -/
def findDown (data : ByteArray) (signature : Nat) : (count place : Nat) → Option Nat
  | 0, _ => none
  | count + 1, place =>
    if hasSignature data signature place then some place
    else findDown data signature count (place - 1)

/-- The first place with the signature among `count` places from `place` upwards. -/
def findUp (data : ByteArray) (signature : Nat) : (count place : Nat) → Option Nat
  | 0, _ => none
  | count + 1, place =>
    if hasSignature data signature place then some place
    else findUp data signature count (place + 1)

/-- Numbers of 64 bits are below this. -/
def wideLimit : Nat := 0x10000000000000000

/-- The value of a 16-bit field that says that its value is elsewhere. -/
def full16 : Nat := 0xFFFF

/-- The value of a 32-bit field that says that its value is elsewhere. -/
def full32 : Nat := 0xFFFFFFFF

end SaveContainer.Zip
