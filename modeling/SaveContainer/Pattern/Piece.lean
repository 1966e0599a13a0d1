import SaveContainer.Pattern.Flags

/-!
The smallest pieces of a pattern: a character that stands for itself, or an escape sequence.
-/

namespace SaveContainer.Pattern

inductive Piece where
  /-- A character that stands for itself; `byte` if its number was given as that of a byte. -/
  | literal (c : Char) (byte : Bool)
  /-- The digits, the blanks or the characters of words, or all other characters. -/
  | kind (negated : Bool)
  /-- Any character. -/
  | anything
  /-- The start or the end of the text. -/
  | edge
  /-- A place at the start or the end of a word, or any other place. -/
  | wordEdge
  deriving DecidableEq

namespace Piece

/-- Whether the piece may stand outside of brackets. What needs a table of characters may not,
nor what may stand for a part of a character. -/
def isAllowed (f : Flags) : Piece → Bool
  | .literal c byte => if f.unicode then !f.caseless else !byte || c.toNat ≤ 0x7F
  | .kind negated => !f.unicode && !negated
  | .anything => f.unicode
  | .edge => true
  | .wordEdge => !f.unicode

/-- Whether the piece may stand in brackets, which hold characters. -/
def isMember (f : Flags) : Piece → Bool
  | .literal c _ => if f.unicode then !f.caseless else c.toNat ≤ 0x7F
  | .kind negated => !f.unicode && !negated
  | .anything | .edge | .wordEdge => false

/-- Control characters by the letters that stand for them. -/
def controls : List (Char × Char) :=
  [('a', '\x07'), ('f', '\x0c'), ('n', '\n'), ('r', '\r'), ('t', '\t'), ('v', '\x0b')]

def hexDigit? (c : Char) : Option Nat :=
  if '0' ≤ c ∧ c ≤ '9' then some (c.toNat - '0'.toNat)
  else if 'a' ≤ c ∧ c ≤ 'f' then some (c.toNat - 'a'.toNat + 10)
  else if 'A' ≤ c ∧ c ≤ 'F' then some (c.toNat - 'A'.toNat + 10)
  else none

/-- Reads so many more digits of a number. -/
def hexNumber? (f : Flags) : Nat → Nat → List Char → Option (Nat × List Char)
  | 0, number, text => some (number, text)
  | digits + 1, number, text =>
    match f.skip text with
    | [] => none
    | c :: rest => do hexNumber? f digits (16 * number + (← hexDigit? c)) rest

/-- Reads a character by its number. -/
def numbered? (f : Flags) (digits : Nat) (text : List Char) : Option (Piece × List Char) := do
  let (number, rest) ← hexNumber? f digits 0 text
  if number.isValidChar then some (.literal (Char.ofNat number) (digits = 2), rest) else none

/-- Reads what stands behind a backslash. A number there would refer to a group, which is not
possible, and the names of properties are not known. -/
def escaped? (f : Flags) : List Char → Option (Piece × List Char)
  | [] => none
  | 'x' :: rest => numbered? f 2 rest
  | 'u' :: rest => numbered? f 4 rest
  | 'U' :: rest => numbered? f 8 rest
  | c :: rest =>
    if ['d', 's', 'w'].contains c then some (.kind false, rest)
    else if ['D', 'S', 'W'].contains c then some (.kind true, rest)
    else if ['A', 'z'].contains c then some (.edge, rest)
    else if ['b', 'B', '<', '>'].contains c then some (.wordEdge, rest)
    else match controls.lookup c with
      | some control => some (.literal control false, rest)
      | none =>
        if c.toNat ≤ 0x7F ∧ !c.isAlphanum then some (.literal c false, rest) else none

/-- Reads a piece in brackets. -/
def member? (f : Flags) : List Char → Option (Piece × List Char)
  | [] => none
  | '\\' :: rest => escaped? f rest
  | c :: rest => some (.literal c false, rest)

/-- Reads a piece outside of brackets. -/
def read? (f : Flags) : List Char → Option (Piece × List Char)
  | '.' :: rest => some (.anything, rest)
  | '^' :: rest | '$' :: rest => some (.edge, rest)
  | text => member? f text

end Piece

end SaveContainer.Pattern
