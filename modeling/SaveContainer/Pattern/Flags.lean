import SaveContainer.Text.Blank

/-!
The flags of a pattern. One of them lets blanks and comments stand between the pieces of the
pattern; the functions that go past these are here too.
-/

namespace SaveContainer.Pattern

/-- The flags that bear on what may stand in a pattern. -/
structure Flags where
  /-- A letter stands for its other case too. -/
  caseless : Bool
  /-- The pattern is about characters, not about bytes. -/
  unicode : Bool
  /-- Blanks and comments are passed over. -/
  spaced : Bool
  deriving DecidableEq

namespace Flags

/-- The flags where no others are set. -/
def initial : Flags := ⟨false, true, false⟩

/-- All flags by their letters. -/
def letters : List Char := ['i', 'm', 's', 'U', 'u', 'R', 'x']

/-- Sets the flags that a list names, and puts out those behind its dash. No letter stands there
twice, and a dash does not stand last. -/
def change? (f : Flags) (list : List Char) : Option Flags :=
  let on := list.takeWhile (· ≠ '-')
  let off := (list.dropWhile (· ≠ '-')).tail
  let value (letter : Char) (before : Bool) := on.contains letter || before && !off.contains letter
  if (on ++ off).all letters.contains ∧ (on ++ off).Nodup ∧ list.getLast? ≠ some '-' then
    some ⟨value 'i' f.caseless, value 'u' f.unicode, value 'x' f.spaced⟩
  else none

/-- Goes past blanks and comments. A comment starts with a number sign and ends with its line. -/
def behindBlanks (inComment : Bool) : List Char → List Char
  | [] => []
  | c :: rest =>
    if inComment then behindBlanks (c ≠ '\n') rest
    else if Text.isBlank c then behindBlanks false rest
    else if c = '#' then behindBlanks true rest
    else c :: rest

def skip (f : Flags) (text : List Char) : List Char :=
  if f.spaced then behindBlanks false text else text

/-- The character that stands next. Of a comment only the number sign is passed over here. -/
def peek (f : Flags) (text : List Char) : Option Char :=
  if f.spaced then
    match text.dropWhile Text.isBlank with
    | '#' :: rest => (rest.dropWhile Text.isBlank).head?
    | rest => rest.head?
  else text.head?

end Flags

end SaveContainer.Pattern
