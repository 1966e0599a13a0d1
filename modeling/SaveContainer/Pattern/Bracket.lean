import SaveContainer.Pattern.Piece

/-!
Brackets of a pattern, which stand for one of the characters they hold. They hold characters,
ranges, kinds of characters by name, and other brackets, and two operands may be joined by an
operator on sets. What is told about them is how deep they go.
-/

namespace SaveContainer.Pattern

/-- How deep a row of parts goes. More than one part makes a level of its own. -/
def rowDepth : List Nat → Nat
  | [] => 0
  | [depth] => depth
  | depths => 1 + depths.foldl max 0

/-- Brackets that are not closed yet. -/
structure Bracket where
  /-- Only dashes were read. Here a dash stands for itself. -/
  atStart : Bool
  /-- How deep the members behind the last operator go. -/
  members : List Nat
  /-- How deep the operand in front of the last operator goes. -/
  operand : Option Nat
  deriving DecidableEq

namespace Bracket

def opened : Bracket := ⟨true, [], none⟩

def depth (b : Bracket) : Nat :=
  let members := rowDepth b.members
  b.operand.elim members fun operand => 1 + max operand members

def add (b : Bracket) (depth : Nat) : Bracket :=
  { b with atStart := false, members := depth :: b.members }

/-- A dash that stands for itself. -/
def addDash (b : Bracket) : Bracket :=
  { b with members := 0 :: b.members }

/-- All that was read becomes the first operand of an operator. -/
def addOperator (b : Bracket) : Bracket :=
  ⟨false, [], some b.depth⟩

/-- The names of kinds of characters. -/
def kinds : List String :=
  ["alnum", "alpha", "ascii", "blank", "cntrl", "digit", "graph", "lower", "print", "punct",
   "space", "upper", "word", "xdigit"]

/-- Reads the name of a kind behind a bracket. It stands between colons; a caret in front of it
means all other characters, which the first component says. -/
def named? : List Char → Option (Bool × List Char)
  | ':' :: text =>
    let negated := text.head? = some '^'
    match (if negated then text.tail else text).span (· ≠ ':') with
    | (name, ':' :: ']' :: rest) =>
      if kinds.contains (String.ofList name) then some (negated, rest) else none
    | _ => none
  | _ => none

/-- Whether a kind by name may stand in brackets. -/
def allowsKind (f : Flags) (negated : Bool) : Bool :=
  if f.unicode then !f.caseless else !negated

/-- Reads a caret behind a bracket. Among bytes it would stand for parts of characters. -/
def caret? (f : Flags) (text : List Char) : Option (List Char) :=
  match f.skip text with
  | '^' :: rest => if f.unicode then some rest else none
  | rest => some rest

/-- Reads a piece or a range. A dash in front of another one or a bracket makes no range. -/
def range? (f : Flags) (text : List Char) : Option (List Char) := do
  let (first, rest) ← Piece.member? f text
  let rest := f.skip rest
  let alone := if first.isMember f then some rest else none
  match rest with
  | '-' :: behind =>
    if f.peek behind = some '-' ∨ f.peek behind = some ']' then alone
    else
      let (last, rest) ← Piece.member? f (f.skip behind)
      match first, last with
      | .literal a _, .literal b _ =>
        if a ≤ b ∧ first.isMember f ∧ last.isMember f then some rest else none
      | _, _ => none
  | _ => alone

/-- Reads up to the bracket that closes `here` and the brackets around it, the innermost of them
first. What is read gets shorter by each step, so that its length is fuel enough. -/
def close? (f : Flags) : Nat → Bracket → List Bracket → List Char → Option (Nat × List Char)
  | 0, _, _, _ => none
  | fuel + 1, here, around, text =>
    let sign (c : Char) := (Piece.literal c false).isMember f
    match f.skip text with
    | [] => none
    | '-' :: rest =>
      if here.atStart then
        if sign '-' then close? f fuel here.addDash around rest else none
      else if rest.head? = some '-' then close? f fuel here.addOperator around rest.tail
      else do close? f fuel (here.add 0) around (← range? f ('-' :: rest))
    | ']' :: rest =>
      if here.atStart ∧ here.members = [] then
        if sign ']' then close? f fuel (here.add 0) around rest else none
      else
        match around with
        | [] => some (1 + here.depth, rest)
        | b :: around => close? f fuel (b.add (1 + here.depth)) around rest
    | '[' :: rest =>
      match named? rest with
      | some (negated, rest) =>
        if allowsKind f negated then close? f fuel (here.add 0) around rest else none
      | none => do close? f fuel opened (here :: around) (← caret? f rest)
    | '&' :: '&' :: rest | '~' :: '~' :: rest => close? f fuel here.addOperator around rest
    | text => do close? f fuel (here.add 0) around (← range? f text)

/-- Reads brackets from behind the first one, and tells how deep they go. -/
def read? (f : Flags) (text : List Char) : Option (Nat × List Char) := do
  close? f text.length opened [] (← caret? f text)

end Bracket

end SaveContainer.Pattern
