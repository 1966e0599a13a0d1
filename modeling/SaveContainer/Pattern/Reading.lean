import SaveContainer.Pattern.Bracket
import SaveContainer.Text.Alphanumeric

/-!
Which texts are patterns. A pattern is read from left to right, with the groups that are open
around the place of the reading. It stands between braces, so that a brace in it is never closed
and no count of repetitions can be given.
-/

namespace SaveContainer.Pattern

/-- What a part of a pattern tells about itself. -/
structure Part where
  /-- Flags cannot be repeated. -/
  repeatable : Bool
  depth : Nat
  deriving DecidableEq

/-- A group that is not closed yet. -/
structure Group where
  flags : Flags
  /-- The parts of the alternative that is read, the last one first. -/
  parts : List Part
  /-- How deep the alternatives before it go. -/
  alternatives : Option Nat
  deriving DecidableEq

namespace Group

def opened (f : Flags) : Group := ⟨f, [], none⟩

def depth (g : Group) : Nat :=
  let parts := rowDepth (g.parts.map Part.depth)
  g.alternatives.elim parts fun depth => max depth (1 + parts)

def add (g : Group) (part : Part) : Group :=
  { g with parts := part :: g.parts }

/-- Begins another alternative. -/
def addBar (g : Group) : Group :=
  ⟨g.flags, [], some (max (g.alternatives.getD 0) (1 + rowDepth (g.parts.map Part.depth)))⟩

/-- Repeats the last part. -/
def repeated? (g : Group) : Option Group :=
  match g.parts with
  | ⟨true, depth⟩ :: parts => some { g with parts := ⟨true, 1 + depth⟩ :: parts }
  | _ => none

end Group

/-- What was read of a pattern. -/
structure Reading where
  here : Group
  /-- The groups around it, the innermost first. -/
  around : List Group
  /-- The names of groups. -/
  names : List (List Char)
  deriving DecidableEq

namespace Reading

def start : Reading := ⟨.opened .initial, [], []⟩

def add (r : Reading) (depth : Nat) : Reading :=
  { r with here := r.here.add ⟨true, depth⟩ }

def openGroup (r : Reading) (f : Flags) : Reading :=
  { r with here := .opened f, around := r.here :: r.around }

/-- The flags within a group do not last longer than it. -/
def closeGroup? (r : Reading) : Option Reading :=
  match r.around with
  | [] => none
  | g :: around => some { r with here := g.add ⟨true, 1 + r.here.depth⟩, around }

def isName : List Char → Bool
  | [] => false
  | c :: rest =>
    (c == '_' || Text.isAlphabetic c) &&
      rest.all fun c => ['_', '.', '[', ']'].contains c || Text.isAlphanumeric c

/-- Opens a group with a name. No two groups have the same name. -/
def openNamed? (r : Reading) (text : List Char) : Option (Reading × List Char) :=
  match text.span (· ≠ '>') with
  | (name, _ :: rest) =>
    if isName name ∧ name ∉ r.names then
      some ({ r.openGroup r.here.flags with names := name :: r.names }, rest)
    else none
  | _ => none

/-- Reads flags for a group that they open, or for the rest of the group they stand in. -/
def flags? (r : Reading) (text : List Char) : Option (Reading × List Char) := do
  let (list, rest) := text.span fun c => c ≠ ':' && c ≠ ')'
  let flags ← r.here.flags.change? list
  match rest with
  | ':' :: rest => some (r.openGroup flags, rest)
  | _ :: rest =>
    if list = [] then none
    else some ({ r with here := { r.here.add ⟨false, 0⟩ with flags } }, rest)
  | [] => none

/-- Reads on behind a parenthesis that opens. -/
def open? (r : Reading) : List Char → Option (Reading × List Char)
  | '?' :: 'P' :: '<' :: rest | '?' :: '<' :: rest => r.openNamed? rest
  | '?' :: rest => r.flags? rest
  | rest => some (r.openGroup r.here.flags, rest)

/-- Reads a part of the pattern or a sign between parts. -/
def step? (r : Reading) : List Char → Option (Reading × List Char)
  | '(' :: rest => r.open? (r.here.flags.skip rest)
  | ')' :: rest => do some (← r.closeGroup?, rest)
  | '|' :: rest => some ({ r with here := r.here.addBar }, rest)
  | '[' :: rest => do
    let (depth, rest) ← Bracket.read? r.here.flags rest
    some (r.add depth, rest)
  | '?' :: rest | '*' :: rest | '+' :: rest => do
    let here ← r.here.repeated?
    some ({ r with here }, if rest.head? = some '?' then rest.tail else rest)
  | '\x7b' :: _ => none
  | text => do
    let (piece, rest) ← Piece.read? r.here.flags text
    if piece.isAllowed r.here.flags then some (r.add 0, rest) else none

/-- How deep a pattern may go. -/
def depthLimit : Nat := 250

/-- Reads to the end. What is read gets shorter by each step, so that its length is fuel
enough. -/
def finish (fuel : Nat) (r : Reading) (text : List Char) : Bool :=
  match r.here.flags.skip text, fuel with
  | [], _ => r.around.isEmpty && r.here.depth ≤ depthLimit
  | _, 0 => false
  | text, fuel + 1 => (r.step? text).elim false fun (r, rest) => finish fuel r rest

end Reading

/-- Whether a text is a pattern. -/
def isPattern (text : List Char) : Bool :=
  Reading.start.finish text.length text

end SaveContainer.Pattern
