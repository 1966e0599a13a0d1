import SaveContainer.Event
import SaveContainer.Pattern.Reading
import SaveContainer.Text.Number
import SaveContainer.Text.Utf8

/-!
Which events are shown. A filter is a list of directives, each with the least urgent level that
it lets through. A directive may ask for the beginning of a target and for a field; for an event
the one that asks for most counts.
-/

namespace SaveContainer

structure Directive where
  /-- The empty target is where all others begin. -/
  target : List Char
  /-- An event needs a field of this name; the empty name asks for none. -/
  field : List Char
  /-- Only what happens within a span is meant. There are no spans. -/
  inSpan : Bool
  /-- The rank of the least urgent level; zero lets nothing through. -/
  rank : Nat
  deriving DecidableEq

abbrev LogFilter := List Directive

namespace Directive

def applies (d : Directive) (e : Event) : Bool :=
  !d.inSpan && d.target.isPrefixOf e.target.toList &&
    (d.field.isEmpty || e.fields.contains (String.ofList d.field))

/-- Whether `d` asks for as much as `other` or more. A longer target is more; of two targets of
one length the greater name of a field decides. -/
def outweighs (d other : Directive) : Bool :=
  match compare other.target.length d.target.length with
  | .lt => true
  | .eq => (compare other.field d.field).isLE
  | .gt => false

end Directive

namespace LogFilter

/-- The directive that counts; of two that ask for the same it is the later one. -/
def deciding (f : LogFilter) (e : Event) : Option Directive :=
  (f.filter fun d => d.applies e).foldl (fun best d =>
    match best with
    | some b => if d.outweighs b then some d else some b
    | none => some d) none

def shows (f : LogFilter) (e : Event) : Bool :=
  match deciding f e with
  | some d => e.level.rank ≤ d.rank
  | none => false

/-- All events down to a level. -/
def ofRank (rank : Nat) : LogFilter := [⟨[], [], false, rank⟩]

/-- The filter that the count of verbosity options asks for. -/
def ofVerbosity (count : Nat) : LogFilter :=
  ofRank (min (Level.warn.rank + count) Level.trace.rank)

/-- A decimal number, perhaps behind a plus sign. -/
def number? (word : List Char) : Option Nat :=
  let digits := if word.head? = some '+' then word.tail else word
  if digits = [] ∨ ¬digits.all Char.isDigit then none
  else some (digits.foldl (fun n c => 10 * n + (c.toNat - '0'.toNat)) 0)

/-- A level by its name or number. -/
def rank? (word : List Char) : Option Nat :=
  match number? word with
  | some n => if n ≤ Level.trace.rank then some n else none
  | none =>
    match String.ofList (word.map Char.toLower) with
    | "off" => some 0
    | "error" => some Level.error.rank
    | "warn" => some Level.warn.rank
    | "info" => some Level.info.rank
    | "debug" => some Level.debug.rank
    | "trace" => some Level.trace.rank
    | _ => none

/-- Lays a text over bytes, so that each character has the bytes at its own place. -/
def align : List Char → List UInt8 → List (Char × List UInt8)
  | [], _ => []
  | c :: rest, bytes => (c, bytes.take c.utf8Size) :: align rest (bytes.drop c.utf8Size)

/-- What stands in front of the first of some signs, and the rest from that sign on. -/
def cut (signs : List Char) (text : List (Char × List UInt8)) :
    List (Char × List UInt8) × List (Char × List UInt8) :=
  text.span fun c => !signs.contains c.1

def bytes (text : List (Char × List UInt8)) : List UInt8 :=
  text.flatMap Prod.snd

/-- What the bytes below a text say. -/
def content? (text : List (Char × List UInt8)) : Option (List Char) :=
  Utf8.decode? (bytes text)

/-- The rest of a directive that begins with its level; `left` is the end of that. Without a
level everything is shown. -/
def withLevel (d : Directive) (text : List (Char × List UInt8)) (left : List UInt8) :
    Option Directive := do
  match ← Utf8.decode? (bytes text ++ left) with
  | [] => some d
  | level => (rank? level).map fun rank => { d with rank }

/-- The rest of a directive behind its span. -/
def behindSpan (d : Directive) (text : List (Char × List UInt8)) (left : List UInt8) :
    Option Directive :=
  match text with
  | [] => some d
  | ('=', _) :: level => withLevel d level left
  | _ => none

/-- The value that a directive gives to a field is a number or a pattern. -/
def isValue (text : List Char) : Bool :=
  Text.isNumber text || Pattern.isPattern text

/-- The rest of a directive from the field on, which braces enclose. A field with a value is one
of spans. A second equals sign ends the value, and what follows it is passed over. -/
def fromField (d : Directive) (text : List (Char × List UInt8)) (left : List UInt8) :
    Option Directive :=
  match cut ['\x7d'] text with
  | ([], _) => none
  | (field, _ :: (']', _) :: rest) => do
    match (← content? field).span (· ≠ '=') with
    | (name, []) => behindSpan { d with field := name } rest left
    | (_, _ :: value) =>
      if isValue (value.takeWhile (· ≠ '=')) then behindSpan { d with inSpan := true } rest left
      else none
  | _ => none

/-- The rest of a directive from the span on, which brackets enclose. Only a field can stand
there without a name in front of it. -/
def fromSpan (d : Directive) (text : List (Char × List UInt8)) (left : List UInt8) :
    Option Directive :=
  match cut [']', '\x7b'] text with
  | (_, (']', _) :: rest) => behindSpan { d with inSpan := true } rest left
  | (name, _ :: rest) => fromField { d with inSpan := !name.isEmpty } rest left
  | (_, []) => none

def startsTarget (c : Char) : Bool :=
  Text.isAlphanumeric c || c == '-' || c == '_' || c == ':'

/-- A level alone, or a target, a span and a level, of which some may be missing. The signs
between them are looked for in the text without the blanks around it, but what they part is then
taken from the same bytes of the text with the blanks. -/
def directive? (text : List Char) : Option Directive :=
  let trimmed := Text.trim text
  let aligned := align trimmed (Utf8.encode text)
  let left := (Utf8.encode text).drop (Utf8.encode trimmed).length
  let everything : Directive := ⟨[], [], false, Level.trace.rank⟩
  match trimmed with
  | [] => none
  | '[' :: _ => fromSpan everything aligned.tail left
  | c :: _ =>
    if !startsTarget c then none
    else match cut ['=', '['] aligned with
      | (target, ('=', _) :: level) => do
        withLevel { everything with target := ← content? target } level left
      | (target, _ :: span) => do
        fromSpan { everything with target := ← content? target } span left
      | (_, []) =>
        some ((rank? text).elim { everything with target := text } fun rank =>
          { everything with rank })

/-- Directives between commas. Without any, only errors are shown. -/
def parse? (text : String) : Option LogFilter :=
  match ((pieces ',' text.toList).filter (· ≠ [])).mapM directive? with
  | some [] => some (ofRank Level.error.rank)
  | other => other

end LogFilter
end SaveContainer
