/-!
Control sequences of terminals: how a text asks for bold letters, and what is left of a text
when its sequences are taken out. Main statement: a text of shown characters alone stays as
it is.
-/

namespace SaveContainer.Terminal

def bold (text : String) : String :=
  "\x1b[1m" ++ text ++ "\x1b[0m"

/-- Bold and underlined. -/
def heading (text : String) : String :=
  "\x1b[1m\x1b[4m" ++ text ++ "\x1b[0m"

/-- What a terminal takes the next character for. -/
inductive Mode where
  /-- No sequence is open. -/
  | ground
  /-- The character behind the escape character says which sequence begins. -/
  | escape
  /-- The sequence ends at its first letter, digit or sign above the digits. -/
  | escapeSigns
  /-- The sequence ends at its first letter or sign around the letters. -/
  | control
  /-- A control sequence for a device, which its data follow. -/
  | device
  | deviceNumbers
  | deviceSigns
  /-- Data up to the string terminator. -/
  | data
  /-- A command up to the bell. -/
  | command
  deriving DecidableEq

def breaks : List Char := ['\t', '\n', '\x0c', '\r']

/-- Whether a terminal shows `c` when no sequence is open. -/
def isShown (c : Char) : Bool :=
  breaks.contains c || (' ' ≤ c && c ≤ '~') || 0x7F < c.toNat

/-- The string terminator is a byte, and it is found in the written form of other characters
too. -/
def endsData (c : Char) : Bool :=
  (String.utf8EncodeChar c).contains 0x9C

namespace Mode

/-- Whether `c` is shown where it stands. Breaks are, even in the middle of a sequence. -/
def shows (m : Mode) (c : Char) : Bool :=
  match m with
  | .ground => isShown c
  | .escape | .escapeSigns | .control => breaks.contains c
  | .device | .deviceNumbers | .deviceSigns | .data | .command => false

/-- The mode after a character that is not shown. Two characters break off any sequence, and
the escape character begins another one. -/
def next (m : Mode) (c : Char) : Mode :=
  if c = '\x18' ∨ c = '\x1a' then .ground
  else if c = '\x1b' then .escape
  else match m with
    | .ground => .ground
    | .escape =>
      if ' ' ≤ c ∧ c ≤ '/' then .escapeSigns
      else if c = '[' then .control
      else if c = 'P' then .device
      else if c = ']' then .command
      else if c = 'X' ∨ c = '^' ∨ c = '_' then .data
      else if '0' ≤ c ∧ c ≤ '~' then .ground
      else .escape
    | .escapeSigns => if '0' ≤ c ∧ c ≤ '~' then .ground else .escapeSigns
    | .control => if '@' ≤ c ∧ c ≤ '~' then .ground else .control
    | .device =>
      if ' ' ≤ c ∧ c ≤ '/' then .deviceSigns
      else if '0' ≤ c ∧ c ≤ '?' then .deviceNumbers
      else if '@' ≤ c ∧ c ≤ '~' then .data
      else .device
    | .deviceNumbers =>
      if ' ' ≤ c ∧ c ≤ '/' then .deviceSigns
      else if '<' ≤ c ∧ c ≤ '~' then .data
      else .deviceNumbers
    | .deviceSigns => if '0' ≤ c ∧ c ≤ '~' then .data else .deviceSigns
    | .data => if endsData c then .ground else .data
    | .command => if c = '\x07' then .ground else .command

end Mode

/-- The shown characters. What follows a shown character is `flowing`: it is shown as if no
sequence were open, up to the next control character, where an open sequence goes on. -/
def shown (m : Mode) (flowing : Bool) : List Char → List Char
  | [] => []
  | c :: rest =>
    if (flowing && isShown c) || m.shows c then
      c :: shown (if c.toNat ≤ 0x7F then m else .ground) true rest
    else shown (m.next c) false rest

/-- The text without control sequences, and without the other control characters. -/
def plain (text : String) : String :=
  String.ofList (shown .ground false text.toList)

theorem shown_ground {text : List Char} (h : ∀ c ∈ text, isShown c) (flowing : Bool) :
    shown .ground flowing text = text := by
  induction text generalizing flowing with
  | nil => rfl
  | cons c rest ih =>
      have hc : Mode.ground.shows c := h c List.mem_cons_self
      simp [shown, hc, ih fun d hd => h d (List.mem_cons_of_mem c hd)]

/-- A text of shown characters stays as it is. -/
theorem plain_eq_self {text : String} (h : ∀ c ∈ text.toList, isShown c) :
    plain text = text := by
  rw [plain, shown_ground h, String.ofList_toList]

end SaveContainer.Terminal
