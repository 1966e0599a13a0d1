/-!
Which texts are numbers: decimal ones, perhaps with a point and a power of ten, and the words for
what is infinite or no number.
-/

namespace SaveContainer.Text

def isDigits (text : List Char) : Bool :=
  !text.isEmpty && text.all Char.isDigit

def unsigned : List Char → List Char
  | '+' :: rest | '-' :: rest => rest
  | text => text

/-- A point may stand at either end of the digits. -/
def isDecimal (text : List Char) : Bool :=
  let (digits, power) := text.span (· ≠ 'e')
  let (whole, part) := digits.span (· ≠ '.')
  isDigits (whole ++ part.tail) && (power.isEmpty || isDigits (unsigned power.tail))

def isNumber (text : List Char) : Bool :=
  let word := unsigned (text.map Char.toLower)
  ["inf", "infinity", "nan"].contains (String.ofList word) || isDecimal word

end SaveContainer.Text
