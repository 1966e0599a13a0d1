import SaveContainer.Text.Printable
import SaveContainer.Text.Utf8

/-!
Quoted texts for messages: double quotes, with an escape for each character that would not
show as itself. Bytes that are no character are written by their value.
-/

namespace SaveContainer.Quoted

/-- The number of a character in lower-case hexadecimal, without leading zeros. -/
def numberEscape (c : Char) : List Char :=
  "\\u\x7b".toList ++ Nat.toDigits 16 c.toNat ++ ['\x7d']

def escape (c : Char) : List Char :=
  match c with
  | '"' => ['\\', '"']
  | '\\' => ['\\', '\\']
  | '\n' => ['\\', 'n']
  | '\r' => ['\\', 'r']
  | '\t' => ['\\', 't']
  | '\x00' => ['\\', '0']
  | c => if Text.isPrintable c then [c] else numberEscape c

def quote (text : List Char) : String :=
  String.ofList ('"' :: text.flatMap escape ++ ['"'])

def byteEscape (b : UInt8) : List Char :=
  ['\\', 'x', (Nat.digitChar (b.toNat / 16)).toUpper, (Nat.digitChar (b.toNat % 16)).toUpper]

/-- Escapes bytes, passing over `skip` of them that were dealt with last. -/
def escapeBytesFrom : Nat → List UInt8 → List Char
  | _, [] => []
  | skip + 1, _ :: rest => escapeBytesFrom skip rest
  | 0, b :: rest =>
    match Utf8.front? (b :: rest) with
    | some c => escape c ++ escapeBytesFrom (c.utf8Size - 1) rest
    | none => byteEscape b ++ escapeBytesFrom 0 rest

/-- Quotes bytes that need not be UTF-8. -/
def quoteBytes (bytes : List UInt8) : String :=
  String.ofList ('"' :: escapeBytesFrom 0 bytes ++ ['"'])

end SaveContainer.Quoted
