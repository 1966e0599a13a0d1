/-!
Code page 437, the character set of member names that are not marked as UTF-8.
-/

namespace SaveContainer.CodePage437

/-- The characters of the bytes from 0x80 on; those below are ASCII. -/
def upperHalf : List Char :=
  ("ÇüéâäàåçêëèïîìÄÅÉæÆôöòûùÿÖÜ¢£¥₧ƒ" ++
   "áíóúñÑªº¿⌐¬½¼¡«»░▒▓│┤╡╢╖╕╣║╗╝╜╛┐" ++
   "└┴┬├─┼╞╟╚╔╩╦╠═╬╧╨╤╥╙╘╒╓╫╪┘┌█▄▌▐▀" ++
   "αßΓπΣσµτΦΘΩδ∞φε∩≡±≥≤⌠⌡÷≈°∙·√ⁿ²■\u00a0").toList

def decodeByte (b : UInt8) : Char :=
  if b < 0x80 then Char.ofNat b.toNat else upperHalf.getD (b.toNat - 0x80) '?'

def decode (bytes : List UInt8) : List Char :=
  bytes.map decodeByte

end SaveContainer.CodePage437
