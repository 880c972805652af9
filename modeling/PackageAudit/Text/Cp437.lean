/-
Text from code page 437, in which each byte is one character.
-/
namespace PackageAudit.Text.Cp437

/-- The characters of the bytes from 0x80 on. -/
def upper : Array Char :=
  ("ÇüéâäàåçêëèïîìÄÅÉæÆôöòûùÿÖÜ¢£¥₧ƒ" ++
    "áíóúñÑªº¿⌐¬½¼¡«»░▒▓│┤╡╢╖╕╣║╗╝╜╛┐" ++
    "└┴┬├─┼╞╟╚╔╩╦╠═╬╧╨╤╥╙╘╒╓╫╪┘┌█▄▌▐▀" ++
    "αßΓπΣσµτΦΘΩδ∞φε∩≡±≥≤⌠⌡÷≈°∙·√ⁿ²■\u00a0").toList.toArray

/-- The character of a byte.  Below 0x80 it is the ASCII character. -/
def charOf (b : UInt8) : Char :=
  if b.toNat < 0x80 then Char.ofNat b.toNat else upper.getD (b.toNat - 0x80) '\uFFFD'

/-- The text of a byte sequence. -/
def decode (bytes : List UInt8) : String := String.ofList (bytes.map charOf)

end PackageAudit.Text.Cp437
