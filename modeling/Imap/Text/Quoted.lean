import Imap.Bytes
import Imap.Text.Printable

namespace Imap.Text

/-- `width` hexadecimal digits of `n`, the least significant last. -/
def hex : Nat → Nat → List Char
  | 0, _ => []
  | width + 1, n => hex width (n / 16) ++ [(n % 16).digitChar]

/-- An apostrophe, unless the text holds one and no double quote. -/
def quoteOf (s : List Char) : Char := if s.contains '\'' && !s.contains '"' then '"' else '\''

/-- The escapes that every quoted form has: the quote in use, the backslash and three controls. -/
def shortEscape? (quote c : Char) : Option (List Char) :=
  if c = quote ∨ c = '\\' then some ['\\', c]
  else if c = '\t' then some ['\\', 't']
  else if c = '\n' then some ['\\', 'n']
  else if c = '\r' then some ['\\', 'r']
  else none

def escapeChar (quote c : Char) : List Char :=
  (shortEscape? quote c).getD <|
    if isPrintable c then [c]
    else if c.toNat < 0x100 then '\\' :: 'x' :: hex 2 c.toNat
    else if c.toNat < 0x10000 then '\\' :: 'u' :: hex 4 c.toNat
    else '\\' :: 'U' :: hex 8 c.toNat

/-- Octets show as ASCII, all others by their value. -/
def escapeOctet (quote : Char) (b : UInt8) : List Char :=
  let c := Char.ofNat b.toNat
  (shortEscape? quote c).getD <|
    if 0x20 ≤ b ∧ b < 0x7F then [c] else '\\' :: 'x' :: hex 2 b.toNat

def quoted (s : String) : String :=
  let quote := quoteOf s.toList
  String.ofList (quote :: s.toList.flatMap (escapeChar quote) ++ [quote])

def quotedOctets (bs : Bytes) : String :=
  let quote := quoteOf (bs.map fun b => Char.ofNat b.toNat)
  String.ofList ('b' :: quote :: bs.flatMap (escapeOctet quote) ++ [quote])

end Imap.Text
