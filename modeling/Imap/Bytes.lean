namespace Imap

/-- Octets in the order they travel. -/
abbrev Bytes := List UInt8

namespace Bytes

/-- The text with one character for each octet. -/
def text (bs : Bytes) : String := String.ofList (bs.map fun b => Char.ofNat b.toNat)

/-- The octets of a text whose characters are all below U+0100. -/
def ofText (s : String) : Bytes := s.toList.map fun c => UInt8.ofNat c.toNat

end Bytes

namespace Octet

/-- Folds the capitals of ASCII to small letters. -/
def lower (b : UInt8) : UInt8 := if 0x41 ≤ b && b ≤ 0x5A then b + 0x20 else b

def isDigit (b : UInt8) : Bool := 0x30 ≤ b && b ≤ 0x39

def isLetter (b : UInt8) : Bool := 0x61 ≤ lower b && lower b ≤ 0x7A

/-- A mailbox pattern outside quotes: visible ASCII except parentheses, `{`, `"` and the backslash. -/
def isPatternChar (b : UInt8) : Bool :=
  0x20 < b && b < 0x7F && b != 0x28 && b != 0x29 && b != 0x7B && b != 0x22 && b != 0x5C

/-- A string outside quotes: no wildcard `%` or `*` either. -/
def isAstringChar (b : UInt8) : Bool := isPatternChar b && b != 0x25 && b != 0x2A

/-- An atom: no `]` either. -/
def isAtomChar (b : UInt8) : Bool := isAstringChar b && b != 0x5D

/-- A command's tag: as a string outside quotes, but no `+`. -/
def isTagChar (b : UInt8) : Bool := isAstringChar b && b != 0x2B

/-- Text of a line: ASCII except NUL, carriage return and line feed. -/
def isTextChar (b : UInt8) : Bool := b != 0 && b != 0x0A && b != 0x0D && b < 0x80

/-- Text inside square brackets. -/
def isBracketedChar (b : UInt8) : Bool := isTextChar b && b != 0x5D

def isBase64Char (b : UInt8) : Bool := isLetter b || isDigit b || b == 0x2B || b == 0x2F

/-- The name of a FETCH attribute, up to its section. -/
def isAttributeChar (b : UInt8) : Bool := isLetter b || isDigit b || b == 0x2E

end Octet

end Imap
