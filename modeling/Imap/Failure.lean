import Imap.DateTime
import Imap.Refusal
import Imap.Text.Quoted

namespace Imap

/-- A piece of the grammar that a rule looks for. -/
inductive Element where
  | atom | tag | text | base64 | number | nonZeroNumber | literalLength | codeText | attributeName
  | section | quoted | literal | literalEnd | string | nil | space | lineEnd | list | rangeColon
  | greeting | plus | untagged | star | codeStart | codeEnd | bodyStart | bodyEnd | originEnd
  | envelopeStart | envelopeEnd | addressStart | addressEnd
  deriving DecidableEq, Repr

def Element.phrase : Element → String
  | .atom => "an atom"
  | .tag => "a tag"
  | .text => "text"
  | .base64 => "base64 data"
  | .number => "a number"
  | .nonZeroNumber => "a non-zero number"
  | .literalLength => "literal length"
  | .codeText => "code text"
  | .attributeName => "a FETCH attribute"
  | .section => "a section"
  | .quoted => "a quoted string"
  | .literal => "a literal"
  | .literalEnd => "'\x7d' after the literal length"
  | .string => "a quoted string or a literal"
  | .nil => "NIL"
  | .space => "a space"
  | .lineEnd => "end of line"
  | .list => "a '(' beginning a parenthesized list"
  | .rangeColon => "':' in a range"
  | .greeting => "'*' greeting"
  | .plus => "'+'"
  | .untagged => "'*' untagged response"
  | .star => "'*'"
  | .codeStart => "'['"
  | .codeEnd => "']' after code"
  | .bodyStart => "BODY["
  | .bodyEnd => "']'"
  | .originEnd => "'>'"
  | .envelopeStart => "'(' for envelope"
  | .envelopeEnd => "')' ending envelope"
  | .addressStart => "'(' for address"
  | .addressEnd => "')' ending address"

/-- What the octets ran out in. -/
inductive Shortage where
  | anything
  | word (fixed : String)
  | element (wanted : Element)
  /-- A token of a class without a name of its own, given by the pattern of what it excludes. -/
  | span (pattern : Bytes)
  | literal (size : Nat)
  | unit (pending : Nat)
  deriving DecidableEq, Repr

def Shortage.message : Shortage → String
  | .anything => "expected more input"
  | .word fixed => s!"expected '{fixed}'"
  | .element wanted => s!"expected {wanted.phrase}"
  | .span pattern => s!"token {Text.quotedOctets pattern}"
  | .literal size => s!"literal of {size} bytes"
  | .unit pending => s!"stream ended with {pending} bytes of an unfinished unit"

/-- Why a rule does not match. -/
inductive Cause where
  | expected (wanted : Element)
  /-- A fixed word that is nobody's element; the message quotes what stands there instead. -/
  | word (fixed : String)
  | keyword (wanted found : String)
  | status (allowed : List String) (found : String)
  | unknownResponse (name : String)
  | unknownCommand (name : String)
  | unknownUidCommand (name : String)
  | unknownStatusItem (name : String)
  | unknownStoreItem (name : String)
  | unknownAttribute (name : String)
  | tooLarge (digits : String) (limit : Nat)
  | literalCut (available size : Nat)
  | nulInLiteral
  | openQuoted
  | badEscape
  | badQuotedChar
  | emptyList
  | base64Length
  | notDateTime (found : String)
  | badDateTime (found : String) (fault : DateTime.Fault)
  | wideDelimiter
  | messageZero
  | noImap4rev1
  deriving DecidableEq, Repr

/-- The text of a cause; `ahead` is what stood at the place it was found. -/
def Cause.message (ahead : Bytes) : Cause → String
  | .expected wanted => s!"expected {wanted.phrase}"
  | .word fixed =>
    s!"No match for simple string '{fixed}', input started with: {Text.quotedOctets (ahead.take 10)}"
  | .keyword wanted found => s!"expected '{wanted}', got '{found}'"
  | .status allowed found =>
    let names := ", ".intercalate allowed
    s!"expected one of {names}, got '{found}'"
  | .unknownResponse name => s!"unknown response '{name}'"
  | .unknownCommand name => s!"unknown command '{name}'"
  | .unknownUidCommand name => s!"unknown UID command '{name}'"
  | .unknownStatusItem name => s!"unknown status attribute '{name}'"
  | .unknownStoreItem name => s!"unknown STORE data item '{name}'"
  | .unknownAttribute name => s!"unsupported FETCH attribute '{name}'"
  | .tooLarge digits limit =>
    let cut := if 24 < digits.length then "..." else ""
    s!"number {digits.take 24}{cut} is larger than {limit}"
  | .literalCut available size =>
    s!"Remaining input {available} bytes long, expected at least {size}"
  | .nulInLiteral => "literal contains a NUL"
  | .openQuoted => "unterminated quoted string"
  | .badEscape => "invalid escape in quoted string"
  | .badQuotedChar => "invalid character in quoted string"
  | .emptyList => "expected at least one element in the list"
  | .base64Length => "base64 data must be a multiple of 4 long"
  | .notDateTime found => s!"expected a date-time, got '{found}'"
  | .badDateTime found fault => s!"invalid date-time '{found}': {fault.message}"
  | .wideDelimiter => "hierarchy delimiter must be one character"
  | .messageZero => "message sequence numbers start at 1"
  | .noImap4rev1 => "capability list does not include IMAP4rev1"

/-- How reading can fail. Positions count from where the failing rule began. -/
inductive Failure where
  /-- The octets are a start, and more may complete it. -/
  | short (missing : Shortage) (needed : Option Nat) (position : Nat)
  /-- An alternative may match. -/
  | miss (cause : Cause) (position : Nat)
  /-- No continuation and no alternative can match. -/
  | bad (cause : Cause) (position : Nat)
  /-- A value turned down what was read. -/
  | refused (why : Refusal)
  deriving DecidableEq, Repr

namespace Failure

/-- The same failure seen from `n` octets before. -/
def shift (n : Nat) : Failure → Failure
  | .short missing needed position => .short missing needed (n + position)
  | .miss cause position => .miss cause (n + position)
  | .bad cause position => .bad cause (n + position)
  | .refused why => .refused why

def position? : Failure → Option Nat
  | .short _ _ position | .miss _ position | .bad _ position => some position
  | .refused _ => none

def needed? : Failure → Option Nat
  | .short _ needed _ => needed
  | _ => none

end Failure

end Imap
