import Imap.Rule.List
import Imap.Text.Utf8

namespace Imap.Rule

def space : Rule Unit := expect " " .space

/-- A line end; the carriage return may be missing. -/
def lineEnd : Rule Unit := do
  if ← skip? "\n" then return ()
  expect "\r\n" .lineEnd

def atom : Rule String := span Octet.isAtomChar .atom

def tag : Rule String := span Octet.isTagChar .tag

def text : Rule String := span Octet.isTextChar .text

/-- A whole atom that is `name` up to case. -/
def keyword (name : String) : Rule String :=
  atom.refine fun found =>
    if found.toLower = name then .ok found else .error (.miss (.keyword name found) 0)

/-- The greatest number of 32 bits. -/
def maxNumber : Nat := 4294967295

/-- The greatest number of 64 bits. -/
def maxNumber64 : Nat := 18446744073709551615

/-- The value of a run of decimal digits. -/
def decimal (digits : Bytes) : Nat := digits.foldl (fun n d => 10 * n + (d.toNat - 0x30)) 0

/-- A run of digits without the zeros in front of it; of nothing but zeros, one is left. -/
def significant (run : Bytes) : Bytes :=
  match run.dropWhile (· = 0x30) with
  | [] => [0x30]
  | found => found

/-- The value of a run of digits, if it is at most `limit`. What has more digits than `limit` is not
converted. -/
def bounded? (limit : Nat) (run : Bytes) : Option Nat :=
  let found := significant run
  if (toString limit).length < found.length || limit < decimal found then none
  else some (decimal found)

/-- One or more digits of value at most `limit`. A run that is already too large is bad even if it
may still grow, for more digits only make it larger. -/
def digits (limit : Nat) (wanted : Element) : Rule Nat := fun ctx bs =>
  let run := bs.takeWhile Octet.isDigit
  match bounded? limit run with
  | none => .failed (.bad (.tooLarge (Bytes.text run) limit) 0)
  | some n => (span Octet.isDigit wanted ctx bs).map fun _ => n

def number : Rule Nat := digits maxNumber .number

def number64 : Rule Nat := digits maxNumber64 .number

/-- A number that begins with a digit other than zero. -/
def nonZeroNumber : Rule Nat := do
  match ← peek with
  | some b =>
    if Octet.isDigit b && b != 0x30 then digits maxNumber .nonZeroNumber
    else fail (.miss (.expected .nonZeroNumber) 0)
  | none => fail (.miss (.expected .nonZeroNumber) 0)

/-- The content of a quoted string and its closing quote. Only the quote and the backslash may be
escaped. -/
def quotedTail (ctx : Context) : Bytes → Outcome Bytes
  | [] => cutOff .openQuoted 0
  | b :: bs =>
    if b = 0x22 then .done [] 1
    else if b = 0x5C then
      match bs with
      | [] => cutOff .badEscape 1
      | c :: bs =>
        if c = 0x22 ∨ c = 0x5C then ((quotedTail ctx bs).map (c :: ·)).shift 2
        else .failed (.miss .badEscape 1)
    else if Octet.isTextChar b then ((quotedTail ctx bs).map (b :: ·)).shift 1
    else .failed (.miss .badQuotedChar 0)
where
  cutOff (cause : Cause) (position : Nat) : Outcome Bytes :=
    .failed (if ctx.complete then .miss cause position else .short .anything none position)

def quoted : Rule Bytes := do
  expect "\"" .quoted
  quotedTail

/-- The content of a quoted string as text. -/
def quotedText : Rule String := do ofExcept (Text.Ascii.decode (← quoted))

/-- The `size` octets that a literal announced, none of them NUL. -/
def literalBody (size : Nat) : Rule Bytes := fun ctx bs =>
  let body := bs.take size
  if body.length < size then
    if ctx.complete then .failed (.bad (.literalCut bs.length size) 0)
    else .failed (.short (.literal size) (some (size - bs.length)) 0)
  else if body.contains 0 then .failed (.bad .nulInLiteral 0)
  else .done body size

def literal : Rule Bytes := do
  expect "\x7b" .literal
  let size ← digits maxNumber .literalLength
  if (← dialect).plusLiterals then discard (skip? "+")
  expect "\x7d" .literalEnd
  lineEnd
  literalBody size

/-- A string is quoted or a literal. -/
def string : Rule Bytes := do
  match ← peek with
  | some 0x22 => quoted
  | some 0x7B => literal
  | _ => fail (.miss (.expected .string) 0)

/-- Octets that a class admits without quotes; the pattern lists what it excludes. -/
def bare (isMember : UInt8 → Bool) (pattern : String) : Rule (Option String) :=
  opt (token (fun bs => (bs.takeWhile isMember).length) false (.span (Bytes.ofText pattern))
    (.expected .string))

/-- Text is bare, quoted or a literal. -/
def bareOrString (isMember : UInt8 → Bool) (pattern : String) : Rule String := do
  match ← bare isMember pattern with
  | some found => return found
  | none => return Text.Utf8.decode (← string)

def astring : Rule String :=
  bareOrString Octet.isAstringChar "[^()\x7b %*\"\\\\\\x00-\\x1f\\x7f-\\xff]+"

/-- The mailbox pattern of a listing, which may hold wildcards. -/
def mailboxPattern : Rule String :=
  bareOrString Octet.isPatternChar "[^()\x7b \"\\\\\\x00-\\x1f\\x7f-\\xff]+"

def nil : Rule Unit := expect "nil" .nil

/-- A string, or NIL for none. -/
def nstring : Rule (Option Bytes) := do
  match ← peek with
  | some 0x22 | some 0x7B => return some (← string)
  | _ => nil; return none

def charset : Rule String := do
  match ← peek with
  | some 0x22 => quotedText
  | _ => atom

/-- A mailbox's name. INBOX is one name in any case, but only as a whole. -/
def mailbox : Rule String := do
  let name ← astring
  return if name.toLower = "inbox" then "INBOX" else name

/-- An atom, or a backslash and an atom. Which of them are valid is the context's affair. -/
def flag : Rule String := do
  if ← skip? "\\" then return "\\" ++ (← atom)
  atom

/-- A flag, or `\*` for any. -/
def permanentFlag : Rule String := do
  if ← skip? "\\*" then return "\\*"
  flag

def flags : Rule (List String) := list flag

end Imap.Rule
