import Imap.DateTime.Rule
import Imap.Envelope
import Imap.Text.Upper

namespace Imap

inductive FetchValue where
  | flags (items : List String)
  | number (n : Int)
  | moment (d : DateTime)
  | envelope (e : Envelope)
  | octets (content : Option Bytes)
  /-- Text, which only the attributes of extensions have. -/
  | text (s : String)
  deriving DecidableEq, Repr

instance : ToTerm FetchValue where
  term
    | .flags items => term items
    | .number n => term n
    | .moment d => term d
    | .envelope e => term e
    | .octets content => term content
    | .text s => term s

/-- The attributes of a message. Names are in capitals; that of a BODY keeps its section and origin. -/
structure FetchData where
  message : Int
  attributes : List (String × FetchValue)
  deriving DecidableEq, Repr

namespace FetchData

instance : ToTerm FetchData where
  term f := .record "FetchData" [("msg", term f.message), ("attributes", term f.attributes)]

/-- The first attribute of a name in any case. -/
def get? (f : FetchData) (name : String) : Option FetchValue := f.attributes.lookup (Text.upper name)

end FetchData

namespace FetchValue

/-- A value behind a space, under the attribute's bare name. -/
def plainRule (value : Rule FetchValue) : Rule (String × FetchValue) := do
  Rule.space
  return ("", ← value)

def numberRule (r : Rule Nat) : Rule FetchValue := (fun n => number n) <$> r

def contentRule : Rule FetchValue := octets <$> Rule.nstring

/-- The number of the first octet, for a part of a section. -/
def originRule : Rule String := do
  if ← Rule.skip? "<" then
    let n ← Rule.number
    Rule.expect ">" .originEnd
    return s!"<{n}>"
  return ""

/-- A section of the message, its name in brackets. -/
def bodyRule : Rule (String × FetchValue) := do
  Rule.expect "[" .bodyStart
  let sectionLength (bs : Bytes) : Nat := (bs.takeWhile Octet.isBracketedChar).length
  let name ← Rule.token sectionLength true (.element .section) (.expected .section)
  Rule.expect "]" .bodyEnd
  let origin ← originRule
  Rule.space
  return (s!"[{name.toUpper}]{origin}", ← contentRule)

/-- The rules of the attributes behind their names: what the name goes on with, and the value. -/
def values : List (String × Rule (String × FetchValue)) := [
  ("FLAGS", plainRule (flags <$> Rule.flags)),
  ("UID", plainRule (numberRule Rule.nonZeroNumber)),
  ("RFC822.SIZE", plainRule (numberRule Rule.number)),
  ("INTERNALDATE", plainRule (moment <$> DateTime.rule)),
  ("ENVELOPE", plainRule (envelope <$> Envelope.rule)),
  ("RFC822", plainRule contentRule),
  ("RFC822.HEADER", plainRule contentRule),
  ("RFC822.TEXT", plainRule contentRule),
  ("BODY", bodyRule)]

/-- The rule for the value of the attribute named ahead. -/
def nameRule : Rule (String × Rule (String × FetchValue)) :=
  (Rule.span Octet.isAttributeChar .attributeName).refine fun found =>
    match values.lookup found.toUpper with
    | some value => .ok (found.toUpper, value)
    | none => .error (.miss (.unknownAttribute found.toUpper) 0)

def attributeRule : Rule (String × FetchValue) := do
  let (name, value) ← nameRule
  let (more, v) ← value
  return (name ++ more, v)

end FetchValue

end Imap
