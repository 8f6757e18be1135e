import Imap.Base64
import Imap.Code

namespace Imap

inductive StatusKind where
  | ok | no | bad | preauth | bye
  deriving DecidableEq, Repr

instance : Vocabulary StatusKind where
  name := "StatusKind"
  all := [.ok, .no, .bad, .preauth, .bye]
  spelling
    | .ok => "ok"
    | .no => "no"
    | .bad => "bad"
    | .preauth => "preauth"
    | .bye => "bye"

/-- A status. With a tag it completes the command of that tag. -/
structure Status where
  kind : StatusKind
  text : String
  tag : Option String
  code : Option Code
  deriving DecidableEq, Repr

/-- What follows a status keyword. -/
abbrev StatusText := Option Code × String

namespace StatusText

/-- An optional code, and text. What begins like a code and is none is text. -/
def rule : Rule StatusText := do
  let code ← Rule.opt Code.bracketedRule
  return (code, ← Rule.text)

end StatusText

namespace StatusKind

/-- One of the keywords allowed. -/
def rule (allowed : List StatusKind) : Rule StatusKind :=
  Rule.atom.refine fun found =>
    match allowed.find? fun kind => spelling kind = found.toLower with
    | some kind => .ok kind
    | none => .error (.miss (.status (allowed.map label) found) 0)

def conditionRule (allowed : List StatusKind) : Rule (StatusKind × StatusText) := do
  let kind ← rule allowed
  Rule.space
  return (kind, ← StatusText.rule)

/-- What a command completes with. -/
def stateRule : Rule (StatusKind × StatusText) := conditionRule [.ok, .no, .bad]

/-- What a server may greet with, other than a farewell. -/
def authRule : Rule (StatusKind × StatusText) := conditionRule [.ok, .preauth]

def byeRule : Rule (StatusKind × StatusText) := conditionRule [.bye]

end StatusKind

namespace Status

/-- Greetings and farewells answer no command. -/
def build (kind : StatusKind) (text : String) (tag : Option String) (code : Option Code) :
    Except Refusal Status :=
  if tag.isSome ∧ (kind = .preauth ∨ kind = .bye) then .error (.taggedStatus (label kind))
  else .ok ⟨kind, text, tag, code⟩

def isTagged (s : Status) : Bool := s.tag.isSome

instance : ToTerm Status where
  term s := .record "Status" [("kind", Vocabulary.toTerm s.kind), ("text", term s.text),
    ("tag", term s.tag), ("code", term s.code)]

def ofCondition (tag : Option String) (condition : StatusKind × StatusText) : Rule Status :=
  Rule.ofExcept (build condition.1 condition.2.2 tag condition.2.1)

def stateRule : Rule Status := do ofCondition none (← StatusKind.stateRule)

def byeRule : Rule Status := do ofCondition none (← StatusKind.byeRule)

def greetingRule : Rule Status := do
  Rule.expect "*" .greeting
  Rule.space
  let condition ← Rule.oneOf StatusKind.authRule [StatusKind.byeRule]
  Rule.lineEnd
  ofCondition none condition

def taggedRule : Rule Status := do
  let tag ← Rule.tag
  Rule.space
  let condition ← StatusKind.stateRule
  Rule.lineEnd
  ofCondition (some tag) condition

def fatalRule : Rule Status := do
  Rule.expect "*" .star
  Rule.space
  let condition ← StatusKind.byeRule
  Rule.lineEnd
  ofCondition none condition

/-- What completes a command, or ends the connection. -/
def doneRule : Rule Status := Rule.oneOf taggedRule [fatalRule]

end Status

/-- A request to continue: text, or data in base64. -/
inductive Continuation where
  | text (s : String) (code : Option Code)
  | base64 (data : String)
  deriving DecidableEq, Repr

namespace Continuation

def build (s : Option String) (code : Option Code) (data : Option String) :
    Except Refusal Continuation :=
  match data, s with
  | some data, none => if code.isSome then .error .textBesideBase64 else .ok (base64 data)
  | some _, some _ => .error .textBesideBase64
  | none, some s => .ok (text s code)
  | none, none => .error .emptyContinuation

def decoded : Continuation → Except Refusal Bytes
  | text .. => .error .noBase64
  | base64 data => Base64.decode data

instance : ToTerm Continuation where
  term c :=
    let fields (s : Option String) (code : Option Code) (data : Option String) : Term :=
      .record "Continuation" [("text", term s), ("code", term code), ("base64", term data)]
    match c with
    | text s code => fields (some s) code none
    | base64 data => fields none none (some data)

def textRule : Rule Continuation := do
  let (code, s) ← StatusText.rule
  return text s code

def base64Rule : Rule Continuation := base64 <$> Base64.rule

def rule : Rule Continuation := do
  Rule.expect "+" .plus
  Rule.space
  let c ← Rule.oneOf textRule [base64Rule]
  Rule.lineEnd
  return c

end Continuation

end Imap
