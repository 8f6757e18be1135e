import Imap.Data
import Imap.Status

namespace Imap

/-- What a server sends: one line, with the literals in it. -/
inductive Response where
  | status (s : Status)
  | continuation (c : Continuation)
  | data (d : Data)
  deriving DecidableEq, Repr

namespace Response

instance : ToTerm Response where
  term
    | status s => term s
    | continuation c => term c
    | data d => term d

/-- The rules of untagged responses, by keyword. -/
def byKeyword : List (String × Rule Response) :=
  [("ok", status <$> Status.stateRule),
    ("no", status <$> Status.stateRule),
    ("bad", status <$> Status.stateRule),
    ("bye", status <$> Status.byeRule)] ++
  Data.byKeyword.map fun (name, rule) => (name, data <$> rule)

def untaggedRule : Rule Response := do
  match ← Rule.peek with
  | some b =>
    if Octet.isDigit b then data <$> Data.numberedRule
    else Keyword.dispatch byKeyword .unknownResponse
  | none => Keyword.dispatch byKeyword .unknownResponse

/-- A list of capabilities must hold IMAP4rev1. -/
def complete : Response → Except Failure Response
  | data (.capability capabilities) =>
    (Capability.complete capabilities).map fun cs => data (.capability cs)
  | r => .ok r

def lineRule : Rule Response := do
  let r ← untaggedRule
  Rule.lineEnd
  return r

def dataRule : Rule Response := do
  Rule.expect "*" .untagged
  Rule.space
  lineRule.refine complete

/-- One response; a farewell is found as data first. -/
def rule : Rule Response :=
  Rule.oneOf (continuation <$> Continuation.rule) [dataRule, status <$> Status.doneRule]

/-- The first line of a connection. -/
def greetingRule : Rule Response := status <$> Status.greetingRule

end Response

end Imap
