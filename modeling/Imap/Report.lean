import Imap.Failure

namespace Imap

/-- The classes of failure. Every class but the general one is a special case of its parent. -/
inductive FailureClass where
  | general | incomplete | badSyntax | noMatch | unknownCommand
  deriving DecidableEq, Repr

namespace FailureClass

def name : FailureClass → String
  | general => "ParseException"
  | incomplete => "Incomplete"
  | badSyntax => "BadSyntax"
  | noMatch => "NoMatch"
  | unknownCommand => "UnknownCommand"

def ofName? (s : String) : Option FailureClass :=
  [general, incomplete, badSyntax, noMatch, unknownCommand].find? (·.name = s)

/-- The class and its parents, the most special first. -/
def lineage : FailureClass → List FailureClass
  | general => [general]
  | incomplete => [incomplete, general]
  | badSyntax => [badSyntax, general]
  | noMatch => [noMatch, badSyntax, general]
  | unknownCommand => [unknownCommand, noMatch, badSyntax, general]

/-- The text of a report that is given none. -/
def standardText : FailureClass → String
  | general => "parse exception"
  | incomplete => "incomplete"
  | badSyntax => "bad syntax"
  | noMatch => "no match"
  | unknownCommand => "unknown command"

end FailureClass

/-- A failure as a caller sees it. -/
structure Report where
  kind : FailureClass
  text : String
  position : Option Int
  needed : Option Int
  deriving DecidableEq, Repr

namespace Report

/-- A report of any class; only an incomplete one keeps `needed`. -/
def make (kind : FailureClass) (text : Option String) (position needed : Option Int) : Report where
  kind := kind
  text := text.getD kind.standardText
  position := position
  needed := if kind = .incomplete then needed else none

def message (r : Report) : String :=
  let placed := match r.position with
    | none => r.text
    | some position => s!"{r.text} (at byte {position})"
  match r.kind with
  | .general => placed
  | .incomplete => match r.needed with
    | none => s!"Incomplete: {r.text}"
    | some needed => s!"Incomplete: {r.text}, need at least {needed} more bytes"
  | kind => s!"{kind.name}: {placed}"

end Report

namespace Cause

/-- The class of a miss: a command nobody knows has its own. -/
def missClass : Cause → FailureClass
  | unknownCommand _ | unknownUidCommand _ => .unknownCommand
  | _ => .noMatch

end Cause

namespace Failure

def class? : Failure → Option FailureClass
  | short .. => some .incomplete
  | miss cause _ => some cause.missClass
  | bad .. => some .badSyntax
  | refused _ => none

/-- The report of a failure on `input`; a refusal has none. -/
def report? (input : Bytes) : Failure → Option Report
  | short missing needed position =>
    some ⟨.incomplete, missing.message, some position, needed.map Int.ofNat⟩
  | miss cause position =>
    some ⟨cause.missClass, cause.message (input.drop position), some position, none⟩
  | bad cause position =>
    some ⟨.badSyntax, cause.message (input.drop position), some position, none⟩
  | refused _ => none

def message (input : Bytes) (f : Failure) : String :=
  match f, f.report? input with
  | refused why, _ => why.message
  | _, some report => report.message
  | _, none => ""

end Failure

end Imap
