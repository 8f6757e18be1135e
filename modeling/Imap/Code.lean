import Imap.Capability
import Imap.Keyword

namespace Imap

inductive CodeKind where
  | alert | badcharset | capability | parse | permanentflags | readOnly | readWrite | trycreate
  | uidnext | uidvalidity | unseen | other
  deriving DecidableEq, Repr

instance : Vocabulary CodeKind where
  name := "CodeKind"
  all := [.alert, .badcharset, .capability, .parse, .permanentflags, .readOnly, .readWrite,
    .trycreate, .uidnext, .uidvalidity, .unseen, .other]
  spelling
    | .alert => "alert"
    | .badcharset => "badcharset"
    | .capability => "capability"
    | .parse => "parse"
    | .permanentflags => "permanentflags"
    | .readOnly => "read-only"
    | .readWrite => "read-write"
    | .trycreate => "trycreate"
    | .uidnext => "uidnext"
    | .uidvalidity => "uidvalidity"
    | .unseen => "unseen"
    | .other => "other"

/-- What the known codes carry: a number, charsets or flags, capabilities, or nothing. A code that was
read holds no negative number; one that is built by hand may. -/
inductive CodeArgument where
  | none
  | number (n : Int)
  | texts (items : List String)
  | capabilities (items : List Capability)
  deriving DecidableEq, Repr

instance : ToTerm CodeArgument where
  term
    | .none => .absent
    | .number n => term n
    | .texts items => term items
    | .capabilities items => term items

/-- A code. One of the other kind keeps its atom as it was sent, and the text behind it. -/
structure Code where
  kind : CodeKind
  argument : CodeArgument
  atom : Option String
  text : Option String
  deriving DecidableEq, Repr

namespace Code

def known (kind : CodeKind) (argument : CodeArgument) : Code := ⟨kind, argument, none, none⟩

def build (kind : CodeKind) (argument : CodeArgument) (atom text : Option String) :
    Except Refusal Code :=
  if kind = .other ∧ atom.getD "" = "" then .error .noCodeAtom else .ok ⟨kind, argument, atom, text⟩

instance : ToTerm Code where
  term c := .record "Code" [("kind", Vocabulary.toTerm c.kind), ("value", term c.argument),
    ("atom", term c.atom), ("text", term c.text)]

/-- A code that is its keyword alone. -/
def bareRule (kind : CodeKind) : Rule Code := pure (known kind .none)

def numberRule (kind : CodeKind) : Rule Code := do
  Rule.space
  return known kind (.number (← Rule.nonZeroNumber))

def badcharsetRule : Rule Code := do
  if ← Rule.skip? " " then
    return known .badcharset (.texts (← Rule.nonEmptyList Rule.charset))
  return known .badcharset (.texts [])

def capabilityRule : Rule Code := do
  return known .capability (.capabilities (← Capability.listRule))

def permanentflagsRule : Rule Code := do
  Rule.space
  return known .permanentflags (.texts (← Rule.list Rule.permanentFlag))

/-- The rules of the known codes' arguments, by the code's name. -/
def arguments : List (String × Rule Code) := [
  ("alert", bareRule .alert),
  ("parse", bareRule .parse),
  ("read_only", bareRule .readOnly),
  ("read_write", bareRule .readWrite),
  ("trycreate", bareRule .trycreate),
  ("badcharset", badcharsetRule),
  ("capability", capabilityRule),
  ("permanentflags", permanentflagsRule),
  ("uidnext", numberRule .uidnext),
  ("uidvalidity", numberRule .uidvalidity),
  ("unseen", numberRule .unseen)]

/-- Whatever stands behind the atom, as text. -/
def otherRule (atom : String) : Rule Code := do
  if ← Rule.skip? " " then
    let text ← Rule.span Octet.isBracketedChar .codeText
    Rule.ofExcept (build .other .none (some atom) (some text))
  else Rule.ofExcept (build .other .none (some atom) none)

/-- A code up to its closing bracket. A known keyword whose arguments do not fit is an other code. -/
def anyRule : Rule Code := do
  let atom ← Rule.atom
  match Keyword.find? arguments atom with
  | some arguments =>
    Rule.orElse (do
      let code ← arguments
      Rule.lookahead (Rule.word "]" (.word "]"))
      return code) (otherRule atom)
  | none => otherRule atom

/-- A list of capabilities in a code must hold IMAP4rev1. -/
def complete (c : Code) : Except Failure Code :=
  match c.kind, c.argument with
  | .capability, .capabilities items => (Capability.complete items).map fun _ => c
  | _, _ => .ok c

def rule : Rule Code := anyRule.refine complete

def bracketedRule : Rule Code := do
  Rule.expect "[" .codeStart
  let code ← rule
  Rule.expect "]" .codeEnd
  Rule.space
  return code

end Code

end Imap
