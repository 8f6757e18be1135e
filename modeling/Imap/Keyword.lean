import Imap.Rule.Lexical

namespace Imap.Keyword

/-- Small letters. Of all characters beyond ASCII only the Kelvin sign has one of `a` to `z`. -/
def lower (c : Char) : Char := if c = '\u212A' then 'k' else c.toLower

def isNameStart (c : Char) : Bool := 'a' ≤ c && c ≤ 'z'

def isNameChar (c : Char) : Bool := isNameStart c || c.isDigit || c = '-'

/-- The name of the rule that `keyword` introduces: `lead`, then the keyword in small letters with
underscores for hyphens. None, if the keyword can name no rule. -/
def ruleName? (lead keyword : String) : Option String :=
  match keyword.toList.map lower with
  | [] => none
  | c :: cs =>
    if isNameStart c && cs.all isNameChar then
      some (lead ++ String.ofList ((c :: cs).map fun c => if c = '-' then '_' else c))
    else none

variable {α : Type}

/-- The entry of a table of rules that `keyword` introduces. -/
def find? (table : List (String × α)) (keyword : String) : Option α :=
  (ruleName? "" keyword).bind fun name => table.lookup name

/-- Looks at the keyword ahead, without using it, and hands over to its rule. -/
def dispatch (table : List (String × Rule α)) (unknown : String → Cause) : Rule α := do
  let keyword ← Rule.lookahead Rule.atom
  match find? table keyword with
  | some rule => rule
  | none => Rule.fail (.miss (unknown keyword) 0)

end Imap.Keyword
