namespace Imap

/-- The slashes in front, if the name does not count from here, and the steps that lead somewhere. -/
structure Path where
  root : String
  steps : List String
  deriving DecidableEq, Repr

namespace Path

/-- Two slashes in front, and no third, are kept apart from one. -/
def ofText (s : String) : Path where
  root := match s.toList with
    | '/' :: '/' :: '/' :: _ => "/"
    | '/' :: '/' :: _ => "//"
    | '/' :: _ => "/"
    | _ => ""
  steps := (s.splitOn "/").filter fun step => step ≠ "" ∧ step ≠ "."

def text (p : Path) : String :=
  if p.root = "" ∧ p.steps = [] then "." else p.root ++ "/".intercalate p.steps

/-- The end of the last step from its last dot on, unless that dot begins or ends the step. -/
def suffix (p : Path) : String :=
  let last := (p.steps.getLast?.getD "").toList
  let ending := last.reverse.takeWhile (· ≠ '.')
  if ending = [] ∨ last.length ≤ ending.length + 1 then ""
  else String.ofList ('.' :: ending.reverse)

end Path

end Imap
