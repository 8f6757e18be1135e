import Imap.Refusal
import Imap.Term

namespace Imap

/-- The label of a spelling: capitals, and underscores for hyphens. -/
def labelOf (spelling : String) : String :=
  spelling.toUpper.map fun c => if c = '-' then '_' else c

/-- The protocol's words of one kind, each with its spelling in small letters and the label under
which it is shown. -/
class Vocabulary (α : Type) where
  name : String
  all : List α
  spelling : α → String
  label : α → String := fun a => labelOf (spelling a)

namespace Vocabulary

variable {α : Type} [Vocabulary α]

def find? (s : String) : Option α := (all (α := α)).find? fun a => spelling a = s

/-- The word of an exact spelling. -/
def read (s : String) : Except Refusal α :=
  match find? s with
  | some a => .ok a
  | none => .error (.unknownWord (term s).print (name α))

def toTerm (a : α) : Term := .word (name α) (label a) (spelling a)

end Vocabulary

export Vocabulary (spelling label)

end Imap
