import Imap.DateTime
import Imap.Text.Quoted

namespace Imap

/-- What a decoded value looks like from outside, whatever its type. A secret prints nowhere. -/
inductive Term where
  | absent
  | truth (b : Bool)
  | number (n : Int)
  | text (s : String)
  | octets (bs : Bytes)
  | moment (d : DateTime)
  /-- A word of a closed vocabulary: the vocabulary's name, the word's label and its spelling. -/
  | word (vocabulary label spelling : String)
  | tuple (items : List Term)
  | list (items : List Term)
  | table (entries : List (String × Term))
  | record (name : String) (fields : List (String × Term))
  | secret (t : Term)
  deriving Inhabited

namespace Term

/-- Items between brackets; a tuple of one item keeps a comma. -/
def bracketed (items : List String) : String := "[" ++ ", ".intercalate items ++ "]"

def parenthesized : List String → String
  | [item] => "(" ++ item ++ ",)"
  | items => "(" ++ ", ".intercalate items ++ ")"

mutual

def print : Term → String
  | absent => "None"
  | truth b => if b then "True" else "False"
  | number n => toString n
  | text s => Text.quoted s
  | octets bs => Text.quotedOctets bs
  | moment d => d.display
  | word vocabulary label spelling => s!"<{vocabulary}.{label}: {Text.quoted spelling}>"
  | tuple items => parenthesized (printAll items)
  | list items => bracketed (printAll items)
  | table entries => "\x7b" ++ ", ".intercalate (printEntries entries) ++ "\x7d"
  | record name fields => name ++ "(" ++ ", ".intercalate (printFields fields) ++ ")"
  | secret _ => ""

def printAll : List Term → List String
  | [] => []
  | t :: ts => print t :: printAll ts

def printEntries : List (String × Term) → List String
  | [] => []
  | (key, t) :: rest => s!"{Text.quoted key}: {print t}" :: printEntries rest

def printFields : List (String × Term) → List String
  | [] => []
  | (_, secret _) :: rest => printFields rest
  | (name, t) :: rest => s!"{name}={print t}" :: printFields rest

end

end Term

/-- Types whose values can be shown. -/
class ToTerm (α : Type) where
  term : α → Term

export ToTerm (term)

instance : ToTerm Term := ⟨id⟩
instance : ToTerm Unit := ⟨fun _ => .absent⟩
instance : ToTerm Bool := ⟨.truth⟩
instance : ToTerm Nat := ⟨fun n => .number n⟩
instance : ToTerm Int := ⟨.number⟩
instance : ToTerm String := ⟨.text⟩
instance : ToTerm Bytes := ⟨.octets⟩
instance : ToTerm DateTime := ⟨.moment⟩

section

variable {α β : Type} [ToTerm α] [ToTerm β]

instance : ToTerm (List α) := ⟨fun items => .tuple (items.map term)⟩

instance : ToTerm (Option α) where
  term
    | none => .absent
    | some a => term a

instance : ToTerm (α × β) := ⟨fun p => .tuple [term p.1, term p.2]⟩

end

end Imap
