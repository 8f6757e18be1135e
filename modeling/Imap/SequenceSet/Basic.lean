import Imap.Refusal
import Imap.Term

namespace Imap

inductive SeqNo where
  | star
  | number (n : Nat) (positive : 0 < n)
  deriving DecidableEq, Repr

namespace SeqNo

def ofInt (n : Int) : Except Refusal SeqNo :=
  if h : 1 ≤ n then .ok (number n.toNat (by omega)) else .error (.sequenceNumber n)

def value? : SeqNo → Option Nat
  | star => none
  | number n _ => some n

def text : SeqNo → String
  | star => "*"
  | number n _ => toString n

instance : ToTerm SeqNo := ⟨fun n => .record "SeqNo" [("value", term n.value?)]⟩

end SeqNo

inductive SeqElement where
  | single (n : SeqNo)
  | range (first last : SeqNo)
  deriving DecidableEq, Repr

namespace SeqElement

def text : SeqElement → String
  | single n => n.text
  | range first last => first.text ++ ":" ++ last.text

instance : ToTerm SeqElement where
  term
    | single n => .record "SeqSingle" [("seq", term n)]
    | range first last => .record "SeqRange" [("start", term first), ("end", term last)]

end SeqElement

/-- Which messages a command means. A set is kept as it was written, neither sorted nor merged. -/
abbrev SequenceSet := List SeqElement

namespace SequenceSet

/-- The written form. -/
def text (set : SequenceSet) : String := ",".intercalate (set.map SeqElement.text)

end SequenceSet

end Imap
