import Imap.SequenceSet.Basic

namespace Imap

/-- What a command's numbers are held against: the greatest number in use, and whether they are
unique identifiers, which may lie beyond it. -/
structure Mailbox where
  greatest : Int
  uid : Bool
  deriving DecidableEq, Repr

namespace Mailbox

def number (m : Mailbox) : SeqNo → Except Refusal Int
  | .star => if m.greatest = 0 ∧ !m.uid then .error .starInEmptyMailbox else .ok m.greatest
  | .number n _ => if m.greatest < n ∧ !m.uid then .error (.beyondMailbox n) else .ok n

/-- All numbers from `low` to `high`. -/
def interval (low high : Int) : List Int :=
  (List.range (high - low + 1).toNat).map fun (i : Nat) => low + i

/-- A range means the same in either order. -/
def numbers (m : Mailbox) : SeqElement → Except Refusal (List Int)
  | .single n => do return [← m.number n]
  | .range first last => do
    let first ← m.number first
    let last ← m.number last
    return interval (min first last) (max first last)

end Mailbox

namespace SequenceSet

def ascending (numbers : List Int) : List Int := (numbers.mergeSort (· ≤ ·)).eraseReps

/-- An element of a set, or something else that was put in its place. -/
inductive Item where
  | element (e : SeqElement)
  | foreign (t : Term)

def Item.numbers (m : Mailbox) : Item → Except Refusal (List Int)
  | element e => m.numbers e
  | foreign t => .error (.notSequenceElement t.print)

def expandItems (m : Mailbox) (items : List Item) : Except Refusal (List Int) := do
  return ascending (← items.mapM (Item.numbers m)).flatten

/-- The numbers of a set, ascending and without repetition. -/
def expand (m : Mailbox) (set : SequenceSet) : Except Refusal (List Int) :=
  expandItems m (set.map .element)

/-- The runs of consecutive numbers in an ascending list, first and last of each. -/
def runs : List Int → List (Int × Int)
  | [] => []
  | n :: ns =>
    match runs ns with
    | (first, last) :: more =>
      if first = n + 1 then (n, last) :: more else (n, n) :: (first, last) :: more
    | [] => [(n, n)]

def ofRun (run : Int × Int) : Except Refusal SeqElement := do
  let first ← SeqNo.ofInt run.1
  if run.1 < run.2 then return .range first (← SeqNo.ofInt run.2) else return .single first

/-- The shortest set of the numbers, runs as ranges. -/
def compact (numbers : List Int) : Except Refusal SequenceSet :=
  match runs (ascending numbers) with
  | [] => .error .noNumbers
  | all => all.mapM ofRun

end SequenceSet

end Imap
