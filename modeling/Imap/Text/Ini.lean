import Imap.Text.Trim

namespace Imap.Text

/-- Lines of keys and values below a name in brackets. Keys are in small letters whatever was
written. -/
structure Section where
  name : String
  entries : List (String × String)
  deriving DecidableEq, Repr

namespace Section

def isBlank (c : Char) : Bool := c = ' ' || c = '\t' || c = '\r'

inductive Line where
  | header (name : String)
  | entry (key value : String)
  | empty
  | foreign
  deriving DecidableEq, Repr

def isDelimiter (c : Char) : Bool := c = '=' || c = ':'

def Line.ofText (s : String) : Line :=
  match trim isBlank s.toList with
  | [] | '#' :: _ | ';' :: _ => .empty
  | '[' :: cs =>
    if cs.contains ']' then .header (String.ofList (cs.takeWhile (· ≠ ']'))) else .foreign
  | cs =>
    if cs.any isDelimiter then
      let key := trim isBlank (cs.takeWhile (!isDelimiter ·))
      let value := trim isBlank ((cs.dropWhile (!isDelimiter ·)).drop 1)
      .entry (String.ofList key).toLower (String.ofList value)
    else .foreign

/-- Adds a line to the sections, the open one first; what belongs nowhere is an error. -/
def add? : List Section → Line → Option (List Section)
  | sections, .empty => some sections
  | sections, .header name => some (⟨name, []⟩ :: sections)
  | s :: sections, .entry key value => some ({ s with entries := (key, value) :: s.entries } :: sections)
  | _, _ => none

/-- The sections of a text. -/
def read? (s : String) : Option (List Section) :=
  (((s.splitOn "\n").map Line.ofText).foldlM add? []).map List.reverse

def find? (sections : List Section) (name : String) : Option Section :=
  sections.find? fun s => s.name = name

/-- The value of a key; of two, the last counts. -/
def get? (s : Section) (key : String) : Option String := s.entries.lookup key

end Section

end Imap.Text
