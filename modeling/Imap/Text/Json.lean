import Imap.Text.Quoted

namespace Imap.Text

inductive Json where
  | null
  | bool (b : Bool)
  /-- A number, as it is written. -/
  | number (numeral : String)
  | string (s : String)
  | array (items : List Json)
  | object (members : List (String × Json))
  deriving Inhabited

namespace Json

def unitEscape (n : Nat) : List Char := '\\' :: 'u' :: hex 4 n

/-- Characters beyond the first plane are written as two surrogates. -/
def escapeChar (c : Char) : List Char :=
  let n := c.toNat
  if c = '"' ∨ c = '\\' then ['\\', c]
  else if c = '\n' then ['\\', 'n']
  else if c = '\r' then ['\\', 'r']
  else if c = '\t' then ['\\', 't']
  else if n = 0x08 then ['\\', 'b']
  else if n = 0x0C then ['\\', 'f']
  else if 0x20 ≤ n ∧ n < 0x7F then [c]
  else if n < 0x10000 then unitEscape n
  else unitEscape (0xD800 + (n - 0x10000) / 0x400) ++ unitEscape (0xDC00 + (n - 0x10000) % 0x400)

def quote (s : String) : String := String.ofList ('"' :: s.toList.flatMap escapeChar ++ ['"'])

mutual

def print : Json → String
  | null => "null"
  | bool b => if b then "true" else "false"
  | number numeral => numeral
  | string s => quote s
  | array items => "[" ++ ", ".intercalate (printItems items) ++ "]"
  | object members => "\x7b" ++ ", ".intercalate (printMembers members) ++ "\x7d"

def printItems : List Json → List String
  | [] => []
  | v :: vs => print v :: printItems vs

def printMembers : List (String × Json) → List String
  | [] => []
  | (name, v) :: rest => (quote name ++ ": " ++ print v) :: printMembers rest

end

inductive Token where
  | mark (c : Char)
  | string (s : String)
  | bare (word : String)
  deriving DecidableEq, Repr

/-- What the characters so far leave open; the open text is kept back to front. -/
inductive Open where
  | nothing
  | word (text : List Char)
  | string (text : List Char)
  | escape (text : List Char)
  | point (text : List Char) (value width : Nat)
  deriving DecidableEq, Repr

def escaped? (c : Char) : Option Char :=
  if c = '"' ∨ c = '\\' ∨ c = '/' then some c
  else [('n', '\n'), ('r', '\r'), ('t', '\t'), ('b', '\x08'), ('f', '\x0c')].lookup c

def hexDigit? (c : Char) : Option Nat :=
  if c.isDigit then some (c.toNat - '0'.toNat)
  else if 'a' ≤ c.toLower ∧ c.toLower ≤ 'f' then some (c.toLower.toNat - 'a'.toNat + 10)
  else none

def isWordChar (c : Char) : Bool := c.isAlphanum || c = '-' || c = '+' || c = '.'

def isMark (c : Char) : Bool := ['\x7b', '\x7d', '[', ']', ':', ','].contains c

def isBlank (c : Char) : Bool := c = ' ' || c = '\t' || c = '\n' || c = '\r'

def closeWord (text : List Char) : Token := .bare (String.ofList text.reverse)

/-- What a character outside strings gives at once and leaves open. -/
def outside? (c : Char) : Option (List Token × Open) :=
  if c = '"' then some ([], .string [])
  else if isMark c then some ([.mark c], .nothing)
  else if isBlank c then some ([], .nothing)
  else if isWordChar c then some ([], .word [c])
  else none

def step? : Open → Char → Option (List Token × Open)
  | .nothing, c => outside? c
  | .word text, c =>
    if isWordChar c then some ([], .word (c :: text))
    else (outside? c).map fun (given, left) => (closeWord text :: given, left)
  | .string text, c =>
    if c = '"' then some ([.string (String.ofList text.reverse)], .nothing)
    else if c = '\\' then some ([], .escape text)
    else if c.toNat < 0x20 then none
    else some ([], .string (c :: text))
  | .escape text, c =>
    if c = 'u' then some ([], .point text 0 4)
    else (escaped? c).map fun c => ([], .string (c :: text))
  | .point text value width, c => do
    let value := value * 16 + (← hexDigit? c)
    if width ≤ 1 then some ([], .string (Char.ofNat value :: text))
    else some ([], .point text value (width - 1))

def tokens? : Open → List Char → Option (List Token)
  | .nothing, [] => some []
  | .word text, [] => some [closeWord text]
  | _, [] => none
  | left, c :: cs => do
    let (given, left) ← step? left c
    return given ++ (← tokens? left cs)

def word? (s : String) : Option Json :=
  if s = "null" then some null
  else if s = "true" then some (bool true)
  else if s = "false" then some (bool false)
  else if s.toList.any Char.isDigit then some (number s)
  else none

mutual

/-- A value at the front of the tokens. The first argument bounds the nesting. -/
def value? : Nat → List Token → Option (Json × List Token)
  | _ + 1, .mark '[' :: .mark ']' :: rest => some (array [], rest)
  | _ + 1, .mark '\x7b' :: .mark '\x7d' :: rest => some (object [], rest)
  | n + 1, .mark '[' :: rest => do
    let (items, rest) ← items? n rest
    return (array items, rest)
  | n + 1, .mark '\x7b' :: rest => do
    let (members, rest) ← members? n rest
    return (object members, rest)
  | _ + 1, .string s :: rest => some (string s, rest)
  | _ + 1, .bare s :: rest => do return (← word? s, rest)
  | _, _ => none

def items? : Nat → List Token → Option (List Json × List Token)
  | 0, _ => none
  | n + 1, ts => do
    let (item, rest) ← value? n ts
    match rest with
    | .mark ']' :: rest => return ([item], rest)
    | .mark ',' :: rest =>
      let (items, rest) ← items? n rest
      return (item :: items, rest)
    | _ => none

def members? : Nat → List Token → Option (List (String × Json) × List Token)
  | n + 1, .string name :: .mark ':' :: rest => do
    let (v, rest) ← value? n rest
    match rest with
    | .mark '\x7d' :: rest => return ([(name, v)], rest)
    | .mark ',' :: rest =>
      let (members, rest) ← members? n rest
      return ((name, v) :: members, rest)
    | _ => none
  | _, _ => none

end

def read? (s : String) : Option Json := do
  let ts ← tokens? .nothing s.toList
  match ← value? (ts.length + 1) ts with
  | (v, []) => some v
  | _ => none

/-- The value of a name; of two, the last counts. -/
def member? (name : String) : Json → Option Json
  | object members => members.reverse.lookup name
  | _ => none

end Json

end Imap.Text
