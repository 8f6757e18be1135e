import Imap.Rule

namespace Imap.Rule

variable {α : Type}

/-- Any number of elements, each behind the octet `separator`. A separator that no element follows
is left where it is. -/
def behind (separator : UInt8) (element : Rule α) : Rule (List α) := fun ctx bs => go ctx bs
where
  go (ctx : Context) : Bytes → Outcome (List α)
    | [] =>
      if ctx.complete then .done [] 0
      else .failed (.short (.word (Bytes.text [separator])) none 0)
    | b :: bs =>
      if b = separator then
        match element ctx bs with
        | .done a used => ((go ctx (bs.drop used)).map (a :: ·)).shift (used + 1)
        | .failed (.miss ..) => .done [] 0
        | .failed why => .failed (why.shift 1)
      else .done [] 0
  termination_by bs => bs.length
  decreasing_by simp only [List.length_drop, List.length_cons]; omega

/-- One or more elements with `separator` between them. -/
def separated (separator : UInt8) (element : Rule α) : Rule (List α) := do
  let first ← element
  return first :: (← behind separator element)

/-- The elements up to the closing parenthesis, single spaces between them. -/
def spacedToClose (element : Rule α) : Rule (List α) := fun ctx bs => go ctx bs
where
  go (ctx : Context) (bs : Bytes) : Outcome (List α) :=
    match element ctx bs with
    | .failed why => .failed why
    | .done a used =>
      match h : bs.drop used with
      | [] =>
        if ctx.complete then .failed (.miss (.expected .space) used)
        else .failed (.short (.word ")") none used)
      | b :: rest =>
        if b = 0x29 then .done [a] (used + 1)
        else if b = 0x20 then ((go ctx rest).map (a :: ·)).shift (used + 1)
        else .failed (.miss (.expected .space) used)
  termination_by bs.length
  decreasing_by
    have := congrArg List.length h
    simp at this
    omega

/-- A parenthesized list. -/
def list (element : Rule α) : Rule (List α) := do
  expect "(" .list
  if ← skip? ")" then return []
  spacedToClose element

/-- A parenthesized list of at least one element. -/
def nonEmptyList (element : Rule α) : Rule (List α) := do
  expect "(" .list
  let close ← opt (lookahead (word ")" (.word ")")))
  if close.isSome then fail (.miss .emptyList 0) else spacedToClose element

/-- The parenthesized elements side by side up to the closing parenthesis, at least one; `body` reads
an element behind its opening parenthesis. -/
def parenthesized (body : Rule α) : Rule (List α) := do
  expect "(" .addressStart
  let first ← body
  return first :: (← fun ctx bs => go ctx bs)
where
  go (ctx : Context) : Bytes → Outcome (List α)
    | [] =>
      if ctx.complete then .failed (.miss (.expected .addressStart) 0)
      else .failed (.short (.word ")") none 0)
    | b :: bs =>
      if b = 0x29 then .done [] 1
      else if b = 0x28 then
        match body ctx bs with
        | .done a used => ((go ctx (bs.drop used)).map (a :: ·)).shift (used + 1)
        | .failed why => .failed (why.shift 1)
      else .failed (.miss (.expected .addressStart) 0)
  termination_by bs => bs.length
  decreasing_by simp only [List.length_drop, List.length_cons]; omega

end Imap.Rule
