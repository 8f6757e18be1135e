import Imap.Failure
import Imap.Text.Ascii

namespace Imap

/-- Whose language a rule speaks. The base dialect is never spoken on its own. -/
inductive Dialect where
  | base | core | quota | response | command
  deriving DecidableEq, Repr

namespace Dialect

/-- Only a client may announce a literal that needs no go-ahead. -/
def plusLiterals : Dialect → Bool
  | command => true
  | _ => false

/-- Whether the capabilities of the quota extension are known words. -/
def knowsQuota : Dialect → Bool
  | quota | response | command => true
  | base | core => false

/-- The name under which the dialect's rules log. -/
def label : Dialect → String
  | base => "IMAPParser"
  | core => "CoreParser"
  | quota => "QuotaOnlyParser"
  | response => "ResponseParser"
  | command => "CommandParser"

end Dialect

/-- The end of the octets means that more may come, unless they are complete. -/
structure Context where
  complete : Bool
  dialect : Dialect
  deriving DecidableEq, Repr

/-- A value and the number of octets used, or a failure. -/
inductive Outcome (α : Type) where
  | done (value : α) (used : Nat)
  | failed (why : Failure)
  deriving DecidableEq, Repr

namespace Outcome

variable {α β : Type}

/-- The same outcome seen from `n` octets before. -/
def shift (n : Nat) : Outcome α → Outcome α
  | done value used => done value (n + used)
  | failed why => failed (why.shift n)

def map (f : α → β) : Outcome α → Outcome β
  | done value used => done (f value) used
  | failed why => failed why

/-- Done with the value, unless that is refused. -/
def ofExcept (used : Nat) : Except Refusal α → Outcome α
  | .ok value => done value used
  | .error why => failed (.refused why)

end Outcome

/-- A recogniser that decodes what it matches. It keeps no state and no position, so its answer
depends on the context and the octets ahead alone. -/
def Rule (α : Type) : Type := Context → Bytes → Outcome α

namespace Rule

variable {α β : Type}

def pure (a : α) : Rule α := fun _ _ => .done a 0

/-- Runs `next` on the octets behind those that `r` used. -/
def bind (r : Rule α) (next : α → Rule β) : Rule β := fun ctx bs =>
  match r ctx bs with
  | .failed why => .failed why
  | .done a used => (next a ctx (bs.drop used)).shift used

instance : Monad Rule where
  pure := pure
  bind := bind

def fail (why : Failure) : Rule α := fun _ _ => .failed why

def dialect : Rule Dialect := fun ctx _ => .done ctx.dialect 0

def ofExcept : Except Refusal α → Rule α
  | .ok a => pure a
  | .error why => fail (.refused why)

/-- Lets `judge` turn the value down; its failure counts from where `r` began. -/
def refine (r : Rule α) (judge : α → Except Failure β) : Rule β := fun ctx bs =>
  match r ctx bs with
  | .failed why => .failed why
  | .done a used =>
    match judge a with
    | .ok b => .done b used
    | .error why => .failed why

/-- Uses nothing of what `r` matches. -/
def lookahead (r : Rule α) : Rule α := fun ctx bs =>
  match r ctx bs with
  | .done a _ => .done a 0
  | .failed why => .failed why

/-- The next octet, unused; none at the end of complete octets. -/
def peek : Rule (Option UInt8) := fun ctx bs =>
  match bs with
  | b :: _ => .done (some b) 0
  | [] => if ctx.complete then .done none 0 else .failed (.short .anything none 0)

/-- Nothing, where `r` misses. -/
def opt (r : Rule α) : Rule (Option α) := fun ctx bs =>
  match r ctx bs with
  | .done a used => .done (some a) used
  | .failed (.miss ..) => .done none 0
  | .failed why => .failed why

/-- `other`, where `r` misses. -/
def orElse (r other : Rule α) : Rule α := fun ctx bs =>
  match r ctx bs with
  | .failed (.miss ..) => other ctx bs
  | outcome => outcome

/-- Of two misses the one that got further, the later one if they got equally far. -/
def furthest : Failure → Failure → Failure
  | .miss cause position, .miss cause' position' =>
    if position ≤ position' then .miss cause' position' else .miss cause position
  | _, later => later

/-- `other`, where `r` misses; if both miss, the miss that got further. -/
def alt (r other : Rule α) : Rule α := fun ctx bs =>
  match r ctx bs with
  | .failed (.miss cause position) =>
    match other ctx bs with
    | .failed why => .failed (furthest (.miss cause position) why)
    | outcome => outcome
  | outcome => outcome

/-- The first alternative that does not miss. -/
def oneOf (first : Rule α) : List (Rule α) → Rule α
  | [] => first
  | second :: others => alt first (oneOf second others)

/-- The longest token that `length` finds, as text. One that runs up to the end of the octets may
still grow. -/
def token (length : Bytes → Nat) (mayBeEmpty : Bool) (missing : Shortage) (cause : Cause) :
    Rule String := fun ctx bs =>
  let n := length bs
  if !ctx.complete && (bs.drop n).isEmpty then .failed (.short missing none 0)
  else if n = 0 && !mayBeEmpty then .failed (.miss cause 0)
  else .ofExcept n (Text.Ascii.decode (bs.take n))

/-- One or more octets of a class. -/
def span (isMember : UInt8 → Bool) (wanted : Element) : Rule String :=
  token (fun bs => (bs.takeWhile isMember).length) false (.element wanted) (.expected wanted)

/-- How the octets ahead compare with a word in small letters. -/
inductive Match where
  | equal
  | cut (common : Nat)
  | different
  deriving DecidableEq, Repr

def Match.next : Match → Match
  | cut common => cut (common + 1)
  | m => m

def compareWord : Bytes → Bytes → Match
  | [], _ => .equal
  | _ :: _, [] => .cut 0
  | w :: ws, b :: bs => if Octet.lower b = w then (compareWord ws bs).next else .different

/-- A fixed word, in any case. -/
def word (fixed : String) (cause : Cause) : Rule Unit := fun ctx bs =>
  let small := (Bytes.ofText fixed).map Octet.lower
  match compareWord small bs with
  | .equal => .done () small.length
  | .cut common =>
    if ctx.complete then .failed (.miss cause 0) else .failed (.short (.word fixed) none common)
  | .different => .failed (.miss cause 0)

def expect (fixed : String) (wanted : Element) : Rule Unit := word fixed (.expected wanted)

/-- Whether the word stood there; if so it is used. -/
def skip? (fixed : String) : Rule Bool := do return (← opt (word fixed (.word fixed))).isSome

end Rule

end Imap
