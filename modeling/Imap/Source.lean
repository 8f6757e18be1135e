import Imap.Command
import Imap.Response

namespace Imap

/-- A response or a command, with everything that belongs to it. -/
inductive WireUnit where
  | response (r : Response)
  | command (c : Command)
  deriving DecidableEq, Repr

instance : ToTerm WireUnit where
  term
    | .response r => term r
    | .command c => term c

/-- Who is speaking. Of a source that nobody has named no unit can be read. -/
inductive Source where
  | unnamed
  | server (greeting : Bool)
  | client
  deriving DecidableEq, Repr

namespace Source

def dialect : Source → Dialect
  | unnamed => .base
  | server _ => .response
  | client => .command

/-- The rule of the next unit after `units` of them: a server may have to greet first. -/
def rule (source : Source) (units : Nat) : Rule WireUnit :=
  match source with
  | unnamed => Rule.fail (.refused .abstractDialect)
  | server greeting =>
    .response <$> if greeting ∧ units = 0 then Response.greetingRule else Response.rule
  | client => .command <$> Command.rule

def ruleName? (source : Source) (units : Nat) : Option String :=
  match source with
  | unnamed => none
  | server greeting => some (if greeting ∧ units = 0 then "greeting" else "response")
  | client => some "command"

/-- Reads the next unit; more octets may come. -/
def decode (source : Source) (units : Nat) (bs : Bytes) : Outcome WireUnit :=
  source.rule units ⟨false, source.dialect⟩ bs

/-- Where reading everything from the front stops: the units read, what is left, and the failure
there, if anything is left. -/
structure Decoded where
  units : List WireUnit
  rest : Bytes
  stop : Option Failure
  deriving DecidableEq, Repr

/-- Reads units from the front as long as there are any. -/
def decodeAll (source : Source) (units : Nat) (bs : Bytes) : Decoded :=
  if bs = [] then ⟨[], [], none⟩
  else match source.decode units bs with
    | .failed why => ⟨[], bs, some why⟩
    | .done unit used =>
      if used = 0 then ⟨[unit], bs, none⟩
      else
        let more := decodeAll source (units + 1) (bs.drop used)
        { more with units := unit :: more.units }
termination_by bs.length
decreasing_by
  have : bs.length ≠ 0 := by grind
  simp only [List.length_drop]; omega

end Source

end Imap
