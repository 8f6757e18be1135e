import Imap.Rule.Lexical

namespace Imap.DateTime

def slice (bs : Bytes) (start width : Nat) : Bytes := (bs.drop start).take width

def number? (bs : Bytes) (start width : Nat) : Option Nat :=
  let digits := slice bs start width
  if digits.all Octet.isDigit then some (Rule.decimal digits) else none

/-- A day below ten may have a space for its first digit. -/
def day? (bs : Bytes) : Option Nat :=
  if bs.head? = some 0x20 then number? bs 1 1 else number? bs 0 2

def zoneSign? (bs : Bytes) : Option Int :=
  if bs[21]? = some 0x2B then some 1 else if bs[21]? = some 0x2D then some (-1) else none

/-- Whether the width is right and every mark is in its place. -/
def hasShape (bs : Bytes) : Bool :=
  bs.length = 26 && bs[2]? = some 0x2D && bs[6]? = some 0x2D && bs[11]? = some 0x20 &&
    bs[14]? = some 0x3A && bs[17]? = some 0x3A && bs[20]? = some 0x20

/-- The numbers of a text of the right shape, whether or not they are a date. -/
def ofText? (bs : Bytes) : Option DateTime :=
  if hasShape bs then do
    let day ← day? bs
    let month ← monthOf? (Bytes.text (slice bs 3 3))
    let year ← number? bs 7 4
    let hour ← number? bs 12 2
    let minute ← number? bs 15 2
    let second ← number? bs 18 2
    let sign ← zoneSign? bs
    let zoneHours ← number? bs 22 2
    let zoneMinutes ← number? bs 24 2
    some ⟨year, month, day, hour, minute, second, sign * (zoneHours * 60 + zoneMinutes : Nat)⟩
  else none

/-- A text of another shape is a miss; one of the right shape that is no date is bad. -/
def rule : Rule DateTime :=
  Rule.quotedText.refine fun text =>
    match ofText? (Bytes.ofText text) with
    | none => .error (.miss (.notDateTime text) 0)
    | some d =>
      match d.fault? with
      | none => .ok d
      | some fault => .error (.bad (.badDateTime text fault) 0)

end Imap.DateTime
