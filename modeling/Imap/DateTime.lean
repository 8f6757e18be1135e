namespace Imap

/-- A moment as a server states it; `zone` is its distance from UTC in minutes. -/
structure DateTime where
  year : Nat
  month : Nat
  day : Nat
  hour : Nat
  minute : Nat
  second : Nat
  zone : Int
  deriving DecidableEq, Repr

namespace DateTime

/-- Why numbers of the right shape are no date and time. -/
inductive Fault where
  | zone (minutes : Int)
  | year (n : Nat)
  | day
  | hour
  | minute
  | second
  deriving DecidableEq, Repr

def Fault.message : Fault → String
  | .zone minutes => s!"('absolute offset is too large', {minutes})"
  | .year n => s!"year {n} is out of range"
  | .day => "day is out of range for month"
  | .hour => "hour must be in 0..23"
  | .minute => "minute must be in 0..59"
  | .second => "second must be in 0..59"

def isLeapYear (year : Nat) : Bool := year % 4 = 0 && (year % 100 ≠ 0 || year % 400 = 0)

def daysInMonth (year month : Nat) : Nat :=
  if month = 2 then (if isLeapYear year then 29 else 28)
  else if month = 4 ∨ month = 6 ∨ month = 9 ∨ month = 11 then 30
  else 31

/-- The first fault of a date, in the order zone, date, time of day. -/
def fault? (d : DateTime) : Option Fault :=
  if 24 * 60 ≤ d.zone.natAbs then some (.zone d.zone)
  else if d.year < 1 ∨ 9999 < d.year then some (.year d.year)
  else if d.day < 1 ∨ daysInMonth d.year d.month < d.day then some .day
  else if 23 < d.hour then some .hour
  else if 59 < d.minute then some .minute
  else if 59 < d.second then some .second
  else none

def monthNames : List String :=
  ["jan", "feb", "mar", "apr", "may", "jun", "jul", "aug", "sep", "oct", "nov", "dec"]

/-- The number of a month from its three letters, in any case. -/
def monthOf? (name : String) : Option Nat := (monthNames.idxOf? name.toLower).map (· + 1)

def padded (width n : Nat) : String :=
  let digits := toString n
  "".pushn '0' (width - digits.length) ++ digits

/-- `1996-07-17T02:44:25-07:00` -/
def iso (d : DateTime) : String :=
  let sign := if d.zone < 0 then "-" else "+"
  s!"{padded 4 d.year}-{padded 2 d.month}-{padded 2 d.day}T" ++
    s!"{padded 2 d.hour}:{padded 2 d.minute}:{padded 2 d.second}" ++
    s!"{sign}{padded 2 (d.zone.natAbs / 60)}:{padded 2 (d.zone.natAbs % 60)}"

/-- The call that builds the date; seconds that are zero are left out, and so is a zero zone. -/
def display (d : DateTime) : String :=
  let second := if d.second = 0 then "" else s!", {d.second}"
  let zone := if d.zone = 0 then "<UTC>" else s!"pytz.FixedOffset({d.zone})"
  s!"datetime.datetime({d.year}, {d.month}, {d.day}, {d.hour}, {d.minute}{second}, tzinfo={zone})"

end DateTime

end Imap
