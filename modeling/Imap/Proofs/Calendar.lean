import Imap.DateTime
import Mathlib.Logic.Basic
import Mathlib.Tactic.SplitIfs

namespace Imap.DateTime

/-- The days of the months of a year. Every fourth year is a leap year, but of those that end a
century every fourth one only. -/
def monthLengths (year : Nat) : List Nat :=
  [31, if 4 ∣ year ∧ (100 ∣ year → 400 ∣ year) then 29 else 28, 31, 30, 31, 30, 31, 31, 30, 31, 30, 31]

/-- Four centuries are a whole number of weeks. -/
example : ((List.range' 1601 400).map fun year => (monthLengths year).sum).sum = 7 * 20871 := by
  decide +kernel

/-- A day of the calendar, a time of that day, and a zone of less than a day. -/
structure Valid (d : DateTime) : Prop where
  year : 1 ≤ d.year ∧ d.year ≤ 9999
  month : 1 ≤ d.month
  day : ∃ length, (monthLengths d.year)[d.month - 1]? = some length ∧ 1 ≤ d.day ∧ d.day ≤ length
  hour : d.hour ≤ 23
  minute : d.minute ≤ 59
  second : d.second ≤ 59
  zone : d.zone.natAbs < 24 * 60

theorem isLeapYear_iff (year : Nat) :
    isLeapYear year = true ↔ 4 ∣ year ∧ (100 ∣ year → 400 ∣ year) := by
  simp only [isLeapYear, Bool.and_eq_true, Bool.or_eq_true, decide_eq_true_eq]
  omega

theorem monthLengths_eq (year : Nat) {k : Nat} (hk : k < 12) :
    (monthLengths year)[k]? = some (daysInMonth year (k + 1)) := by
  have hleap : (if isLeapYear year = true then 29 else 28) =
      if 4 ∣ year ∧ (100 ∣ year → 400 ∣ year) then 29 else 28 := if_congr (isLeapYear_iff year) rfl rfl
  match k, hk with
  | 1, _ => exact congrArg some hleap.symm
  | 0, _ | 2, _ | 3, _ | 4, _ | 5, _ | 6, _ | 7, _ | 8, _ | 9, _ | 10, _ | 11, _ => rfl

theorem daysInMonth_le (year month : Nat) : daysInMonth year month ≤ 31 := by
  unfold daysInMonth
  split
  · split <;> decide
  · split <;> decide

/-- There are twelve months, and the length of each is its number of days. -/
theorem getElem?_monthLengths {year month length : Nat} (hmonth : 1 ≤ month) :
    (monthLengths year)[month - 1]? = some length ↔ month ≤ 12 ∧ length = daysInMonth year month := by
  constructor
  · intro hlength
    have htwelve : month - 1 < 12 := (List.getElem?_eq_some_iff.mp hlength).1
    rw [monthLengths_eq _ htwelve, Nat.sub_add_cancel hmonth] at hlength
    cases hlength
    exact ⟨by omega, rfl⟩
  · rintro ⟨htwelve, rfl⟩
    rw [monthLengths_eq _ (by omega), Nat.sub_add_cancel hmonth]

theorem Valid.month_le {d : DateTime} (h : d.Valid) : d.month ≤ 12 := by
  obtain ⟨length, hlength, -⟩ := h.day
  exact ((getElem?_monthLengths h.month).mp hlength).1

theorem Valid.day_le {d : DateTime} (h : d.Valid) : d.day ≤ 31 := by
  obtain ⟨length, hlength, -, hday⟩ := h.day
  obtain ⟨-, rfl⟩ := (getElem?_monthLengths h.month).mp hlength
  exact Nat.le_trans hday (daysInMonth_le _ _)

/-- A date with a month has no fault if it is in the calendar. -/
theorem fault?_eq_none_iff {d : DateTime} (hmonth : 1 ≤ d.month ∧ d.month ≤ 12) :
    d.fault? = none ↔ d.Valid := by
  have hlengths := @getElem?_monthLengths d.year d.month
  constructor
  · intro h
    unfold fault? at h
    split_ifs at h with hzone hyear hday hhour hminute hsecond
    have hlength := (hlengths hmonth.1).mpr ⟨hmonth.2, rfl⟩
    exact ⟨by omega, hmonth.1, ⟨_, hlength, by omega⟩, by omega, by omega, by omega, by omega⟩
  · rintro ⟨hyear, -, ⟨length, hlength, hday⟩, hhour, hminute, hsecond, hzone⟩
    obtain ⟨-, rfl⟩ := (hlengths hmonth.1).mp hlength
    unfold fault?
    rw [if_neg (by omega), if_neg (by omega), if_neg (by omega), if_neg (by omega),
      if_neg (by omega), if_neg (by omega)]

theorem Valid.fault?_eq_none {d : DateTime} (h : d.Valid) : d.fault? = none := by
  have hmonth : 1 ≤ d.month ∧ d.month ≤ 12 := ⟨h.month, h.month_le⟩
  exact (fault?_eq_none_iff hmonth).mpr h

end Imap.DateTime
