import Imap.DateTime.Rule
import Imap.Proofs.Calendar
import Imap.Proofs.Written.Text

namespace Imap

namespace Written

/-- The last decimal digit of a number. -/
def digit (n : Nat) : UInt8 := UInt8.ofNat (0x30 + n % 10)

/-- The last two decimal digits of a number. -/
def twoDigits (n : Nat) : Bytes := [digit (n / 10), digit n]

theorem digit_toNat (n : Nat) : (digit n).toNat = 0x30 + n % 10 := by
  apply UInt8.toNat_ofNat_of_lt'
  exact Nat.lt_of_lt_of_le (by omega : 0x30 + n % 10 < 0x3A) (by decide)

theorem isDigit_digit (n : Nat) : Octet.isDigit (digit n) = true := by
  simp only [Octet.isDigit, Bool.and_eq_true, decide_eq_true_eq, UInt8.le_iff_toNat_le, digit_toNat]
  exact ⟨Nat.le_add_right _ _, by show 0x30 + n % 10 ≤ 0x39; omega⟩

theorem decimal_digit (n : Nat) : Rule.decimal [digit n] = n % 10 := by
  simp only [Rule.decimal, List.foldl_cons, List.foldl_nil, digit_toNat]
  omega

theorem decimal_twoDigits (n : Nat) : Rule.decimal (twoDigits n) = n % 100 := by
  simp only [Rule.decimal, twoDigits, List.foldl_cons, List.foldl_nil, digit_toNat]
  omega

theorem decimal_fourDigits (n : Nat) :
    Rule.decimal (twoDigits (n / 100) ++ twoDigits n) = n % 10000 := by
  simp only [Rule.decimal, twoDigits, List.cons_append, List.nil_append, List.foldl_cons,
    List.foldl_nil, digit_toNat]
  omega

theorem isDigit_twoDigits (n : Nat) : ∀ b ∈ twoDigits n, Octet.isDigit b = true := by
  simp only [twoDigits, List.forall_mem_cons]
  exact ⟨isDigit_digit _, isDigit_digit _, List.forall_mem_nil _⟩

/-- So many digits as there are places. -/
structure Digits (width : Nat) extends Run Octet.isDigit where
  filled : octets.length = width

namespace Digits

def one (n : Nat) : Digits 1 :=
  ⟨⟨[digit n], List.cons_ne_nil _ _, List.forall_mem_singleton.mpr (isDigit_digit n)⟩, rfl⟩

def two (n : Nat) : Digits 2 := ⟨⟨twoDigits n, List.cons_ne_nil _ _, isDigit_twoDigits n⟩, rfl⟩

def four (n : Nat) : Digits 4 where
  octets := twoDigits (n / 100) ++ twoDigits n
  some := List.cons_ne_nil _ _
  members := List.forall_mem_append.mpr ⟨isDigit_twoDigits (n / 100), isDigit_twoDigits n⟩
  filled := rfl

theorem one_value (n : Nat) : (one n).value = n % 10 := by
  rw [(one n).value_eq]
  exact decimal_digit n

theorem two_value (n : Nat) : (two n).value = n % 100 := by
  rw [(two n).value_eq]
  exact decimal_twoDigits n

theorem four_value (n : Nat) : (four n).value = n % 10000 := by
  rw [(four n).value_eq]
  exact decimal_fourDigits n

theorem exists_two (d : Digits 2) : ∃ a b, d.octets = [a, b] := List.length_eq_two.mp d.filled

/-- Digits that fill their place are a number. -/
theorem number?_eq {width start : Nat} {bs : Bytes} (d : Digits width)
    (hslice : DateTime.slice bs start width = d.octets) :
    DateTime.number? bs start width = some d.value := by
  simp only [DateTime.number?, hslice, List.all_eq_true.mpr d.members, if_true, d.value_eq]

end Digits

def monthNames : List String :=
  ["Jan", "Feb", "Mar", "Apr", "May", "Jun", "Jul", "Aug", "Sep", "Oct", "Nov", "Dec"]

/-- The day of a month in two places, of which the first may be a space. -/
inductive DayOfMonth where
  | one (digit : Digits 1)
  | two (digits : Digits 2)

namespace DayOfMonth

def octets : DayOfMonth → Bytes
  | one digit => 0x20 :: digit.octets
  | two digits => digits.octets

def value : DayOfMonth → Nat
  | one digit => digit.value
  | two digits => digits.value

end DayOfMonth

/-- What has the shape of a date, whether or not there is such a day. -/
structure Stamp where
  day : DayOfMonth
  month : Fin 12
  name : Spelling (monthNames.getD month "")
  year : Digits 4
  hour : Digits 2
  minute : Digits 2
  second : Digits 2
  west : Bool
  zoneHours : Digits 2
  zoneMinutes : Digits 2

namespace Stamp

def sign (t : Stamp) : UInt8 := if t.west then 0x2D else 0x2B

def octets (t : Stamp) : Bytes :=
  t.day.octets ++ 0x2D :: (t.name.octets ++ 0x2D :: (t.year.octets ++ 0x20 :: (t.hour.octets ++
    0x3A :: (t.minute.octets ++ 0x3A :: (t.second.octets ++ 0x20 :: t.sign ::
      (t.zoneHours.octets ++ t.zoneMinutes.octets))))))

/-- The numbers of a stamp. -/
def date (t : Stamp) : DateTime where
  year := t.year.value
  month := t.month + 1
  day := t.day.value
  hour := t.hour.value
  minute := t.minute.value
  second := t.second.value
  zone := (if t.west then -1 else 1) * (t.zoneHours.value * 60 + t.zoneMinutes.value : Nat)

end Stamp

theorem monthNames_known {k : Nat} (hk : k < 12) :
    (DateTime.monthNames.idxOf? (monthNames.getD k "").toLower).map (· + 1) = some (k + 1) ∧
      IsWord Octet.isLetter (monthNames.getD k "") ∧
      (Bytes.ofText (monthNames.getD k "")).length = 3 ∧
      (Bytes.ofText (monthNames.getD k "")).map Octet.lower =
        Bytes.ofText (DateTime.monthNames.getD k "") := by
  have all : ∀ k < 12,
      (DateTime.monthNames.idxOf? (monthNames.getD k "").toLower).map (· + 1) = some (k + 1) ∧
        IsWord Octet.isLetter (monthNames.getD k "") ∧
        (Bytes.ofText (monthNames.getD k "")).length = 3 ∧
        (Bytes.ofText (monthNames.getD k "")).map Octet.lower =
          Bytes.ofText (DateTime.monthNames.getD k "") := by decide +kernel
  exact all k hk

namespace Stamp

variable (t : Stamp)

theorem monthOf?_eq : DateTime.monthOf? (Bytes.text t.name.octets) = some (t.month + 1 : Nat) := by
  obtain ⟨hindex, hword, -⟩ := monthNames_known t.month.isLt
  rw [DateTime.monthOf?, Akin.text.mp (t.name.akin hword), hindex]

theorem day?_eq (rest : Bytes) :
    DateTime.day? (t.day.octets ++ rest) = some t.day.value := by
  cases t.day with
  | one digit =>
    obtain ⟨a, hdigit⟩ := List.length_eq_one_iff.mp digit.filled
    rw [DayOfMonth.octets, hdigit]
    exact digit.number?_eq hdigit.symm
  | two digits =>
    obtain ⟨a, b, hdigits⟩ := digits.exists_two
    have hhead : ¬(a :: b :: rest).head? = some 0x20 := by
      have hdigit : Octet.isDigit a = true := digits.members a (by rw [hdigits]; exact List.mem_cons_self)
      rw [List.head?_cons, Option.some.injEq]
      rintro rfl
      cases hdigit
    rw [DayOfMonth.octets, hdigits]
    exact (if_neg hhead).trans (digits.number?_eq hdigits.symm)

theorem ofText?_octets : DateTime.ofText? t.octets = some t.date := by
  obtain ⟨-, -, hlength, -⟩ := monthNames_known t.month.isLt
  obtain ⟨a, b, c, hname⟩ := List.length_eq_three.mp (t.name.alike.length_eq.trans hlength)
  obtain ⟨x, y, hday⟩ : ∃ x y, t.day.octets = [x, y] := by
    cases t.day with
    | one digit =>
      obtain ⟨d, hdigit⟩ := List.length_eq_one_iff.mp digit.filled
      exact ⟨0x20, d, congrArg _ hdigit⟩
    | two digits => exact digits.exists_two
  obtain ⟨y₁, y₂, y₃, y₄, hyear⟩ := List.length_eq_four.mp t.year.filled
  obtain ⟨h₁, h₂, hhour⟩ := t.hour.exists_two
  obtain ⟨m₁, m₂, hminute⟩ := t.minute.exists_two
  obtain ⟨s₁, s₂, hsecond⟩ := t.second.exists_two
  obtain ⟨z₁, z₂, hzoneHours⟩ := t.zoneHours.exists_two
  obtain ⟨z₃, z₄, hzoneMinutes⟩ := t.zoneMinutes.exists_two
  have hoctets : t.octets = [x, y, 0x2D, a, b, c, 0x2D, y₁, y₂, y₃, y₄, 0x20, h₁, h₂, 0x3A, m₁, m₂,
      0x3A, s₁, s₂, 0x20, t.sign, z₁, z₂, z₃, z₄] := by
    rw [octets, hday, hname, hyear, hhour, hminute, hsecond, hzoneHours, hzoneMinutes]
    rfl
  have hshape : DateTime.hasShape t.octets = true := by rw [hoctets]; rfl
  have hdayOf : DateTime.day? t.octets = some t.day.value := t.day?_eq _
  have hmonthOf : DateTime.monthOf? (Bytes.text (DateTime.slice t.octets 3 3)) =
      some (t.month + 1 : Nat) := by
    rw [← t.monthOf?_eq, hoctets, hname]
    rfl
  have hyearOf : DateTime.number? t.octets 7 4 = some t.year.value :=
    t.year.number?_eq (by rw [hoctets, hyear]; rfl)
  have hhourOf : DateTime.number? t.octets 12 2 = some t.hour.value :=
    t.hour.number?_eq (by rw [hoctets, hhour]; rfl)
  have hminuteOf : DateTime.number? t.octets 15 2 = some t.minute.value :=
    t.minute.number?_eq (by rw [hoctets, hminute]; rfl)
  have hsecondOf : DateTime.number? t.octets 18 2 = some t.second.value :=
    t.second.number?_eq (by rw [hoctets, hsecond]; rfl)
  have hsignOf : DateTime.zoneSign? t.octets = some (if t.west then (-1 : Int) else 1) := by
    rw [hoctets, sign]
    cases t.west <;> rfl
  have hzoneHoursOf : DateTime.number? t.octets 22 2 = some t.zoneHours.value :=
    t.zoneHours.number?_eq (by rw [hoctets, hzoneHours]; rfl)
  have hzoneMinutesOf : DateTime.number? t.octets 24 2 = some t.zoneMinutes.value :=
    t.zoneMinutes.number?_eq (by rw [hoctets, hzoneMinutes]; rfl)
  simp only [DateTime.ofText?, hshape, if_true, hdayOf, hmonthOf, hyearOf, hhourOf, hminuteOf,
    hsecondOf, hsignOf, hzoneHoursOf, hzoneMinutesOf, Option.bind_eq_bind, Option.bind_some]
  rfl

end Stamp

/-- A date and time as a server writes it. -/
structure Moment where
  date : DateTime
  valid : date.Valid
  /-- Whether a day below ten has a space for its first digit. -/
  spaced : Bool
  spacedDay : spaced = true → date.day < 10
  month : Spelling (monthNames.getD (date.month - 1) "")
  west : Bool
  zoneHours : Nat
  zoneMinutes : Nat
  zoneDigits : zoneHours < 100 ∧ zoneMinutes < 100
  zone : date.zone = (if west then -1 else 1) * (zoneHours * 60 + zoneMinutes : Nat)

namespace Moment

def day (m : Moment) : Bytes := if m.spaced then [0x20, digit m.date.day] else twoDigits m.date.day

/-- What stands between the quotes. -/
def content (m : Moment) : Bytes :=
  m.day ++ 0x2D :: (m.month.octets ++ 0x2D :: (twoDigits (m.date.year / 100) ++
    twoDigits m.date.year ++ 0x20 :: (twoDigits m.date.hour ++ 0x3A :: (twoDigits m.date.minute ++
      0x3A :: (twoDigits m.date.second ++ 0x20 :: (if m.west then 0x2D else 0x2B) ::
        (twoDigits m.zoneHours ++ twoDigits m.zoneMinutes))))))

def octets (m : Moment) : Bytes := 0x22 :: (m.content ++ [0x22])

def dayOfMonth (m : Moment) : DayOfMonth :=
  if m.spaced then .one (Digits.one m.date.day) else .two (Digits.two m.date.day)

/-- The moment as a stamp. -/
def stamp (m : Moment) : Stamp where
  day := m.dayOfMonth
  month := ⟨m.date.month - 1, by have := m.valid.month; have := m.valid.month_le; omega⟩
  name := m.month
  year := .four m.date.year
  hour := .two m.date.hour
  minute := .two m.date.minute
  second := .two m.date.second
  west := m.west
  zoneHours := .two m.zoneHours
  zoneMinutes := .two m.zoneMinutes

theorem dayOfMonth_octets (m : Moment) : m.dayOfMonth.octets = m.day := by
  unfold dayOfMonth day
  split <;> rfl

theorem stamp_octets (m : Moment) : m.stamp.octets = m.content := by
  rw [Stamp.octets, content, ← m.dayOfMonth_octets]
  rfl

theorem dayOfMonth_value (m : Moment) : m.dayOfMonth.value = m.date.day := by
  have hday := m.valid.day_le
  unfold dayOfMonth
  split
  · next hspaced => exact (Digits.one_value _).trans (Nat.mod_eq_of_lt (m.spacedDay hspaced))
  · exact (Digits.two_value _).trans (Nat.mod_eq_of_lt (by omega))

theorem stamp_date (m : Moment) : m.stamp.date = m.date := by
  obtain ⟨⟨-, hyear⟩, hmonth, -, hhour, hminute, hsecond, -⟩ := m.valid
  have hyearOf : m.stamp.year.value = m.date.year :=
    (Digits.four_value _).trans (Nat.mod_eq_of_lt (by omega))
  have hmonthOf : (m.stamp.month + 1 : Nat) = m.date.month := Nat.sub_add_cancel hmonth
  have hdayOf : m.stamp.day.value = m.date.day := m.dayOfMonth_value
  have hhourOf : m.stamp.hour.value = m.date.hour :=
    (Digits.two_value _).trans (Nat.mod_eq_of_lt (by omega))
  have hminuteOf : m.stamp.minute.value = m.date.minute :=
    (Digits.two_value _).trans (Nat.mod_eq_of_lt (by omega))
  have hsecondOf : m.stamp.second.value = m.date.second :=
    (Digits.two_value _).trans (Nat.mod_eq_of_lt (by omega))
  have hzoneHoursOf : m.stamp.zoneHours.value = m.zoneHours :=
    (Digits.two_value _).trans (Nat.mod_eq_of_lt m.zoneDigits.1)
  have hzoneMinutesOf : m.stamp.zoneMinutes.value = m.zoneMinutes :=
    (Digits.two_value _).trans (Nat.mod_eq_of_lt m.zoneDigits.2)
  have hwest : m.stamp.west = m.west := rfl
  rw [Stamp.date, hyearOf, hmonthOf, hdayOf, hhourOf, hminuteOf, hsecondOf, hzoneHoursOf,
    hzoneMinutesOf, hwest, ← m.zone]

theorem ofText?_content (m : Moment) : DateTime.ofText? m.content = some m.date := by
  rw [← m.stamp_octets, m.stamp.ofText?_octets, m.stamp_date]

end Moment

end Written

open Written

/-- Characters that stand for themselves between quotes. -/
def Octet.isPlain (b : UInt8) : Bool := isTextChar b && b != 0x22 && b != 0x5C

theorem Octet.plain_of_digit : ∀ b, isDigit b = true → isPlain b = true := by
  apply forall_of_lt
  decide +kernel

theorem Octet.plain_of_letter : ∀ b, isLetter b = true → isPlain b = true := by
  apply forall_of_lt
  decide +kernel

theorem Written.escape_plain {bs : Bytes} (h : ∀ b ∈ bs, Octet.isPlain b = true) :
    bs.flatMap escape = bs := by
  induction bs with
  | nil => rfl
  | cons b bs ih =>
    have hb := h b List.mem_cons_self
    simp only [Octet.isPlain, Bool.and_eq_true, bne_iff_ne] at hb
    rw [List.flatMap_cons, ih fun c hc => h c (List.mem_cons_of_mem _ hc), escape,
      if_neg (not_or.mpr ⟨hb.1.2, hb.2⟩)]
    rfl

theorem Written.Moment.content_plain (m : Moment) : ∀ b ∈ m.content, Octet.isPlain b = true := by
  have digits (n : Nat) : ∀ b ∈ twoDigits n, Octet.isPlain b = true := fun b hb =>
    Octet.plain_of_digit b (isDigit_twoDigits n b hb)
  have hday : ∀ b ∈ m.day, Octet.isPlain b = true := by
    unfold day
    split
    · exact List.forall_mem_cons.mpr
        ⟨rfl, List.forall_mem_singleton.mpr (Octet.plain_of_digit _ (isDigit_digit _))⟩
    · exact digits _
  have hmonth : ∀ b ∈ m.month.octets, Octet.isPlain b = true := fun b hb =>
    Octet.plain_of_letter b ((m.month.run .letter (monthNames_known m.stamp.month.isLt).2.1).members b hb)
  have hsign : Octet.isPlain (if m.west then 0x2D else 0x2B) = true := by cases m.west <;> rfl
  simp only [content, List.forall_mem_append, List.forall_mem_cons]
  exact ⟨hday, rfl, hmonth, rfl, ⟨digits _, digits _⟩, rfl, digits _, rfl, digits _, rfl, digits _, rfl,
    hsign, digits _, digits _⟩

theorem DateTime.rule_reads {ctx : Context} {rest : Bytes} (m : Moment) :
    DateTime.rule.Reads ctx (m.octets ++ rest) m.date rest := by
  have hplain := m.content_plain
  let quoted : Quoted := ⟨m.content, fun b hb => by
    have h := hplain b hb
    simp only [Octet.isPlain, Bool.and_eq_true] at h
    exact h.1.1⟩
  have hoctets : m.octets = quoted.octets := by
    rw [Quoted.octets, escape_plain hplain]
    rfl
  rw [hoctets]
  apply (Rule.quotedText_reads quoted).refine
  rw [Bytes.ofText_text, m.ofText?_content]
  simp only [m.valid.fault?_eq_none]

end Imap
