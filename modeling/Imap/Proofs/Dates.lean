import Imap.Proofs.Numbers
import Imap.Proofs.Written.DateTime
import Imap.Proofs.Written.Strings

namespace Imap

namespace Written

section

variable {bs : Bytes}

theorem drop_slice (bs : Bytes) (start width : Nat) :
    bs.drop start = DateTime.slice bs start width ++ bs.drop (start + width) := by
  rw [DateTime.slice, ← List.drop_drop, List.take_append_drop]

theorem drop_mark {start : Nat} {mark : UInt8} (h : bs[start]? = some mark) :
    bs.drop start = mark :: bs.drop (start + 1) := by
  obtain ⟨hlt, hget⟩ := List.getElem?_eq_some_iff.mp h
  rw [List.drop_eq_getElem_cons hlt, hget]

/-- The fields between the marks. -/
theorem split_shape (hshape : DateTime.hasShape bs = true) {sign : UInt8} (hsign : bs[21]? = some sign) :
    bs = DateTime.slice bs 0 2 ++ 0x2D :: (DateTime.slice bs 3 3 ++ 0x2D :: (DateTime.slice bs 7 4 ++
      0x20 :: (DateTime.slice bs 12 2 ++ 0x3A :: (DateTime.slice bs 15 2 ++
        0x3A :: (DateTime.slice bs 18 2 ++ 0x20 :: sign ::
          (DateTime.slice bs 22 2 ++ DateTime.slice bs 24 2)))))) := by
  simp only [DateTime.hasShape, Bool.and_eq_true, decide_eq_true_eq] at hshape
  obtain ⟨⟨⟨⟨⟨⟨hlength, h2⟩, h6⟩, h11⟩, h14⟩, h17⟩, h20⟩ := hshape
  have hend : bs.drop 26 = [] := List.drop_eq_nil_of_le (Nat.le_of_eq hlength)
  calc bs = bs.drop 0 := rfl
    _ = _ := by
      rw [drop_slice bs 0 2, drop_mark h2, drop_slice bs 3 3, drop_mark h6, drop_slice bs 7 4,
        drop_mark h11, drop_slice bs 12 2, drop_mark h14, drop_slice bs 15 2, drop_mark h17,
        drop_slice bs 18 2, drop_mark h20, drop_mark hsign, drop_slice bs 22 2, drop_slice bs 24 2,
        hend, List.append_nil]

theorem exists_digits {start width n : Nat} (h : DateTime.number? bs start width = some n)
    (hwidth : 0 < width) (hlength : start + width ≤ bs.length) :
    ∃ d : Digits width, d.octets = DateTime.slice bs start width ∧ d.value = n := by
  simp only [DateTime.number?] at h
  split at h
  · next hdigits =>
    cases h
    have hfilled : (DateTime.slice bs start width).length = width := by
      rw [DateTime.slice, List.length_take, List.length_drop]
      omega
    have hsome : DateTime.slice bs start width ≠ [] := by
      intro hnil
      rw [hnil] at hfilled
      exact Nat.ne_of_gt hwidth hfilled.symm
    let run : Run Octet.isDigit := ⟨_, hsome, List.all_eq_true.mp hdigits⟩
    exact ⟨⟨run, hfilled⟩, rfl, run.value_eq⟩
  · cases h

theorem exists_day {n : Nat} (h : DateTime.day? bs = some n) (hlength : 2 ≤ bs.length) :
    ∃ d : DayOfMonth, d.octets = DateTime.slice bs 0 2 ∧ d.value = n := by
  simp only [DateTime.day?] at h
  split at h
  · next hspace =>
    obtain ⟨digit, hdigit, rfl⟩ := exists_digits h (by decide) hlength
    refine ⟨.one digit, ?_, rfl⟩
    cases bs with
    | nil => cases hspace
    | cons b bs =>
      cases hspace
      exact congrArg (0x20 :: ·) hdigit
  · obtain ⟨digits, hdigits, rfl⟩ := exists_digits h (by decide) hlength
    exact ⟨.two digits, hdigits, rfl⟩

theorem exists_month {n : Nat} (h : DateTime.monthOf? (Bytes.text bs) = some n) :
    ∃ (month : Fin 12) (name : Spelling (monthNames.getD month "")), name.octets = bs ∧
      (month + 1 : Nat) = n := by
  obtain ⟨k, hk, rfl⟩ := Option.map_eq_some_iff.mp h
  obtain ⟨hlt, hname, -⟩ := List.idxOf?_eq_some_iff.mp hk
  obtain ⟨-, -, -, hlower⟩ := monthNames_known hlt
  have hsmall : (Bytes.text bs).toLower = Bytes.text (bs.map Octet.lower) := by
    rw [← String.toList_inj, Bytes.text_toLower, Bytes.text_toList]
  have halike : bs.Alike (Bytes.ofText (monthNames.getD k "")) := by
    rw [Bytes.Alike, hlower, List.getD_eq_getElem?_getD, List.getElem?_eq_getElem hlt,
      Option.getD_some, hname, hsmall, Bytes.ofText_text]
  exact ⟨⟨k, hlt⟩, ⟨bs, halike⟩, rfl, rfl⟩

theorem sign_of_zoneSign? {sign : Int} (h : DateTime.zoneSign? bs = some sign) :
    ∃ west : Bool, bs[21]? = some (if west then 0x2D else 0x2B) ∧ sign = if west then -1 else 1 := by
  simp only [DateTime.zoneSign?] at h
  split at h
  · next hplus =>
    cases h
    exact ⟨false, hplus, rfl⟩
  · split at h
    · next hminus =>
      cases h
      exact ⟨true, hminus, rfl⟩
    · cases h

/-- The numbers that are told from octets are those of a stamp. -/
theorem Stamp.exists_of_ofText? {d : DateTime} (h : DateTime.ofText? bs = some d) :
    ∃ t : Stamp, t.octets = bs ∧ t.date = d := by
  simp only [DateTime.ofText?] at h
  split at h
  · next hshape =>
    simp only [Option.bind_eq_bind, Option.bind_eq_some_iff, Option.some.injEq] at h
    obtain ⟨day, hday, month, hmonth, year, hyear, hour, hhour, minute, hminute, second, hsecond, sign,
      hsign, zoneHours, hzoneHours, zoneMinutes, hzoneMinutes, rfl⟩ := h
    have hlength : bs.length = 26 := by
      simp only [DateTime.hasShape, Bool.and_eq_true, decide_eq_true_eq] at hshape
      exact hshape.1.1.1.1.1.1
    obtain ⟨west, hmark, rfl⟩ := sign_of_zoneSign? hsign
    have hsplit := split_shape hshape hmark
    obtain ⟨day, hdayOf, rfl⟩ := exists_day hday (by omega)
    obtain ⟨month, name, hname, rfl⟩ := exists_month hmonth
    obtain ⟨year, hyearOf, rfl⟩ := exists_digits hyear (by decide) (by omega)
    obtain ⟨hour, hhourOf, rfl⟩ := exists_digits hhour (by decide) (by omega)
    obtain ⟨minute, hminuteOf, rfl⟩ := exists_digits hminute (by decide) (by omega)
    obtain ⟨second, hsecondOf, rfl⟩ := exists_digits hsecond (by decide) (by omega)
    obtain ⟨zoneHours, hzoneHoursOf, rfl⟩ := exists_digits hzoneHours (by decide) (by omega)
    obtain ⟨zoneMinutes, hzoneMinutesOf, rfl⟩ := exists_digits hzoneMinutes (by decide) (by omega)
    refine ⟨⟨day, month, name, year, hour, minute, second, west, zoneHours, zoneMinutes⟩, ?_, rfl⟩
    rw [Stamp.octets, hdayOf, hname, hyearOf, hhourOf, hminuteOf, hsecondOf, hzoneHoursOf,
      hzoneMinutesOf]
    exact hsplit.symm
  · cases h

end

end Written

namespace DateTime

open Rule Written

theorem ofText?_eq_some_iff {bs : Bytes} {d : DateTime} :
    ofText? bs = some d ↔ ∃ t : Stamp, t.octets = bs ∧ t.date = d := by
  refine ⟨Stamp.exists_of_ofText?, ?_⟩
  rintro ⟨t, rfl, rfl⟩
  exact t.ofText?_octets

theorem ofText?_eq_none_iff {bs : Bytes} : ofText? bs = none ↔ ¬∃ t : Stamp, t.octets = bs := by
  rw [Option.eq_none_iff_forall_ne_some]
  constructor
  · rintro h ⟨t, rfl⟩
    exact h _ t.ofText?_octets
  · intro h d hd
    obtain ⟨t, ht, -⟩ := ofText?_eq_some_iff.mp hd
    exact h ⟨t, ht⟩

/-- A stamp names a month, so that what it says has no fault if it is in the calendar. -/
theorem stamp_fault?_eq_none_iff (t : Stamp) : t.date.fault? = none ↔ t.date.Valid := by
  have hmonth : 1 ≤ t.date.month ∧ t.date.month ≤ 12 := ⟨Nat.le_add_left 1 t.month, t.month.isLt⟩
  exact fault?_eq_none_iff hmonth

section

variable {ctx : Context} {content : Bytes}

theorem rule_quote (htext : ∀ b ∈ content, Octet.isTextChar b = true) (rest : Bytes) :
    DateTime.rule ctx (quote content ++ rest) =
      match ofText? content with
      | none => .failed (.miss (.notDateTime (Bytes.text content)) 0)
      | some d =>
        match d.fault? with
        | none => .done d (quote content).length
        | some fault => .failed (.bad (.badDateTime (Bytes.text content) fault) 0) := by
  have hread : quotedText ctx (quote content ++ rest) =
      .done (Bytes.text content) (quote content).length :=
    (quotedText_reads ⟨content, htext⟩).done
  simp only [DateTime.rule, Rule.refine, hread, Bytes.ofText_text]
  cases ofText? content with
  | none => rfl
  | some d => cases hfault : d.fault? <;> simp only [hfault]

/-- What becomes of a text between quotes. -/
structure Exactly (content : Bytes) (outcome : Outcome DateTime) : Prop where
  /-- It is a date of the calendar, of the shape that dates have. -/
  done : ∀ d used, outcome = .done d used ↔
    used = (quote content).length ∧ d.Valid ∧ ∃ t : Stamp, t.octets = content ∧ t.date = d
  /-- It has the shape, and no alternative is tried for what is not in the calendar. -/
  bad : ∀ t : Stamp, t.octets = content → ¬t.date.Valid →
    ∃ fault, outcome = .failed (.bad (.badDateTime (Bytes.text content) fault) 0)
  /-- It has another shape. -/
  miss : (¬∃ t : Stamp, t.octets = content) →
    outcome = .failed (.miss (.notDateTime (Bytes.text content)) 0)

/-- Quoted strings are read as dates just if they are dates, and as those that they are. -/
theorem quoted_dates_exact (htext : ∀ b ∈ content, Octet.isTextChar b = true) (rest : Bytes) :
    Exactly content (DateTime.rule ctx (quote content ++ rest)) := by
  have hrule := @rule_quote ctx content htext rest
  cases hd : ofText? content with
  | none =>
    have hnone := ofText?_eq_none_iff.mp hd
    simp only [hd] at hrule
    rw [hrule]
    exact ⟨fun d used => iff_of_false nofun fun ⟨_, _, t, ht, _⟩ => hnone ⟨t, ht⟩,
      fun t ht => absurd ⟨t, ht⟩ hnone, fun _ => rfl⟩
  | some d =>
    obtain ⟨t, ht, rfl⟩ := ofText?_eq_some_iff.mp hd
    have honly {t' : Stamp} (ht' : t'.octets = content) : t'.date = t.date := by
      have hd' := t'.ofText?_octets
      rw [ht', hd] at hd'
      exact (Option.some.inj hd').symm
    cases hfault : t.date.fault? with
    | none =>
      have hvalid := (stamp_fault?_eq_none_iff t).mp hfault
      simp only [hd, hfault] at hrule
      rw [hrule]
      refine ⟨fun d used => ?_, fun t' ht' hnot => absurd (honly ht' ▸ hvalid) hnot,
        fun hnone => absurd ⟨t, ht⟩ hnone⟩
      constructor
      · intro hdone
        cases hdone
        exact ⟨rfl, hvalid, t, ht, rfl⟩
      · rintro ⟨rfl, -, t', ht', rfl⟩
        rw [honly ht']
    | some fault =>
      have hnot : ¬t.date.Valid := by
        rw [← stamp_fault?_eq_none_iff, hfault]
        exact nofun
      simp only [hd, hfault] at hrule
      rw [hrule]
      refine ⟨fun d used => iff_of_false nofun ?_, fun _ _ _ => ⟨fault, rfl⟩,
        fun hnone => absurd ⟨t, ht⟩ hnone⟩
      rintro ⟨-, hvalid, t', ht', rfl⟩
      exact hnot (honly ht' ▸ hvalid)

end

/-- The last century that was a leap year had a last day of February. -/
theorem quoted_dates_exact_leap_day :
    DateTime.rule ⟨false, .response⟩ (quote (Bytes.ofText "29-feb-2000 23:59:59 -0730") ++ [0x29]) =
      .done ⟨2000, 2, 29, 23, 59, 59, -450⟩ 28 := by
  have htext : ∀ b ∈ Bytes.ofText "29-feb-2000 23:59:59 -0730", Octet.isTextChar b = true := by
    decide +kernel
  have hvalid : Valid ⟨2000, 2, 29, 23, 59, 59, -450⟩ :=
    ⟨by decide, by decide, ⟨29, by decide, by decide⟩, by decide, by decide, by decide, by decide⟩
  have hstamp : ofText? (Bytes.ofText "29-feb-2000 23:59:59 -0730") =
      some ⟨2000, 2, 29, 23, 59, 59, -450⟩ := by decide +kernel
  exact ((quoted_dates_exact htext [0x29]).done _ _).mpr
    ⟨by decide +kernel, hvalid, ofText?_eq_some_iff.mp hstamp⟩

end DateTime

end Imap
