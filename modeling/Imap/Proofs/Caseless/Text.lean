import Imap.Keyword
import Imap.Proofs.Caseless.Basic
import Imap.Text.Utf8

namespace Imap

namespace Text

/-- A function of characters that sees no difference in the capitals sees none at all. -/
theorem apply_toLower {β : Type} {f : Char → β}
    (h : ∀ n < 26, f (Char.ofNat (0x41 + n)).toLower = f (Char.ofNat (0x41 + n))) (c : Char) :
    f c.toLower = f c := by
  by_cases hc : 'A'.val ≤ c.val ∧ c.val ≤ 'Z'.val
  · have hlow : 0x41 ≤ c.toNat := hc.1
    have hhigh : c.toNat ≤ 0x5A := hc.2
    have hcapital := h (c.toNat - 0x41) (by omega)
    rwa [Nat.add_sub_cancel' hlow, Char.ofNat_toNat] at hcapital
  · exact congrArg f (dif_neg hc)

end Text

namespace Akin

variable {s s' : String}

theorem chars_eq (h : Akin s s') : s.toList.map Char.toLower = s'.toList.map Char.toLower := by
  rw [← toLower_toList, ← toLower_toList, Akin.text.mp h]

theorem of_chars (h : s.toList.map Char.toLower = s'.toList.map Char.toLower) : Akin s s' := by
  rw [Akin.text, ← String.toList_inj, toLower_toList, toLower_toList, h]

theorem map_eq {β : Type} {f : Char → β} (hf : ∀ c, f c.toLower = f c) (h : Akin s s') :
    s.toList.map f = s'.toList.map f := by
  have side (s : String) : s.toList.map f = (s.toList.map Char.toLower).map f := by
    rw [List.map_map]
    exact List.map_congr_left fun c _ => (hf c).symm
  rw [side, side, h.chars_eq]

theorem toUpper_eq (h : Akin s s') : s.toUpper = s'.toUpper := by
  rw [← String.toList_inj, String.toUpper, String.toUpper, String.toList_map, String.toList_map]
  exact h.map_eq (Text.apply_toLower (by decide))

theorem length_eq (h : Akin s s') : s.length = s'.length := by
  have hlen := congrArg List.length h.chars_eq
  rwa [List.length_map, List.length_map, String.length_toList, String.length_toList] at hlen

theorem empty_iff (h : Akin s s') : s = "" ↔ s' = "" := by
  rw [← String.length_eq_zero_iff, h.length_eq, String.length_eq_zero_iff]

theorem append {t t' : String} (h : Akin s s') (ht : Akin t t') : Akin (s ++ t) (s' ++ t') := by
  refine of_chars ?_
  rw [String.toList_append, String.toList_append, List.map_append, List.map_append, h.chars_eq,
    ht.chars_eq]

theorem drop (h : Akin s s') (n : Nat) :
    Akin (String.ofList (s.toList.drop n)) (String.ofList (s'.toList.drop n)) := by
  refine of_chars ?_
  rw [String.toList_ofList, String.toList_ofList, List.map_drop, List.map_drop, h.chars_eq]

theorem octets_alike (h : Akin s s') : (Bytes.ofText s).Alike (Bytes.ofText s') := by
  rw [Bytes.Alike, Bytes.ofText, Bytes.ofText, List.map_map, List.map_map]
  exact h.map_eq (Text.apply_toLower (by decide))

/-- A keyword's rule is the same for all its spellings. -/
theorem find?_eq {α : Type} (h : Akin s s') (table : List (String × α)) :
    Keyword.find? table s = Keyword.find? table s' := by
  have hlower : s.toList.map Keyword.lower = s'.toList.map Keyword.lower :=
    h.map_eq (Text.apply_toLower (by decide))
  rw [Keyword.find?, Keyword.find?, Keyword.ruleName?, Keyword.ruleName?, hlower]

end Akin

namespace Text.Utf8

theorem lead_letter (b : UInt8) (h : Octet.isLetter b = true) : lead b = some (b.toNat, []) := by
  have hascii := Octet.Ascii.letter b h
  exact if_pos hascii

theorem lead_bounds {b : UInt8} {entry : Nat × List (UInt8 × UInt8)} (h : lead b = some entry) :
    ∀ bound ∈ entry.2, 0x80 ≤ bound.1 := by
  have all : ∀ b, ((lead b).all fun entry => entry.2.all fun bound => 0x80 ≤ bound.1) = true :=
    Octet.forall_of_lt (by decide +kernel)
  have hbounds := all b
  rw [h, Option.all_some, List.all_eq_true] at hbounds
  exact fun bound hm => of_decide_eq_true (hbounds bound hm)

theorem follow_alike (point : Nat) {bounds : List (UInt8 × UInt8)} {bs bs' : Bytes}
    (hbounds : ∀ bound ∈ bounds, 0x80 ≤ bound.1) (h : bs.Alike bs') :
    follow point bounds bs = follow point bounds bs' := by
  induction bounds generalizing point bs bs' with
  | nil => rfl
  | cons bound bounds ih =>
    obtain ⟨low, high⟩ := bound
    have hlow : 0x80 ≤ low := hbounds _ List.mem_cons_self
    cases bs with
    | nil => rw [h.nil]
    | cons b bs =>
      cases hb : Octet.isLetter b with
      | false =>
        obtain ⟨cs, rfl, hrest⟩ := h.uncons_same hb
        rw [follow, follow, ih _ (fun bound hm => hbounds bound (List.mem_cons_of_mem _ hm)) hrest]
      | true =>
        obtain ⟨c, cs, rfl, hc, hrest⟩ := h.uncons
        have hletter : Octet.isLetter c = true := by rwa [Octet.isLetter, ← hc]
        have hmiss {d : UInt8} (hd : Octet.isLetter d = true) : ¬(low ≤ d ∧ d ≤ high) := fun hin =>
          UInt8.not_lt.mpr (UInt8.le_trans hlow hin.1) (Octet.Ascii.letter d hd)
        rw [follow, follow, if_neg (hmiss hb), if_neg (hmiss hletter)]

theorem chars_letter {b : UInt8} (hb : Octet.isLetter b = true) (bs : Bytes) :
    chars (b :: bs) = Octet.char b :: chars bs := by
  rw [chars, lead_letter b hb]
  rfl

theorem chars_alike {bs bs' : Bytes} (h : bs.Alike bs') :
    (chars bs).map Char.toLower = (chars bs').map Char.toLower := by
  induction bs using chars.induct generalizing bs' with
  | case1 => rw [h.nil]
  | case2 b bs hlead ih =>
    cases hb : Octet.isLetter b with
    | true =>
      rw [lead_letter b hb] at hlead
      cases hlead
    | false =>
      obtain ⟨cs, rfl, hrest⟩ := h.uncons_same hb
      rw [chars, chars, hlead]
      simp only [List.map_cons, ih hrest]
  | case3 b bs point bounds hlead point' taken hfollow ih =>
    cases hb : Octet.isLetter b with
    | true =>
      obtain ⟨c, cs, rfl, hc, hrest⟩ := h.uncons
      have hletter : Octet.isLetter c = true := by rwa [Octet.isLetter, ← hc]
      rw [lead_letter b hb] at hlead
      cases hlead
      cases hfollow
      rw [chars_letter hb, chars_letter hletter, List.map_cons, List.map_cons, Octet.char_toLower,
        Octet.char_toLower, hc, ← ih hrest]
      rfl
    | false =>
      obtain ⟨cs, rfl, hrest⟩ := h.uncons_same hb
      have hsame := follow_alike point (lead_bounds hlead) hrest
      rw [chars, chars]
      simp only [hlead, hfollow, ← hsame, List.map_cons, ih (hrest.drop taken)]

theorem decode_alike {bs bs' : Bytes} (h : bs.Alike bs') : Akin (decode bs) (decode bs') := by
  refine Akin.of_chars ?_
  rw [decode, decode, String.toList_ofList, String.toList_ofList, chars_alike h]

end Text.Utf8

end Imap
