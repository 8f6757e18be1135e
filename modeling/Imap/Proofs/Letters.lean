import Imap.Proofs.Built.Basic

namespace Imap

namespace Octet

/-- What holds of octets can be checked on all 256 of them. -/
theorem forall_of_lt {P : UInt8 → Prop} (h : ∀ n < 256, P (UInt8.ofNat n)) (b : UInt8) : P b := by
  have hb := h b.toNat b.toNat_lt
  rwa [UInt8.ofNat_toNat] at hb

/-- Octets are their own small letters but for the 26 capitals. -/
theorem lower_or_capital (b : UInt8) : lower b = b ∨ ∃ n < 26, b = UInt8.ofNat (0x41 + n) := by
  by_cases h : 0x41 ≤ b && b ≤ 0x5A
  · rw [Bool.and_eq_true, decide_eq_true_eq, decide_eq_true_eq] at h
    have hlow : 0x41 ≤ b.toNat := h.1
    have hhigh : b.toNat ≤ 0x5A := h.2
    refine .inr ⟨b.toNat - 0x41, by omega, ?_⟩
    rw [Nat.add_sub_cancel' hlow, UInt8.ofNat_toNat]
  · exact .inl (if_neg h)

/-- A function of octets that sees no difference in the capitals sees none at all. -/
theorem apply_lower {β : Type} {f : UInt8 → β}
    (h : ∀ n < 26, f (lower (UInt8.ofNat (0x41 + n))) = f (UInt8.ofNat (0x41 + n))) (b : UInt8) :
    f (lower b) = f b := by
  obtain hb | ⟨n, hn, rfl⟩ := lower_or_capital b
  · rw [hb]
  · exact h n hn

theorem lower_lower : ∀ b, lower (lower b) = lower b := by
  apply apply_lower
  decide

theorem isLetter_of_lower_ne (b : UInt8) (h : lower b ≠ b) : isLetter b = true := by
  obtain ⟨n, hn, rfl⟩ := (lower_or_capital b).resolve_left h
  revert n
  decide

/-- Only letters have two cases. -/
theorem lower_eq_iff {b w : UInt8} (hw : isLetter w = false) : lower b = w ↔ b = w := by
  have letter {c : UInt8} (hc : isLetter c = false) : lower c = c :=
    Decidable.byContradiction fun h => by simp [isLetter_of_lower_ne c h] at hc
  constructor
  · intro h
    rw [← letter (c := b), h]
    rw [← h, isLetter, lower_lower] at hw
    exact hw
  · rintro rfl
    exact letter hw

/-- The character that an octet stands for. -/
def char (b : UInt8) : Char := Char.ofNat b.toNat

theorem char_toNat : ∀ b, (char b).toNat = b.toNat := by
  apply forall_of_lt
  decide +kernel

theorem char_injective : Function.Injective char := by
  intro a b h
  have := congrArg Char.toNat h
  rw [char_toNat, char_toNat] at this
  exact UInt8.toNat_inj.mp this

theorem char_toLower : ∀ b, (char b).toLower = char (lower b) := by
  apply forall_of_lt
  decide +kernel

end Octet

/-- Texts are made small letter by letter. -/
theorem toLower_toList (s : String) : s.toLower.toList = s.toList.map Char.toLower :=
  String.toList_map

theorem toLower_append (s t : String) : (s ++ t).toLower = s.toLower ++ t.toLower := by
  rw [← String.toList_inj, String.toList_append, toLower_toList, toLower_toList, toLower_toList,
    String.toList_append, List.map_append]

theorem toLower_eq_empty {s : String} : s.toLower = "" ↔ s = "" := by
  rw [← String.toList_eq_nil_iff, toLower_toList, List.map_eq_nil_iff, String.toList_eq_nil_iff]

/-- A text is split where its small letters are. -/
theorem toLower_eq_append {s front back : String} (h : s.toLower = front ++ back) :
    ∃ first last, s = first ++ last ∧ first.toLower = front ∧ last.toLower = back := by
  rw [← String.toList_inj, toLower_toList, String.toList_append] at h
  obtain ⟨first, last, hs, hfirst, hlast⟩ := List.map_eq_append_iff.mp h
  refine ⟨String.ofList first, String.ofList last, ?_, ?_, ?_⟩
  · rw [← String.ofList_append, ← hs, String.ofList_toList]
  · rw [← String.toList_inj, toLower_toList, String.toList_ofList, hfirst]
  · rw [← String.toList_inj, toLower_toList, String.toList_ofList, hlast]

/-- Letters have the same small letters in capitals. -/
theorem toLower_toUpper (s : String) : s.toUpper.toLower = s.toLower := by
  have hchar (c : Char) : c.toUpper.toLower = c.toLower := by
    by_cases hc : 'a'.val ≤ c.val ∧ c.val ≤ 'z'.val
    · have hlow : 0x61 ≤ c.toNat := hc.1
      have hhigh : c.toNat ≤ 0x7A := hc.2
      have hletter : ∀ n < 26, (Char.ofNat (0x61 + n)).toUpper.toLower = (Char.ofNat (0x61 + n)).toLower := by
        decide
      have h := hletter (c.toNat - 0x61) (by omega)
      rwa [Nat.add_sub_cancel' hlow, Char.ofNat_toNat] at h
    · exact congrArg Char.toLower (dif_neg hc)
  rw [← String.toList_inj, toLower_toList, toLower_toList, String.toUpper, String.toList_map,
    List.map_map]
  exact List.map_congr_left fun c _ => hchar c

theorem toUpper_eq_self {s : String} (h : ∀ c ∈ s.toList, c.isLower = false) : s.toUpper = s := by
  have hchar : ∀ c ∈ s.toList, c.toUpper = c := by
    intro c hc
    have hcapital : ¬('a'.val ≤ c.val ∧ c.val ≤ 'z'.val) := by
      intro hrange
      have hlower : c.isLower = true :=
        Bool.and_eq_true_iff.mpr ⟨decide_eq_true hrange.1, decide_eq_true hrange.2⟩
      rw [h c hc] at hlower
      cases hlower
    exact dif_neg hcapital
  rw [← String.toList_inj, String.toUpper, String.toList_map]
  exact (List.map_congr_left hchar).trans (List.map_id _)

namespace Bytes

theorem text_toList (bs : Bytes) : (text bs).toList = bs.map Octet.char := String.toList_ofList

theorem ofText_text (bs : Bytes) : ofText (text bs) = bs := by
  rw [ofText, text_toList, List.map_map]
  refine (List.map_congr_left fun b _ => ?_).trans (List.map_id bs)
  show UInt8.ofNat (Octet.char b).toNat = b
  rw [Octet.char_toNat, UInt8.ofNat_toNat]

theorem ofText_append (s t : String) : ofText (s ++ t) = ofText s ++ ofText t := by
  rw [ofText, String.toList_append, List.map_append]
  rfl

theorem text_toLower (bs : Bytes) :
    (text bs).toLower.toList = (bs.map Octet.lower).map Octet.char := by
  rw [toLower_toList, text_toList, List.map_map, List.map_map]
  exact List.map_congr_left fun b _ => Octet.char_toLower b

end Bytes

namespace Rule

theorem compareWord_of_prefix {small bs : Bytes} (h : small <+: bs.map Octet.lower) :
    compareWord small bs = .equal := by
  induction small generalizing bs with
  | nil => rfl
  | cons w ws ih =>
    cases bs with
    | nil => simp at h
    | cons b bs =>
      rw [List.map_cons, List.cons_prefix_cons] at h
      rw [compareWord, if_pos h.1.symm, ih h.2]
      rfl

end Rule

end Imap
