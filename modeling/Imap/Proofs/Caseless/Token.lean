import Imap.Proofs.Caseless.Basic
import Imap.Proofs.Growth.Token

namespace Imap

namespace Octet

/-- A class that holds a letter in both cases or in neither. -/
def CaselessClass (isMember : UInt8 → Bool) : Prop := ∀ b, isMember (lower b) = isMember b

namespace CaselessClass

variable {p q : UInt8 → Bool}

theorem of_capitals
    (h : ∀ n < 26, p (lower (UInt8.ofNat (0x41 + n))) = p (UInt8.ofNat (0x41 + n))) :
    CaselessClass p :=
  apply_lower h

theorem eq_of_lower (hp : CaselessClass p) {b c : UInt8} (h : lower b = lower c) : p b = p c := by
  rw [← hp b, h, hp c]

theorem and (hp : CaselessClass p) (hq : CaselessClass q) : CaselessClass fun b => p b && q b := by
  intro b
  simp only [hp b, hq b]

theorem ne {w : UInt8} (hw : isLetter w = false) : CaselessClass (· != w) := by
  intro b
  rw [Bool.eq_iff_iff, bne_iff_ne, bne_iff_ne, Ne, lower_eq_iff hw]

theorem patternChar : CaselessClass isPatternChar := by
  apply of_capitals
  decide

theorem astringChar : CaselessClass isAstringChar :=
  (patternChar.and (.ne rfl)).and (.ne rfl)

theorem atomChar : CaselessClass isAtomChar := astringChar.and (.ne rfl)

theorem tagChar : CaselessClass isTagChar := astringChar.and (.ne rfl)

theorem textChar : CaselessClass isTextChar := by
  apply of_capitals
  decide

theorem bracketedChar : CaselessClass isBracketedChar := textChar.and (.ne rfl)

theorem digit : CaselessClass isDigit := by
  apply of_capitals
  decide

theorem letter : CaselessClass isLetter := by
  apply of_capitals
  decide

theorem base64Char : CaselessClass isBase64Char := by
  apply of_capitals
  decide

theorem attributeChar : CaselessClass isAttributeChar := by
  apply of_capitals
  decide

end CaselessClass

theorem lower_digit (b : UInt8) (h : isDigit b = true) : lower b = b := by
  refine (lower_or_capital b).resolve_right ?_
  rintro ⟨n, hn, rfl⟩
  revert n
  decide

theorem letter_not_digit (b : UInt8) (h : isLetter b = true) : isDigit b = false := by
  refine Bool.eq_false_iff.mpr fun hd => ?_
  rw [isLetter, lower_digit b hd] at h
  simp only [isDigit, Bool.and_eq_true, decide_eq_true_eq] at h hd
  exact absurd (UInt8.le_trans h.1 hd.2) (by decide)

end Octet

namespace Bytes.Alike

variable {bs bs' : Bytes}

theorem text (h : Alike bs bs') : Akin (Bytes.text bs) (Bytes.text bs') := by
  rw [Akin.text, ← String.toList_inj, text_toLower, text_toLower, h]

theorem isEmpty_eq (h : Alike bs bs') : bs.isEmpty = bs'.isEmpty := by
  rw [← List.isEmpty_map (f := Octet.lower), h, List.isEmpty_map]

theorem takeWhile {p : UInt8 → Bool} (hp : Octet.CaselessClass p) (h : Alike bs bs') :
    Alike (bs.takeWhile p) (bs'.takeWhile p) := by
  have side (bs : Bytes) : (bs.takeWhile p).map Octet.lower = (bs.map Octet.lower).takeWhile p := by
    rw [List.takeWhile_map]
    exact congrArg (fun p => (bs.takeWhile p).map Octet.lower) (funext fun b => (hp b).symm)
  rw [Alike, side, side, h]

/-- Runs of digits are the same. -/
theorem takeWhile_digits (h : Alike bs bs') :
    bs.takeWhile Octet.isDigit = bs'.takeWhile Octet.isDigit := by
  have side (bs : Bytes) :
      (bs.takeWhile Octet.isDigit).map Octet.lower = bs.takeWhile Octet.isDigit := by
    refine (List.map_congr_left fun b hb => ?_).trans (List.map_id _)
    exact Octet.lower_digit b (List.all_eq_true.mp List.all_takeWhile b hb)
  have hrun := h.takeWhile .digit
  rwa [Alike, side, side] at hrun

/-- What is no letter is found in both or in neither. -/
theorem mem_iff {w : UInt8} (hw : Octet.isLetter w = false) (h : Alike bs bs') :
    w ∈ bs ↔ w ∈ bs' := by
  have side (bs : Bytes) : w ∈ bs ↔ w ∈ bs.map Octet.lower := by
    simp only [List.mem_map, Octet.lower_eq_iff hw, exists_eq_right]
  rw [side, h, ← side]

end Bytes.Alike

theorem Text.Ascii.decode_alike {bs bs' : Bytes} (h : bs.Alike bs') :
    Verdicts.Free Akin (decode bs) (decode bs') := by
  have beyond : Octet.CaselessClass fun b => 0x80 ≤ b := .of_capitals (by decide)
  have side (bs : Bytes) : bs.findIdx? (fun b => 0x80 ≤ b) =
      (bs.map Octet.lower).findIdx? (fun b => 0x80 ≤ b) := by
    rw [List.findIdx?_map]
    exact congrArg (bs.findIdx? ·) (funext fun b => (beyond b).symm)
  have hsame := (side bs).trans ((congrArg _ h).trans (side bs').symm)
  unfold decode
  rw [hsame]
  split
  · exact .ok h.text
  · exact .error trivial

theorem Outcome.agrees_ofExcept {α β : Type} {R : α → β → Prop} {x : Except Refusal α}
    {x' : Except Refusal β} (h : Verdicts.Free R x x') (used : Nat) :
    (Outcome.ofExcept used x).Agrees R (Outcome.ofExcept used x') := by
  cases h with
  | ok related => exact .done related used
  | error => exact .failed (.refused _ _)

namespace Rule

variable {ctx : Context} {bs bs' : Bytes}

theorem compareWord_alike (small : Bytes) (h : bs.Alike bs') :
    compareWord small bs = compareWord small bs' := by
  induction small generalizing bs bs' with
  | nil => rfl
  | cons w ws ih =>
    cases bs with
    | nil => rw [h.nil]
    | cons b bs =>
      obtain ⟨c, cs, rfl, hbc, hrest⟩ := h.uncons
      rw [compareWord, compareWord, hbc, ih hrest]

namespace Agree

theorem word (fixed : String) (cause : Cause) : Caseless (Rule.word fixed cause) := by
  intro ctx bs bs' h
  simp only [Rule.word, compareWord_alike _ h]
  split
  · exact .done (.refl _) _
  · split <;> exact .failed (.refl _)
  · exact .failed (.refl _)

theorem expect (fixed : String) (wanted : Element) : Caseless (Rule.expect fixed wanted) :=
  word fixed _

theorem skip? (fixed : String) : Agree Eq (Rule.skip? fixed) (Rule.skip? fixed) := by
  apply (word fixed _).opt.bind
  intro found found' h
  exact .pure (by cases h <;> rfl)

theorem token {length : Bytes → Nat} (hl : ∀ bs bs' : Bytes, bs.Alike bs' → length bs = length bs')
    (mayBeEmpty : Bool) (missing : Shortage) (cause : Cause) :
    Caseless (Rule.token length mayBeEmpty missing cause) := by
  intro ctx bs bs' h
  simp only [Rule.token, hl bs bs' h, (h.drop _).isEmpty_eq]
  split
  · exact .failed (.refl _)
  · split
    · exact .failed (.refl _)
    · exact Outcome.agrees_ofExcept (Text.Ascii.decode_alike (h.take _)) _

theorem run_length {p : UInt8 → Bool} (hp : Octet.CaselessClass p) (bs bs' : Bytes)
    (h : bs.Alike bs') : (bs.takeWhile p).length = (bs'.takeWhile p).length := by
  have hfront := h.takeWhile hp
  exact hfront.length_eq

theorem span {isMember : UInt8 → Bool} (hp : Octet.CaselessClass isMember) (wanted : Element) :
    Caseless (Rule.span isMember wanted) :=
  token (run_length hp) _ _ _

theorem digits (limit : Nat) (wanted : Element) :
    Agree Eq (Rule.digits limit wanted) (Rule.digits limit wanted) := by
  intro ctx bs bs' h
  simp only [digits_apply, h.takeWhile_digits]
  split
  · exact .failed (.refl _)
  · exact (span .digit wanted ctx bs bs' h).map fun _ _ _ => rfl

end Agree

theorem quotedTail_alike (ctx : Context) (h : bs.Alike bs') :
    (quotedTail ctx bs).Agrees Bytes.Alike (quotedTail ctx bs') := by
  induction bs using quotedTail.induct generalizing bs' with
  | case1 =>
    rw [h.nil]
    exact .failed (.refl _)
  | case2 bs =>
    obtain ⟨cs, rfl, -⟩ := h.uncons_same (by decide)
    rw [quotedTail_close, quotedTail_close]
    exact .done (.refl []) 1
  | case3 =>
    obtain ⟨cs, rfl, hrest⟩ := h.uncons_same (by decide)
    rw [hrest.nil]
    exact .failed (.refl _)
  | case4 b bs hb _ ih =>
    have hletter : Octet.isLetter b = false := by rcases hb with rfl | rfl <;> rfl
    obtain ⟨_, rfl, hbehind⟩ := h.uncons_same (by decide)
    obtain ⟨cs, rfl, hrest⟩ := hbehind.uncons_same hletter
    rw [quotedTail_escape _ _ hb, quotedTail_escape _ _ hb]
    exact ((ih hrest).map fun _ _ => .cons rfl).shift 2
  | case5 b bs hb =>
    obtain ⟨_, rfl, hbehind⟩ := h.uncons_same (by decide)
    obtain ⟨d, cs, rfl, hd, -⟩ := hbehind.uncons
    have hother : ¬(d = 0x22 ∨ d = 0x5C) := by
      rwa [← Octet.eq_iff_of_lower (by decide) hd, ← Octet.eq_iff_of_lower (by decide) hd]
    rw [quotedTail_badEscape _ _ hb, quotedTail_badEscape _ _ hother]
    exact .failed (.refl _)
  | case6 b bs hq hs ht ih =>
    obtain ⟨c, cs, rfl, hc, hrest⟩ := h.uncons
    have hq' : c ≠ 0x22 := mt (Octet.eq_iff_of_lower (by decide) hc).mpr hq
    have hs' : c ≠ 0x5C := mt (Octet.eq_iff_of_lower (by decide) hc).mpr hs
    have ht' : Octet.isTextChar c = true := (Octet.CaselessClass.textChar.eq_of_lower hc).symm.trans ht
    rw [quotedTail_char _ _ hq hs ht, quotedTail_char _ _ hq' hs' ht']
    exact ((ih hrest).map fun _ _ => .cons hc).shift 1
  | case7 b bs hq hs ht =>
    obtain ⟨c, cs, rfl, hc, hrest⟩ := h.uncons
    have hq' : c ≠ 0x22 := mt (Octet.eq_iff_of_lower (by decide) hc).mpr hq
    have hs' : c ≠ 0x5C := mt (Octet.eq_iff_of_lower (by decide) hc).mpr hs
    have ht' : ¬Octet.isTextChar c = true := by rwa [← Octet.CaselessClass.textChar.eq_of_lower hc]
    rw [quotedTail_badChar _ _ hq hs ht, quotedTail_badChar _ _ hq' hs' ht']
    exact .failed (.refl _)

namespace Agree

theorem quotedTail : Caseless Rule.quotedTail := by
  intro ctx _ _ h
  refine (quotedTail_alike ctx h).mono fun _ _ => ?_
  exact Akin.octets.mpr

theorem literalBody (size : Nat) : Caseless (Rule.literalBody size) := by
  intro ctx bs bs' h
  have hbody := h.take size
  simp only [Rule.literalBody, hbody.length_eq, h.length_eq]
  split
  · split <;> exact .failed (.refl _)
  · have hnul : (bs.take size).contains 0 = (bs'.take size).contains 0 := by
      rw [Bool.eq_iff_iff, List.contains_iff_mem, List.contains_iff_mem]
      exact hbody.mem_iff (by decide)
    rw [hnul]
    split
    · exact .failed (.refl _)
    · exact .done (Akin.octets.mpr hbody) size

end Agree

end Rule

end Imap
