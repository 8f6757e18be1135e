import Imap.Proofs.Growth.Token

namespace Imap

/-- A class of octets that lies in ASCII. -/
def Octet.Ascii (isMember : UInt8 → Bool) : Prop := ∀ b, isMember b = true → b < 0x80

namespace Octet.Ascii

theorem and {p : UInt8 → Bool} (hp : Ascii p) (q : UInt8 → Bool) : Ascii fun b => p b && q b := by
  intro b h
  rw [Bool.and_eq_true] at h
  exact hp b h.1

theorem patternChar : Ascii isPatternChar := by
  intro b h
  simp only [isPatternChar, Bool.and_eq_true, decide_eq_true_eq] at h
  have : b < 0x7F := h.1.1.1.1.1.2
  grind

theorem astringChar : Ascii isAstringChar := (patternChar.and _).and _

theorem atomChar : Ascii isAtomChar := astringChar.and _

theorem tagChar : Ascii isTagChar := astringChar.and _

theorem textChar : Ascii isTextChar := by
  intro b h
  simp only [isTextChar, Bool.and_eq_true, decide_eq_true_eq] at h
  exact h.2

theorem bracketedChar : Ascii isBracketedChar := textChar.and _

theorem digit : Ascii isDigit := by
  intro b h
  simp only [isDigit, Bool.and_eq_true, decide_eq_true_eq] at h
  grind

theorem letter : Ascii isLetter := by
  intro b h
  simp only [isLetter, lower, Bool.and_eq_true, decide_eq_true_eq] at h
  split at h
  · next hcapital => exact UInt8.lt_of_le_of_lt hcapital.2 (by decide)
  · exact UInt8.lt_of_le_of_lt h.2 (by decide)

theorem base64Char : Ascii isBase64Char := by
  intro b h
  simp only [isBase64Char, Bool.or_eq_true, beq_iff_eq] at h
  rcases h with ((h | h) | rfl) | rfl
  · exact letter b h
  · exact digit b h
  · decide
  · decide

theorem attributeChar : Ascii isAttributeChar := by
  intro b h
  simp only [isAttributeChar, Bool.or_eq_true, beq_iff_eq] at h
  rcases h with (h | h) | rfl
  · exact letter b h
  · exact digit b h
  · decide

end Octet.Ascii

namespace Rule

theorem quotedTail_ascii {ctx : Context} {bs content : Bytes} {n : Nat}
    (h : quotedTail ctx bs = .done content n) : ∀ b ∈ content, b < 0x80 := by
  induction bs using quotedTail.induct generalizing content n with
  | case1 => cases h
  | case2 bs => rw [quotedTail_close] at h; cases h; simp
  | case3 => cases h
  | case4 c bs hc _ ih =>
    rw [quotedTail_escape _ _ hc] at h
    obtain ⟨rest, m, hm, rfl, -⟩ := map_shift_done h
    intro b hb
    rcases List.mem_cons.mp hb with rfl | hb
    · rcases hc with rfl | rfl <;> decide
    · exact ih hm b hb
  | case5 c bs hc => rw [quotedTail_badEscape _ _ hc] at h; cases h
  | case6 b bs hq hs ht ih =>
    rw [quotedTail_char _ _ hq hs ht] at h
    obtain ⟨rest, m, hm, rfl, -⟩ := map_shift_done h
    intro b hb
    rcases List.mem_cons.mp hb with rfl | hb
    · exact Octet.Ascii.textChar _ ht
    · exact ih hm b hb
  | case7 b bs hq hs ht => rw [quotedTail_badChar _ _ hq hs ht] at h; cases h

theorem quoted_gives {content : Bytes} (h : quoted.Gives content) : ∀ b ∈ content, b < 0x80 := by
  obtain ⟨ctx, bs, used, hd⟩ := h
  obtain ⟨_, _, _, -, hcontent, -⟩ := bind_done hd
  exact quotedTail_ascii hcontent

end Rule

end Imap
