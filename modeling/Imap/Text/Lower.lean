import Imap.Text.Upper

namespace Imap.Text

/-- The letter of the run whose capital `c` is. -/
def CaseRun.small? (run : CaseRun) (c : Nat) : Option Nat :=
  if run.capital ≤ c ∧ c ≤ run.capital + (run.last - run.first) ∧ (c - run.capital) % run.step = 0 then
    some (run.first + (c - run.capital))
  else none

/-- The capitals above U+007F whose small form is not the first letter with that capital. -/
def ownSmallForms : List (Nat × List Nat) := [
  (0x130, [0x69, 0x307]), (0x1C4, [0x1C6]), (0x1C5, [0x1C6]), (0x1C7, [0x1C9]), (0x1C8, [0x1C9]),
  (0x1CA, [0x1CC]), (0x1CB, [0x1CC]), (0x1F1, [0x1F3]), (0x1F2, [0x1F3]), (0x399, [0x3B9]),
  (0x39C, [0x3BC]), (0x3A3, [0x3C3]), (0x3F4, [0x3B8]), (0x1E9E, [0xDF]), (0x1F88, [0x1F80]),
  (0x1F89, [0x1F81]), (0x1F8A, [0x1F82]), (0x1F8B, [0x1F83]), (0x1F8C, [0x1F84]),
  (0x1F8D, [0x1F85]), (0x1F8E, [0x1F86]), (0x1F8F, [0x1F87]), (0x1F98, [0x1F90]),
  (0x1F99, [0x1F91]), (0x1F9A, [0x1F92]), (0x1F9B, [0x1F93]), (0x1F9C, [0x1F94]),
  (0x1F9D, [0x1F95]), (0x1F9E, [0x1F96]), (0x1F9F, [0x1F97]), (0x1FA8, [0x1FA0]),
  (0x1FA9, [0x1FA1]), (0x1FAA, [0x1FA2]), (0x1FAB, [0x1FA3]), (0x1FAC, [0x1FA4]),
  (0x1FAD, [0x1FA5]), (0x1FAE, [0x1FA6]), (0x1FAF, [0x1FA7]), (0x1FBC, [0x1FB3]),
  (0x1FCC, [0x1FC3]), (0x1FFC, [0x1FF3]), (0x2126, [0x3C9]), (0x212A, [0x6B]), (0x212B, [0xE5]),
  (0xA64A, [0xA64B])]

def lowerChar (c : Char) : List Char :=
  if c.val < 0x80 then [c.toLower]
  else match ownSmallForms.lookup c.toNat with
    | some small => small.map Char.ofNat
    | none => match caseRuns.findSome? (·.small? c.toNat) with
      | some small => [Char.ofNat small]
      | none => [c]

theorem lowerChar_ascii {c : Char} (h : c.toNat < 0x80) : lowerChar c = [c.toLower] := if_pos h

/-- The Kelvin sign is the only one beyond ASCII with a small form in ASCII. -/
theorem lowerChar_kelvin : lowerChar '\u212A' = ['k'] := by decide +kernel

theorem ownSmallForms_beyond : ∀ entry ∈ ownSmallForms,
    entry.1 = 0x212A ∨ ∃ n ∈ entry.2, 0x80 ≤ n := by
  decide +kernel

theorem caseRuns_beyond : ∀ run ∈ caseRuns, 0x80 ≤ run.first := by decide +kernel

theorem lowerChar_beyond {c : Char} (h : 0x80 ≤ c.toNat) (hk : c ≠ '\u212A') :
    ∃ n, 0x80 ≤ n ∧ Char.ofNat n ∈ lowerChar c := by
  have hbeyond : ¬c.val < 0x80 := Nat.not_lt_of_le h
  rw [lowerChar, if_neg hbeyond]
  split
  · next small hsmall =>
    obtain ⟨front, back, hforms, -⟩ := List.lookup_eq_some_iff.mp hsmall
    have hmem : (c.toNat, small) ∈ ownSmallForms := by simp [hforms]
    rcases ownSmallForms_beyond _ hmem with hkelvin | ⟨n, hn, hle⟩
    · exact absurd (Char.toNat_inj.mp hkelvin) hk
    · exact ⟨n, hle, List.mem_map_of_mem hn⟩
  · split
    · next small hsmall =>
      obtain ⟨run, hrun, hcapital⟩ := List.exists_of_findSome?_eq_some hsmall
      have hfirst := caseRuns_beyond run hrun
      rw [CaseRun.small?] at hcapital
      split at hcapital <;> cases hcapital
      exact ⟨_, by omega, List.mem_cons_self⟩
    · exact ⟨c.toNat, h, by rw [Char.ofNat_toNat]; exact List.mem_cons_self⟩

/-- Lower case of `c` between `before`, given from its end on, and `after`. A capital sigma has another
small letter at the end of a word; `ends` tells from the text around it whether it stands there. -/
def lowerBetween (ends : List Char → List Char → Bool) (before : List Char) (c : Char)
    (after : List Char) : List Char :=
  if c = '\u03A3' && ends before after then ['\u03C2'] else lowerChar c

def lowerBehind (ends : List Char → List Char → Bool) (before : List Char) : List Char → List Char
  | [] => []
  | c :: cs => lowerBetween ends before c cs ++ lowerBehind ends (c :: before) cs

def lower (ends : List Char → List Char → Bool) (s : String) : String :=
  String.ofList (lowerBehind ends [] s.toList)

end Imap.Text
