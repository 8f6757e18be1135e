import Imap.Rule.Lexical
import Mathlib.Data.Nat.Digits.Lemmas

namespace Imap.Rule

theorem digit_bounds {d : UInt8} (h : Octet.isDigit d = true) : 0x30 ≤ d.toNat ∧ d.toNat ≤ 0x39 := by
  simp only [Octet.isDigit, Bool.and_eq_true, decide_eq_true_eq, UInt8.le_iff_toNat_le] at h
  exact h

theorem decimal_append (ds : Bytes) (d : UInt8) :
    decimal (ds ++ [d]) = 10 * decimal ds + (d.toNat - 0x30) := by
  rw [decimal, List.foldl_append]
  rfl

/-- The digits in the order of their places, the units first. -/
def places (run : Bytes) : List Nat := run.reverse.map fun d => d.toNat - 0x30

theorem decimal_eq_ofDigits (run : Bytes) : decimal run = Nat.ofDigits 10 (places run) := by
  rw [decimal, places, Nat.ofDigits_eq_foldr, List.foldr_map, List.foldr_reverse]
  refine congrFun (congrFun (congrArg _ ?_) _) _
  funext n d
  exact Nat.add_comm _ _

theorem places_length (run : Bytes) : (places run).length = run.length := by
  rw [places, List.length_map, List.length_reverse]

section

variable {run : Bytes}

/-- A digit other than zero in front counts in full. -/
theorem le_decimal {d : UInt8} (hd : Octet.isDigit d = true) (hzero : d ≠ 0x30) (run : Bytes) :
    10 ^ run.length ≤ decimal (d :: run) := by
  have hplaces : places (d :: run) = places run ++ [d.toNat - 0x30] := by
    rw [places, List.reverse_cons, List.map_append]
    rfl
  have hpos : 0 < d.toNat - 0x30 := by
    have hne : d.toNat ≠ 0x30 := fun h => hzero (UInt8.toNat_inj.mp h)
    have := digit_bounds hd
    omega
  rw [decimal_eq_ofDigits, hplaces, Nat.ofDigits_append, Nat.ofDigits_singleton, places_length]
  exact Nat.le_trans (Nat.le_mul_of_pos_right _ hpos) (Nat.le_add_left _ _)

theorem lt_pow_numeral (n : Nat) : n < 10 ^ (toString n).length := by
  rw [Nat.toString_eq_ofList_toDigits, String.length_ofList]
  exact (Nat.length_toDigits_le_iff (by decide) Nat.length_toDigits_pos).mp (Nat.le_refl _)

theorem decimal_dropZeros (run : Bytes) : decimal (run.dropWhile (· = 0x30)) = decimal run := by
  induction run with
  | nil => rfl
  | cons d run ih =>
    rw [List.dropWhile_cons]
    split
    · next h =>
      rw [ih, of_decide_eq_true h]
      rfl
    · rfl

theorem decimal_significant (run : Bytes) : decimal (significant run) = decimal run := by
  rw [← decimal_dropZeros run, significant]
  split
  · next h =>
    rw [h]
    rfl
  · rfl

/-- More than `k` significant digits are worth at least the first number that has so many. -/
theorem pow_le_decimal (h : ∀ d ∈ run, Octet.isDigit d = true) {k : Nat} (hk : 0 < k)
    (hlong : k < (significant run).length) : 10 ^ k ≤ decimal run := by
  have hhead := List.head?_dropWhile_not (fun b : UInt8 => decide (b = 0x30)) run
  have hmem := List.dropWhile_subset (l := run) fun b : UInt8 => decide (b = 0x30)
  rw [← decimal_dropZeros run]
  rw [significant] at hlong
  cases hfound : run.dropWhile (· = 0x30) with
  | nil =>
    rw [hfound] at hlong
    exact absurd hlong (Nat.not_lt.mpr hk)
  | cons d ds =>
    rw [hfound] at hlong hhead hmem
    have hlength : k ≤ ds.length := Nat.le_of_lt_succ hlong
    have hdigit : Octet.isDigit d = true := h d (hmem List.mem_cons_self)
    exact Nat.le_trans (Nat.pow_le_pow_right (by decide) hlength)
      (le_decimal hdigit (of_decide_eq_false hhead) ds)

/-- To compare the numbers of digits first changes nothing. -/
theorem bounded?_eq (limit : Nat) (h : ∀ d ∈ run, Octet.isDigit d = true) :
    bounded? limit run = if limit < decimal run then none else some (decimal run) := by
  have hlong : (toString limit).length < (significant run).length → limit < decimal run := by
    intro hlength
    have hpos : 0 < (toString limit).length := by
      rw [Nat.toString_eq_ofList_toDigits, String.length_ofList]
      exact Nat.length_toDigits_pos
    exact Nat.lt_of_lt_of_le (lt_pow_numeral limit) (pow_le_decimal h hpos hlength)
  simp only [bounded?, decimal_significant, Bool.or_eq_true, decide_eq_true_eq]
  exact if_congr ⟨fun h => h.elim hlong id, .inr⟩ rfl rfl

end

theorem digits_apply (limit : Nat) (wanted : Element) (ctx : Context) (bs : Bytes) :
    digits limit wanted ctx bs =
      if limit < decimal (bs.takeWhile Octet.isDigit) then
        .failed (.bad (.tooLarge (Bytes.text (bs.takeWhile Octet.isDigit)) limit) 0)
      else (span Octet.isDigit wanted ctx bs).map fun _ => decimal (bs.takeWhile Octet.isDigit) := by
  have hall : ∀ d ∈ bs.takeWhile Octet.isDigit, Octet.isDigit d = true :=
    List.all_eq_true.mp List.all_takeWhile
  have hbounded := bounded?_eq limit hall
  by_cases hlarge : limit < decimal (bs.takeWhile Octet.isDigit)
  · rw [if_pos hlarge] at hbounded
    simp only [digits, hbounded, hlarge, if_true]
  · rw [if_neg hlarge] at hbounded
    simp only [digits, hbounded, hlarge, if_false]

end Imap.Rule
