import Imap.Proofs.Written.Spelled
import Mathlib.Data.List.TakeWhile

namespace Imap

open Rule Written

namespace Rule

/-- Nothing but members of a class may still go on. -/
theorem span_cut {isMember : UInt8 → Bool} {wanted : Element} {dialect : Dialect} {bs : Bytes}
    (h : ∀ b ∈ bs, isMember b = true) :
    span isMember wanted ⟨false, dialect⟩ bs = .failed (.short (.element wanted) none 0) := by
  have hrun : bs.takeWhile isMember = bs := List.takeWhile_eq_self_iff.mpr h
  simp only [span, token, hrun, List.drop_length]
  rfl

/-- The rule reads the digits exactly, as far as `limit`. -/
structure ExactUpTo (r : Rule Nat) (limit : Nat) (wanted : Element) (d : Run Octet.isDigit) : Prop where
  /-- Where the digits end, behind them or with the octets, their number decides. -/
  ended : ∀ ctx rest, ctx.Stops Octet.isDigit rest → r ctx (d.octets ++ rest) =
    if d.value ≤ limit then .done d.value d.octets.length
    else .failed (.bad (.tooLarge d.text limit) 0)
  /-- Where they may go on, only a number that is too large does. -/
  alone : ∀ dialect, r ⟨false, dialect⟩ d.octets =
    if d.value ≤ limit then .failed (.short (.element wanted) none 0)
    else .failed (.bad (.tooLarge d.text limit) 0)

theorem digits_exact (limit : Nat) (wanted : Element) (d : Run Octet.isDigit) :
    ExactUpTo (digits limit wanted) limit wanted d where
  ended ctx rest hrest := by
    rw [digits_eq d hrest, d.value_eq]
    exact (if_congr Nat.not_le.symm rfl rfl).trans (ite_not ..)
  alone dialect := by
    have hrun : d.octets.takeWhile Octet.isDigit = d.octets :=
      List.takeWhile_eq_self_iff.mpr d.members
    rw [digits_apply, hrun, span_cut d.members, d.value_eq]
    exact (if_congr Nat.not_le.symm rfl rfl).trans (ite_not ..)

theorem nonZeroNumber_exact (d : Run Octet.isDigit) (hzero : d.octets.head? ≠ some 0x30) :
    ExactUpTo nonZeroNumber maxNumber .nonZeroNumber d := by
  have hdigits (ctx : Context) (rest : Bytes) : nonZeroNumber ctx (d.octets ++ rest) =
      digits maxNumber .nonZeroNumber ctx (d.octets ++ rest) :=
    (nonZeroNumber_eq d rest).trans (if_neg hzero)
  refine ⟨fun ctx rest hrest => ?_, fun dialect => ?_⟩
  · rw [hdigits, (digits_exact _ _ d).ended ctx rest hrest]
  · have halone := hdigits ⟨false, dialect⟩ []
    rw [List.append_nil] at halone
    rw [halone, (digits_exact _ _ d).alone dialect]

/-- Every number is exact up to its limit. One that must not be zero has no zero in front: such digits
it does not match, whatever is behind them. -/
theorem numbers_exact (d : Run Octet.isDigit) :
    ExactUpTo number (2 ^ 32 - 1) .number d ∧ ExactUpTo number64 (2 ^ 64 - 1) .number d ∧
      if d.octets.head? = some 0x30 then
        ∀ ctx rest, nonZeroNumber ctx (d.octets ++ rest) =
          .failed (.miss (.expected .nonZeroNumber) 0)
      else ExactUpTo nonZeroNumber (2 ^ 32 - 1) .nonZeroNumber d := by
  refine ⟨digits_exact maxNumber _ d, digits_exact maxNumber64 _ d, ?_⟩
  split
  · next hzero => exact fun ctx rest => (nonZeroNumber_eq d rest).trans (if_pos hzero)
  · next hzero => exact nonZeroNumber_exact d hzero

end Rule

end Imap
