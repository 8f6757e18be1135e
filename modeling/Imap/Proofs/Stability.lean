import Imap.Proofs.Built.Grammar

namespace Imap

namespace Rule

variable {α : Type}

/-- However the octets go on, an answer that is no shortage stays as it is. -/
structure Stable (r : Rule α) : Prop where
  /-- What more octets add to a success is more to be left over. -/
  done : ∀ d data more v n, r ⟨false, d⟩ data = .done v n →
    r ⟨false, d⟩ (data ++ more) = .done v n ∧ (data ++ more).drop n = data.drop n ++ more
  failed : ∀ d data more why, r ⟨false, d⟩ data = .failed why → why.class? ≠ some .incomplete →
    ∃ why', r ⟨false, d⟩ (data ++ more) = .failed why' ∧
      why'.class? = why.class? ∧ why'.position? = why.position?
  /-- No part of what a success used is an answer of its own. -/
  cut : ∀ d data v n k, r ⟨false, d⟩ data = .done v n → k < n →
    ∃ why, r ⟨false, d⟩ (data.take k) = .failed why ∧ why.class? = some .incomplete

theorem Steady.stable {r : Rule α} (hr : Steady r) : Stable r where
  done d data more v n h := by
    have hn := hr.fits _ _ _ _ h
    exact ⟨hr.done_append more h, List.drop_append_of_le_length hn⟩
  failed d data more why h hc := by
    have hw : why.Decided := (Failure.decided_iff why).mpr hc
    obtain ⟨why', hf, halike⟩ := hr.failed_append more hw h
    exact ⟨why', hf, halike.class?_eq.symm, halike.position?_eq.symm⟩
  cut d data v n k h hk := by
    have hsplit : data.take k ++ data.drop k = data := List.take_append_drop k data
    cases hcut : r ⟨false, d⟩ (data.take k) with
    | done v' n' =>
      -- It would be done with the same octets, of which there are not enough.
      have hlater := hr.done_append (data.drop k) hcut
      have hfits := hr.fits _ _ _ _ hcut
      rw [hsplit, h] at hlater
      cases hlater
      rw [List.length_take] at hfits
      omega
    | failed why =>
      refine ⟨why, rfl, ?_⟩
      apply Decidable.byContradiction
      intro hc
      have hw : why.Decided := (Failure.decided_iff why).mpr hc
      obtain ⟨why', hlater, -⟩ := hr.failed_append (data.drop k) hw hcut
      rw [hsplit, h] at hlater
      cases hlater

end Rule

namespace Grammar

theorem run_steady (name : Option String) : Rule.Steady fun ctx => run ctx name where
  fits ctx bs v n h := by
    simp only [run] at h
    split at h
    · next rule hf => exact (find_built hf).steady.fits _ _ _ _ h
    · cases h
  grows d bs tail := by
    simp only [run]
    split
    · next rule hf => exact (find_built hf).steady.grows d bs tail
    · next why hf => exact .failed (.refused why)

/-- Every rule of every dialect is stable, whatever its name; so are the units and sequence sets
themselves, not only the terms that are made of them. -/
theorem run_stable :
    (∀ name, Rule.Stable fun ctx => run ctx name) ∧
      Response.greetingRule.Stable ∧ Response.rule.Stable ∧ Command.rule.Stable ∧
      SequenceSet.rule.Stable := by
  have sets : Rule.Built .line .wary SequenceSet.rule := SequenceSet.rule_built
  refine ⟨fun name => (run_steady name).stable, ?_, ?_, ?_, sets.steady.stable⟩
  · exact (Response.greetingRule_built (m := .wary)).steady.stable
  · exact (Response.rule_built (m := .wary)).steady.stable
  · exact (Command.rule_built (m := .wary)).steady.stable

end Grammar

end Imap
