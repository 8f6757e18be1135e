import Imap.Proofs.Built.Lexical
import Imap.Proofs.Line.Framed

namespace Imap.Rule

variable {α β : Type}

theorem Inline.le_length {r : Rule α} (hr : Inline r) {ctx : Context} {pre tail : Bytes} {a : α}
    {n : Nat} (h : r ctx (pre ++ 0x0A :: tail) = .done a n) : n ≤ pre.length := by
  have hnot := hr.inLine _ _ _ _ h
  exact le_length_of_not_mem hnot

/-- Whatever stands ahead, `r` does not miss. -/
def Firm (r : Rule α) : Prop := ∀ ctx bs cause position, r ctx bs ≠ .failed (.miss cause position)

theorem Firm.pure (a : α) : Firm (Pure.pure a : Rule α) := by
  intro ctx bs cause position h
  cases h

namespace Prompt

theorem of_lined {r : Rule α} (hr : Lined r) (hs : Steady r) (hc : Conclusive r) : Prompt r := by
  intro ctx pre tail cause position h
  rw [← hr.either hc (by simp)] at h
  have hlf : 0x0A ∈ pre ++ [0x0A] := by simp
  have h' : r ⟨false, ctx.dialect⟩ ((pre ++ [0x0A]) ++ tail) =
      .failed (.miss cause position) := by
    rw [List.append_assoc]
    exact h
  obtain ⟨cause', hc⟩ := hs.miss_of_settled (hr ctx.dialect _ hlf) h'
  exact ⟨cause', position, hc⟩

theorem of_line {r : Rule α} (h : Built .line .wary r) : Prompt r := by
  have hsettled := h.inline.settled
  exact of_lined hsettled h.steady h.conclusive

theorem bind {r : Rule α} {next : α → Rule β} (hr : Built .line .wary r)
    (hn : ∀ a, Prompt (next a)) : Prompt (r >>= next) := by
  intro ctx pre tail cause position h
  rcases bind_miss h with hfirst | ⟨a, n, position', ha, hnext⟩
  · obtain ⟨cause', position', hc⟩ := of_line hr _ _ _ _ _ hfirst
    exact ⟨cause', position', bind_of_failed hc⟩
  · have hle := hr.inline.le_length ha
    rw [List.drop_append_of_le_length hle] at hnext
    obtain ⟨cause', position', hc⟩ := hn a _ _ _ _ _ hnext
    have hstop := Built.framed_of_line hr _ _ _ _ _ ha hle
    refine ⟨cause', n + position', ?_⟩
    rw [bind_of_done hstop, List.drop_append_of_le_length hle, hc]
    rfl

theorem bind_firm {r : Rule α} {next : α → Rule β} (hr : Prompt r) (hn : ∀ a, Firm (next a)) :
    Prompt (r >>= next) := by
  intro ctx pre tail cause position h
  rcases bind_miss h with hfirst | ⟨a, n, position', -, hnext⟩
  · obtain ⟨cause', position', hc⟩ := hr _ _ _ _ _ hfirst
    exact ⟨cause', position', bind_of_failed hc⟩
  · exact absurd hnext (hn a _ _ _ _)

end Prompt

theorem literalBody_firm (size : Nat) : Firm (literalBody size) := by
  intro ctx bs cause position h
  simp only [literalBody] at h
  split at h
  · split at h <;> cases h
  · split at h <;> cases h

theorem literal_prompt : Prompt literal := by
  have brace (fixed : String) (wanted : Element)
      (hl : 0x0A ∉ (Bytes.ofText fixed).map Octet.lower) :
      Built .line .wary (expect fixed wanted) :=
    .expect _ _ hl
  have tail (size : Nat) : Prompt (do
      expect "\x7d" .literalEnd
      lineEnd
      literalBody size) :=
    .bind (brace _ _ (by decide)) fun _ =>
      (Prompt.of_lined lineEnd_lined .lineEnd .lineEnd).bind_firm fun _ => literalBody_firm size
  refine .bind (brace _ _ (by decide)) fun _ => ?_
  refine .bind (.digits _ _) fun size => ?_
  refine .bind .dialect fun d => ?_
  split
  · exact .bind (Built.skip? _ (by decide)).discard fun _ => tail size
  · exact tail size

theorem astring_prompt : Prompt astring := by
  refine .bind (bare_built rfl .astringChar _) fun found => ?_
  split
  · exact .of_line (.pure _)
  · refine .bind_firm ?_ fun _ => .pure _
    refine .bind .peek fun ahead => ?_
    split
    · exact .of_line quoted_built
    · exact literal_prompt
    · exact .of_line (.fail (.miss _))

end Imap.Rule
