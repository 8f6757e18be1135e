import Imap.Proofs.Outcomes
import Imap.Proofs.Unit

namespace Imap

/-- For want of octets there is no answer yet. -/
def Outcome.IsShort {α : Type} (o : Outcome α) : Prop :=
  ∃ why, o = .failed why ∧ why.class? = some .incomplete

theorem Outcome.isShort_iff {α : Type} {o : Outcome α} :
    o.IsShort ↔ ∃ missing needed position, o = .failed (.short missing needed position) := by
  constructor
  · rintro ⟨why, rfl, hc⟩
    cases why with
    | short => exact ⟨_, _, _, rfl⟩
    | miss cause => cases cause <;> cases hc
    | _ => cases hc
  · rintro ⟨missing, needed, position, rfl⟩
    exact ⟨_, rfl, rfl⟩

theorem Outcome.settled_of_not_short {α : Type} {o : Outcome α} (h : ¬o.IsShort) : o.Settled := by
  cases o with
  | done a n => exact .done a n
  | failed why => exact .failed ((Failure.decided_iff why).mpr fun hc => h ⟨why, rfl, hc⟩)

namespace Rule

variable {α : Type} {r : Rule α} {d : Dialect}

/-- Where there is an answer before the octets are complete, it is the answer when they are. -/
def Agrees (d : Dialect) (r : Rule α) : Prop :=
  ∀ data, ¬(r ⟨false, d⟩ data).IsShort → r ⟨true, d⟩ data = r ⟨false, d⟩ data

/-- Complete octets and octets that may go on hold the same values; what is short in these is bad
syntax in those. -/
structure Concurs (d : Dialect) (r : Rule α) : Prop where
  done_iff : ∀ data v n, r ⟨true, d⟩ data = .done v n ↔ r ⟨false, d⟩ data = .done v n
  bad : ∀ data, (r ⟨false, d⟩ data).IsShort →
    ∃ why, r ⟨true, d⟩ data = .failed why ∧ why.isBadSyntax = true

theorem Conclusive.agrees (h : Conclusive r) (d : Dialect) : r.Agrees d := by
  intro data hs
  exact (h d data).eq_of_settled (Outcome.settled_of_not_short hs)

/-- A unit that is found in complete octets is found in its own ones already. -/
theorem Ends.done_before (h : Ends r) (hs : Steady r) {data : Bytes} {v : α} {n : Nat}
    (hd : r ⟨true, d⟩ data = .done v n) : r ⟨false, d⟩ data = .done v n := by
  obtain ⟨pre, tail, rfl, -, hend⟩ := h _ _ _ _ hd
  have happend := hs.done_append tail hend
  rwa [List.append_assoc] at happend

theorem Ends.concurs (h : Ends r) (hb : Built .unit .willing r) (hq : d.knowsQuota = true) :
    r.Concurs d where
  done_iff data v n :=
    ⟨h.done_before hb.steady, fun hd => (hd ▸ hb.conclusive d data).eq_of_done⟩
  bad data hshort := by
    obtain ⟨why, hfailed, hclass⟩ := hshort
    cases hlast : r ⟨true, d⟩ data with
    | done v n =>
      rw [h.done_before hb.steady hlast] at hfailed
      cases hfailed
    | failed why' =>
      have decided : why'.Decided := (Failure.decided_iff why').mpr fun hc =>
        absurd (hb.conclusive.not_short hlast hc) (by decide)
      exact ⟨why', rfl, decided.isBadSyntax fun refusal hr => hb.willing _ _ _ hq (hr ▸ hlast)⟩

end Rule

namespace Grammar

theorem run_conclusive (name : Option String) : Rule.Conclusive fun ctx => run ctx name := by
  intro d data
  simp only [run]
  cases hf : find d name with
  | ok rule => exact (find_built hf).conclusive d data
  | error why => exact .same (.failed (.refused why)) rfl

/-- Every rule by name, and the units and sequence sets themselves, answer alike before and after
the octets are known to be complete; units are found in the same octets in both ways. -/
theorem run_agrees :
    (∀ d name, Rule.Agrees d (run · name)) ∧
      Response.greetingRule.Agrees .response ∧ Response.rule.Agrees .response ∧
      Command.rule.Agrees .command ∧ SequenceSet.rule.Agrees .command ∧
      Response.greetingRule.Concurs .response ∧ Response.rule.Concurs .response ∧
      Command.rule.Concurs .command ∧
      Rule.Concurs .response (run · (some "greeting")) ∧
      Rule.Concurs .response (run · (some "response")) ∧
      Rule.Concurs .command (run · (some "command")) := by
  have named {d : Dialect} {name : Option String} {r : Rule Term} (hfind : find d name = .ok r)
      (h : r.Concurs d) : Rule.Concurs d (run · name) := by
    constructor
    · intro data v n
      simpa only [run_of_find hfind] using h.done_iff data v n
    · intro data hshort
      simp only [run_of_find hfind] at hshort ⊢
      exact h.bad data hshort
  have sets : Rule.Built .line .wary SequenceSet.rule := SequenceSet.rule_built
  have greeting : Rule.Built .unit .willing Response.greetingRule := Response.greetingRule_built
  have response : Rule.Built .unit .willing Response.rule := Response.rule_built
  have command : Rule.Built .unit .willing Command.rule := Command.rule_built
  obtain ⟨hgreeting, hresponse, hcommand⟩ := find_units
  exact ⟨fun d name => (run_conclusive name).agrees d, greeting.conclusive.agrees _,
    response.conclusive.agrees _, command.conclusive.agrees _, sets.conclusive.agrees _,
    Response.greetingRule_ends.concurs greeting rfl, Response.rule_ends.concurs response rfl,
    Command.rule_ends.concurs command rfl,
    named hgreeting ((Response.greetingRule_ends.map _).concurs (greeting.map _) rfl),
    named hresponse ((Response.rule_ends.map _).concurs (response.map _) rfl),
    named hcommand ((Command.rule_ends.map _).concurs (command.map _) rfl)⟩

/-- A text that may go on is short; once it cannot, its line end is missed. -/
example :
    Response.rule ⟨false, .response⟩ (Bytes.ofText "* OK hi") =
        .failed (.short (.element .text) none 5) ∧
      Response.rule ⟨true, .response⟩ (Bytes.ofText "* OK hi") =
        .failed (.miss (.expected .lineEnd) 7) := by
  decide +kernel

end Grammar

end Imap
