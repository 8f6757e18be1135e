import Imap.Proofs.Built.Grammar
import Imap.Proofs.Modes.List
import Imap.Proofs.Places

namespace Imap

/-- The classes of failure that octets can meet. -/
def FailureClass.ofOctets : List FailureClass := [incomplete, badSyntax, noMatch, unknownCommand]

/-- The ends that reading `data` can come to. -/
inductive Outcome.Closed {α : Type} (complete : Bool) (data : Bytes) : Outcome α → Prop
  | done (v : α) {span rest : Bytes} (split : data = span ++ rest) :
    Closed complete data (.done v span.length)
  | failed {why : Failure} {report : Report} {p : Nat} (reported : why.report? data = some report)
    (known : report.kind ∈ FailureClass.ofOctets) (position : report.position = some (p : Int))
    (within : p ≤ data.length) (ongoing : report.kind = .incomplete → complete = false) :
    Closed complete data (.failed why)

/-- Every failure is reported but a refusal. -/
theorem Failure.reported (f : Failure) (data : Bytes) (h : ∀ refusal, f ≠ .refused refusal) :
    ∃ report, ∃ p : Nat, f.report? data = some report ∧ report.kind ∈ FailureClass.ofOctets ∧
      report.position = some (p : Int) ∧ f.position? = some p ∧ f.class? = some report.kind := by
  cases f with
  | short missing needed p => exact ⟨_, p, rfl, by simp [FailureClass.ofOctets], rfl, rfl, rfl⟩
  | miss cause p =>
    have hkind : cause.missClass ∈ FailureClass.ofOctets := by
      cases cause <;> simp [Cause.missClass, FailureClass.ofOctets]
    exact ⟨_, p, rfl, hkind, rfl, rfl, rfl⟩
  | bad cause p => exact ⟨_, p, rfl, by simp [FailureClass.ofOctets], rfl, rfl, rfl⟩
  | refused refusal => exact absurd rfl (h refusal)

namespace Rule

variable {α : Type}

/-- Ends in a value or a report, whatever the octets. -/
def Closed (d : Dialect) (r : Rule α) : Prop :=
  ∀ complete data, (r ⟨complete, d⟩ data).Closed complete data

/-- Octets that are complete are not short. -/
theorem Conclusive.not_short {r : Rule α} (hr : Conclusive r) {complete : Bool} {d : Dialect}
    {data : Bytes} {why : Failure} (h : r ⟨complete, d⟩ data = .failed why)
    (hc : why.class? = some .incomplete) : complete = false := by
  cases complete with
  | false => rfl
  | true =>
    have hsettled := (hr d data).settled
    rw [h] at hsettled
    cases hsettled with
    | failed decided => exact absurd hc ((Failure.decided_iff why).mp decided)

theorem Built.closed {e : Extent} {r : Rule α} (h : Built e .willing r) {d : Dialect}
    (hq : d.knowsQuota = true) : r.Closed d := by
  intro complete data
  cases hd : r ⟨complete, d⟩ data with
  | done v n =>
    have hle := h.steady.fits _ _ _ _ hd
    have hlen : (data.take n).length = n := by rw [List.length_take]; omega
    have hclosed : (Outcome.done v (data.take n).length).Closed complete data :=
      .done v (List.take_append_drop n data).symm
    rwa [hlen] at hclosed
  | failed why =>
    have haccepted : ∀ refusal, why ≠ .refused refusal := by
      rintro refusal rfl
      exact h.willing _ _ _ hq hd
    obtain ⟨report, p, hreport, hkind, hp, hplace, hclass⟩ := why.reported data haccepted
    refine .failed hreport hkind hp (h.placed _ _ _ hd p hplace) fun hi => ?_
    exact h.conclusive.not_short hd (hclass.trans (congrArg some hi))

end Rule

namespace Grammar

/-- No two rules of a dialect have one name. -/
theorem names_nodup (d : Dialect) : ((rules d).map Prod.fst).Nodup := by
  cases d <;> decide +kernel

/-- Every rule of a dialect is found by its name, with hyphens for underscores or without. -/
theorem find_of_mem {α : Type} [ToTerm α] {d : Dialect} {known name : String} {r : Rule α}
    (h : entry known r ∈ rules d) (hname : (name.map fun c => if c = '-' then '_' else c) = known) :
    find d (some name) = .ok (term <$> r) := by
  have hd : d ≠ .base := by
    rintro rfl
    cases h
  have hlookup := lookup_of_mem (names_nodup d) h
  have hsome : (some name <|> start? d) = some name := rfl
  simp only [find, if_neg hd, hsome, hname, hlookup]

/-- The rules that read a unit are found by their names. -/
theorem find_units :
    find .response (some "greeting") = .ok (term <$> Response.greetingRule) ∧
    find .response (some "response") = .ok (term <$> Response.rule) ∧
    find .command (some "command") = .ok (term <$> Command.rule) := by
  have hgreeting : entry "greeting" Response.greetingRule ∈ rules .response := by
    simp [rules, response]
  have hresponse : entry "response" Response.rule ∈ rules .response := by simp [rules, response]
  have hcommand : entry "command" Command.rule ∈ rules .command := by simp [rules, command]
  exact ⟨find_of_mem hgreeting (by decide +kernel), find_of_mem hresponse (by decide +kernel),
    find_of_mem hcommand (by decide +kernel)⟩

theorem run_of_find {d : Dialect} {name : Option String} {r : Rule Term} (h : find d name = .ok r)
    (complete : Bool) (data : Bytes) : run ⟨complete, d⟩ name data = r ⟨complete, d⟩ data := by
  simp only [run, h]

/-- Reading a greeting, a response, a command or a sequence set ends in a value or a report; so does
a run of its rule by name. -/
theorem run_closed :
    Response.greetingRule.Closed .response ∧ Response.rule.Closed .response ∧
      Command.rule.Closed .command ∧ SequenceSet.rule.Closed .command ∧
      Rule.Closed .response (run · (some "greeting")) ∧
      Rule.Closed .response (run · (some "response")) ∧
      Rule.Closed .command (run · (some "command")) ∧
      Rule.Closed .command (run · (some "sequence-set")) := by
  have sets : Rule.Built .line .willing SequenceSet.rule := SequenceSet.rule_built
  have named {d : Dialect} {name : Option String} {e : Rule.Extent} {r : Rule Term}
      (hfind : find d name = .ok r) (hq : d.knowsQuota = true) (h : Rule.Built e .willing r) :
      Rule.Closed d (run · name) := by
    intro complete data
    have hclosed := h.closed hq complete data
    rwa [← run_of_find hfind] at hclosed
  obtain ⟨hgreeting, hresponse, hcommand⟩ := find_units
  have hset : entry "sequence_set" SequenceSet.rule ∈ rules .command := by simp [rules, common]
  exact ⟨Response.greetingRule_built.closed rfl, Response.rule_built.closed rfl,
    Command.rule_built.closed rfl, sets.closed rfl,
    named hgreeting rfl (Response.greetingRule_built.map _),
    named hresponse rfl (Response.rule_built.map _),
    named hcommand rfl (Command.rule_built.map _),
    named (find_of_mem hset (by decide +kernel)) rfl (sets.map _)⟩

end Grammar

end Imap
