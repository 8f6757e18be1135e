import Imap.Proofs.Built.Grammar
import Imap.Proofs.Caseless.Command

namespace Imap

open Rule

namespace Grammar

variable {α : Type} [ToTerm α]

theorem entry_caseless {r : Rule α} (name : String) (h : Caseless r) :
    Caseless (entry name r).2 :=
  h.map fun _ _ ha => ha

theorem entries_caseless {table : List (String × Rule α)} (lead : String)
    (h : ∀ p ∈ table, Caseless p.2) : ∀ p ∈ entries lead table, Caseless p.2 := by
  intro p hp
  obtain ⟨q, hq, rfl⟩ := List.mem_map.mp hp
  exact entry_caseless _ (h q hq)

/-- A rule whose values do not depend on case at all. -/
theorem entry_of_eq {r : Rule α} (name : String) (h : Agree Eq r r) :
    Caseless (entry name r).2 := by
  have hakin : Agree Akin r r := by
    apply h.mono
    intro a a' ha
    rw [ha]
    exact .refl a'
  exact entry_caseless name hakin

theorem condition_caseless (allowed : List StatusKind) :
    Caseless (StatusKind.conditionRule allowed) := by
  apply (StatusKind.conditionRule_agree allowed).mono
  intro c c' h
  show Term.tuple [Vocabulary.toTerm c.1, (term c.2.1).fold, (term c.2.2).fold] =
    Term.tuple [Vocabulary.toTerm c'.1, (term c'.2.1).fold, (term c'.2.2).fold]
  rw [h.1, h.2.1, h.2.2]

theorem common_caseless : ∀ p ∈ common, Caseless p.2 := by
  simp only [common, List.forall_mem_cons]
  exact ⟨entry_caseless _ space_caseless, entry_caseless _ lineEnd_caseless,
    entry_caseless _ atom_caseless, entry_caseless _ tag_caseless, entry_caseless _ text_caseless,
    entry_caseless _ Base64.rule_caseless, entry_of_eq _ number_caseless,
    entry_of_eq _ nonZeroNumber_caseless, entry_of_eq _ number64_caseless,
    entry_caseless _ quoted_caseless, entry_caseless _ literal_caseless,
    entry_caseless _ string_caseless, entry_caseless _ astring_caseless,
    entry_caseless _ nil_caseless, entry_caseless _ nstring_caseless,
    entry_caseless _ charset_caseless, entry_caseless _ atom_caseless,
    entry_caseless _ mailbox_caseless, entry_caseless _ mailboxPattern_caseless,
    entry_caseless _ flag_caseless, entry_caseless _ permanentFlag_caseless,
    entry_caseless _ flags_caseless, entry_caseless _ DateTime.rule_caseless,
    entry_caseless _ StatusAttribute.rule_caseless, entry_caseless _ SequenceSet.rule_caseless,
    entry_of_eq _ SeqElement.rangeRule_caseless, entry_of_eq _ SeqElement.singleRule_caseless,
    entry_of_eq _ SeqNo.rule_caseless, entry_caseless _ Capability.rule_caseless,
    entry_caseless _ Capability.authRule_caseless, entry_caseless _ Capability.atomRule_caseless,
    entry_caseless _ Capability.listRule_caseless, entry_caseless _ Capability.dataRule_caseless,
    List.forall_mem_nil _⟩

theorem quota_caseless : ∀ p ∈ quota, Caseless p.2 := by
  simp only [quota, List.forall_mem_cons]
  exact ⟨entry_caseless _ astring_caseless, entry_caseless _ Resource.rule_caseless,
    List.forall_mem_nil _⟩

theorem response_caseless : ∀ p ∈ response, Caseless p.2 := by
  intro p hp
  rw [response, List.mem_append, List.mem_append] at hp
  rcases hp with (hp | hp) | hp
  · revert p
    simp only [List.forall_mem_cons]
    exact ⟨entry_caseless _ Response.greetingRule_caseless,
      entry_caseless _ Response.rule_caseless, entry_caseless _ Continuation.rule_caseless,
      entry_caseless _ Continuation.textRule_caseless,
      entry_caseless _ Continuation.base64Rule_caseless,
      entry_caseless _ Response.dataRule_caseless, entry_caseless _ Status.doneRule_caseless,
      entry_caseless _ Status.taggedRule_caseless, entry_caseless _ Status.fatalRule_caseless,
      entry_caseless _ (condition_caseless _), entry_caseless _ (condition_caseless _),
      entry_caseless _ (condition_caseless _),
      entry_caseless _ (StatusText.rule_agree.mono fun _ _ h => .pair h.1 h.2),
      entry_caseless _ Code.bracketedRule_caseless, entry_caseless _ Code.rule_caseless,
      entry_caseless _ ((Data.mailboxListRule_agree _).mono fun _ _ h => h.akin),
      entry_caseless _ StatusAttribute.valueRule_caseless,
      entry_caseless _ (Data.numberedRule_agree.mono fun _ _ h => h.akin),
      entry_caseless _ FetchValue.attributeRule_caseless, entry_caseless _ Envelope.rule_caseless,
      entry_caseless _ Address.listRule_caseless, entry_caseless _ Address.rule_caseless,
      entry_caseless _ QuotaUsage.listRule_caseless, entry_caseless _ QuotaUsage.rule_caseless,
      List.forall_mem_nil _⟩
  · exact entries_caseless _ (fun q hq => (Code.arguments_agree q hq).mono fun _ _ h => h.1) p hp
  · exact entries_caseless _
      (fun q hq => (Response.byKeyword_agree q hq).mono fun _ _ h => h.akin) p hp

theorem command_caseless : ∀ p ∈ command, Caseless p.2 := by
  intro p hp
  rw [command, List.mem_append] at hp
  rcases hp with hp | hp
  · revert p
    simp only [List.forall_mem_cons]
    exact ⟨entry_caseless _ Command.rule_caseless, entry_caseless _ CommandBody.simpleRule_caseless,
      entry_caseless _ CommandBody.mailboxRule_caseless, entry_of_eq _ StoreAction.rule_agree,
      entry_caseless _ QuotaLimit.listRule_caseless, entry_caseless _ QuotaLimit.rule_caseless,
      List.forall_mem_nil _⟩
  · exact entries_caseless _ CommandBody.byName_caseless p hp

theorem run_agrees_caseless (name : Option String) : Caseless fun ctx => run ctx name := by
  intro ctx bs bs' h
  simp only [run]
  split
  · next r hfind =>
    obtain ⟨_, hmem⟩ := mem_of_find hfind
    exact forall_rules common_caseless quota_caseless response_caseless command_caseless _ _ hmem
      ctx bs bs' h
  · exact .failed (.refl _)

end Grammar

/-- What a caller sees of two outcomes: values that differ in case alone before remainders of one
length, or failures of one class at one place with as many octets missing. -/
def Outcome.SameButCase {α : Type} [ToTerm α] (bs bs' : Bytes) : Outcome α → Outcome α → Prop
  | done a used, done a' used' => Akin a a' ∧ (bs.drop used).length = (bs'.drop used').length
  | failed why, failed why' =>
    why.class? = why'.class? ∧ why.position? = why'.position? ∧ why.needed? = why'.needed?
  | _, _ => False

theorem Rule.Caseless.sameButCase {α : Type} [ToTerm α] {r : Rule α} (hr : Caseless r)
    {bs bs' : Bytes} (h : bs.Alike bs') (ctx : Context) :
    (r ctx bs).SameButCase bs bs' (r ctx bs') := by
  have hagrees := hr ctx bs bs' h
  generalize r ctx bs = o at hagrees ⊢
  generalize r ctx bs' = o' at hagrees ⊢
  cases hagrees with
  | done related used => exact ⟨related, (h.drop used).length_eq⟩
  | failed agree => exact ⟨agree.class?_eq, agree.position?_eq, agree.needed?_eq⟩

namespace Grammar

/-- Case does not matter to the grammar: not to the rule of any name in any dialect, and not to
responses, commands and sequence sets, whether or not more octets may come. -/
theorem run_caseless {bs bs' : Bytes} (h : bs.map Octet.lower = bs'.map Octet.lower)
    (ctx : Context) :
    (∀ name, (run ctx name bs).SameButCase bs bs' (run ctx name bs')) ∧
      (Response.greetingRule ctx bs).SameButCase bs bs' (Response.greetingRule ctx bs') ∧
      (Response.rule ctx bs).SameButCase bs bs' (Response.rule ctx bs') ∧
      (Command.rule ctx bs).SameButCase bs bs' (Command.rule ctx bs') ∧
      (SequenceSet.rule ctx bs).SameButCase bs bs' (SequenceSet.rule ctx bs') := by
  refine ⟨?_, ?_, Response.rule_caseless.sameButCase h ctx, Command.rule_caseless.sameButCase h ctx,
    SequenceSet.rule_caseless.sameButCase h ctx⟩
  · intro name
    exact (run_agrees_caseless name).sameButCase h ctx
  · exact Response.greetingRule_caseless.sameButCase h ctx

/-- Only the tag shows how a command was spelled. -/
theorem run_caseless_select :
    let small := Bytes.ofText "a select inbox\n"
    let mixed := Bytes.ofText "A Select InBox\n"
    small.map Octet.lower = mixed.map Octet.lower ∧
      Command.rule ⟨false, .command⟩ small = .done ⟨"a", .onMailbox "SELECT" "INBOX"⟩ 15 ∧
      Command.rule ⟨false, .command⟩ mixed = .done ⟨"A", .onMailbox "SELECT" "INBOX"⟩ 15 ∧
      (Command.rule ⟨false, .command⟩ small).SameButCase small mixed
        (Command.rule ⟨false, .command⟩ mixed) := by
  intro small mixed
  have hsame : small.map Octet.lower = mixed.map Octet.lower := by decide +kernel
  exact ⟨hsame, by decide +kernel, by decide +kernel, (run_caseless hsame _).2.2.2.1⟩

end Grammar

end Imap
