import Imap.Grammar
import Imap.Proofs.Built.Command
import Imap.Proofs.Built.Response

namespace Imap.Grammar

open Rule

variable {e : Extent} {m : Manner} {α : Type} [ToTerm α]

theorem entry_built {r : Rule α} (name : String) (h : Built e m r) : Built e m (entry name r).2 :=
  h.map _

theorem entries_built {table : List (String × Rule α)} (lead : String)
    (h : ∀ p ∈ table, Built e m p.2) : ∀ p ∈ entries lead table, Built e m p.2 := by
  intro p hp
  obtain ⟨q, hq, rfl⟩ := List.mem_map.mp hp
  exact entry_built _ (h q hq)

theorem common_built : ∀ p ∈ common, Built .unit .wary p.2 := by
  have line {β : Type} [ToTerm β] {r : Rule β} (name : String) (h : Built .line .wary r) :
      Built .unit .wary (entry name r).2 := entry_built name h.ofLine
  have text {β : Type} [ToTerm β] {r : Rule β} (name : String) (h : Built .text .wary r) :
      Built .unit .wary (entry name r).2 := entry_built name h.ofText
  simp only [common, List.forall_mem_cons]
  exact ⟨line _ space_built, entry_built _ lineEnd_built, line _ atom_built, line _ tag_built,
    line _ text_built, line _ Base64.rule_built, line _ number_built, line _ nonZeroNumber_built,
    line _ number64_built, line _ quoted_built, text _ literal_built, text _ string_built,
    text _ astring_built, line _ nil_built, text _ nstring_built, line _ charset_built,
    line _ atom_built, text _ mailbox_built, text _ mailboxPattern_built, line _ flag_built,
    line _ permanentFlag_built, line _ flags_built, line _ DateTime.rule_built,
    line _ StatusAttribute.rule_built, line _ SequenceSet.rule_built,
    line _ SeqElement.rangeRule_built, line _ SeqElement.singleRule_built,
    line _ SeqNo.rule_built, line _ Capability.rule_built, line _ Capability.authRule_built,
    line _ Capability.atomRule_built, line _ Capability.listRule_built,
    line _ Capability.dataRule_built, nofun⟩

theorem quota_built : ∀ p ∈ quota, Built .unit .wary p.2 := by
  simp only [quota, List.forall_mem_cons]
  exact ⟨entry_built _ astring_built.ofText, entry_built _ Resource.rule_built, nofun⟩

theorem response_built : ∀ p ∈ response, Built .unit .wary p.2 := by
  have line {β : Type} [ToTerm β] {r : Rule β} (name : String) (h : Built .line .wary r) :
      Built .unit .wary (entry name r).2 := entry_built name h.ofLine
  have text {β : Type} [ToTerm β] {r : Rule β} (name : String) (h : Built .text .wary r) :
      Built .unit .wary (entry name r).2 := entry_built name h.ofText
  intro p hp
  rw [response, List.mem_append, List.mem_append] at hp
  rcases hp with (hp | hp) | hp
  · revert p
    simp only [List.forall_mem_cons]
    exact ⟨entry_built _ Response.greetingRule_built, entry_built _ Response.rule_built,
      entry_built _ Continuation.rule_built, line _ Continuation.textRule_built,
      line _ Continuation.base64Rule_built, entry_built _ Response.dataRule_built,
      entry_built _ Status.doneRule_built, entry_built _ Status.taggedRule_built,
      entry_built _ Status.fatalRule_built, line _ (StatusKind.conditionRule_built _),
      line _ (StatusKind.conditionRule_built _), line _ (StatusKind.conditionRule_built _),
      line _ StatusText.rule_built, line _ Code.bracketedRule_built, line _ Code.rule_built,
      text _ (Data.mailboxListRule_built _), line _ StatusAttribute.valueRule_built,
      text _ Data.numberedRule_built, text _ FetchValue.attributeRule_built,
      text _ Envelope.rule_built, text _ Address.listRule_built, text _ Address.rule_built,
      line _ QuotaUsage.listRule_built, line _ QuotaUsage.rule_built, nofun⟩
  · exact entries_built _ Code.arguments_built p hp
  · exact entries_built _ (fun q hq => (Response.byKeyword_built q hq).ofText) p hp

theorem command_built : ∀ p ∈ command, Built .unit .wary p.2 := by
  intro p hp
  rw [command, List.mem_append] at hp
  rcases hp with hp | hp
  · revert p
    simp only [List.forall_mem_cons]
    exact ⟨entry_built _ Command.rule_built, entry_built _ CommandBody.simpleRule_built,
      entry_built _ CommandBody.mailboxRule_built.ofText, entry_built _ StoreAction.rule_built,
      entry_built _ QuotaLimit.listRule_built, entry_built _ QuotaLimit.rule_built, nofun⟩
  · exact entries_built _ (fun q hq => (CommandBody.byName_built q hq).ofText) p hp

/-- What holds of the rules in every table holds of a dialect's rules. -/
theorem forall_rules {P : String × Rule Term → Prop} (hcommon : ∀ p ∈ common, P p)
    (hquota : ∀ p ∈ quota, P p) (hresponse : ∀ p ∈ response, P p) (hcommand : ∀ p ∈ command, P p)
    (d : Dialect) : ∀ p ∈ rules d, P p := by
  cases d with
  | base => exact nofun
  | core => exact hcommon
  | quota => exact List.forall_mem_append.mpr ⟨hcommon, hquota⟩
  | response =>
    exact List.forall_mem_append.mpr ⟨List.forall_mem_append.mpr ⟨hcommon, hquota⟩, hresponse⟩
  | command =>
    exact List.forall_mem_append.mpr ⟨List.forall_mem_append.mpr ⟨hcommon, hquota⟩, hcommand⟩

theorem mem_of_find {d : Dialect} {name : Option String} {r : Rule Term} (h : find d name = .ok r) :
    ∃ name, (name, r) ∈ rules d := by
  unfold find at h
  split at h
  · cases h
  · split at h
    · cases h
    · split at h
      · next hl =>
        cases h
        exact ⟨_, mem_of_lookup hl⟩
      · cases h

theorem rules_built (d : Dialect) : ∀ p ∈ rules d, Built .unit .wary p.2 :=
  forall_rules common_built quota_built response_built command_built d

theorem find_built {d : Dialect} {name : Option String} {r : Rule Term} (h : find d name = .ok r) :
    Built .unit .wary r := by
  obtain ⟨name, hmem⟩ := mem_of_find h
  exact rules_built d _ hmem

end Imap.Grammar
