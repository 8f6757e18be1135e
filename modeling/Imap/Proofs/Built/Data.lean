import Imap.Data
import Imap.Proofs.Built.Status
import Imap.Proofs.Line.Prompt

namespace Imap

open Rule

variable {e : Extent} {m : Manner}

namespace Address

theorem bodyRule_built : Built .text m bodyRule := by
  refine nstring_built.andThen fun _ => ?_
  refine space_built.andThen fun _ => ?_
  refine nstring_built.andThen fun _ => ?_
  refine space_built.andThen fun _ => ?_
  refine nstring_built.andThen fun _ => ?_
  refine space_built.andThen fun _ => ?_
  refine nstring_built.andThen fun _ => ?_
  refine (Built.expect _ _ (by decide)).andThen fun _ => ?_
  exact .pure _

theorem rule_built : Built .text m Address.rule := by
  refine (Built.expect _ _ (by decide)).andThen fun _ => ?_
  exact bodyRule_built

theorem listRule_built : Built .text m listRule := by
  refine Built.peek.andThen fun ahead => ?_
  split
  · exact (Built.expect _ _ (by decide)).andThen fun _ =>
      bodyRule_built.parenthesizedBy.andThen fun _ => .pure _
  · exact nil_built.andThen fun _ => .pure _

end Address

theorem Envelope.rule_built : Built .text m Envelope.rule := by
  refine (Built.expect _ _ (by decide)).andThen fun _ => ?_
  refine nstring_built.andThen fun _ => ?_
  refine space_built.andThen fun _ => ?_
  refine nstring_built.andThen fun _ => ?_
  refine space_built.andThen fun _ => ?_
  refine Address.listRule_built.andThen fun _ => ?_
  refine space_built.andThen fun _ => ?_
  refine Address.listRule_built.andThen fun _ => ?_
  refine space_built.andThen fun _ => ?_
  refine Address.listRule_built.andThen fun _ => ?_
  refine space_built.andThen fun _ => ?_
  refine Address.listRule_built.andThen fun _ => ?_
  refine space_built.andThen fun _ => ?_
  refine Address.listRule_built.andThen fun _ => ?_
  refine space_built.andThen fun _ => ?_
  refine Address.listRule_built.andThen fun _ => ?_
  refine space_built.andThen fun _ => ?_
  refine nstring_built.andThen fun _ => ?_
  refine space_built.andThen fun _ => ?_
  refine nstring_built.andThen fun _ => ?_
  refine (Built.expect _ _ (by decide)).andThen fun _ => ?_
  exact .pure _

namespace FetchValue

theorem plainRule_built {value : Rule FetchValue} (h : Built e m value) :
    Built e m (plainRule value) := by
  refine space_built.andThen fun _ => ?_
  refine h.andThen fun _ => ?_
  exact .pure _

theorem numberRule_built {r : Rule Nat} (h : Built e m r) : Built e m (numberRule r) := by
  refine .map _ ?_
  refine h.andThen fun _ => ?_
  exact .pure _

theorem contentRule_built : Built .text m contentRule := nstring_built.map _

theorem originRule_built : Built e m originRule := by
  refine (Built.skip? _ (by decide)).andThen fun found => ?_
  split
  · exact number_built.andThen fun _ => (Built.expect _ _ (by decide)).andThen fun _ => .pure _
  · exact .pure _

theorem bodyRule_built : Built .text m bodyRule := by
  have section_built : Built .text m
      (Rule.token (fun bs => (bs.takeWhile Octet.isBracketedChar).length) true (.element .section)
        (.expected .section)) :=
    .token (greedy_takeWhile _) (not_mem_takeWhile rfl) (takeWhile_ascii .bracketedChar) _ _ _
  refine (Built.expect _ _ (by decide)).andThen fun _ => ?_
  refine section_built.andThen fun _ => ?_
  refine (Built.expect _ _ (by decide)).andThen fun _ => ?_
  refine originRule_built.andThen fun _ => ?_
  refine space_built.andThen fun _ => ?_
  refine contentRule_built.andThen fun _ => ?_
  exact .pure _

theorem values_built : ∀ p ∈ values, Built .text m p.2 := by
  simp only [values, List.forall_mem_cons]
  exact ⟨plainRule_built (flags_built.map _),
    plainRule_built (numberRule_built nonZeroNumber_built),
    plainRule_built (numberRule_built number_built), plainRule_built (DateTime.rule_built.map _),
    plainRule_built (Envelope.rule_built.map _), plainRule_built contentRule_built,
    plainRule_built contentRule_built, plainRule_built contentRule_built, bodyRule_built, nofun⟩

theorem nameRule_built : Built e m nameRule := by
  refine .refine (.span rfl .attributeChar _) fun found why h => ?_
  split at h <;> cases h
  exact .miss _

/-- The rule that a name is read with is one of the table. -/
theorem built_of_gives {p : String × Rule (String × FetchValue)} (h : nameRule.Gives p) :
    Built .text m p.2 := by
  obtain ⟨ctx, bs, used, hd⟩ := h
  obtain ⟨found, -, hj⟩ := refine_done hd
  split at hj
  · next value hl =>
    cases hj
    exact values_built _ (mem_of_lookup hl)
  · cases hj

theorem attributeRule_built : Built .text m attributeRule := by
  refine .bind nameRule_built fun _ hp => ?_
  refine (built_of_gives hp).andThen fun _ => ?_
  exact .pure _

end FetchValue

namespace QuotaUsage

theorem rule_built : Built e m QuotaUsage.rule := by
  refine Resource.rule_built.andThen fun _ => ?_
  refine space_built.andThen fun _ => ?_
  refine number64_built.andThen fun _ => ?_
  refine space_built.andThen fun _ => ?_
  refine number64_built.andThen fun _ => ?_
  exact .pure _

theorem listRule_built : Built e m QuotaUsage.listRule := rule_built.nonEmptyList

end QuotaUsage

namespace QuotaLimit

theorem rule_built : Built e m QuotaLimit.rule := by
  refine Resource.rule_built.andThen fun _ => ?_
  refine space_built.andThen fun _ => ?_
  refine number64_built.andThen fun _ => ?_
  exact .pure _

theorem listRule_built : Built e m QuotaLimit.listRule := rule_built.list

end QuotaLimit

namespace StatusAttribute

theorem rule_built : Built e m StatusAttribute.rule := by
  refine .refine atom_built fun found why h => ?_
  split at h <;> cases h
  exact .miss _

theorem valueRule_built : Built e m valueRule := by
  refine rule_built.andThen fun _ => ?_
  refine space_built.andThen fun _ => ?_
  refine number_built.andThen fun _ => ?_
  exact .pure _

end StatusAttribute

namespace Data

theorem capabilityRule_built : Built e m Data.capabilityRule := by
  refine (keyword_built _).discard.andThen fun _ => ?_
  refine Capability.listRule_built.andThen fun _ => ?_
  exact .pure _

theorem enabledRule_built : Built e m enabledRule := by
  refine (keyword_built _).discard.andThen fun _ => ?_
  refine (Built.behind (by decide) Capability.rule_built).andThen fun _ => ?_
  exact .pure _

theorem flagsRule_built : Built e m flagsRule := by
  refine (keyword_built _).discard.andThen fun _ => ?_
  refine space_built.andThen fun _ => ?_
  refine flags_built.andThen fun _ => ?_
  exact .pure _

theorem delimiterRule_built : Built e m delimiterRule := by
  refine Built.peek.andThen fun ahead => ?_
  split
  · refine .refine quotedText_built fun content why h => ?_
    split at h <;> cases h
    exact .miss _
  · exact nil_built.andThen fun _ => .pure _

theorem mailboxListRule_built (command : String) : Built .text m (mailboxListRule command) := by
  refine flags_built.andThen fun _ => ?_
  refine space_built.andThen fun _ => ?_
  refine delimiterRule_built.andThen fun _ => ?_
  refine space_built.andThen fun _ => ?_
  refine mailbox_built.andThen fun _ => ?_
  exact .pure _

theorem listRule_built : Built .text m Data.listRule := by
  refine atom_built.andThen fun _ => ?_
  refine space_built.andThen fun _ => ?_
  exact mailboxListRule_built _

theorem searchRule_built : Built e m searchRule := by
  refine (keyword_built _).discard.andThen fun _ => ?_
  refine (Built.behind (by decide) nonZeroNumber_built).andThen fun _ => ?_
  exact .pure _

theorem statusRule_built : Built .text m Data.statusRule := by
  refine (keyword_built _).discard.andThen fun _ => ?_
  refine space_built.andThen fun _ => ?_
  refine mailbox_built.andThen fun _ => ?_
  refine space_built.andThen fun _ => ?_
  refine StatusAttribute.valueRule_built.list.andThen fun _ => ?_
  exact .pure _

theorem quotaRule_built : Built .text m quotaRule := by
  refine (keyword_built _).discard.andThen fun _ => ?_
  refine space_built.andThen fun _ => ?_
  refine astring_built.andThen fun _ => ?_
  refine space_built.andThen fun _ => ?_
  apply QuotaUsage.listRule_built.bind
  intro _ hq
  refine .ofExcept _ fun _ => ?_
  exact ⟨_, if_neg (nonEmptyList_gives hq)⟩

theorem quotaRootRule_built : Built .text m quotaRootRule := by
  refine (keyword_built _).discard.andThen fun _ => ?_
  refine space_built.andThen fun _ => ?_
  refine mailbox_built.andThen fun _ => ?_
  refine (Built.behindPrompt (by decide) astring_built astring_prompt).andThen fun _ => ?_
  exact .pure _

theorem byKeyword_built : ∀ p ∈ Data.byKeyword, Built .text m p.2 := by
  simp only [Data.byKeyword, List.forall_mem_cons]
  exact ⟨capabilityRule_built, enabledRule_built, flagsRule_built, listRule_built, listRule_built,
    searchRule_built, statusRule_built, quotaRule_built, quotaRootRule_built, nofun⟩

theorem messageKeyword_built (name : String) (number : Nat) :
    Built e m (messageKeyword name number) := by
  refine .refine (keyword_built _) fun found why h => ?_
  split at h <;> cases h
  exact .miss _

theorem fetchRule_built (number : Nat) : Built .text m (fetchRule number) := by
  refine (messageKeyword_built _ _).andThen fun _ => ?_
  refine space_built.andThen fun _ => ?_
  refine FetchValue.attributeRule_built.nonEmptyList.andThen fun _ => ?_
  exact .pure _

theorem behindNumber_built (number : Nat) : ∀ p ∈ behindNumber number, Built .text m p.2 := by
  simp only [behindNumber, List.forall_mem_cons]
  refine ⟨?_, ?_, ?_, fetchRule_built number, nofun⟩
  · refine (keyword_built _).discard.andThen fun _ => ?_
    exact .pure _
  · refine (keyword_built _).discard.andThen fun _ => ?_
    exact .pure _
  · refine (messageKeyword_built _ _).andThen fun _ => ?_
    exact .pure _

theorem numberedRule_built : Built .text m numberedRule := by
  refine number_built.andThen fun _ => ?_
  refine space_built.andThen fun _ => ?_
  exact Keyword.dispatch_built _ (behindNumber_built _)

end Data

end Imap
