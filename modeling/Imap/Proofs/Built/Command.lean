import Imap.Command
import Imap.Proofs.Built.Data

namespace Imap

open Rule

variable {e : Extent} {m : Manner}

theorem StoreAction.rule_built : Built e m StoreAction.rule := by
  refine .refine atom_built fun found why h => ?_
  dsimp only at h
  split at h <;> cases h
  exact .miss _

namespace CommandBody

theorem simpleRule_built : Built e m simpleRule := by
  refine atom_built.andThen fun _ => ?_
  exact .pure _

theorem initialResponseRule_built : Built e m initialResponseRule := by
  refine (Built.skip? _ (by decide)).andThen fun found => ?_
  split
  · refine (Built.skip? _ (by decide)).andThen fun isEmpty => ?_
    split
    · exact .pure _
    · exact Base64.rule_built.andThen fun _ => .pure _
  · exact .pure _

theorem authenticateRule_built : Built e m authenticateRule := by
  refine (keyword_built _).discard.andThen fun _ => ?_
  refine space_built.andThen fun _ => ?_
  refine atom_built.andThen fun _ => ?_
  refine initialResponseRule_built.andThen fun _ => ?_
  exact .pure _

theorem loginRule_built : Built .text m loginRule := by
  refine (keyword_built _).discard.andThen fun _ => ?_
  refine space_built.andThen fun _ => ?_
  refine astring_built.andThen fun _ => ?_
  refine space_built.andThen fun _ => ?_
  refine astring_built.andThen fun _ => ?_
  exact .pure _

theorem mailboxRule_built : Built .text m mailboxRule := by
  refine atom_built.andThen fun _ => ?_
  refine space_built.andThen fun _ => ?_
  refine mailbox_built.andThen fun _ => ?_
  exact .pure _

theorem renameRule_built : Built .text m renameRule := by
  refine (keyword_built _).discard.andThen fun _ => ?_
  refine space_built.andThen fun _ => ?_
  refine mailbox_built.andThen fun _ => ?_
  refine space_built.andThen fun _ => ?_
  refine mailbox_built.andThen fun _ => ?_
  exact .pure _

theorem listRule_built : Built .text m CommandBody.listRule := by
  refine atom_built.andThen fun _ => ?_
  refine space_built.andThen fun _ => ?_
  refine mailbox_built.andThen fun _ => ?_
  refine space_built.andThen fun _ => ?_
  refine mailboxPattern_built.andThen fun _ => ?_
  exact .pure _

theorem statusRule_built : Built .text m CommandBody.statusRule := by
  refine (keyword_built _).discard.andThen fun _ => ?_
  refine space_built.andThen fun _ => ?_
  refine mailbox_built.andThen fun _ => ?_
  refine space_built.andThen fun _ => ?_
  refine StatusAttribute.rule_built.nonEmptyList.andThen fun _ => ?_
  exact .pure _

theorem copyRule_built (uid : Bool) : Built .text m (copyRule uid) := by
  refine (keyword_built _).discard.andThen fun _ => ?_
  refine space_built.andThen fun _ => ?_
  refine SequenceSet.rule_built.andThen fun _ => ?_
  refine space_built.andThen fun _ => ?_
  refine mailbox_built.andThen fun _ => ?_
  exact .pure _

theorem storeFlagsRule_built : Built e m storeFlagsRule := by
  refine Built.peek.andThen fun ahead => ?_
  split
  · exact flags_built
  · exact .separated (by decide) flag_built

theorem storeRule_built (uid : Bool) : Built e m (storeRule uid) := by
  refine (keyword_built _).discard.andThen fun _ => ?_
  refine space_built.andThen fun _ => ?_
  refine SequenceSet.rule_built.andThen fun _ => ?_
  refine space_built.andThen fun _ => ?_
  refine StoreAction.rule_built.andThen fun _ => ?_
  refine space_built.andThen fun _ => ?_
  refine storeFlagsRule_built.andThen fun _ => ?_
  exact .pure _

theorem uidExpungeRule_built : Built e m uidExpungeRule := by
  refine (keyword_built _).discard.andThen fun _ => ?_
  refine space_built.andThen fun _ => ?_
  refine SequenceSet.rule_built.andThen fun _ => ?_
  exact .pure _

theorem uidRule_built : Built .text m uidRule := by
  refine (keyword_built _).discard.andThen fun _ => ?_
  refine space_built.andThen fun _ => ?_
  refine (Built.lookahead atom_built).andThen fun name => ?_
  split
  · exact copyRule_built true
  · exact storeRule_built true
  · exact uidExpungeRule_built
  · exact .fail (.miss _)

theorem enableRule_built : Built e m enableRule := by
  refine (keyword_built _).discard.andThen fun _ => ?_
  refine Capability.listRule_built.andThen fun _ => ?_
  exact .pure _

theorem getQuotaRule_built : Built .text m getQuotaRule := by
  refine (keyword_built _).discard.andThen fun _ => ?_
  refine space_built.andThen fun _ => ?_
  refine astring_built.andThen fun _ => ?_
  exact .pure _

theorem getQuotaRootRule_built : Built .text m getQuotaRootRule := by
  refine (keyword_built _).discard.andThen fun _ => ?_
  refine space_built.andThen fun _ => ?_
  refine mailbox_built.andThen fun _ => ?_
  exact .pure _

theorem setQuotaRule_built : Built .text m setQuotaRule := by
  refine (keyword_built _).discard.andThen fun _ => ?_
  refine space_built.andThen fun _ => ?_
  refine astring_built.andThen fun _ => ?_
  refine space_built.andThen fun _ => ?_
  refine QuotaLimit.listRule_built.andThen fun _ => ?_
  exact .pure _

theorem byName_built : ∀ p ∈ byName, Built .text m p.2 := by
  intro p hp
  rw [byName, List.mem_append, List.mem_append] at hp
  rcases hp with (hp | hp) | hp
  · obtain ⟨name, -, rfl⟩ := List.mem_map.mp hp
    exact simpleRule_built
  · obtain ⟨name, -, rfl⟩ := List.mem_map.mp hp
    exact mailboxRule_built
  · revert p
    simp only [List.forall_mem_cons]
    exact ⟨authenticateRule_built, loginRule_built, renameRule_built, listRule_built,
      listRule_built, statusRule_built, copyRule_built false, storeRule_built false, uidRule_built,
      enableRule_built, getQuotaRule_built, getQuotaRootRule_built, setQuotaRule_built, nofun⟩

theorem rule_built : Built .text m CommandBody.rule := Keyword.dispatch_built _ byName_built

end CommandBody

theorem Command.rule_built : Built .unit m Command.rule := by
  refine tag_built.andThen fun _ => ?_
  refine space_built.andThen fun _ => ?_
  refine CommandBody.rule_built.ofText.andThen fun _ => ?_
  refine lineEnd_built.andThen fun _ => ?_
  exact .pure _

end Imap
