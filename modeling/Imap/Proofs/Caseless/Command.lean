import Imap.Command
import Imap.Proofs.Caseless.Data

namespace Imap

open Rule

theorem StoreAction.rule_agree : Agree Eq StoreAction.rule StoreAction.rule := by
  apply atom_caseless.refine
  intro found found' h
  simp only [← Akin.text.mp h]
  split
  · exact .ok rfl
  · exact .error (.miss 0 rfl)

namespace CommandBody

open Data (discard_keyword)

theorem simpleRule_caseless : Caseless simpleRule := by
  apply atom_caseless.bind
  intro _ _ h
  exact .pure (by rw [h.toUpper_eq]; exact .refl _)

theorem initialResponseRule_caseless : Caseless initialResponseRule := by
  refine (Agree.skip? _).bind fun found _ hfound => ?_
  rw [← hfound]
  split
  · refine (Agree.skip? _).bind fun empty _ hempty => ?_
    rw [← hempty]
    split
    · exact .pure (.refl _)
    · exact Base64.rule_caseless.bind fun _ _ h => .pure h
  · exact .pure (.refl _)

theorem authenticateRule_caseless : Caseless authenticateRule := by
  apply (discard_keyword _).andThen
  apply space_caseless.andThen
  apply atom_caseless.bind
  intro mechanism mechanism' h
  apply initialResponseRule_caseless.bind
  intro initial initial' hi
  refine .pure ?_
  rw [h.toUpper_eq]
  exact Term.Fields.record (.cons rfl (.cons hi .nil)) _

theorem loginRule_caseless : Caseless loginRule := by
  apply (discard_keyword _).andThen
  apply space_caseless.andThen
  apply astring_caseless.bind
  intro _ _ husername
  apply space_caseless.andThen
  apply astring_caseless.bind
  intro _ _ hpassword
  refine .pure ?_
  exact Term.Fields.record (.cons husername (.cons (Term.fold_secret hpassword) .nil)) _

theorem mailboxRule_caseless : Caseless mailboxRule := by
  apply atom_caseless.bind
  intro name name' h
  apply space_caseless.andThen
  apply mailbox_caseless.bind
  intro mailbox mailbox' hm
  refine .pure ?_
  rw [h.toUpper_eq]
  exact Term.Fields.record (.cons rfl (.cons hm .nil)) _

theorem renameRule_caseless : Caseless renameRule := by
  apply (discard_keyword _).andThen
  apply space_caseless.andThen
  apply mailbox_caseless.bind
  intro _ _ hold
  apply space_caseless.andThen
  apply mailbox_caseless.bind
  intro _ _ hnew
  refine .pure ?_
  exact Term.Fields.record (.cons hold (.cons hnew .nil)) _

theorem listRule_caseless : Caseless CommandBody.listRule := by
  apply atom_caseless.bind
  intro name name' h
  apply space_caseless.andThen
  apply mailbox_caseless.bind
  intro reference reference' hm
  apply space_caseless.andThen
  apply mailboxPattern_caseless.bind
  intro pattern pattern' hp
  refine .pure ?_
  rw [h.toUpper_eq]
  exact Term.Fields.record (.cons rfl (.cons hm (.cons hp .nil))) _

theorem statusRule_caseless : Caseless CommandBody.statusRule := by
  apply (discard_keyword _).andThen
  apply space_caseless.andThen
  apply mailbox_caseless.bind
  intro _ _ hm
  apply space_caseless.andThen
  apply StatusAttribute.rule_caseless.nonEmptyList.bind
  intro _ _ hitems
  refine .pure ?_
  exact Term.Fields.record (.cons hm (.cons hitems .nil)) _

theorem copyRule_caseless (uid : Bool) : Caseless (copyRule uid) := by
  apply (discard_keyword _).andThen
  apply space_caseless.andThen
  apply SequenceSet.rule_caseless.bind
  intro _ _ hset
  apply space_caseless.andThen
  apply mailbox_caseless.bind
  intro _ _ hm
  refine .pure ?_
  exact Term.Fields.record (.cons hset (.cons hm (.cons rfl .nil))) _

theorem storeFlagsRule_caseless : Caseless storeFlagsRule := by
  refine .peek (fun ahead => ?_) fun b hb => ?_
  · split
    · exact flags_caseless
    · exact flag_caseless.separated (by decide)
  · split
    · next h => cases h; cases hb
    · rfl

theorem storeRule_caseless (uid : Bool) : Caseless (storeRule uid) := by
  apply (discard_keyword _).andThen
  apply space_caseless.andThen
  apply SequenceSet.rule_caseless.bind
  intro set set' hset
  apply space_caseless.andThen
  apply StoreAction.rule_agree.bind
  intro item item' hitem
  cases hitem
  apply space_caseless.andThen
  apply storeFlagsRule_caseless.bind
  intro flags flags' hflags
  refine .pure ?_
  refine Term.Fields.record ?_ _
  exact .cons hset (.cons rfl (.cons hflags (.cons rfl (.cons rfl .nil))))

theorem uidExpungeRule_caseless : Caseless uidExpungeRule := by
  apply (discard_keyword _).andThen
  apply space_caseless.andThen
  apply SequenceSet.rule_caseless.bind
  intro _ _ hset
  exact .pure (Term.Fields.record (.cons hset .nil) _)

theorem uidRule_caseless : Caseless uidRule := by
  apply (discard_keyword _).andThen
  apply space_caseless.andThen
  apply atom_caseless.lookahead.bind
  intro name _ h
  rw [← Akin.text.mp h]
  split
  · exact copyRule_caseless true
  · exact storeRule_caseless true
  · exact uidExpungeRule_caseless
  · exact .fail (.refl _)

theorem enableRule_caseless : Caseless enableRule := by
  apply (discard_keyword _).andThen
  apply Capability.listRule_caseless.bind
  intro _ _ hcs
  exact .pure (Term.Fields.record (.cons hcs .nil) _)

theorem getQuotaRule_caseless : Caseless getQuotaRule := by
  apply (discard_keyword _).andThen
  apply space_caseless.andThen
  apply astring_caseless.bind
  intro _ _ hroot
  exact .pure (Term.Fields.record (.cons hroot .nil) _)

theorem getQuotaRootRule_caseless : Caseless getQuotaRootRule := by
  apply (discard_keyword _).andThen
  apply space_caseless.andThen
  apply mailbox_caseless.bind
  intro _ _ hm
  exact .pure (Term.Fields.record (.cons hm .nil) _)

theorem setQuotaRule_caseless : Caseless setQuotaRule := by
  apply (discard_keyword _).andThen
  apply space_caseless.andThen
  apply astring_caseless.bind
  intro _ _ hroot
  apply space_caseless.andThen
  apply QuotaLimit.listRule_caseless.bind
  intro _ _ hquotas
  refine .pure ?_
  exact Term.Fields.record (.cons hroot (.cons hquotas .nil)) _

theorem byName_caseless : ∀ p ∈ byName, Caseless p.2 := by
  intro p hp
  rw [byName, List.mem_append, List.mem_append] at hp
  rcases hp with (hp | hp) | hp
  · obtain ⟨name, -, rfl⟩ := List.mem_map.mp hp
    exact simpleRule_caseless
  · obtain ⟨name, -, rfl⟩ := List.mem_map.mp hp
    exact mailboxRule_caseless
  · revert p
    simp only [List.forall_mem_cons]
    exact ⟨authenticateRule_caseless, loginRule_caseless, renameRule_caseless, listRule_caseless,
      listRule_caseless, statusRule_caseless, copyRule_caseless false, storeRule_caseless false,
      uidRule_caseless, enableRule_caseless, getQuotaRule_caseless, getQuotaRootRule_caseless,
      setQuotaRule_caseless, List.forall_mem_nil _⟩

theorem rule_caseless : Caseless CommandBody.rule :=
  Keyword.dispatch_agree _ (fun _ _ => rfl) byName_caseless

end CommandBody

theorem Command.rule_caseless : Caseless Command.rule := by
  apply tag_caseless.bind
  intro _ _ htag
  apply space_caseless.andThen
  apply CommandBody.rule_caseless.bind
  intro _ _ hbody
  apply lineEnd_caseless.andThen
  refine .pure ?_
  exact Term.Fields.record (.cons htag (.cons hbody .nil)) _

end Imap
