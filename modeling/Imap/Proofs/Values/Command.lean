import Imap.Command
import Imap.Proofs.Values.Data

namespace Imap

open Rule
open Text (IsMailbox)

namespace CommandBody

/-- Sets and lists that must not be empty are not, mailboxes are named as such, limits have 64 bits,
and an initial response is made of groups of four. -/
def WellFormed : CommandBody → Prop
  | simple _ | login .. | getQuota _ => True
  | authenticate _ initialResponse => ∀ s, initialResponse = some s → s.length % 4 = 0
  | onMailbox _ mailbox | list _ mailbox _ | getQuotaRoot mailbox => IsMailbox mailbox
  | rename old new => IsMailbox old ∧ IsMailbox new
  | status mailbox attributes => IsMailbox mailbox ∧ attributes ≠ []
  | copy set mailbox _ => set.WellFormed ∧ IsMailbox mailbox
  | store set .. | uidExpunge set => set.WellFormed
  | enable capabilities => capabilities ≠ []
  | setQuota _ quotas => ∀ q ∈ quotas, q.WellFormed

theorem initialResponseRule_ensures : initialResponseRule.Ensures fun found =>
    (∀ s, found = some s → s.length % 4 = 0) ∧ NulFree found := by
  refine .andThen fun found => ?_
  split
  · refine .andThen fun empty => ?_
    split
    · exact .pure ⟨fun s hs => by cases hs; rfl, (by decide : Text.NulFree "")⟩
    · exact Base64.rule_ensures.bind fun _ h =>
        .pure ⟨fun s hs => by cases hs; exact h.2, h.1⟩
  · exact .pure ⟨nofun, trivial⟩

theorem simpleRule_ensures : simpleRule.Ensures fun c => c.WellFormed ∧ NulFree c := by
  refine atom_ensures.bind fun _ h => ?_
  exact .pure ⟨trivial, Text.nulFree_toUpper h.2, trivial⟩

theorem authenticateRule_ensures : authenticateRule.Ensures fun c => c.WellFormed ∧ NulFree c := by
  refine .andThen fun _ => ?_
  refine .andThen fun _ => ?_
  refine atom_ensures.bind fun _ h => ?_
  refine initialResponseRule_ensures.bind fun _ hi => ?_
  exact .pure ⟨hi.1, Text.nulFree_toUpper h.2, hi.2, trivial⟩

theorem loginRule_ensures : loginRule.Ensures fun c => c.WellFormed ∧ NulFree c := by
  refine .andThen fun _ => ?_
  refine .andThen fun _ => ?_
  refine astring_ensures.bind fun _ husername => ?_
  refine .andThen fun _ => ?_
  refine astring_ensures.bind fun _ hpassword => ?_
  exact .pure ⟨trivial, husername, hpassword, trivial⟩

theorem mailboxRule_ensures : mailboxRule.Ensures fun c => c.WellFormed ∧ NulFree c := by
  refine atom_ensures.bind fun _ h => ?_
  refine .andThen fun _ => ?_
  refine mailbox_ensures.bind fun _ hm => ?_
  exact .pure ⟨hm.2, Text.nulFree_toUpper h.2, hm.1, trivial⟩

theorem renameRule_ensures : renameRule.Ensures fun c => c.WellFormed ∧ NulFree c := by
  refine .andThen fun _ => ?_
  refine .andThen fun _ => ?_
  refine mailbox_ensures.bind fun _ hold => ?_
  refine .andThen fun _ => ?_
  refine mailbox_ensures.bind fun _ hnew => ?_
  exact .pure ⟨⟨hold.2, hnew.2⟩, hold.1, hnew.1, trivial⟩

theorem listRule_ensures : CommandBody.listRule.Ensures fun c => c.WellFormed ∧ NulFree c := by
  refine atom_ensures.bind fun _ h => ?_
  refine .andThen fun _ => ?_
  refine mailbox_ensures.bind fun _ hm => ?_
  refine .andThen fun _ => ?_
  refine mailboxPattern_ensures.bind fun _ hp => ?_
  exact .pure ⟨hm.2, Text.nulFree_toUpper h.2, hm.1, hp, trivial⟩

theorem statusRule_ensures : CommandBody.statusRule.Ensures fun c => c.WellFormed ∧ NulFree c := by
  refine .andThen fun _ => ?_
  refine .andThen fun _ => ?_
  refine mailbox_ensures.bind fun _ hm => ?_
  refine .andThen fun _ => ?_
  refine (Ensures.nonEmptyList (P := fun _ => True) fun _ _ => trivial).bind fun _ has => ?_
  exact .pure ⟨⟨hm.2, has.1⟩, hm.1, NulFree.list.mpr fun _ _ => trivial, trivial⟩

theorem copyRule_ensures (uid : Bool) : (copyRule uid).Ensures fun c => c.WellFormed ∧ NulFree c := by
  refine .andThen fun _ => ?_
  refine .andThen fun _ => ?_
  refine SequenceSet.rule_ensures.bind fun set hset => ?_
  refine .andThen fun _ => ?_
  refine mailbox_ensures.bind fun _ hm => ?_
  exact .pure ⟨⟨hset, hm.2⟩, set.nulFree, hm.1, trivial, trivial⟩

theorem storeFlagsRule_ensures : storeFlagsRule.Ensures fun items => NulFree items := by
  refine .andThen fun ahead => ?_
  split
  · exact flags_ensures
  · exact (flag_ensures.separated _).mono fun _ h => NulFree.list.mpr h.2

theorem storeRule_ensures (uid : Bool) :
    (storeRule uid).Ensures fun c => c.WellFormed ∧ NulFree c := by
  refine .andThen fun _ => ?_
  refine .andThen fun _ => ?_
  refine SequenceSet.rule_ensures.bind fun set hset => ?_
  refine .andThen fun _ => ?_
  refine .andThen fun _ => ?_
  refine .andThen fun _ => ?_
  refine storeFlagsRule_ensures.bind fun _ hflags => ?_
  exact .pure ⟨hset, set.nulFree, trivial, hflags, trivial, trivial, trivial⟩

theorem uidExpungeRule_ensures : uidExpungeRule.Ensures fun c => c.WellFormed ∧ NulFree c := by
  refine .andThen fun _ => ?_
  refine .andThen fun _ => ?_
  refine SequenceSet.rule_ensures.bind fun set hset => ?_
  exact .pure ⟨hset, set.nulFree, trivial⟩

theorem uidRule_ensures : uidRule.Ensures fun c => c.WellFormed ∧ NulFree c := by
  refine .andThen fun _ => ?_
  refine .andThen fun _ => ?_
  refine .andThen fun name => ?_
  split
  · exact copyRule_ensures true
  · exact storeRule_ensures true
  · exact uidExpungeRule_ensures
  · exact .fail

theorem enableRule_ensures : enableRule.Ensures fun c => c.WellFormed ∧ NulFree c := by
  refine .andThen fun _ => ?_
  refine Capability.listRule_ensures.bind fun _ hcs => ?_
  exact .pure ⟨hcs.1, NulFree.list.mpr hcs.2, trivial⟩

theorem getQuotaRule_ensures : getQuotaRule.Ensures fun c => c.WellFormed ∧ NulFree c := by
  refine .andThen fun _ => ?_
  refine .andThen fun _ => ?_
  refine astring_ensures.bind fun _ hroot => ?_
  exact .pure ⟨trivial, hroot, trivial⟩

theorem getQuotaRootRule_ensures : getQuotaRootRule.Ensures fun c => c.WellFormed ∧ NulFree c := by
  refine .andThen fun _ => ?_
  refine .andThen fun _ => ?_
  refine mailbox_ensures.bind fun _ hm => ?_
  exact .pure ⟨hm.2, hm.1, trivial⟩

theorem setQuotaRule_ensures : setQuotaRule.Ensures fun c => c.WellFormed ∧ NulFree c := by
  refine .andThen fun _ => ?_
  refine .andThen fun _ => ?_
  refine astring_ensures.bind fun _ hroot => ?_
  refine .andThen fun _ => ?_
  refine QuotaLimit.rule_ensures.list.bind fun _ hqs => ?_
  exact .pure ⟨fun q hq => (hqs q hq).1, hroot, NulFree.list.mpr fun q hq => (hqs q hq).2, trivial⟩

theorem byName_ensure : ∀ p ∈ byName, p.2.Ensures fun c => c.WellFormed ∧ NulFree c := by
  intro p hp
  rw [byName, List.mem_append, List.mem_append] at hp
  rcases hp with (hp | hp) | hp
  · obtain ⟨name, -, rfl⟩ := List.mem_map.mp hp
    exact simpleRule_ensures
  · obtain ⟨name, -, rfl⟩ := List.mem_map.mp hp
    exact mailboxRule_ensures
  · revert p
    simp only [List.forall_mem_cons]
    exact ⟨authenticateRule_ensures, loginRule_ensures, renameRule_ensures, listRule_ensures,
      listRule_ensures, statusRule_ensures, copyRule_ensures false, storeRule_ensures false,
      uidRule_ensures, enableRule_ensures, getQuotaRule_ensures, getQuotaRootRule_ensures,
      setQuotaRule_ensures, List.forall_mem_nil _⟩

theorem rule_ensures : CommandBody.rule.Ensures fun c => c.WellFormed ∧ NulFree c :=
  Keyword.dispatch_ensures _ byName_ensure

end CommandBody

def Command.WellFormed (c : Command) : Prop := c.body.WellFormed

theorem Command.rule_ensures : Command.rule.Ensures fun c => c.WellFormed ∧ NulFree c := by
  refine tag_ensures.bind fun _ htag => ?_
  refine .andThen fun _ => ?_
  refine CommandBody.rule_ensures.bind fun _ hbody => ?_
  refine .andThen fun _ => ?_
  exact .pure ⟨hbody.1, htag, hbody.2, trivial⟩

end Imap
