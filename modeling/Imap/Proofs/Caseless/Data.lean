import Imap.Proofs.Caseless.Status
import Imap.Response

namespace Imap

open Rule

namespace Address

theorem bodyRule_caseless : Caseless bodyRule := by
  apply nstring_caseless.bind
  intro _ _ hname
  apply space_caseless.andThen
  apply nstring_caseless.bind
  intro _ _ hroute
  apply space_caseless.andThen
  apply nstring_caseless.bind
  intro _ _ hmailbox
  apply space_caseless.andThen
  apply nstring_caseless.bind
  intro _ _ hhost
  apply (Agree.expect _ _).andThen
  refine .pure ?_
  exact Term.Fields.record (.cons hname (.cons hroute (.cons hmailbox (.cons hhost .nil)))) _

theorem rule_caseless : Caseless Address.rule := by
  apply (Agree.expect _ _).andThen
  exact bodyRule_caseless

theorem listRule_caseless : Caseless listRule := by
  refine .peek (fun ahead => ?_) fun b hb => ?_
  · split
    · apply (Agree.expect _ _).andThen
      apply bodyRule_caseless.parenthesized.bind
      intro _ _ h
      exact .pure h
    · exact nil_caseless.andThen (.pure (.refl _))
  · split
    · next h => cases h; cases hb
    · rfl

end Address

theorem Envelope.rule_caseless : Caseless Envelope.rule := by
  apply (Agree.expect _ _).andThen
  apply nstring_caseless.bind
  intro _ _ hdate
  apply space_caseless.andThen
  apply nstring_caseless.bind
  intro _ _ hsubject
  apply space_caseless.andThen
  apply Address.listRule_caseless.bind
  intro _ _ hauthors
  apply space_caseless.andThen
  apply Address.listRule_caseless.bind
  intro _ _ hsender
  apply space_caseless.andThen
  apply Address.listRule_caseless.bind
  intro _ _ hreplyTo
  apply space_caseless.andThen
  apply Address.listRule_caseless.bind
  intro _ _ hrecipients
  apply space_caseless.andThen
  apply Address.listRule_caseless.bind
  intro _ _ hcc
  apply space_caseless.andThen
  apply Address.listRule_caseless.bind
  intro _ _ hbcc
  apply space_caseless.andThen
  apply nstring_caseless.bind
  intro _ _ hinReplyTo
  apply space_caseless.andThen
  apply nstring_caseless.bind
  intro _ _ hmessageId
  apply (Agree.expect _ _).andThen
  refine .pure ?_
  refine Term.Fields.record ?_ _
  refine .cons hdate ?_
  refine .cons hsubject ?_
  refine .cons hauthors ?_
  refine .cons hsender ?_
  refine .cons hreplyTo ?_
  refine .cons hrecipients ?_
  refine .cons hcc ?_
  refine .cons hbcc ?_
  refine .cons hinReplyTo ?_
  refine .cons hmessageId ?_
  exact .nil

namespace FetchValue

theorem numberRule_caseless {r : Rule Nat} (h : Agree Eq r r) : Caseless (numberRule r) := by
  have hint : Agree Eq (do let n ← r; Pure.pure (n : Int)) (do let n ← r; Pure.pure (n : Int)) := by
    apply h.bind
    intro n n' hn
    exact .pure (congrArg Nat.cast hn)
  apply hint.map
  intro n n' hn
  exact hn ▸ .refl (number n)

theorem plainRule_caseless {value : Rule FetchValue} (h : Caseless value) :
    Caseless (plainRule value) := by
  apply space_caseless.andThen
  apply h.bind
  intro _ _ hv
  exact .pure (.pair (.refl _) hv)

theorem contentRule_caseless : Caseless contentRule := nstring_caseless.map fun _ _ h => h

theorem originRule_agree : Agree Eq originRule originRule := by
  apply (Agree.skip? _).bind
  intro found _ hfound
  rw [← hfound]
  split
  · apply number_caseless.bind
    intro _ _ hn
    apply (Agree.expect _ _).andThen
    exact .pure (by rw [hn])
  · exact .pure rfl

theorem bodyRule_caseless : Caseless bodyRule := by
  apply (Agree.expect _ _).andThen
  apply Agree.bind (R := Akin) (.token (Agree.run_length .bracketedChar) _ _ _)
  intro _ _ hname
  apply (Agree.expect _ _).andThen
  apply originRule_agree.bind
  intro _ _ horigin
  apply space_caseless.andThen
  apply contentRule_caseless.bind
  intro _ _ hv
  refine .pure ?_
  rw [hname.toUpper_eq, horigin]
  exact .pair (.refl _) hv

theorem values_caseless : ∀ p ∈ values, Caseless p.2 := by
  simp only [values, List.forall_mem_cons]
  exact ⟨plainRule_caseless (flags_caseless.map fun _ _ h => h),
    plainRule_caseless (numberRule_caseless nonZeroNumber_caseless),
    plainRule_caseless (numberRule_caseless number_caseless),
    plainRule_caseless (DateTime.rule_caseless.map fun _ _ h => h),
    plainRule_caseless (Envelope.rule_caseless.map fun _ _ h => h),
    plainRule_caseless contentRule_caseless, plainRule_caseless contentRule_caseless,
    plainRule_caseless contentRule_caseless, bodyRule_caseless, List.forall_mem_nil _⟩

theorem nameRule_agree : Agree (fun p q => p = q ∧ p ∈ values) nameRule nameRule := by
  apply Agree.refine (R := Akin) (.span .attributeChar _)
  intro name name' h
  rw [← h.toUpper_eq]
  split
  · next value hl => exact .ok ⟨rfl, mem_of_lookup hl⟩
  · exact .error (.miss 0 rfl)

theorem attributeRule_caseless : Caseless attributeRule := by
  apply nameRule_agree.bind
  intro p p' hp
  obtain ⟨rfl, hmem⟩ := hp
  apply (values_caseless p hmem).bind
  intro v v' hv
  exact .pure (.pair ((Akin.refl p.1).append hv.fst) hv.snd)

end FetchValue

theorem QuotaUsage.rule_caseless : Caseless QuotaUsage.rule := by
  apply Resource.rule_caseless.bind
  intro resource resource' hr
  apply space_caseless.andThen
  apply number64_caseless.bind
  intro usage usage' hu
  apply space_caseless.andThen
  apply number64_caseless.bind
  intro limit limit' hl
  cases hu
  cases hl
  exact .pure (Term.Fields.record (.cons hr (.cons rfl (.cons rfl .nil))) _)

theorem QuotaUsage.listRule_caseless : Caseless QuotaUsage.listRule :=
  QuotaUsage.rule_caseless.nonEmptyList

theorem QuotaLimit.rule_caseless : Caseless QuotaLimit.rule := by
  apply Resource.rule_caseless.bind
  intro resource resource' hr
  apply space_caseless.andThen
  apply number64_caseless.bind
  intro limit limit' hl
  cases hl
  exact .pure (Term.Fields.record (.cons hr (.cons rfl .nil)) _)

theorem QuotaLimit.listRule_caseless : Caseless QuotaLimit.listRule := QuotaLimit.rule_caseless.list

/-- Responses that differ in case alone, also once their capabilities are looked at. -/
structure Response.Like (r r' : Response) : Prop where
  akin : Akin r r'
  complete : Verdicts Failure.Agrees Akin (Response.complete r) (Response.complete r')

/-- Few responses are turned down for their capabilities. -/
theorem Response.Like.of_complete {r r' : Response} (h : Akin r r') (hr : Response.complete r = .ok r)
    (hr' : Response.complete r' = .ok r') : Like r r' := by
  refine ⟨h, ?_⟩
  rw [hr, hr']
  exact .ok h

namespace StatusAttribute

theorem rule_caseless : Caseless StatusAttribute.rule := by
  apply atom_caseless.refine
  intro found found' h
  rw [← Akin.text.mp h]
  split
  · exact .ok (.refl _)
  · exact .error (.miss 0 rfl)

theorem valueRule_caseless : Caseless valueRule := by
  apply rule_caseless.bind
  intro _ _ hitem
  apply space_caseless.andThen
  apply number_caseless.bind
  intro _ _ hn
  exact .pure (.pair hitem (hn ▸ .refl _))

end StatusAttribute

namespace Data

def Like (d d' : Data) : Prop := Response.Like (.data d) (.data d')

theorem discard_keyword (name : String) :
    Agree (fun _ _ => True) (discard (keyword name)) (discard (keyword name)) :=
  (keyword_caseless name).map fun _ _ _ => trivial

theorem capabilityRule_agree : Agree Like Data.capabilityRule Data.capabilityRule := by
  apply (discard_keyword _).andThen
  apply Capability.listRule_caseless.bind
  intro cs cs' h
  have hakin {cs cs' : List Capability} (h : Akin cs cs') : Akin (capability cs) (capability cs') :=
    Term.Fields.record (.cons h .nil) _
  have hcomplete := Capability.complete_agree h
  refine .pure ⟨hakin h, ?_⟩
  simp only [Response.complete]
  generalize Capability.complete cs = x at hcomplete
  generalize Capability.complete cs' = x' at hcomplete
  cases hcomplete with
  | ok related => exact .ok (hakin related)
  | error agree => exact .error agree

theorem enabledRule_agree : Agree Like enabledRule enabledRule := by
  apply (discard_keyword _).andThen
  apply (Capability.rule_caseless.behind (by decide)).bind
  intro _ _ h
  refine .pure ?_
  exact .of_complete (Term.Fields.record (.cons h .nil) _) rfl rfl

theorem flagsRule_agree : Agree Like flagsRule flagsRule := by
  apply (discard_keyword _).andThen
  apply space_caseless.andThen
  apply flags_caseless.bind
  intro _ _ h
  refine .pure ?_
  exact .of_complete (Term.Fields.record (.cons h .nil) _) rfl rfl

theorem delimiterRule_caseless : Caseless delimiterRule := by
  refine .peek (fun ahead => ?_) fun b hb => ?_
  · split
    · refine quotedText_caseless.refine fun _ _ h => ?_
      rw [← h.length_eq]
      split
      · exact .ok h
      · exact .error (.miss 0 rfl)
    · exact nil_caseless.andThen (.pure (.refl _))
  · split
    · next h => cases h; cases hb
    · rfl

theorem mailboxListRule_agree (command : String) :
    Agree Like (mailboxListRule command) (mailboxListRule command) := by
  apply flags_caseless.bind
  intro _ _ hflags
  apply space_caseless.andThen
  apply delimiterRule_caseless.bind
  intro _ _ hdelimiter
  apply space_caseless.andThen
  apply mailbox_caseless.bind
  intro _ _ hmailbox
  refine .pure (.of_complete ?_ rfl rfl)
  refine Term.Fields.record ?_ _
  exact .cons rfl (.cons hflags (.cons hdelimiter (.cons hmailbox .nil)))

theorem listRule_agree : Agree Like Data.listRule Data.listRule := by
  apply atom_caseless.bind
  intro name name' h
  apply space_caseless.andThen
  rw [h.toUpper_eq]
  exact mailboxListRule_agree _

theorem searchRule_agree : Agree Like searchRule searchRule := by
  have number : Caseless nonZeroNumber := nonZeroNumber_caseless.mono fun n _ h => h ▸ Akin.refl n
  apply (discard_keyword _).andThen
  apply (number.behind (by decide)).bind
  intro ids ids' h
  refine .pure ?_
  have hids : Akin (ids.map Int.ofNat) (ids'.map Int.ofNat) := by
    rw [Akin.list_iff, List.map_map, List.map_map]
    exact Akin.list_iff.mp h
  exact .of_complete (Term.Fields.record (.cons hids .nil) _) rfl rfl

theorem statusRule_agree : Agree Like Data.statusRule Data.statusRule := by
  apply (discard_keyword _).andThen
  apply space_caseless.andThen
  apply mailbox_caseless.bind
  intro _ _ hmailbox
  apply space_caseless.andThen
  apply StatusAttribute.valueRule_caseless.list.bind
  intro _ _ hitems
  refine .pure ?_
  exact .of_complete (Term.Fields.record (.cons hmailbox (.cons hitems .nil)) _) rfl rfl

theorem quotaRule_agree : Agree Like quotaRule quotaRule := by
  apply (discard_keyword _).andThen
  apply space_caseless.andThen
  apply astring_caseless.bind
  intro root root' hroot
  apply space_caseless.andThen
  apply QuotaUsage.listRule_caseless.bind
  intro quotas quotas' hquotas
  refine .ofExcept ?_
  simp only [buildQuota, ← hquotas.nil_iff]
  split
  · exact .error trivial
  · have hakin : Akin (quota root quotas) (quota root' quotas') :=
      Term.Fields.record (.cons hroot (.cons hquotas .nil)) _
    exact .ok (.of_complete hakin rfl rfl)

theorem quotaRootRule_agree : Agree Like quotaRootRule quotaRootRule := by
  apply (discard_keyword _).andThen
  apply space_caseless.andThen
  apply mailbox_caseless.bind
  intro _ _ hmailbox
  apply (astring_caseless.behind (by decide)).bind
  intro _ _ hroots
  refine .pure ?_
  exact .of_complete (Term.Fields.record (.cons hmailbox (.cons hroots .nil)) _) rfl rfl

theorem byKeyword_agree : ∀ p ∈ Data.byKeyword, Agree Like p.2 p.2 := by
  simp only [Data.byKeyword, List.forall_mem_cons]
  exact ⟨capabilityRule_agree, enabledRule_agree, flagsRule_agree, listRule_agree, listRule_agree,
    searchRule_agree, statusRule_agree, quotaRule_agree, quotaRootRule_agree, List.forall_mem_nil _⟩

theorem messageKeyword_agree (name : String) (number : Nat) :
    Agree Eq (messageKeyword name number) (messageKeyword name number) := by
  apply (keyword_caseless name).refine
  intro found found' h
  split
  · exact .error (.miss 0 rfl)
  · exact .ok rfl

theorem behindNumber_agree (number : Nat) : ∀ p ∈ behindNumber number, Agree Like p.2 p.2 := by
  simp only [behindNumber, List.forall_mem_cons]
  refine ⟨?_, ?_, ?_, ?_, List.forall_mem_nil _⟩
  · exact (discard_keyword _).andThen (.pure (.of_complete (.refl _) rfl rfl))
  · exact (discard_keyword _).andThen (.pure (.of_complete (.refl _) rfl rfl))
  · exact (messageKeyword_agree _ _).andThen (.pure (.of_complete (.refl _) rfl rfl))
  · apply (messageKeyword_agree _ _).andThen
    apply space_caseless.andThen
    apply FetchValue.attributeRule_caseless.nonEmptyList.bind
    intro _ _ h
    refine .pure ?_
    exact .of_complete (Term.Fields.record (.cons rfl (.cons h .nil)) _) rfl rfl

theorem numberedRule_agree : Agree Like numberedRule numberedRule := by
  apply number_caseless.bind
  intro number number' hn
  apply space_caseless.andThen
  cases hn
  exact Keyword.dispatch_agree _ (fun _ _ => rfl) (behindNumber_agree number)

end Data

namespace Response

theorem byKeyword_agree : ∀ p ∈ Response.byKeyword, Agree Like p.2 p.2 := by
  have state : Agree Like (status <$> Status.stateRule) (status <$> Status.stateRule) :=
    Status.stateRule_caseless.map fun _ _ h => .of_complete h rfl rfl
  have bye : Agree Like (status <$> Status.byeRule) (status <$> Status.byeRule) :=
    Status.byeRule_caseless.map fun _ _ h => .of_complete h rfl rfl
  intro p hp
  rw [Response.byKeyword, List.mem_append] at hp
  rcases hp with hp | hp
  · revert p
    simp only [List.forall_mem_cons]
    exact ⟨state, state, state, bye, List.forall_mem_nil _⟩
  · obtain ⟨q, hq, rfl⟩ := List.mem_map.mp hp
    exact (Data.byKeyword_agree q hq).map fun _ _ h => h

theorem untaggedRule_agree : Agree Like untaggedRule untaggedRule := by
  have keyword := Keyword.dispatch_agree .unknownResponse (fun _ _ => rfl) byKeyword_agree
  refine .peek (fun ahead => ?_) fun b hb => ?_
  · split
    · split
      · exact Data.numberedRule_agree.map fun _ _ h => h
      · exact keyword
    · exact keyword
  · simp only [Octet.letter_not_digit b hb, Bool.false_eq_true, if_false]

theorem dataRule_caseless : Caseless Response.dataRule := by
  apply (Agree.expect _ _).andThen
  apply space_caseless.andThen
  refine Agree.refine (R := Like) ?_ fun _ _ h => h.complete
  apply untaggedRule_agree.bind
  intro r r' h
  apply lineEnd_caseless.andThen
  exact .pure h

theorem rule_caseless : Caseless Response.rule := by
  refine .alt (Continuation.rule_caseless.map fun _ _ h => h) ?_
  refine .alt dataRule_caseless ?_
  exact Status.doneRule_caseless.map fun _ _ h => h

theorem greetingRule_caseless : Caseless Response.greetingRule :=
  Status.greetingRule_caseless.map fun _ _ h => h

end Response

end Imap
