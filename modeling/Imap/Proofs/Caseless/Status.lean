import Imap.Proofs.Built.Status
import Imap.Proofs.Caseless.Lexical
import Imap.Status

namespace Imap

open Rule

theorem Verdicts.free_refl {α : Type} [ToTerm α] (x : Except Refusal α) : Verdicts.Free Akin x x := by
  cases x with
  | ok a => exact .ok (.refl a)
  | error why => exact .error trivial

theorem Both.akin {α : Type} [ToTerm α] {o o' : Option α} (h : Both Akin o o') : Akin o o' := by
  cases h with
  | none => exact .refl _
  | some related => exact related

theorem Both.isSome_eq {α β : Type} {R : α → β → Prop} {o : Option α} {o' : Option β}
    (h : Both R o o') : o.isSome = o'.isSome := by
  cases h <;> rfl

/-- A keyword's rule is found in any case, and is the same. -/
theorem Keyword.dispatch_agree {α : Type} {R : α → α → Prop} {table : List (String × Rule α)}
    (unknown : String → Cause) (hunknown : ∀ s s', (unknown s).missClass = (unknown s').missClass)
    (h : ∀ p ∈ table, Agree R p.2 p.2) :
    Agree R (dispatch table unknown) (dispatch table unknown) := by
  refine atom_caseless.lookahead.bind fun keyword keyword' hkeyword => ?_
  rw [← hkeyword.find?_eq table]
  split
  · next rule hfind =>
    obtain ⟨name, hm⟩ := mem_of_find? hfind
    exact h _ hm
  · exact .fail (.miss 0 (hunknown _ _))

namespace Resource

theorem known?_eq {s s' : String} (h : Akin s s') : known? s = known? s' := by
  rw [known?, known?, Akin.text.mp h]

theorem akin_other {s s' : String} (h : Akin s s') : Akin (other s) (other s') :=
  Term.Fields.record (.cons rfl (.cons h .nil)) _

theorem ofAtom_agree {s s' : String} (h : Akin s s') : Verdicts.Free Akin (ofAtom s) (ofAtom s') := by
  unfold ofAtom
  rw [← known?_eq h]
  split
  · exact .ok (.refl _)
  · simp only [build, ← known?_eq h, ← h.empty_iff]
    split
    · exact .error trivial
    · split
      · exact .error trivial
      · exact .ok (akin_other h)

theorem rule_caseless : Caseless Resource.rule := by
  apply atom_caseless.bind
  intro _ _ h
  exact .ofExcept (ofAtom_agree h)

end Resource

namespace Capability

variable {s s' : String}

theorem find?_eq (h : Akin s s') (words : List Capability) : find? words s = find? words s' := by
  rw [find?, find?, Akin.text.mp h]

theorem parameterOf?_agree (h : Akin s s') (kind : CapabilityKind) :
    Both Akin (parameterOf? kind s) (parameterOf? kind s') := by
  simp only [parameterOf?, ← Akin.text.mp h, ← h.length_eq]
  split
  · exact .some (h.drop _)
  · exact .none

theorem isKnown_eq (h : Akin s s') : isKnown s = isKnown s' := by
  rw [isKnown, isKnown, find?_eq h, (parameterOf?_agree h _).isSome_eq,
    (parameterOf?_agree h _).isSome_eq]

theorem akin_other (h : Akin s s') : Akin (other s) (other s') :=
  Term.Fields.record (.cons rfl (.cons h .nil)) _

theorem akin_quotaRes {r r' : Resource} (h : Akin r r') : Akin (quotaRes r) (quotaRes r') :=
  Term.Fields.record (.cons rfl (.cons h .nil)) _

theorem build_other_agree (h : Akin s s') :
    Verdicts.Free Akin (build .other (.text s)) (build .other (.text s')) := by
  simp only [build, ← h.empty_iff, ← isKnown_eq h]
  split
  · exact .error trivial
  · split
    · exact .error trivial
    · exact .ok (akin_other h)

theorem classify_agree (h : Akin s s') (d : Dialect) :
    Verdicts.Free Akin (classify d s) (classify d s') := by
  have hparameter := parameterOf?_agree h .quotaRes
  simp only [classify, ← find?_eq h]
  generalize parameterOf? .quotaRes s = found at hparameter
  generalize parameterOf? .quotaRes s' = found' at hparameter
  split
  · exact .ok (.refl _)
  · cases hparameter with
    | none => exact build_other_agree h
    | some related =>
      simp only
      split
      · have hatom := Resource.ofAtom_agree related
        generalize Resource.ofAtom _ = x at hatom
        generalize Resource.ofAtom _ = x' at hatom
        cases hatom with
        | ok related => exact .ok (akin_quotaRes related)
        | error => exact .error trivial
      · exact build_other_agree h

theorem authRule_caseless : Caseless authRule := by
  apply (Agree.word _ _).andThen
  apply atom_caseless.bind
  intro mechanism mechanism' h
  rw [h.toUpper_eq]
  exact .ofExcept (.free_refl _)

theorem atomRule_caseless : Caseless atomRule := by
  apply atom_caseless.bind
  intro _ _ h
  apply Agree.dialect.bind
  intro d _ hd
  exact hd ▸ .ofExcept (classify_agree h d)

theorem rule_caseless : Caseless Capability.rule := authRule_caseless.alt atomRule_caseless

theorem listRule_caseless : Caseless listRule := by
  apply space_caseless.andThen
  exact rule_caseless.separated (by decide)

theorem eq_imap4rev1 {c : Capability} (h : Akin imap4rev1 c) : c = imap4rev1 := by
  have hfields := (Term.record.inj h).2
  have hword := (Prod.mk.inj (List.cons.inj hfields).1).2
  have hspelling : spelling CapabilityKind.imap4rev1 = spelling c.kind := (Term.word.inj hword).2.2
  have hkind : ∀ k : CapabilityKind, spelling CapabilityKind.imap4rev1 = spelling k →
      k = .imap4rev1 := by
    intro k
    cases k <;> decide
  have hc := hkind _ hspelling
  cases c <;> first | rfl | cases hc

theorem mem_imap4rev1 {cs cs' : List Capability} (h : Akin cs cs') :
    imap4rev1 ∈ cs ↔ imap4rev1 ∈ cs' := by
  have side (cs : List Capability) : imap4rev1 ∈ cs ↔
      (term imap4rev1).fold ∈ cs.map fun c => (term c).fold := by
    refine ⟨fun hm => List.mem_map_of_mem hm, fun hm => ?_⟩
    obtain ⟨c, hc, hakin⟩ := List.mem_map.mp hm
    exact eq_imap4rev1 hakin.symm ▸ hc
  rw [side, Akin.list_iff.mp h, ← side]

theorem complete_agree {cs cs' : List Capability} (h : Akin cs cs') :
    Verdicts Failure.Agrees Akin (complete cs) (complete cs') := by
  simp only [complete, ← mem_imap4rev1 h]
  split
  · exact .ok h
  · exact .error (.bad _ _ _)

theorem dataRule_caseless : Caseless Capability.dataRule := by
  have hkeyword : Agree Akin (discard (keyword "capability")) (discard (keyword "capability")) :=
    (keyword_caseless _).map fun _ _ _ => rfl
  refine Agree.refine (R := Akin) ?_ fun _ _ => complete_agree
  exact hkeyword.andThen listRule_caseless

end Capability

namespace Code

/-- Codes that differ in case alone, also once their capabilities are looked at. -/
def Like (c c' : Code) : Prop := Akin c c' ∧ Verdicts Failure.Agrees Akin (complete c) (complete c')

theorem akin_known {kind : CodeKind} {argument argument' : CodeArgument}
    (h : Akin argument argument') : Akin (known kind argument) (known kind argument') :=
  Term.Fields.record (.cons rfl (.cons h (.cons rfl (.cons rfl .nil)))) _

theorem like_refl (c : Code) : Like c c := by
  refine ⟨.refl c, ?_⟩
  cases complete c with
  | ok a => exact .ok (.refl a)
  | error why => exact .error (.refl why)

theorem like_texts {kind : CodeKind} {items items' : List String} (h : Akin items items') :
    Like (known kind (.texts items)) (known kind (.texts items')) := by
  have hakin : Akin (known kind (.texts items)) (known kind (.texts items')) := akin_known h
  refine ⟨hakin, ?_⟩
  cases kind <;> exact .ok hakin

theorem like_other {atom atom' text text' : Option String} (hatom : Akin atom atom')
    (htext : Akin text text') : Like ⟨.other, .none, atom, text⟩ ⟨.other, .none, atom', text'⟩ := by
  have hakin : Akin (Code.mk .other .none atom text) ⟨.other, .none, atom', text'⟩ :=
    Term.Fields.record (.cons rfl (.cons rfl (.cons hatom (.cons htext .nil)))) _
  exact ⟨hakin, .ok hakin⟩

theorem capabilityRule_agree : Agree Like capabilityRule capabilityRule := by
  apply Capability.listRule_caseless.bind
  intro items items' h
  refine .pure ⟨akin_known h, ?_⟩
  have hcomplete := Capability.complete_agree h
  simp only [complete, known]
  generalize Capability.complete items = x at hcomplete
  generalize Capability.complete items' = x' at hcomplete
  cases hcomplete with
  | ok => exact .ok (akin_known h)
  | error agree => exact .error agree

theorem badcharsetRule_agree : Agree Like badcharsetRule badcharsetRule := by
  refine (Agree.skip? _).bind fun found _ hfound => ?_
  rw [← hfound]
  split
  · exact charset_caseless.nonEmptyList.bind fun _ _ h => .pure (like_texts h)
  · exact .pure (like_refl _)

theorem permanentflagsRule_agree : Agree Like permanentflagsRule permanentflagsRule := by
  apply space_caseless.andThen
  apply permanentFlag_caseless.list.bind
  intro _ _ h
  exact .pure (like_texts h)

theorem numberRule_agree (kind : CodeKind) : Agree Like (numberRule kind) (numberRule kind) := by
  apply space_caseless.andThen
  apply nonZeroNumber_caseless.bind
  intro _ _ h
  exact .pure (h ▸ like_refl _)

theorem arguments_agree : ∀ p ∈ arguments, Agree Like p.2 p.2 := by
  have bare (kind : CodeKind) : Agree Like (bareRule kind) (bareRule kind) := .pure (like_refl _)
  simp only [arguments, List.forall_mem_cons]
  exact ⟨bare _, bare _, bare _, bare _, bare _, badcharsetRule_agree, capabilityRule_agree,
    permanentflagsRule_agree, numberRule_agree _, numberRule_agree _, numberRule_agree _,
    List.forall_mem_nil _⟩

theorem otherRule_agree {atom atom' : String} (h : Akin atom atom') :
    Agree Like (otherRule atom) (otherRule atom') := by
  have built {text text' : Option String} (ht : Akin text text') :
      Verdicts.Free Like (build .other .none (some atom) text)
        (build .other .none (some atom') text') := by
    simp only [build, Option.getD_some, ← h.empty_iff]
    split
    · exact .error trivial
    · exact .ok (like_other h ht)
  refine (Agree.skip? _).bind fun found _ hfound => ?_
  rw [← hfound]
  split
  · exact Agree.bind (R := Akin) (.span .bracketedChar _) fun _ _ ht => .ofExcept (built ht)
  · exact .ofExcept (built (.refl _))

theorem anyRule_agree : Agree Like anyRule anyRule := by
  refine atom_caseless.bind fun atom atom' h => ?_
  rw [← h.find?_eq arguments]
  split
  · next known hfind =>
    obtain ⟨name, hm⟩ := Keyword.mem_of_find? hfind
    refine .orElse ?_ (otherRule_agree h)
    exact (arguments_agree _ hm).bind fun _ _ hc => (Agree.word _ _).lookahead.andThen (.pure hc)
  · exact otherRule_agree h

theorem rule_caseless : Caseless Code.rule := by
  apply anyRule_agree.refine
  intro _ _ h
  exact h.2

theorem bracketedRule_caseless : Caseless bracketedRule := by
  apply (Agree.expect _ _).andThen
  apply rule_caseless.bind
  intro _ _ h
  apply (Agree.expect _ _).andThen
  apply space_caseless.andThen
  exact .pure h

end Code

/-- Texts of a status that differ in case alone. -/
def StatusText.Like (c c' : StatusText) : Prop := Akin c.1 c'.1 ∧ Akin c.2 c'.2

theorem StatusText.rule_agree : Agree Like StatusText.rule StatusText.rule := by
  apply Code.bracketedRule_caseless.opt.bind
  intro _ _ hcode
  apply text_caseless.bind
  intro _ _ htext
  exact .pure ⟨hcode.akin, htext⟩

namespace StatusKind

/-- The same keyword, and texts that differ in case alone. -/
def Like (c c' : StatusKind × StatusText) : Prop := c.1 = c'.1 ∧ c.2.Like c'.2

theorem rule_agree (allowed : List StatusKind) : Agree Eq (rule allowed) (rule allowed) := by
  apply atom_caseless.refine
  intro found found' h
  rw [← Akin.text.mp h]
  split
  · exact .ok rfl
  · exact .error (.miss 0 rfl)

theorem conditionRule_agree (allowed : List StatusKind) :
    Agree Like (conditionRule allowed) (conditionRule allowed) := by
  apply (rule_agree allowed).bind
  intro _ _ hkind
  apply space_caseless.andThen
  apply StatusText.rule_agree.bind
  intro _ _ h
  exact .pure ⟨hkind, h⟩

end StatusKind

namespace Status

theorem ofCondition_agree {tag tag' : Option String} (htag : Both Akin tag tag')
    {c c' : StatusKind × StatusText} (h : StatusKind.Like c c') :
    Agree Akin (ofCondition tag c) (ofCondition tag' c') := by
  refine .ofExcept ?_
  simp only [build, ← h.1, ← htag.isSome_eq]
  split
  · exact .error trivial
  · exact .ok (Term.Fields.record
      (.cons rfl (.cons h.2.2 (.cons htag.akin (.cons h.2.1 .nil)))) _)

theorem stateRule_caseless : Caseless Status.stateRule := by
  refine (StatusKind.conditionRule_agree _).bind fun _ _ => ?_
  exact ofCondition_agree .none

theorem byeRule_caseless : Caseless Status.byeRule := by
  refine (StatusKind.conditionRule_agree _).bind fun _ _ => ?_
  exact ofCondition_agree .none

theorem greetingRule_caseless : Caseless Status.greetingRule := by
  apply (Agree.expect _ _).andThen
  apply space_caseless.andThen
  apply Agree.bind (.alt (StatusKind.conditionRule_agree _) (StatusKind.conditionRule_agree _))
  intro _ _ h
  apply lineEnd_caseless.andThen
  exact ofCondition_agree .none h

theorem taggedRule_caseless : Caseless taggedRule := by
  apply tag_caseless.bind
  intro _ _ htag
  apply space_caseless.andThen
  apply (StatusKind.conditionRule_agree _).bind
  intro _ _ h
  apply lineEnd_caseless.andThen
  exact ofCondition_agree (.some htag) h

theorem fatalRule_caseless : Caseless fatalRule := by
  apply (Agree.expect _ _).andThen
  apply space_caseless.andThen
  apply (StatusKind.conditionRule_agree _).bind
  intro _ _ h
  apply lineEnd_caseless.andThen
  exact ofCondition_agree .none h

theorem doneRule_caseless : Caseless doneRule := taggedRule_caseless.alt fatalRule_caseless

end Status

namespace Continuation

theorem textRule_caseless : Caseless textRule := by
  apply StatusText.rule_agree.bind
  intro _ _ h
  refine .pure ?_
  exact Term.Fields.record (.cons h.2 (.cons h.1 (.cons rfl .nil))) _

theorem base64Rule_caseless : Caseless base64Rule := by
  apply Base64.rule_caseless.map
  intro _ _ h
  exact Term.Fields.record (.cons rfl (.cons rfl (.cons h .nil))) _

theorem rule_caseless : Caseless Continuation.rule := by
  apply (Agree.expect _ _).andThen
  apply space_caseless.andThen
  apply Agree.bind (textRule_caseless.alt base64Rule_caseless)
  intro _ _ h
  apply lineEnd_caseless.andThen
  exact .pure h

end Continuation

end Imap
