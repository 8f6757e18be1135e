import Imap.Proofs.Line.Basic

namespace Imap

/-- What an outcome comes to when it turns out that no more octets follow. -/
inductive Outcome.Concludes {α : Type} (o last : Outcome α) : Prop
  | same (settled : o.Settled) (eq : last = o)
  | short {missing : Shortage} {needed : Option Nat} {position : Nat}
    (short : o = .failed (.short missing needed position)) (settled : last.Settled)

namespace Outcome.Concludes

variable {α β : Type} {o last : Outcome α}

theorem done (a : α) (used : Nat) : Concludes (.done a used) (.done a used) :=
  .same (.done a used) rfl

theorem of_here {why : Failure} (h : why.Here) :
    Concludes (.failed why : Outcome α) (.failed why) := .same (.of_here h) rfl

theorem settled (h : o.Concludes last) : last.Settled := by
  cases h with
  | same settled eq => rw [eq]; exact settled
  | short _ settled => exact settled

theorem eq_of_settled (h : o.Concludes last) (ho : o.Settled) : last = o := by
  cases h with
  | same _ eq => exact eq
  | short hshort _ =>
    rw [hshort] at ho
    cases ho with
    | failed decided => cases decided

theorem eq_of_done {a : α} {n : Nat} (h : (Outcome.done a n).Concludes last) : last = .done a n :=
  h.eq_of_settled (.done a n)

/-- A failure that the end of the octets does not change is no shortage. -/
theorem failed_cases {why : Failure} (h : (Outcome.failed why : Outcome α).Concludes last) :
    (∃ missing needed position, why = .short missing needed position) ∨
      last = .failed why ∧ why.Decided := by
  cases h with
  | short hshort _ => cases hshort; exact .inl ⟨_, _, _, rfl⟩
  | same settled eq =>
    cases settled with
    | failed decided => exact .inr ⟨eq, decided⟩

theorem shift (h : o.Concludes last) (n : Nat) : (o.shift n).Concludes (last.shift n) := by
  cases h with
  | same settled eq => exact .same (settled.shift n) (by rw [eq])
  | short hshort settled => exact .short (by rw [hshort]; rfl) (settled.shift n)

theorem map (h : o.Concludes last) (f : α → β) : (o.map f).Concludes (last.map f) := by
  cases h with
  | same settled eq => exact .same (settled.map f) (by rw [eq])
  | short hshort settled => exact .short (by rw [hshort]; rfl) (settled.map f)

end Outcome.Concludes

namespace Rule

variable {α β : Type}

/-- The end of the octets settles what is short and changes nothing else. -/
def Conclusive (r : Rule α) : Prop := ∀ d bs, (r ⟨false, d⟩ bs).Concludes (r ⟨true, d⟩ bs)

namespace Conclusive

/-- What is done while more may come is done in any case. -/
theorem either_of_done {r : Rule α} (hr : Conclusive r) {ctx : Context} {bs : Bytes} {a : α}
    {n : Nat} (h : r ⟨false, ctx.dialect⟩ bs = .done a n) : r ctx bs = .done a n := by
  obtain ⟨complete, d⟩ := ctx
  cases complete with
  | false => exact h
  | true => exact (h ▸ hr d bs).eq_of_done

theorem pure (a : α) : Conclusive (Pure.pure a : Rule α) := by
  intro _ _
  exact .done a 0

theorem fail {why : Failure} (h : why.Here) : Conclusive (Rule.fail why : Rule α) := by
  intro _ _
  exact .of_here h

theorem ofExcept (x : Except Refusal α) : Conclusive (Rule.ofExcept x) := by
  cases x with
  | ok a => exact pure a
  | error why => exact fun _ _ => .same (.failed (.refused why)) rfl

theorem dialect : Conclusive Rule.dialect := by
  intro d _
  exact .done d 0

theorem peek : Conclusive Rule.peek := by
  intro d bs
  cases bs with
  | nil => exact .short rfl (.done none 0)
  | cons b bs => exact .done (some b) 0

theorem token (length : Bytes → Nat) (mayBeEmpty : Bool) (missing : Shortage) (cause : Cause) :
    Conclusive (Rule.token length mayBeEmpty missing cause) := by
  intro d bs
  have hlast : (Rule.token length mayBeEmpty missing cause ⟨true, d⟩ bs).Settled := by
    simp only [Rule.token, Bool.not_true, Bool.false_and, Bool.false_eq_true, if_false]
    split
    · exact .of_here (.miss _)
    · exact .ofExcept _ _
  cases hrest : (bs.drop (length bs)).isEmpty with
  | true =>
    have hshort : Rule.token length mayBeEmpty missing cause ⟨false, d⟩ bs =
        .failed (.short missing none 0) := by simp [Rule.token, hrest]
    exact .short hshort hlast
  | false =>
    have heq : Rule.token length mayBeEmpty missing cause ⟨true, d⟩ bs =
        Rule.token length mayBeEmpty missing cause ⟨false, d⟩ bs := by
      simp only [Rule.token, hrest, Bool.and_false]
    exact .same (heq ▸ hlast) heq

theorem word (fixed : String) (cause : Cause) : Conclusive (Rule.word fixed cause) := by
  intro d bs
  simp only [Rule.word]
  cases compareWord ((Bytes.ofText fixed).map Octet.lower) bs with
  | equal => exact .done _ _
  | cut common => exact .short rfl (.of_here (.miss cause))
  | different => exact .of_here (.miss cause)

theorem digits (limit : Nat) (wanted : Element) : Conclusive (Rule.digits limit wanted) := by
  intro d bs
  simp only [digits_apply]
  split
  · exact .of_here (.bad _)
  · exact (token _ _ _ _ d bs).map _

theorem quotedTail : Conclusive Rule.quotedTail := by
  intro d bs
  induction bs using quotedTail.induct with
  | case1 => exact .short rfl (.of_here (.miss _))
  | case2 bs => rw [quotedTail_close, quotedTail_close]; exact .done _ _
  | case3 => exact .short rfl (.failed (.miss 1 rfl))
  | case4 c bs hc _ ih =>
    rw [quotedTail_escape _ _ hc, quotedTail_escape _ _ hc]
    exact (ih.map _).shift 2
  | case5 c bs hc =>
    rw [quotedTail_badEscape _ _ hc, quotedTail_badEscape _ _ hc]
    exact .same (.failed (.miss 1 rfl)) rfl
  | case6 b bs hq hs ht ih =>
    rw [quotedTail_char _ _ hq hs ht, quotedTail_char _ _ hq hs ht]
    exact (ih.map _).shift 1
  | case7 b bs hq hs ht =>
    rw [quotedTail_badChar _ _ hq hs ht, quotedTail_badChar _ _ hq hs ht]
    exact .of_here (.miss _)

theorem literalBody (size : Nat) : Conclusive (Rule.literalBody size) := by
  intro d bs
  simp only [Rule.literalBody]
  split
  · exact .short rfl (.of_here (.bad _))
  · split
    · exact .of_here (.bad _)
    · exact .done _ _

variable {r other : Rule α}

theorem bind {next : α → Rule β} (hr : Conclusive r) (hn : ∀ a, r.Gives a → Conclusive (next a)) :
    Conclusive (r >>= next) := by
  intro d bs
  cases hb : r ⟨false, d⟩ bs with
  | done a n =>
    rw [bind_of_done hb, bind_of_done (hb ▸ hr d bs).eq_of_done]
    exact (hn a ⟨_, _, _, hb⟩ d _).shift n
  | failed why =>
    obtain ⟨missing, needed, position, rfl⟩ | ⟨eq, decided⟩ := (hb ▸ hr d bs).failed_cases
    · refine .short (bind_of_failed hb) (bind_settled (hr d bs).settled fun a n ha => ?_)
      exact (hn a ⟨_, _, _, ha⟩ d _).settled
    · rw [bind_of_failed hb, bind_of_failed eq]
      exact .same (.failed decided) rfl

theorem refine {judge : α → Except Failure β} (hr : Conclusive r)
    (hj : ∀ a why, judge a = .error why → why.Here) : Conclusive (r.refine judge) := by
  intro d bs
  cases hr d bs with
  | same settled eq =>
    exact .same (refine_settled settled hj) (by simp only [Rule.refine, eq])
  | short hshort settled =>
    exact .short (by simp only [Rule.refine, hshort]; rfl) (refine_settled settled hj)

theorem lookahead (hr : Conclusive r) : Conclusive r.lookahead := by
  intro d bs
  cases hr d bs with
  | same settled eq => exact .same (lookahead_settled settled) (by simp only [Rule.lookahead, eq])
  | short hshort settled =>
    exact .short (by simp only [Rule.lookahead, hshort]; rfl) (lookahead_settled settled)

theorem opt (hr : Conclusive r) : Conclusive r.opt := by
  intro d bs
  cases hr d bs with
  | same settled eq => exact .same (opt_settled settled) (by simp only [Rule.opt, eq])
  | short hshort settled =>
    exact .short (by simp only [Rule.opt, hshort]; rfl) (opt_settled settled)

theorem orElse (hr : Conclusive r) (ho : Conclusive other) : Conclusive (r.orElse other) := by
  intro d bs
  have h' := ho d bs
  cases hr d bs with
  | short hshort settled =>
    exact .short (by simp only [Rule.orElse, hshort]; rfl) (orElse_settled settled h'.settled)
  | same settled eq =>
    simp only [Rule.orElse, eq]
    generalize r ⟨false, d⟩ bs = o at settled
    cases settled with
    | done a n => exact .done a n
    | failed decided =>
      cases decided with
      | miss position same => exact h'
      | bad cause => exact .same (.failed (.bad _ _ _)) rfl
      | refused why => exact .same (.failed (.refused why)) rfl

theorem alt (hr : Conclusive r) (ho : Conclusive other) : Conclusive (r.alt other) := by
  intro d bs
  have h' := ho d bs
  cases hr d bs with
  | short hshort settled =>
    exact .short (by simp only [Rule.alt, hshort]; rfl) (alt_settled settled h'.settled)
  | same settled eq =>
    generalize hb : r ⟨false, d⟩ bs = o at settled
    rw [hb] at eq
    cases settled with
    | done a n => simp only [Rule.alt, eq, hb]; exact .done a n
    | failed decided =>
      cases decided with
      | bad cause => simp only [Rule.alt, eq, hb]; exact .same (.failed (.bad _ _ _)) rfl
      | refused why => simp only [Rule.alt, eq, hb]; exact .same (.failed (.refused why)) rfl
      | miss position same =>
        have hmiss : (r ⟨true, d⟩ bs).Settled := eq ▸ .failed (.miss position same)
        cases h' with
        | short hshort settled' =>
          exact .short (by simp only [Rule.alt, hb, hshort]; rfl) (alt_settled hmiss settled')
        | same settled' eq' =>
          have hsettled : (r.alt other ⟨false, d⟩ bs).Settled :=
            alt_settled (hb ▸ .failed (.miss position same)) settled'
          exact .same hsettled (by simp only [Rule.alt, hb, eq, eq'])

end Conclusive

end Rule

end Imap
