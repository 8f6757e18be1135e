import Imap.Proofs.Modes.Basic

namespace Imap.Rule

variable {α : Type} {element body : Rule α} {d : Dialect}

theorem behind_settled (separator : UInt8) (he : ∀ bs, (element ⟨true, d⟩ bs).Settled)
    (bs : Bytes) : (behind.go separator element ⟨true, d⟩ bs).Settled := by
  induction bs using behind.go.induct separator element ⟨true, d⟩ with
  | case1 => rw [behind.go]; exact .done [] 0
  | case2 hc => exact absurd rfl hc
  | case3 bs a n ha ih => rw [behind_done ha]; exact (ih.map _).shift _
  | case4 bs cause position hm => rw [behind_miss hm]; exact .done [] 0
  | case5 bs why hm hf =>
    have hsettled := he bs
    rw [behind_failed (fun _ _ => hm _ _) hf]
    rw [hf] at hsettled
    cases hsettled with
    | failed decided => exact .failed (decided.shift 1)
  | case6 b bs hb => rw [behind_other bs hb]; exact .done [] 0

theorem spacedToClose_settled (he : ∀ bs, (element ⟨true, d⟩ bs).Settled) (bs : Bytes) :
    (spacedToClose.go element ⟨true, d⟩ bs).Settled := by
  induction bs using spacedToClose.go.induct element ⟨true, d⟩ with
  | case1 bs why hf =>
    have hsettled := he bs
    rw [hf] at hsettled
    rw [spacedToClose_failed hf]
    cases hsettled with
    | failed decided => exact .failed decided
  | case2 bs a n ha hd => rw [spacedToClose_end ha hd]; exact .failed (.miss n rfl)
  | case3 bs a n ha hd hc => exact absurd rfl hc
  | case4 bs a n ha rest hd => rw [spacedToClose_close ha hd]; exact .done _ _
  | case5 bs a n ha rest hd _ ih => rw [spacedToClose_space ha hd]; exact (ih.map _).shift _
  | case6 bs a n ha b rest hd hc hs =>
    rw [spacedToClose_other ha hd hc hs]
    exact .failed (.miss n rfl)

theorem parenthesized_settled (he : ∀ bs, (body ⟨true, d⟩ bs).Settled) (bs : Bytes) :
    (parenthesized.go body ⟨true, d⟩ bs).Settled := by
  induction bs using parenthesized.go.induct body ⟨true, d⟩ with
  | case1 => rw [parenthesized.go]; exact .of_here (.miss _)
  | case2 hc => exact absurd rfl hc
  | case3 bs => rw [parenthesized_close]; exact .done [] 1
  | case4 bs a n ha _ ih => rw [parenthesized_done ha]; exact (ih.map _).shift _
  | case5 bs why hf =>
    have hsettled := he bs
    rw [hf] at hsettled
    rw [parenthesized_failed hf]
    cases hsettled with
    | failed decided => exact .failed (decided.shift 1)
  | case6 b bs hc ho => rw [parenthesized_other bs hc ho]; exact .of_here (.miss _)

namespace Conclusive

theorem behind (separator : UInt8) (he : Conclusive element) :
    Conclusive (Rule.behind separator element) := by
  intro d bs
  change (behind.go separator element _ bs).Concludes (behind.go separator element _ bs)
  have hlast : ∀ bs, (element ⟨true, d⟩ bs).Settled := fun bs => (he d bs).settled
  induction bs using behind.go.induct separator element ⟨false, d⟩ with
  | case1 hc => cases hc
  | case2 => exact .short (by rw [behind.go]; rfl) (behind_settled _ hlast _)
  | case3 bs a n ha ih =>
    have hlater := (ha ▸ he d bs).eq_of_done
    rw [behind_done ha, behind_done hlater]
    exact (ih.map _).shift _
  | case4 bs cause position hm =>
    have hlater := (hm ▸ he d bs).eq_of_settled (.failed (.miss position rfl))
    rw [behind_miss hm, behind_miss hlater]
    exact .done [] 0
  | case5 bs why hm hf =>
    obtain ⟨missing, needed, position, rfl⟩ | ⟨eq, decided⟩ := (hf ▸ he d bs).failed_cases
    · exact .short (behind_failed (fun _ _ => hm _ _) hf) (behind_settled _ hlast _)
    · rw [behind_failed (fun _ _ => hm _ _) hf, behind_failed (fun _ _ => hm _ _) eq]
      exact .same (.failed (decided.shift 1)) rfl
  | case6 b bs hb => rw [behind_other bs hb, behind_other bs hb]; exact .done [] 0

theorem spacedToClose (he : Conclusive element) : Conclusive element.spacedToClose := by
  intro d bs
  change (spacedToClose.go element _ bs).Concludes (spacedToClose.go element _ bs)
  have hlast : ∀ bs, (element ⟨true, d⟩ bs).Settled := fun bs => (he d bs).settled
  induction bs using spacedToClose.go.induct element ⟨false, d⟩ with
  | case1 bs why hf =>
    obtain ⟨missing, needed, position, rfl⟩ | ⟨eq, decided⟩ := (hf ▸ he d bs).failed_cases
    · exact .short (spacedToClose_failed hf) (spacedToClose_settled hlast _)
    · rw [spacedToClose_failed hf, spacedToClose_failed eq]
      exact .same (.failed decided) rfl
  | case2 bs a n ha hd hc => cases hc
  | case3 bs a n ha hd => exact .short (spacedToClose_end ha hd) (spacedToClose_settled hlast _)
  | case4 bs a n ha rest hd =>
    have hlater := (ha ▸ he d bs).eq_of_done
    rw [spacedToClose_close ha hd, spacedToClose_close hlater hd]
    exact .done _ _
  | case5 bs a n ha rest hd _ ih =>
    have hlater := (ha ▸ he d bs).eq_of_done
    rw [spacedToClose_space ha hd, spacedToClose_space hlater hd]
    exact (ih.map _).shift _
  | case6 bs a n ha b rest hd hc hs =>
    have hlater := (ha ▸ he d bs).eq_of_done
    rw [spacedToClose_other ha hd hc hs, spacedToClose_other hlater hd hc hs]
    exact .same (.failed (.miss n rfl)) rfl

theorem parenthesized (hb : Conclusive body) :
    Conclusive (parenthesized.go body : Rule (List α)) := by
  intro d bs
  have hlast : ∀ bs, (body ⟨true, d⟩ bs).Settled := fun bs => (hb d bs).settled
  induction bs using parenthesized.go.induct body ⟨false, d⟩ with
  | case1 hc => cases hc
  | case2 => exact .short (by rw [parenthesized.go]; rfl) (parenthesized_settled hlast _)
  | case3 bs => rw [parenthesized_close, parenthesized_close]; exact .done [] 1
  | case4 bs a n ha _ ih =>
    have hlater := (ha ▸ hb d bs).eq_of_done
    rw [parenthesized_done ha, parenthesized_done hlater]
    exact (ih.map _).shift _
  | case5 bs why hf =>
    obtain ⟨missing, needed, position, rfl⟩ | ⟨eq, decided⟩ := (hf ▸ hb d bs).failed_cases
    · exact .short (parenthesized_failed hf) (parenthesized_settled hlast _)
    · rw [parenthesized_failed hf, parenthesized_failed eq]
      exact .same (.failed (decided.shift 1)) rfl
  | case6 b bs hc ho =>
    rw [parenthesized_other bs hc ho, parenthesized_other bs hc ho]
    exact .of_here (.miss _)

theorem lineEnd : Conclusive Rule.lineEnd := by
  refine ((word _ _).opt.bind fun _ _ => .pure _).bind fun found _ => ?_
  split
  · exact .pure ()
  · exact word _ _

end Conclusive

theorem Built.conclusive {e : Extent} {m : Manner} {r : Rule α} (h : Built e m r) :
    Conclusive r := by
  induction h with
  | pure a => exact .pure a
  | fail here => exact .fail here
  | ofExcept x _ => exact .ofExcept x
  | dialect => exact .dialect
  | peek => exact .peek
  | token => exact .token _ _ _ _
  | word => exact .word _ _
  | digits => exact .digits _ _
  | quotedTail => exact .quotedTail
  | lineEnd => exact .lineEnd
  | literalBody size => exact .literalBody size
  | literal _ h => exact h
  | bind _ _ first rest => exact first.bind rest
  | refine _ here first => exact first.refine here
  | lookahead _ first => exact first.lookahead
  | opt _ _ first => exact first.opt
  | orElse _ _ _ first second => exact first.orElse second
  | alt _ _ _ first second => exact first.alt second
  | behind _ _ each => exact each.behind _
  | behindPrompt _ _ _ each => exact each.behind _
  | spacedToClose _ each => exact each.spacedToClose
  | parenthesized _ each => exact each.parenthesized
  | ofLine _ h => exact h
  | ofRaw _ h => exact h
  | ofText _ h => exact h
  | willingly _ _ h => exact h

end Imap.Rule
