import Imap.Proofs.Caseless.Token
import Imap.Proofs.Growth.List

namespace Imap.Rule.Caseless

variable {α : Type} [ToTerm α] {element body : Rule α}

theorem behind {separator : UInt8} (hs : Octet.isLetter separator = false) (he : Caseless element) :
    Caseless (Rule.behind separator element) := by
  intro ctx bs bs' h
  change (behind.go separator element ctx bs).Agrees Akin (behind.go separator element ctx bs')
  induction bs using behind.go.induct separator element ctx generalizing bs' with
  | case1 | case2 =>
    rw [h.nil]
    exact .refl _
  | case3 bs a n ha ih =>
    obtain ⟨cs, rfl, hrest⟩ := h.uncons_same hs
    obtain ⟨a', ha', related⟩ := he.of_done hrest ha
    rw [behind_done ha, behind_done ha']
    exact ((ih _ (hrest.drop n)).map fun _ _ => .cons related).shift (n + 1)
  | case4 bs cause position hm =>
    obtain ⟨cs, rfl, hrest⟩ := h.uncons_same hs
    obtain ⟨_, hm', agree⟩ := he.of_failed hrest hm
    cases agree
    rw [behind_miss hm, behind_miss hm']
    exact .done (.refl _) 0
  | case5 bs why hm hf =>
    obtain ⟨cs, rfl, hrest⟩ := h.uncons_same hs
    obtain ⟨why', hf', agree⟩ := he.of_failed hrest hf
    have hm' : ∀ cause position, why' ≠ .miss cause position := by
      rintro _ _ rfl
      cases agree
      exact hm _ _ rfl
    rw [behind_failed (fun _ _ => hm _ _) hf, behind_failed hm' hf']
    exact .failed (agree.shift 1)
  | case6 b bs hb =>
    obtain ⟨c, cs, rfl, hc, -⟩ := h.uncons
    rw [behind_other bs hb, behind_other cs (mt (Octet.eq_iff_of_lower hs hc).mpr hb)]
    exact .done (.refl _) 0

theorem spacedToClose (he : Caseless element) : Caseless element.spacedToClose := by
  intro ctx bs bs' h
  change (spacedToClose.go element ctx bs).Agrees Akin (spacedToClose.go element ctx bs')
  -- The octet behind the element is the same in both, for it is no letter or the list breaks off.
  induction bs using spacedToClose.go.induct element ctx generalizing bs' with
  | case1 bs why hf =>
    obtain ⟨why', hf', agree⟩ := he.of_failed h hf
    rw [spacedToClose_failed hf, spacedToClose_failed hf']
    exact .failed agree
  | case2 bs a n ha hd | case3 bs a n ha hd =>
    obtain ⟨a', ha', -⟩ := he.of_done h ha
    have hrest := hd ▸ h.drop n
    rw [spacedToClose_end ha hd, spacedToClose_end ha' hrest.nil]
    exact .failed (.refl _)
  | case4 bs a n ha rest hd =>
    obtain ⟨a', ha', related⟩ := he.of_done h ha
    obtain ⟨cs, hd', -⟩ := (hd ▸ h.drop n).uncons_same (by decide)
    rw [spacedToClose_close ha hd, spacedToClose_close ha' hd']
    exact .done (.cons related (.refl _)) (n + 1)
  | case5 bs a n ha rest hd _ ih =>
    obtain ⟨a', ha', related⟩ := he.of_done h ha
    obtain ⟨cs, hd', hrest⟩ := (hd ▸ h.drop n).uncons_same (by decide)
    rw [spacedToClose_space ha hd, spacedToClose_space ha' hd']
    exact ((ih _ hrest).map fun _ _ => .cons related).shift (n + 1)
  | case6 bs a n ha b rest hd hclose hspace =>
    obtain ⟨a', ha', -⟩ := he.of_done h ha
    obtain ⟨c, cs, hd', hc, -⟩ := (hd ▸ h.drop n).uncons
    rw [spacedToClose_other ha hd hclose hspace,
      spacedToClose_other ha' hd' (mt (Octet.eq_iff_of_lower (by decide) hc).mpr hclose)
        (mt (Octet.eq_iff_of_lower (by decide) hc).mpr hspace)]
    exact .failed (.refl _)

theorem parenthesized_go (hb : Caseless body) :
    Caseless (parenthesized.go body : Rule (List α)) := by
  intro ctx bs bs' h
  induction bs using parenthesized.go.induct body ctx generalizing bs' with
  | case1 | case2 =>
    rw [h.nil]
    exact .refl _
  | case3 bs =>
    obtain ⟨cs, rfl, -⟩ := h.uncons_same (by decide)
    rw [parenthesized_close, parenthesized_close]
    exact .done (.refl _) 1
  | case4 bs a n ha _ ih =>
    obtain ⟨cs, rfl, hrest⟩ := h.uncons_same (by decide)
    obtain ⟨a', ha', related⟩ := hb.of_done hrest ha
    rw [parenthesized_done ha, parenthesized_done ha']
    exact ((ih _ (hrest.drop n)).map fun _ _ => .cons related).shift (n + 1)
  | case5 bs why hf =>
    obtain ⟨cs, rfl, hrest⟩ := h.uncons_same (by decide)
    obtain ⟨why', hf', agree⟩ := hb.of_failed hrest hf
    rw [parenthesized_failed hf, parenthesized_failed hf']
    exact .failed (agree.shift 1)
  | case6 b bs hclose hopen =>
    obtain ⟨c, cs, rfl, hc, -⟩ := h.uncons
    rw [parenthesized_other bs hclose hopen,
      parenthesized_other cs (mt (Octet.eq_iff_of_lower (by decide) hc).mpr hclose)
        (mt (Octet.eq_iff_of_lower (by decide) hc).mpr hopen)]
    exact .failed (.refl _)

theorem parenthesized (hb : Caseless body) : Caseless (Rule.parenthesized body) := by
  apply (Agree.expect _ _).andThen
  apply hb.bind
  intro _ _ ha
  apply (parenthesized_go hb).bind
  intro _ _ has
  exact .pure (.cons ha has)

theorem separated {separator : UInt8} (hs : Octet.isLetter separator = false)
    (he : Caseless element) : Caseless (Rule.separated separator element) := by
  apply he.bind
  intro _ _ ha
  apply (he.behind hs).bind
  intro _ _ has
  exact .pure (.cons ha has)

theorem list (he : Caseless element) : Caseless (Rule.list element) := by
  apply (Agree.expect _ _).andThen
  apply (Agree.skip? _).bind
  intro closed _ hclosed
  rw [← hclosed]
  split
  · exact .pure (.refl _)
  · exact he.spacedToClose

theorem nonEmptyList (he : Caseless element) : Caseless (Rule.nonEmptyList element) := by
  apply (Agree.expect _ _).andThen
  apply (Agree.word _ _).lookahead.opt.bind
  intro close close' hclose
  have hsome : close.isSome = close'.isSome := by cases hclose <;> rfl
  rw [hsome]
  split
  · exact .fail (.refl _)
  · exact he.spacedToClose

end Imap.Rule.Caseless
