import Imap.Proofs.Built.Basic

namespace Imap

/-- Names no place behind the first `size` octets. -/
def Failure.Within (size : Nat) (f : Failure) : Prop := ∀ p, f.position? = some p → p ≤ size

namespace Failure.Within

variable {f g : Failure} {size : Nat}

theorem of_le {p : Nat} (h : f.position? = some p) (hp : p ≤ size) : f.Within size := by
  intro p' h'
  rw [h] at h'
  cases h'
  exact hp

theorem of_zero (h : f.position? = some 0) (size : Nat) : f.Within size := .of_le h (Nat.zero_le _)

theorem of_here (h : f.Here) (size : Nat) : f.Within size := by
  cases h with
  | miss cause => exact .of_zero rfl size
  | bad cause => exact .of_zero rfl size

theorem refused (why : Refusal) (size : Nat) : (Failure.refused why).Within size := by
  intro p h
  cases h

theorem shift (h : f.Within size) {n total : Nat} (hle : n + size ≤ total) :
    (f.shift n).Within total := by
  intro p hp
  cases f with
  | refused why => cases hp
  | _ =>
    cases hp
    have := h _ rfl
    omega

theorem furthest (hf : f.Within size) (hg : g.Within size) : (Rule.furthest f g).Within size := by
  unfold Rule.furthest
  split
  · split
    · exact hg
    · exact hf
  · exact hg

end Failure.Within

namespace Rule

variable {α β : Type} {r other element body : Rule α}

/-- Wherever the rule fails, it is no further than the octets reach. -/
def Placed (r : Rule α) : Prop := ∀ ctx bs why, r ctx bs = .failed why → why.Within bs.length

theorem compareWord_cut_le {small bs : Bytes} {common : Nat}
    (h : compareWord small bs = .cut common) : common ≤ bs.length := by
  induction small generalizing bs common with
  | nil => cases h
  | cons w ws ih =>
    cases bs with
    | nil => cases h; exact Nat.le_refl 0
    | cons b bs =>
      simp only [compareWord] at h
      split at h
      · cases hc : compareWord ws bs with
        | cut n =>
          rw [hc] at h
          cases h
          exact Nat.succ_le_succ (ih hc)
        | _ => rw [hc] at h; cases h
      · cases h

namespace Placed

theorem pure (a : α) : Placed (Pure.pure a : Rule α) := by
  intro ctx bs why h
  cases h

theorem fail {why : Failure} (here : why.Here) : Placed (Rule.fail why : Rule α) := by
  rintro ctx bs _ ⟨⟩
  exact .of_here here _

theorem dialect : Placed Rule.dialect := by
  intro ctx bs why h
  cases h

theorem ofExcept (x : Except Refusal α) : Placed (Rule.ofExcept x) := by
  cases x with
  | ok a => exact pure a
  | error why =>
    rintro ctx bs _ ⟨⟩
    exact .refused why _

theorem peek : Placed Rule.peek := by
  intro ctx bs why h
  cases bs with
  | cons b bs => cases h
  | nil =>
    simp only [Rule.peek] at h
    split at h <;> cases h
    exact .of_zero rfl _

theorem token (length : Bytes → Nat) (mayBeEmpty : Bool) (missing : Shortage) (cause : Cause) :
    Placed (Rule.token length mayBeEmpty missing cause) := by
  intro ctx bs why h
  simp only [Rule.token] at h
  split at h
  · cases h
    exact .of_zero rfl _
  · split at h
    · cases h
      exact .of_zero rfl _
    · obtain ⟨refusal, -, rfl⟩ := Outcome.ofExcept_failed h
      exact .refused refusal _

theorem word (fixed : String) (cause : Cause) : Placed (Rule.word fixed cause) := by
  intro ctx bs why h
  simp only [Rule.word] at h
  split at h
  · cases h
  · next hc =>
    split at h <;> cases h
    · exact .of_zero rfl _
    · exact .of_le rfl (compareWord_cut_le hc)
  · cases h
    exact .of_zero rfl _

theorem digits (limit : Nat) (wanted : Element) : Placed (Rule.digits limit wanted) := by
  intro ctx bs why h
  simp only [digits_apply] at h
  split at h
  · cases h
    exact .of_zero rfl _
  · cases hs : span Octet.isDigit wanted ctx bs with
    | done text used => rw [hs] at h; cases h
    | failed why' =>
      rw [hs] at h
      cases h
      exact token _ _ _ _ _ _ _ hs

theorem quotedTail : Placed Rule.quotedTail := by
  intro ctx bs why h
  have cut {cause : Cause} {position size : Nat} {why : Failure} (hp : position ≤ size)
      (hc : quotedTail.cutOff ctx cause position = .failed why) : why.Within size := by
    simp only [quotedTail.cutOff] at hc
    split at hc <;> cases hc <;> exact .of_le rfl hp
  induction bs using quotedTail.induct generalizing why with
  | case1 => exact cut (Nat.zero_le _) h
  | case2 bs => rw [quotedTail_close] at h; cases h
  | case3 => exact cut (Nat.le_refl 1) h
  | case4 c bs hc _ ih =>
    rw [quotedTail_escape _ _ hc] at h
    obtain ⟨why', hw, rfl⟩ := map_shift_failed h
    exact (ih why' hw).shift (by simp only [List.length_cons]; omega)
  | case5 c bs hc =>
    rw [quotedTail_badEscape _ _ hc] at h
    cases h
    exact .of_le rfl (by simp)
  | case6 b bs hq hs ht ih =>
    rw [quotedTail_char _ _ hq hs ht] at h
    obtain ⟨why', hw, rfl⟩ := map_shift_failed h
    exact (ih why' hw).shift (by simp only [List.length_cons]; omega)
  | case7 b bs hq hs ht =>
    rw [quotedTail_badChar _ _ hq hs ht] at h
    cases h
    exact .of_zero rfl _

theorem literalBody (size : Nat) : Placed (Rule.literalBody size) := by
  intro ctx bs why h
  simp only [Rule.literalBody] at h
  split at h
  · split at h <;> cases h <;> exact .of_zero rfl _
  · split at h <;> cases h
    exact .of_zero rfl _

theorem bind {next : α → Rule β} (hr : Placed r) (hf : r.Fits)
    (hn : ∀ a, r.Gives a → Placed (next a)) : Placed (r >>= next) := by
  intro ctx bs why h
  obtain hfirst | ⟨a, n, why', ha, hnext, rfl⟩ := bind_failed h
  · exact hr _ _ _ hfirst
  · have hle := hf _ _ _ _ ha
    have hrest := hn a ⟨_, _, _, ha⟩ _ _ _ hnext
    exact hrest.shift (by rw [List.length_drop]; omega)

theorem refine {judge : α → Except Failure β} (hr : Placed r)
    (hj : ∀ a why, judge a = .error why → why.Here) : Placed (r.refine judge) := by
  intro ctx bs why h
  obtain hfirst | ⟨a, n, -, hjudge⟩ := refine_failed h
  · exact hr _ _ _ hfirst
  · exact .of_here (hj _ _ hjudge) _

theorem lookahead (hr : Placed r) : Placed r.lookahead := by
  intro _ _ _ h
  exact hr _ _ _ (lookahead_failed h)

theorem opt (hr : Placed r) : Placed r.opt := by
  intro _ _ _ h
  exact hr _ _ _ (opt_failed h)

theorem orElse (hr : Placed r) (ho : Placed other) : Placed (r.orElse other) := by
  intro _ _ _ h
  exact (orElse_failed h).elim (hr _ _ _) (ho _ _ _)

theorem alt (hr : Placed r) (ho : Placed other) : Placed (r.alt other) := by
  intro ctx bs why h
  obtain hfirst | ⟨cause, position, why', hmiss, hsecond, rfl⟩ := alt_failed h
  · exact hr _ _ _ hfirst
  · exact (hr _ _ _ hmiss).furthest (ho _ _ _ hsecond)

theorem behind (separator : UInt8) (he : Placed element) (hf : element.Fits) :
    Placed (Rule.behind separator element) := by
  intro ctx bs why h
  change behind.go separator element ctx bs = _ at h
  induction bs using behind.go.induct separator element ctx generalizing why with
  | case1 hc | case2 hc => rw [behind.go] at h; split at h <;> cases h <;> exact .of_zero rfl _
  | case3 bs a n ha ih =>
    rw [behind_done ha] at h
    obtain ⟨why', hw, rfl⟩ := map_shift_failed h
    have hle := hf _ _ _ _ ha
    exact (ih why' hw).shift (by rw [List.length_drop, List.length_cons]; omega)
  | case4 bs cause position hm => rw [behind_miss hm] at h; cases h
  | case5 bs why' hm hw =>
    rw [behind_failed (fun _ _ => hm _ _) hw] at h
    cases h
    exact (he _ _ _ hw).shift (by rw [List.length_cons]; omega)
  | case6 b bs hb => rw [behind_other bs hb] at h; cases h

theorem spacedToClose (he : Placed element) (hf : element.Fits) :
    Placed element.spacedToClose := by
  intro ctx bs why h
  change spacedToClose.go element ctx bs = _ at h
  induction bs using spacedToClose.go.induct element ctx generalizing why with
  | case1 bs why' hw =>
    rw [spacedToClose_failed hw] at h
    cases h
    exact he _ _ _ hw
  | case2 bs a n ha hd hc | case3 bs a n ha hd hc =>
    rw [spacedToClose_end ha hd] at h
    cases h
    split <;> exact .of_le rfl (hf _ _ _ _ ha)
  | case4 bs a n ha rest hd => rw [spacedToClose_close ha hd] at h; cases h
  | case5 bs a n ha rest hd _ ih =>
    rw [spacedToClose_space ha hd] at h
    obtain ⟨why', hw, rfl⟩ := map_shift_failed h
    have hlen := congrArg List.length hd
    simp only [List.length_drop, List.length_cons] at hlen
    exact (ih why' hw).shift (by omega)
  | case6 bs a n ha b rest hd hc hs =>
    rw [spacedToClose_other ha hd hc hs] at h
    cases h
    exact .of_le rfl (hf _ _ _ _ ha)

theorem parenthesized (hb : Placed body) (hf : body.Fits) :
    Placed (parenthesized.go body : Rule (List α)) := by
  intro ctx bs why h
  change parenthesized.go body ctx bs = _ at h
  induction bs using parenthesized.go.induct body ctx generalizing why with
  | case1 hc | case2 hc =>
    rw [parenthesized.go] at h
    split at h <;> cases h <;> exact .of_zero rfl _
  | case3 bs => rw [parenthesized_close] at h; cases h
  | case4 bs a n ha _ ih =>
    rw [parenthesized_done ha] at h
    obtain ⟨why', hw, rfl⟩ := map_shift_failed h
    have hle := hf _ _ _ _ ha
    exact (ih why' hw).shift (by rw [List.length_drop, List.length_cons]; omega)
  | case5 bs why' hw =>
    rw [parenthesized_failed hw] at h
    cases h
    exact (hb _ _ _ hw).shift (by rw [List.length_cons]; omega)
  | case6 b bs hc ho =>
    rw [parenthesized_other bs hc ho] at h
    cases h
    exact .of_zero rfl _

theorem lineEnd : Placed Rule.lineEnd := by
  have feed : Steady (Rule.word "\n" (.word "\n")) := .word _ _
  have skipped : Placed (Rule.skip? "\n") :=
    (word _ _).opt.bind feed.opt.fits fun _ _ => .pure _
  refine skipped.bind (Steady.skip? _).fits fun found _ => ?_
  split
  · exact .pure ()
  · exact word _ _

end Placed

theorem Built.placed {e : Extent} {m : Manner} {r : Rule α} (h : Built e m r) : Placed r := by
  induction h with
  | pure a => exact .pure a
  | fail here => exact .fail here
  | ofExcept x _ => exact .ofExcept x
  | dialect => exact .dialect
  | peek => exact .peek
  | token => exact .token _ _ _ _
  | word => exact .word _ _
  | digits => exact .digits _ _
  | quotedTail => exact .quotedTail
  | lineEnd => exact .lineEnd
  | literalBody size => exact .literalBody size
  | literal _ h => exact h
  | bind built _ first rest => exact first.bind built.steady.fits rest
  | refine _ here first => exact first.refine here
  | lookahead _ first => exact first.lookahead
  | opt _ _ first => exact first.opt
  | orElse _ _ _ first second => exact first.orElse second
  | alt _ _ _ first second => exact first.alt second
  | behind _ built each => exact each.behind _ built.steady.fits
  | behindPrompt _ built _ each => exact each.behind _ built.steady.fits
  | spacedToClose built each => exact each.spacedToClose built.steady.fits
  | parenthesized built each => exact each.parenthesized built.steady.fits
  | ofLine _ h => exact h
  | ofRaw _ h => exact h
  | ofText _ h => exact h
  | willingly _ _ h => exact h

end Rule

end Imap
