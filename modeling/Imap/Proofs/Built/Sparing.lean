import Imap.Proofs.Built.Basic

namespace Imap

/-- A kind of failure that is never passed over: it stays what it is wherever it is seen from, and no
alternative is tried behind it. -/
class Failure.Grave (P : Failure → Prop) : Prop where
  of_shift : ∀ {why : Failure} {n : Nat}, P (why.shift n) → P why
  not_short : ∀ {missing needed position}, ¬P (.short missing needed position)
  not_miss : ∀ {cause position}, ¬P (.miss cause position)

namespace Rule

open Failure (Grave)

variable {α β : Type} {ctx : Context} {P : Failure → Prop} {r other element body : Rule α}

/-- Never fails in that way. -/
def Spares (ctx : Context) (P : Failure → Prop) (r : Rule α) : Prop :=
  ∀ bs why, r ctx bs = .failed why → ¬P why

theorem grave_of_furthest [Grave P] {cause : Cause} {position : Nat} {why : Failure}
    (h : P (furthest (.miss cause position) why)) : P why := by
  cases why with
  | miss cause' position' =>
    simp only [furthest] at h
    split at h <;> exact absurd h Grave.not_miss
  | _ => exact h

theorem grave_of_map_shift [Grave P] {o : Outcome α} {f : α → β} {n : Nat} {why : Failure}
    (h : (o.map f).shift n = .failed why) (hp : P why) : ∃ why', o = .failed why' ∧ P why' := by
  obtain ⟨why', ho, rfl⟩ := map_shift_failed h
  exact ⟨why', ho, Grave.of_shift hp⟩

namespace Spares

theorem pure (a : α) : (Pure.pure a : Rule α).Spares ctx P := by
  intro bs why h
  cases h

theorem fail {why : Failure} (hw : ¬P why) : (Rule.fail why : Rule α).Spares ctx P := by
  intro bs why' h
  cases h
  exact hw

theorem dialect : Rule.dialect.Spares ctx P := by
  intro bs why h
  cases h

theorem ofExcept {x : Except Refusal α} (h : ∀ why, x = .error why → ¬P (.refused why)) :
    (Rule.ofExcept x).Spares ctx P := by
  cases x with
  | ok a => exact pure a
  | error why => exact fail (h why rfl)

theorem bind {next : α → Rule β} [Grave P] (hr : r.Spares ctx P)
    (hn : ∀ a, r.Gives a → (next a).Spares ctx P) : (r >>= next).Spares ctx P := by
  intro bs why h hp
  obtain hfirst | ⟨a, n, why', ha, hnext, rfl⟩ := bind_failed h
  · exact hr _ _ hfirst hp
  · exact hn a ⟨_, _, _, ha⟩ _ _ hnext (Grave.of_shift hp)

/-- Where nothing depends on what `r` gives. -/
theorem andThen {next : α → Rule β} [Grave P] (hr : r.Spares ctx P)
    (hn : ∀ a, (next a).Spares ctx P) : (r >>= next).Spares ctx P := by
  apply hr.bind
  intro a _
  exact hn a

theorem refine {judge : α → Except Failure β} (hr : r.Spares ctx P)
    (hj : ∀ a why, r.Gives a → judge a = .error why → ¬P why) : (r.refine judge).Spares ctx P := by
  intro bs why h
  obtain hfirst | ⟨a, n, ha, hjudge⟩ := refine_failed h
  · exact hr _ _ hfirst
  · exact hj a why ⟨_, _, _, ha⟩ hjudge

theorem lookahead (hr : r.Spares ctx P) : r.lookahead.Spares ctx P := by
  intro bs why h
  exact hr bs why (lookahead_failed h)

theorem opt (hr : r.Spares ctx P) : r.opt.Spares ctx P := by
  intro bs why h
  exact hr bs why (opt_failed h)

theorem orElse (hr : r.Spares ctx P) (ho : other.Spares ctx P) : (r.orElse other).Spares ctx P := by
  intro bs why h
  exact (orElse_failed h).elim (hr bs why) (ho bs why)

theorem alt [Grave P] (hr : r.Spares ctx P) (ho : other.Spares ctx P) :
    (r.alt other).Spares ctx P := by
  intro bs why h hp
  obtain hfirst | ⟨cause, position, why', -, hsecond, rfl⟩ := alt_failed h
  · exact hr _ _ hfirst hp
  · exact ho _ _ hsecond (grave_of_furthest hp)

section Tokens

variable [Grave P]

theorem peek : Rule.peek.Spares ctx P := by
  intro bs why h
  cases bs with
  | nil =>
    simp only [Rule.peek] at h
    split at h <;> cases h
    exact Grave.not_short
  | cons b bs => cases h

theorem token {length : Bytes → Nat} (hl : ∀ bs : Bytes, ∀ b ∈ bs.take (length bs), b < 0x80)
    (mayBeEmpty : Bool) (missing : Shortage) (cause : Cause) :
    (Rule.token length mayBeEmpty missing cause).Spares ctx P := by
  intro bs why h
  simp only [Rule.token, Text.Ascii.decode_ok (hl bs)] at h
  split at h
  · cases h
    exact Grave.not_short
  · split at h <;> cases h
    exact Grave.not_miss

theorem span {isMember : UInt8 → Bool} (ascii : Octet.Ascii isMember) (wanted : Element) :
    (Rule.span isMember wanted).Spares ctx P :=
  token (takeWhile_ascii ascii) _ _ _

theorem word (fixed : String) (cause : Cause) : (Rule.word fixed cause).Spares ctx P := by
  intro bs why h
  simp only [Rule.word] at h
  split at h
  · cases h
  · split at h <;> cases h
    · exact Grave.not_miss
    · exact Grave.not_short
  · cases h
    exact Grave.not_miss

theorem skip? (fixed : String) : (Rule.skip? fixed).Spares ctx P := by
  refine (word _ _).opt.andThen fun _ => ?_
  exact pure _

theorem digits (hbad : ∀ cause position, ¬P (.bad cause position)) (limit : Nat)
    (wanted : Element) : (Rule.digits limit wanted).Spares ctx P := by
  intro bs why h
  simp only [digits_apply] at h
  split at h
  · cases h
    exact hbad _ _
  · cases hs : Rule.span Octet.isDigit wanted ctx bs with
    | done text used => rw [hs] at h; cases h
    | failed why' =>
      rw [hs] at h
      cases h
      exact span .digit wanted _ _ hs

theorem quotedTail : Spares ctx P Rule.quotedTail := by
  intro bs why h hp
  have cut (cause : Cause) (position : Nat) {why : Failure} (hp : P why) :
      quotedTail.cutOff ctx cause position ≠ .failed why := by
    intro hc
    simp only [quotedTail.cutOff] at hc
    split at hc <;> cases hc
    · exact Grave.not_miss hp
    · exact Grave.not_short hp
  induction bs using quotedTail.induct generalizing why with
  | case1 => exact cut _ _ hp h
  | case2 bs => rw [quotedTail_close] at h; cases h
  | case3 => exact cut _ _ hp h
  | case4 c bs hc _ ih =>
    rw [quotedTail_escape _ _ hc] at h
    obtain ⟨why', hw, hp'⟩ := grave_of_map_shift h hp
    exact ih _ hw hp'
  | case5 c bs hc => rw [quotedTail_badEscape _ _ hc] at h; cases h; exact Grave.not_miss hp
  | case6 b bs hb hs ht ih =>
    rw [quotedTail_char _ _ hb hs ht] at h
    obtain ⟨why', hw, hp'⟩ := grave_of_map_shift h hp
    exact ih _ hw hp'
  | case7 b bs hb hs ht =>
    rw [quotedTail_badChar _ _ hb hs ht] at h
    cases h
    exact Grave.not_miss hp

theorem literalBody (hbad : ∀ cause position, ¬P (.bad cause position)) (size : Nat) :
    (Rule.literalBody size).Spares ctx P := by
  intro bs why h
  simp only [Rule.literalBody] at h
  split at h
  · split at h <;> cases h
    · exact hbad _ _
    · exact Grave.not_short
  · split at h <;> cases h
    exact hbad _ _

theorem lineEnd : Rule.lineEnd.Spares ctx P := by
  refine (skip? _).andThen fun found => ?_
  split
  · exact pure ()
  · exact word _ _

end Tokens

section Lists

variable [Grave P]

theorem behind (separator : UInt8) (he : element.Spares ctx P) :
    (Rule.behind separator element).Spares ctx P := by
  intro bs why h hp
  change behind.go separator element ctx bs = _ at h
  induction bs using behind.go.induct separator element ctx generalizing why with
  | case1 hc => rw [behind.go, if_pos hc] at h; cases h
  | case2 hc => rw [behind.go, if_neg hc] at h; cases h; exact Grave.not_short hp
  | case3 bs a n ha ih =>
    rw [behind_done ha] at h
    obtain ⟨why', hw, hp'⟩ := grave_of_map_shift h hp
    exact ih _ hp' hw
  | case4 bs cause position hm => rw [behind_miss hm] at h; cases h
  | case5 bs why' hm hf =>
    rw [behind_failed (fun _ _ => hm _ _) hf] at h
    cases h
    exact he _ _ hf (Grave.of_shift hp)
  | case6 b bs hb => rw [behind_other bs hb] at h; cases h

theorem spacedToClose (he : element.Spares ctx P) : element.spacedToClose.Spares ctx P := by
  intro bs why h hp
  change spacedToClose.go element ctx bs = _ at h
  induction bs using spacedToClose.go.induct element ctx generalizing why with
  | case1 bs why' hf =>
    rw [spacedToClose_failed hf] at h
    cases h
    exact he _ _ hf hp
  | case2 bs a n ha hd hc =>
    rw [spacedToClose_end ha hd, if_pos hc] at h
    cases h
    exact Grave.not_miss hp
  | case3 bs a n ha hd hc =>
    rw [spacedToClose_end ha hd, if_neg hc] at h
    cases h
    exact Grave.not_short hp
  | case4 bs a n ha rest hd => rw [spacedToClose_close ha hd] at h; cases h
  | case5 bs a n ha rest hd _ ih =>
    rw [spacedToClose_space ha hd] at h
    obtain ⟨why', hw, hp'⟩ := grave_of_map_shift h hp
    exact ih _ hp' hw
  | case6 bs a n ha b rest hd hc hs =>
    rw [spacedToClose_other ha hd hc hs] at h
    cases h
    exact Grave.not_miss hp

theorem parenthesized (hb : body.Spares ctx P) :
    Spares ctx P (parenthesized.go body : Rule (List α)) := by
  intro bs why h hp
  change parenthesized.go body ctx bs = _ at h
  induction bs using parenthesized.go.induct body ctx generalizing why with
  | case1 hc => rw [parenthesized.go, if_pos hc] at h; cases h; exact Grave.not_miss hp
  | case2 hc => rw [parenthesized.go, if_neg hc] at h; cases h; exact Grave.not_short hp
  | case3 bs => rw [parenthesized_close] at h; cases h
  | case4 bs a n ha _ ih =>
    rw [parenthesized_done ha] at h
    obtain ⟨why', hw, hp'⟩ := grave_of_map_shift h hp
    exact ih _ hp' hw
  | case5 bs why' hf =>
    rw [parenthesized_failed hf] at h
    cases h
    exact hb _ _ hf (Grave.of_shift hp)
  | case6 b bs hc ho =>
    rw [parenthesized_other bs hc ho] at h
    cases h
    exact Grave.not_miss hp

theorem list (he : element.Spares ctx P) : (Rule.list element).Spares ctx P := by
  refine (word _ _).andThen fun _ => (skip? _).andThen fun closed => ?_
  split
  · exact pure []
  · exact spacedToClose he

theorem nonEmptyList (he : element.Spares ctx P) : (Rule.nonEmptyList element).Spares ctx P := by
  refine (word _ _).andThen fun _ => (word _ _).lookahead.opt.andThen fun close => ?_
  split
  · exact fail Grave.not_miss
  · exact spacedToClose he

end Lists

end Spares

end Rule

end Imap
