import Imap.Proofs.Letters
import Imap.Proofs.Line.List
import Imap.Proofs.Modes.List

namespace Imap

namespace Rule

variable {α β : Type}

/-- With a line feed ahead it does not matter whether the octets are complete. -/
theorem Lined.either {r : Rule α} (hr : Lined r) (hc : Conclusive r) {ctx : Context} {bs : Bytes}
    (h : 0x0A ∈ bs) : r ⟨false, ctx.dialect⟩ bs = r ctx bs := by
  obtain ⟨complete, d⟩ := ctx
  cases complete with
  | false => rfl
  | true => exact ((hc d bs).eq_of_settled (hr d bs h)).symm

/-- A rule within a line is settled by the line feed ahead, complete or not. -/
theorem Built.settled {m : Manner} {r : Rule α} (h : Built .line m r) {ctx : Context} {bs : Bytes}
    (hfeed : 0x0A ∈ bs) : (r ctx bs).Settled := by
  rw [← h.inline.settled.either h.conclusive hfeed]
  exact h.inline.settled _ _ hfeed

/-- What is done before a line feed depends neither on what is behind the line feed nor on whether
more may come. -/
def Framed (r : Rule α) : Prop :=
  ∀ ctx pre tail a n, r ctx (pre ++ 0x0A :: tail) = .done a n → n ≤ pre.length →
    r ⟨false, ctx.dialect⟩ (pre ++ [0x0A]) = .done a n

theorem Lined.framed {r : Rule α} (hr : Lined r) (hs : Steady r) (hc : Conclusive r) :
    Framed r := by
  intro ctx pre tail a n h _
  rw [← hr.either hc (by simp)] at h
  have hlf : 0x0A ∈ pre ++ [0x0A] := by simp
  have h' : r ⟨false, ctx.dialect⟩ ((pre ++ [0x0A]) ++ tail) = .done a n := by
    rw [List.append_assoc]
    exact h
  exact hs.done_of_settled (hr ctx.dialect _ hlf) h'

theorem Built.framed_of_line {m : Manner} {r : Rule α} (h : Built .line m r) : Framed r := by
  have hsettled := h.inline.settled
  exact hsettled.framed h.steady h.conclusive

section

variable (ctx : Context) {b : UInt8} (bs : Bytes)

theorem lineEnd_feed : lineEnd ctx (0x0A :: bs) = .done () 1 := rfl

theorem lineEnd_return : lineEnd ctx (0x0D :: 0x0A :: bs) = .done () 2 := rfl

theorem lineEnd_other (h : b ≠ 0x0A) :
    lineEnd ctx (b :: bs) = expect "\r\n" .lineEnd ctx (b :: bs) := by
  have hb : Octet.lower b ≠ 0x0A := mt (Octet.lower_eq_iff (by decide)).mp h
  have hword : word "\n" (.word "\n") ctx (b :: bs) = .failed (.miss (.word "\n") 0) := by
    have : compareWord ((Bytes.ofText "\n").map Octet.lower) (b :: bs) = .different := if_neg hb
    simp only [word, this]
  have hskip : skip? "\n" ctx (b :: bs) = .done false 0 := by
    have : (word "\n" (.word "\n")).opt ctx (b :: bs) = .done none 0 := by simp only [opt, hword]
    exact bind_of_done this
  exact (bind_of_done hskip).trans (Outcome.shift_zero _)

end

theorem lineEnd_done {ctx : Context} {bs : Bytes} {n : Nat} (h : lineEnd ctx bs = .done () n) :
    ∃ rest, (bs = 0x0A :: rest ∧ n = 1) ∨ (bs = 0x0D :: 0x0A :: rest ∧ n = 2) := by
  cases bs with
  | nil =>
    obtain ⟨complete, d⟩ := ctx
    cases complete <;> cases h
  | cons b bs =>
    by_cases hb : b = 0x0A
    · subst hb
      rw [lineEnd_feed] at h
      cases h
      exact ⟨bs, .inl ⟨rfl, rfl⟩⟩
    · rw [lineEnd_other _ _ hb] at h
      simp only [expect, word] at h
      split at h
      · next he =>
        cases h
        obtain ⟨hl, hm⟩ := compareWord_equal he
        have hlen : 0 < bs.length := Nat.lt_of_succ_lt_succ hl
        obtain ⟨c, rest, rfl⟩ := List.exists_cons_of_length_pos hlen
        have hm' : [Octet.lower b, Octet.lower c] = [0x0D, 0x0A] := hm
        simp only [List.cons.injEq, and_true] at hm'
        have hb' : b = 0x0D := (Octet.lower_eq_iff (by decide)).mp hm'.1
        have hc' : c = 0x0A := (Octet.lower_eq_iff (by decide)).mp hm'.2
        exact ⟨rest, .inr ⟨by rw [hb', hc'], rfl⟩⟩
      · split at h <;> cases h
      · cases h

theorem lineEnd_lined : Lined lineEnd := by
  intro d bs h
  cases bs with
  | nil => cases h
  | cons b bs =>
    by_cases hb : b = 0x0A
    · subst hb
      exact .done () 1
    · rw [lineEnd_other _ _ hb]
      exact Lined.word _ _ (by decide) d _ h

/-- Octets that do not reach the mark end in front of it. -/
theorem le_length_of_not_mem {mark : UInt8} {front rest : Bytes} {n : Nat}
    (h : mark ∉ (front ++ mark :: rest).take n) : n ≤ front.length := by
  refine Nat.le_of_not_lt fun hlt => h ?_
  obtain ⟨k, rfl⟩ := Nat.exists_eq_add_of_lt hlt
  rw [List.take_append, Nat.add_assoc, Nat.add_sub_cancel_left, List.take_succ_cons]
  simp

theorem cons_of_framed {b mark : UInt8} {pre tail rest : Bytes} (hb : b ≠ mark)
    (h : pre ++ mark :: tail = b :: rest) :
    ∃ pre', pre = b :: pre' ∧ rest = pre' ++ mark :: tail := by
  cases pre with
  | nil => cases h; exact absurd rfl hb
  | cons c pre => cases h; exact ⟨pre, rfl, rfl⟩

namespace Framed

theorem bind {r : Rule α} {next : α → Rule β} (hr : Framed r)
    (hn : ∀ a, r.Gives a → Framed (next a)) : Framed (r >>= next) := by
  intro ctx pre tail b used h hle
  obtain ⟨a, n, m, ha, hb, rfl⟩ := bind_done h
  have hn' : n ≤ pre.length := by omega
  rw [List.drop_append_of_le_length hn'] at hb
  have hb' := hn a ⟨_, _, _, ha⟩ _ _ _ _ _ hb (by rw [List.length_drop]; omega)
  rw [bind_of_done (hr _ _ _ _ _ ha hn'), List.drop_append_of_le_length hn', hb']
  rfl

theorem refine {r : Rule α} {judge : α → Except Failure β} (hr : Framed r) :
    Framed (r.refine judge) := by
  intro ctx pre tail b n h hle
  obtain ⟨a, ha, hj⟩ := refine_done h
  simp only [Rule.refine, hr _ _ _ _ _ ha hle, hj]

theorem literalBody (size : Nat) : Framed (Rule.literalBody size) := by
  intro ctx pre tail body n h hle
  simp only [Rule.literalBody] at h ⊢
  split at h
  · split at h <;> cases h
  · split at h
    · cases h
    · next hnul =>
      cases h
      rw [List.take_append_of_le_length hle] at hnul ⊢
      have hlen : ¬(pre.take size).length < size := by
        rw [List.length_take]
        omega
      rw [List.take_append_of_le_length hle, if_neg hlen, if_neg hnul]

theorem behind {separator : UInt8} {element : Rule α} (hs : separator ≠ 0x0A)
    (he : Framed element) (hp : element.Prompt) : Framed (Rule.behind separator element) := by
  intro ctx pre tail as used h hle
  change behind.go separator element ctx _ = _ at h
  change behind.go separator element ⟨false, ctx.dialect⟩ _ = _
  generalize hbs : pre ++ 0x0A :: tail = bs at h
  induction bs using behind.go.induct separator element ctx generalizing pre as used with
  | case1 | case2 => simp at hbs
  | case3 bs a n ha ih =>
    obtain ⟨pre, rfl, rfl⟩ := cons_of_framed hs hbs
    rw [behind_done ha] at h
    obtain ⟨as, m, hm, rfl, rfl⟩ := map_shift_done h
    have hn : n ≤ pre.length := by
      rw [List.length_cons] at hle
      omega
    have hrest := ih (pre.drop n) _ _
      (by rw [List.length_drop]; rw [List.length_cons] at hle; omega)
      (by rw [List.drop_append_of_le_length hn]) hm
    rw [List.cons_append, behind_done (he _ _ _ _ _ ha hn), List.drop_append_of_le_length hn, hrest]
    rfl
  | case4 bs cause position hm =>
    obtain ⟨pre, rfl, rfl⟩ := cons_of_framed hs hbs
    obtain ⟨cause', position', hm'⟩ := hp _ _ _ _ _ hm
    rw [behind_miss hm] at h
    rw [List.cons_append, behind_miss hm']
    exact h
  | case5 bs why hm hf => rw [behind_failed (fun _ _ => hm _ _) hf] at h; cases h
  | case6 b bs hb =>
    rw [behind_other bs hb] at h
    cases pre with
    | nil => rw [List.nil_append, behind_other _ hs.symm]; exact h
    | cons c pre =>
      cases hbs
      rw [List.cons_append, behind_other _ hb]
      exact h

theorem spacedToClose {element : Rule α} (he : Framed element) : Framed element.spacedToClose := by
  intro ctx pre tail as used h hle
  change spacedToClose.go element ctx _ = _ at h
  change spacedToClose.go element ⟨false, ctx.dialect⟩ _ = _
  generalize hbs : pre ++ 0x0A :: tail = bs at h
  induction bs using spacedToClose.go.induct element ctx generalizing pre as used with
  | case1 bs why hf => rw [spacedToClose_failed hf] at h; cases h
  | case2 bs a n ha hd hc | case3 bs a n ha hd hc => rw [spacedToClose_end ha hd] at h; cases h
  | case4 bs a n ha rest hd =>
    rw [spacedToClose_close ha hd] at h
    cases h
    subst hbs
    have hn : n ≤ pre.length := by omega
    rw [List.drop_append_of_le_length hn] at hd
    obtain ⟨rest', hd', -⟩ := cons_of_framed (by decide) hd
    have hclose : (pre ++ [0x0A]).drop n = 0x29 :: (rest' ++ [0x0A]) := by
      rw [List.drop_append_of_le_length hn, hd']
      rfl
    exact spacedToClose_close (he _ _ _ _ _ ha hn) hclose
  | case5 bs a n ha rest hd _ ih =>
    rw [spacedToClose_space ha hd] at h
    obtain ⟨as, m, hm, rfl, rfl⟩ := map_shift_done h
    subst hbs
    have hn : n ≤ pre.length := by omega
    rw [List.drop_append_of_le_length hn] at hd
    obtain ⟨rest', hd', hrest⟩ := cons_of_framed (by decide) hd
    have hlen := congrArg List.length hd'
    rw [List.length_drop, List.length_cons] at hlen
    have htail := ih rest' _ _ (by omega) hrest.symm hm
    have hspace : (pre ++ [0x0A]).drop n = 0x20 :: (rest' ++ [0x0A]) := by
      rw [List.drop_append_of_le_length hn, hd']
      rfl
    rw [spacedToClose_space (he _ _ _ _ _ ha hn) hspace, htail]
    rfl
  | case6 bs a n ha b rest hd hc hs => rw [spacedToClose_other ha hd hc hs] at h; cases h

theorem parenthesized {body : Rule α} (hb : Framed body) :
    Framed (parenthesized.go body : Rule (List α)) := by
  intro ctx pre tail as used h hle
  generalize hbs : pre ++ 0x0A :: tail = bs at h
  induction bs using parenthesized.go.induct body ctx generalizing pre as used with
  | case1 | case2 => simp at hbs
  | case3 bs =>
    obtain ⟨pre, rfl, rfl⟩ := cons_of_framed (by decide) hbs
    rw [parenthesized_close] at h
    rw [List.cons_append, parenthesized_close]
    exact h
  | case4 bs a n ha _ ih =>
    obtain ⟨pre, rfl, rfl⟩ := cons_of_framed (by decide) hbs
    rw [parenthesized_done ha] at h
    obtain ⟨as, m, hm, rfl, rfl⟩ := map_shift_done h
    rw [List.length_cons] at hle
    have hn : n ≤ pre.length := by omega
    have hrest := ih (pre.drop n) _ _ (by rw [List.length_drop]; omega)
      (by rw [List.drop_append_of_le_length hn]) hm
    rw [List.cons_append, parenthesized_done (hb _ _ _ _ _ ha hn),
      List.drop_append_of_le_length hn, hrest]
    rfl
  | case5 bs why hf => rw [parenthesized_failed hf] at h; cases h
  | case6 b bs hc ho => rw [parenthesized_other bs hc ho] at h; cases h

end Framed

/-- The induction that carries `Framed` to every rule that stays before the end of its unit. -/
theorem Built.framed_of {e : Extent} {m : Manner} {r : Rule α} (h : Built e m r) :
    e ≠ .unit → Framed r := by
  have leaf {γ : Type} {r : Rule γ} (h : Built .line .wary r) : Framed r := framed_of_line h
  have line {e : Extent} {m : Manner} {γ : Type} {r : Rule γ} (he : e = .line ∨ e = .unit)
      (h : Built e m r) : e ≠ .unit → Framed r := by
    rcases he with rfl | rfl
    · exact fun _ => framed_of_line h
    · exact fun hu => absurd rfl hu
  induction h with
  | pure a => exact fun _ => leaf (.pure a)
  | fail here => exact fun _ => leaf (.fail here)
  | ofExcept x => exact fun _ => leaf (.ofExcept x nofun)
  | dialect => exact fun _ => leaf .dialect
  | peek => exact fun _ => leaf .peek
  | token greedy inLine ascii => exact fun _ => leaf (.token greedy inLine ascii _ _ _)
  | word _ _ inLine => exact fun _ => leaf (.word _ _ inLine)
  | digits => exact fun _ => leaf (.digits _ _)
  | quotedTail => exact fun _ => leaf .quotedTail
  | lineEnd => exact fun _ => lineEnd_lined.framed .lineEnd .lineEnd
  | literalBody size => exact fun _ => .literalBody size
  | literal _ h => exact fun _ => h (by decide)
  | bind _ _ first rest => exact fun hu => (first hu).bind fun a ha => rest a ha hu
  | refine _ here first => exact fun hu => (first hu).refine
  | lookahead first => exact fun _ => framed_of_line (.lookahead first)
  | opt simple first => exact line simple (.opt simple first)
  | orElse simple first second => exact line simple (.orElse simple first second)
  | alt simple first second => exact line simple (.alt simple first second)
  | behind inLine each => exact fun _ => framed_of_line (.behind inLine each)
  | behindPrompt inLine _ prompt each => exact fun hu => (each hu).behind inLine prompt
  | spacedToClose _ each => exact fun hu => (each hu).spacedToClose
  | parenthesized _ each => exact fun hu => (each hu).parenthesized
  | ofLine inLine => exact fun _ => framed_of_line inLine
  | ofRaw => exact fun hu => absurd rfl hu
  | ofText => exact fun hu => absurd rfl hu
  | willingly _ _ h => exact h

theorem Built.framed {m : Manner} {r : Rule α} (h : Built .text m r) : Framed r :=
  h.framed_of (by decide)

end Rule

end Imap
