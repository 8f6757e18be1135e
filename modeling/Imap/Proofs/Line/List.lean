import Imap.Proofs.Line.Basic

namespace Imap.Rule

variable {α : Type} {element : Rule α}

theorem mem_of_mem_cons_ne {b c : UInt8} {bs : Bytes} (h : b ∈ c :: bs) (hne : c ≠ b) : b ∈ bs := by
  cases h with
  | head => exact absurd rfl hne
  | tail _ h => exact h

theorem not_mem_take_cons {b c : UInt8} {bs : Bytes} {n : Nat} (hne : c ≠ b) (h : b ∉ bs.take n) :
    b ∉ (c :: bs).take (n + 1) := by
  rw [List.take_succ_cons, List.mem_cons]
  exact fun hm => hm.elim (fun he => hne he.symm) h

namespace Inline

theorem behind {separator : UInt8} (hs : separator ≠ 0x0A) (he : Inline element) :
    Inline (Rule.behind separator element) where
  settled d bs h := by
    change (behind.go separator element ⟨false, d⟩ bs).Settled
    induction bs using behind.go.induct separator element ⟨false, d⟩ with
    | case1 | case2 => cases h
    | case3 bs a n ha ih =>
      rw [behind_done ha]
      have hrest := mem_drop (mem_of_mem_cons_ne h hs) (he.inLine _ _ _ _ ha)
      exact ((ih hrest).map _).shift _
    | case4 bs cause position hm =>
      rw [behind_miss hm]
      exact .done _ _
    | case5 bs why hm hf =>
      rw [behind_failed (fun _ _ => hm _ _) hf]
      have hsettled := he.settled d bs (mem_of_mem_cons_ne h hs)
      rw [hf] at hsettled
      cases hsettled with
      | failed decided => exact .failed (decided.shift 1)
    | case6 b bs hb =>
      rw [behind_other bs hb]
      exact .done _ _
  inLine ctx bs as used h := by
    change behind.go separator element ctx bs = _ at h
    induction bs using behind.go.induct separator element ctx generalizing as used with
    | case1 | case2 => simp
    | case3 bs a n ha ih =>
      rw [behind_done ha] at h
      obtain ⟨_, m, hm, _, rfl⟩ := map_shift_done h
      have htail := not_mem_take_add (he.inLine _ _ _ _ ha) (ih _ _ hm)
      rw [Nat.add_right_comm]
      exact not_mem_take_cons hs htail
    | case4 bs cause position hm => rw [behind_miss hm] at h; cases h; simp
    | case5 bs why hm hf => rw [behind_failed (fun _ _ => hm _ _) hf] at h; cases h
    | case6 b bs hb => rw [behind_other bs hb] at h; cases h; simp

theorem spacedToClose (he : Inline element) : Inline element.spacedToClose where
  settled d bs h := by
    change (spacedToClose.go element ⟨false, d⟩ bs).Settled
    induction bs using spacedToClose.go.induct element ⟨false, d⟩ with
    | case1 bs why hf =>
      rw [spacedToClose_failed hf]
      have hsettled := he.settled d bs h
      rw [hf] at hsettled
      cases hsettled with
      | failed decided => exact .failed decided
    | case2 bs a n ha hd | case3 bs a n ha hd =>
      have hrest := mem_drop h (he.inLine _ _ _ _ ha)
      rw [hd] at hrest
      cases hrest
    | case4 bs a n ha rest hd =>
      rw [spacedToClose_close ha hd]
      exact .done _ _
    | case5 bs a n ha rest hd _ ih =>
      have hrest := mem_drop h (he.inLine _ _ _ _ ha)
      rw [hd] at hrest
      rw [spacedToClose_space ha hd]
      exact ((ih (mem_of_mem_cons_ne hrest (by decide))).map _).shift _
    | case6 bs a n ha b rest hd hc hs =>
      rw [spacedToClose_other ha hd hc hs]
      exact .failed (.miss n rfl)
  inLine ctx bs as used h := by
    change spacedToClose.go element ctx bs = _ at h
    induction bs using spacedToClose.go.induct element ctx generalizing as used with
    | case1 bs why hf => rw [spacedToClose_failed hf] at h; cases h
    | case2 bs a n ha hd hc | case3 bs a n ha hd hc => rw [spacedToClose_end ha hd] at h; cases h
    | case4 bs a n ha rest hd =>
      rw [spacedToClose_close ha hd] at h
      cases h
      refine not_mem_take_add (he.inLine _ _ _ _ ha) ?_
      simp [hd]
    | case5 bs a n ha rest hd _ ih =>
      rw [spacedToClose_space ha hd] at h
      obtain ⟨_, m, hm, _, rfl⟩ := map_shift_done h
      rw [Nat.add_assoc]
      refine not_mem_take_add (he.inLine _ _ _ _ ha) ?_
      rw [hd, Nat.add_comm]
      exact not_mem_take_cons (by decide) (ih _ _ hm)
    | case6 bs a n ha b rest hd hc hs => rw [spacedToClose_other ha hd hc hs] at h; cases h

end Inline

/-- The induction that carries `Inline` to every rule of a line. -/
theorem Built.inline_of {e : Extent} {m : Manner} {r : Rule α} (h : Built e m r) :
    e = .line → Inline r := by
  induction h with
  | pure a => exact fun _ => .pure a
  | fail here => exact fun _ => .fail here
  | ofExcept x _ => exact fun _ => .ofExcept x
  | dialect => exact fun _ => .dialect
  | peek => exact fun _ => .peek
  | token _ inLine _ => exact fun _ => .token inLine _ _ _
  | word _ _ inLine => exact fun _ => .word _ _ inLine
  | digits => exact fun _ => .digits _ _
  | quotedTail => exact fun _ => .quotedTail
  | lineEnd => nofun
  | literalBody => nofun
  | literal => nofun
  | bind _ _ first rest => exact fun he => (first he).bind fun a ha => rest a ha he
  | refine _ here first => exact fun he => (first he).refine here
  | lookahead _ first => exact fun _ => (first rfl).lookahead
  | opt _ _ first => exact fun he => (first he).opt
  | orElse _ _ _ first second => exact fun he => (first he).orElse (second he)
  | alt _ _ _ first second => exact fun he => (first he).alt (second he)
  | behind inLine _ each => exact fun _ => (each rfl).behind inLine
  | behindPrompt => nofun
  | spacedToClose _ each => exact fun he => (each he).spacedToClose
  | parenthesized => nofun
  | ofLine _ h => exact fun _ => h rfl
  | ofRaw => nofun
  | ofText => nofun
  | willingly _ _ h => exact h

theorem Built.inline {m : Manner} {r : Rule α} (h : Built .line m r) : Inline r := h.inline_of rfl

end Imap.Rule
