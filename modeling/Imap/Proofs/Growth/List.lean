import Imap.Proofs.Growth.Token

namespace Imap.Rule

variable {α : Type} {element body : Rule α} {separator : UInt8} {ctx : Context}

theorem behind_other {b : UInt8} (bs : Bytes) (h : b ≠ separator) :
    behind.go separator element ctx (b :: bs) = .done [] 0 := by
  rw [behind.go, if_neg h]

theorem behind_done {bs : Bytes} {a : α} {n : Nat} (h : element ctx bs = .done a n) :
    behind.go separator element ctx (separator :: bs) =
      ((behind.go separator element ctx (bs.drop n)).map (a :: ·)).shift (n + 1) := by
  rw [behind.go, if_pos rfl, h]

theorem behind_miss {bs : Bytes} {cause : Cause} {position : Nat}
    (h : element ctx bs = .failed (.miss cause position)) :
    behind.go separator element ctx (separator :: bs) = .done [] 0 := by
  rw [behind.go, if_pos rfl, h]

theorem behind_failed {bs : Bytes} {why : Failure}
    (hm : ∀ cause position, why ≠ .miss cause position) (h : element ctx bs = .failed why) :
    behind.go separator element ctx (separator :: bs) = .failed (why.shift 1) := by
  rw [behind.go, if_pos rfl, h]
  cases why with
  | miss cause position => exact absurd rfl (hm cause position)
  | _ => rfl

theorem spacedToClose_failed {bs : Bytes} {why : Failure} (h : element ctx bs = .failed why) :
    spacedToClose.go element ctx bs = .failed why := by
  rw [spacedToClose.go, h]

section

variable {bs rest : Bytes} {a : α} {n : Nat}

theorem spacedToClose_end (h : element ctx bs = .done a n) (hd : bs.drop n = []) :
    spacedToClose.go element ctx bs =
      .failed (if ctx.complete then .miss (.expected .space) n else .short (.word ")") none n) := by
  rw [spacedToClose.go, h]
  simp only
  split
  · split <;> rfl
  · next heq => rw [hd] at heq; cases heq

theorem spacedToClose_close (h : element ctx bs = .done a n) (hd : bs.drop n = 0x29 :: rest) :
    spacedToClose.go element ctx bs = .done [a] (n + 1) := by
  rw [spacedToClose.go, h]
  simp only
  split
  · next heq => rw [hd] at heq; cases heq
  · next heq => rw [hd] at heq; cases heq; rfl

theorem spacedToClose_space (h : element ctx bs = .done a n) (hd : bs.drop n = 0x20 :: rest) :
    spacedToClose.go element ctx bs =
      ((spacedToClose.go element ctx rest).map (a :: ·)).shift (n + 1) := by
  rw [spacedToClose.go, h]
  simp only
  split
  · next heq => rw [hd] at heq; cases heq
  · next heq => rw [hd] at heq; cases heq; rfl

theorem spacedToClose_other {b : UInt8} (h : element ctx bs = .done a n)
    (hd : bs.drop n = b :: rest) (hc : b ≠ 0x29) (hs : b ≠ 0x20) :
    spacedToClose.go element ctx bs = .failed (.miss (.expected .space) n) := by
  rw [spacedToClose.go, h]
  simp only
  split
  · next heq => rw [hd] at heq; cases heq
  · next heq => rw [hd] at heq; cases heq; rw [if_neg hc, if_neg hs]

end

theorem parenthesized_close (bs : Bytes) :
    parenthesized.go body ctx (0x29 :: bs) = .done [] 1 := by
  rw [parenthesized.go, if_pos rfl]

theorem parenthesized_done {bs : Bytes} {a : α} {n : Nat} (h : body ctx bs = .done a n) :
    parenthesized.go body ctx (0x28 :: bs) =
      ((parenthesized.go body ctx (bs.drop n)).map (a :: ·)).shift (n + 1) := by
  rw [parenthesized.go, if_neg (by decide), if_pos rfl, h]

theorem parenthesized_failed {bs : Bytes} {why : Failure} (h : body ctx bs = .failed why) :
    parenthesized.go body ctx (0x28 :: bs) = .failed (why.shift 1) := by
  rw [parenthesized.go, if_neg (by decide), if_pos rfl, h]

theorem parenthesized_other {b : UInt8} (bs : Bytes) (hc : b ≠ 0x29) (ho : b ≠ 0x28) :
    parenthesized.go body ctx (b :: bs) = .failed (.miss (.expected .addressStart) 0) := by
  rw [parenthesized.go, if_neg hc, if_neg ho]

namespace Steady

theorem behind (separator : UInt8) (he : Steady element) :
    Steady (Rule.behind separator element) where
  fits ctx bs as used h := by
    change behind.go separator element ctx bs = _ at h
    induction bs using behind.go.induct separator element ctx generalizing as used with
    | case1 hc | case2 hc => rw [behind.go] at h; split at h <;> cases h <;> simp
    | case3 bs a n ha ih =>
      rw [behind_done ha] at h
      obtain ⟨_, m, hm, _, rfl⟩ := map_shift_done h
      have hn := he.fits _ _ _ _ ha
      have := ih _ _ hm
      simp only [List.length_drop, List.length_cons] at this ⊢
      omega
    | case4 bs cause position hm => rw [behind_miss hm] at h; cases h; simp
    | case5 bs why hm hf => rw [behind_failed (fun _ _ => hm _ _) hf] at h; cases h
    | case6 b bs hb => rw [behind_other bs hb] at h; cases h; simp
  grows d bs tail := by
    change (behind.go separator element _ bs).Grows _ (behind.go separator element _ _)
    induction bs using behind.go.induct separator element ⟨false, d⟩ with
    | case1 hc => cases hc
    | case2 => rw [behind.go]; exact .open _ _ _ _
    | case3 bs a n ha ih =>
      rw [List.cons_append, behind_done ha, behind_done (he.done_append tail ha),
        List.drop_append_of_le_length (he.fits _ _ _ _ ha)]
      exact (ih.map _).shift _
    | case4 bs cause position hm =>
      obtain ⟨why, hw, halike⟩ := he.failed_append tail (.miss position rfl) hm
      cases halike
      rw [List.cons_append, behind_miss hm, behind_miss hw]
      exact .done _ _
    | case5 bs why hm hf =>
      rw [List.cons_append, behind_failed (fun _ _ => hm _ _) hf]
      have hg := he.grows d bs tail
      generalize hl : element ⟨false, d⟩ (bs ++ tail) = later at hg
      rw [hf] at hg
      cases hg with
      | @failed _ why' alike =>
        have hm' : ∀ cause position, why' ≠ .miss cause position := by
          rintro _ _ rfl
          cases alike
          exact hm _ _ rfl
        rw [behind_failed hm' hl]
        exact .failed (alike.shift 1)
      | short missing needed position _ exact =>
        refine .short _ _ _ _ fun n hn => ⟨(exact n hn).1, fun hmore => ?_⟩
        exact behind_failed (by simp) (hl.trans ((exact n hn).2 hmore))
    | case6 b bs hb =>
      rw [List.cons_append, behind_other bs hb, behind_other _ hb]
      exact .done _ _

theorem spacedToClose (he : Steady element) : Steady element.spacedToClose where
  fits ctx bs as used h := by
    change spacedToClose.go element ctx bs = _ at h
    induction bs using spacedToClose.go.induct element ctx generalizing as used with
    | case1 bs why hf => rw [spacedToClose_failed hf] at h; cases h
    | case2 bs a n ha hd hc | case3 bs a n ha hd hc => rw [spacedToClose_end ha hd] at h; cases h
    | case4 bs a n ha rest hd =>
      rw [spacedToClose_close ha hd] at h
      cases h
      have := congrArg List.length hd
      simp only [List.length_drop, List.length_cons] at this
      omega
    | case5 bs a n ha rest hd _ ih =>
      rw [spacedToClose_space ha hd] at h
      obtain ⟨_, m, hm, _, rfl⟩ := map_shift_done h
      have := ih _ _ hm
      have := congrArg List.length hd
      simp only [List.length_drop, List.length_cons] at this
      omega
    | case6 bs a n ha b rest hd hc hs => rw [spacedToClose_other ha hd hc hs] at h; cases h
  grows d bs tail := by
    change (spacedToClose.go element ⟨false, d⟩ bs).Grows _ (spacedToClose.go element ⟨false, d⟩ _)
    induction bs using spacedToClose.go.induct element ⟨false, d⟩ with
    | case1 bs why hf =>
      rw [spacedToClose_failed hf]
      have hg := he.grows d bs tail
      generalize hl : element ⟨false, d⟩ (bs ++ tail) = later at hg
      rw [hf] at hg
      cases hg with
      | failed alike => rw [spacedToClose_failed hl]; exact .failed alike
      | short missing needed position _ exact =>
        exact .pass exact fun m hm => spacedToClose_failed (hl.trans hm)
    | case2 bs a n ha hd hc => cases hc
    | case3 bs a n ha hd => rw [spacedToClose_end ha hd]; exact .open _ _ _ _
    | case4 bs a n ha rest hd =>
      have hd' : (bs ++ tail).drop n = 0x29 :: (rest ++ tail) := by
        rw [List.drop_append_of_le_length (he.fits _ _ _ _ ha), hd, List.cons_append]
      rw [spacedToClose_close ha hd, spacedToClose_close (he.done_append tail ha) hd']
      exact .done _ _
    | case5 bs a n ha rest hd _ ih =>
      have hd' : (bs ++ tail).drop n = 0x20 :: (rest ++ tail) := by
        rw [List.drop_append_of_le_length (he.fits _ _ _ _ ha), hd, List.cons_append]
      rw [spacedToClose_space ha hd, spacedToClose_space (he.done_append tail ha) hd']
      exact (ih.map _).shift _
    | case6 bs a n ha b rest hd hc hs =>
      have hd' : (bs ++ tail).drop n = b :: (rest ++ tail) := by
        rw [List.drop_append_of_le_length (he.fits _ _ _ _ ha), hd, List.cons_append]
      rw [spacedToClose_other ha hd hc hs, spacedToClose_other (he.done_append tail ha) hd' hc hs]
      exact .failed (.miss n rfl)

theorem parenthesized_go (hb : Steady body) :
    Steady (parenthesized.go body : Rule (List α)) where
  fits ctx bs as used h := by
    change parenthesized.go body ctx bs = _ at h
    induction bs using parenthesized.go.induct body ctx generalizing as used with
    | case1 hc | case2 hc => rw [parenthesized.go] at h; split at h <;> cases h
    | case3 bs => rw [parenthesized_close] at h; cases h; simp
    | case4 bs a n ha _ ih =>
      rw [parenthesized_done ha] at h
      obtain ⟨_, m, hm, _, rfl⟩ := map_shift_done h
      have hn := hb.fits _ _ _ _ ha
      have := ih _ _ hm
      simp only [List.length_drop, List.length_cons] at this ⊢
      omega
    | case5 bs why hf => rw [parenthesized_failed hf] at h; cases h
    | case6 b bs hc ho => rw [parenthesized_other bs hc ho] at h; cases h
  grows d bs tail := by
    induction bs using parenthesized.go.induct body ⟨false, d⟩ with
    | case1 hc => cases hc
    | case2 => rw [parenthesized.go]; exact .open _ _ _ _
    | case3 bs =>
      rw [List.cons_append, parenthesized_close, parenthesized_close]
      exact .done _ _
    | case4 bs a n ha _ ih =>
      rw [List.cons_append, parenthesized_done ha, parenthesized_done (hb.done_append tail ha),
        List.drop_append_of_le_length (hb.fits _ _ _ _ ha)]
      exact (ih.map _).shift _
    | case5 bs why hf =>
      rw [List.cons_append, parenthesized_failed hf]
      have hg := hb.grows d bs tail
      generalize hl : body ⟨false, d⟩ (bs ++ tail) = later at hg
      rw [hf] at hg
      cases hg with
      | failed alike => rw [parenthesized_failed hl]; exact .failed (alike.shift 1)
      | short missing needed position _ exact =>
        refine .short _ _ _ _ fun n hn => ⟨(exact n hn).1, fun hmore => ?_⟩
        exact parenthesized_failed (hl.trans ((exact n hn).2 hmore))
    | case6 b bs hc ho =>
      rw [List.cons_append, parenthesized_other bs hc ho, parenthesized_other _ hc ho]
      exact .failed (.miss 0 rfl)

end Steady

end Imap.Rule
