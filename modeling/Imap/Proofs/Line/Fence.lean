import Imap.Proofs.Line.Framed

namespace Imap

/-- Settled; and if it is done, then within the first `size` octets. -/
inductive Outcome.Stays {α : Type} (size : Nat) : Outcome α → Prop
  | done (a : α) {used : Nat} (le : used ≤ size) : Stays size (.done a used)
  | failed {why : Failure} (decided : why.Decided) : Stays size (.failed why)

namespace Outcome.Stays

variable {α β : Type} {o : Outcome α} {size : Nat}

theorem settled (h : o.Stays size) : o.Settled := by
  cases h with
  | done a => exact .done a _
  | failed decided => exact .failed decided

theorem of_settled (h : o.Settled) (hle : ∀ a n, o = .done a n → n ≤ size) : o.Stays size := by
  cases h with
  | done a n => exact .done a (hle a n rfl)
  | failed decided => exact .failed decided

theorem shift (h : o.Stays size) {n total : Nat} (hle : n + size ≤ total) :
    (o.shift n).Stays total := by
  cases h with
  | done a le => exact .done a (Nat.le_trans (Nat.add_le_add_left le n) hle)
  | failed decided => exact .failed (decided.shift n)

theorem map (h : o.Stays size) (f : α → β) : (o.map f).Stays size := by
  cases h with
  | done a le => exact .done (f a) le
  | failed decided => exact .failed decided

end Outcome.Stays

/-- A mark, the octets that may stand in front of it, and what is known of those behind. -/
structure Fence where
  mark : UInt8
  Front : Bytes → Prop
  drop : ∀ {front : Bytes}, Front front → ∀ n, Front (front.drop n)
  Behind : Context → Bytes → Prop

namespace Rule

variable {α β : Type} {f : Fence}

/-- Has its answer in front of the mark, and does not use the mark. -/
def Within (f : Fence) (r : Rule α) : Prop :=
  ∀ ⦃ctx front rest⦄, f.Front front → f.Behind ctx rest →
    (r ctx (front ++ f.mark :: rest)).Stays front.length

namespace Within

variable {r element body : Rule α}

theorem pure (a : α) : Within f (Pure.pure a : Rule α) := by
  intro _ _ _ _ _
  exact .done a (Nat.zero_le _)

theorem fail {why : Failure} (h : why.Here) : Within f (Rule.fail why : Rule α) := by
  intro _ _ _ _ _
  exact .failed h.decided

theorem bind {next : α → Rule β} (hr : Within f r) (hn : ∀ a, r.Gives a → Within f (next a)) :
    Within f (r >>= next) := by
  intro ctx front rest hfront hbehind
  have hfirst := hr hfront hbehind
  generalize ho : r ctx (front ++ f.mark :: rest) = o at hfirst
  cases hfirst with
  | failed decided =>
    rw [bind_of_failed ho]
    exact .failed decided
  | @done a n le =>
    have hrest := hn a ⟨_, _, _, ho⟩ (f.drop hfront n) hbehind
    rw [bind_of_done ho, List.drop_append_of_le_length le]
    exact hrest.shift (by rw [List.length_drop]; omega)

theorem andThen {next : α → Rule β} (hr : Within f r) (hn : ∀ a, Within f (next a)) :
    Within f (r >>= next) := by
  apply hr.bind
  intro a _
  exact hn a

theorem refine {judge : α → Except Failure β} (hr : Within f r)
    (hj : ∀ a why, judge a = .error why → why.Here) : Within f (r.refine judge) := by
  intro ctx front rest hfront hbehind
  have hfirst := hr hfront hbehind
  refine .of_settled (refine_settled hfirst.settled hj) fun b n hb => ?_
  obtain ⟨a, ha, -⟩ := refine_done hb
  rw [ha] at hfirst
  cases hfirst with
  | done _ le => exact le

theorem lookahead (hr : Within f r) : Within f r.lookahead := by
  intro ctx front rest hfront hbehind
  have hfirst := hr hfront hbehind
  simp only [Rule.lookahead]
  generalize r ctx (front ++ f.mark :: rest) = o at hfirst
  cases hfirst with
  | done a => exact .done a (Nat.zero_le _)
  | failed decided => exact .failed decided

theorem opt (hr : Within f r) : Within f r.opt := by
  intro ctx front rest hfront hbehind
  have hfirst := hr hfront hbehind
  refine .of_settled (opt_settled hfirst.settled) fun a n ha => ?_
  obtain ⟨a', ha, -⟩ | ⟨-, -, rfl⟩ := opt_done ha
  · rw [ha] at hfirst
    cases hfirst with
    | done _ le => exact le
  · exact Nat.zero_le _

theorem peek : Within f Rule.peek := by
  intro ctx front rest hfront hbehind
  cases front with
  | nil => exact .done _ (Nat.zero_le _)
  | cons b front => exact .done _ (Nat.zero_le _)

theorem token {length : Bytes → Nat} (hl : ∀ bs : Bytes, f.mark ∉ bs.take (length bs))
    (mayBeEmpty : Bool) (missing : Shortage) (cause : Cause) :
    Within f (Rule.token length mayBeEmpty missing cause) := by
  intro ctx front rest hfront hbehind
  have hle := le_length_of_not_mem (hl (front ++ f.mark :: rest))
  have hlt : length (front ++ f.mark :: rest) < (front ++ f.mark :: rest).length := by
    rw [List.length_append, List.length_cons]
    omega
  rw [token_of_lt hlt]
  split
  · exact .failed (.miss 0 rfl)
  · refine .of_settled (.ofExcept _ _) fun found n hdone => ?_
    obtain ⟨-, rfl⟩ := Outcome.ofExcept_done hdone
    exact hle

theorem span {isMember : UInt8 → Bool} (hmark : isMember f.mark = false) (wanted : Element) :
    Within f (Rule.span isMember wanted) :=
  token (not_mem_takeWhile hmark) _ _ _

theorem word (fixed : String) (cause : Cause)
    (hmark : Octet.lower f.mark ∉ (Bytes.ofText fixed).map Octet.lower) :
    Within f (Rule.word fixed cause) := by
  intro ctx front rest hfront hbehind
  simp only [Rule.word]
  cases hc : compareWord ((Bytes.ofText fixed).map Octet.lower) (front ++ f.mark :: rest) with
  | equal =>
    have hfixed := (compareWord_equal hc).2
    rw [← hfixed] at hmark
    exact .done () (le_length_of_not_mem (mt List.mem_map_of_mem hmark))
  | different => exact .failed (.miss 0 rfl)
  | cut common =>
    have hm : Octet.lower f.mark ∈ (front ++ f.mark :: rest).map Octet.lower :=
      List.mem_map_of_mem (List.mem_append_right _ List.mem_cons_self)
    exact absurd ((List.dropLast_prefix _).subset ((compareWord_cut hc).subset hm)) hmark

theorem skip? (fixed : String)
    (hmark : Octet.lower f.mark ∉ (Bytes.ofText fixed).map Octet.lower) :
    Within f (Rule.skip? fixed) := by
  refine (word _ _ hmark).opt.andThen fun _ => ?_
  exact .pure _

theorem digits (hmark : Octet.isDigit f.mark = false) (limit : Nat) (wanted : Element) :
    Within f (Rule.digits limit wanted) := by
  intro ctx front rest hfront hbehind
  simp only [digits_apply]
  split
  · exact .failed (.bad _ _ 0)
  · exact (span hmark wanted hfront hbehind).map _

theorem behind {separator : UInt8} (hs : separator ≠ f.mark) (he : Within f element) :
    Within f (Rule.behind separator element) := by
  intro ctx front rest hfront hbehind
  change (behind.go separator element ctx _).Stays _
  generalize hbs : front ++ f.mark :: rest = bs
  induction bs using behind.go.induct separator element ctx generalizing front with
  | case1 | case2 => simp at hbs
  | case3 bs a n ha ih =>
    obtain ⟨front, rfl, rfl⟩ := cons_of_framed hs hbs
    have htail : f.Front front := f.drop hfront 1
    have hfirst := he htail hbehind
    rw [ha] at hfirst
    cases hfirst with
    | done _ le =>
      have hothers := ih (f.drop htail n) (List.drop_append_of_le_length le).symm
      rw [behind_done ha]
      exact (hothers.map _).shift (by rw [List.length_drop, List.length_cons]; omega)
  | case4 bs cause position hm =>
    rw [behind_miss hm]
    exact .done _ (Nat.zero_le _)
  | case5 bs why hm hf =>
    obtain ⟨front, rfl, rfl⟩ := cons_of_framed hs hbs
    have hfirst := he (f.drop hfront 1) hbehind
    rw [List.drop_one, List.tail_cons, hf] at hfirst
    rw [behind_failed (fun _ _ => hm _ _) hf]
    cases hfirst with
    | failed decided => exact .failed (decided.shift 1)
  | case6 b bs hb =>
    rw [behind_other bs hb]
    exact .done _ (Nat.zero_le _)

theorem spacedToClose (hclose : f.mark ≠ 0x29) (hspace : f.mark ≠ 0x20) (he : Within f element) :
    Within f element.spacedToClose := by
  intro ctx front rest hfront hbehind
  change (spacedToClose.go element ctx _).Stays _
  generalize hbs : front ++ f.mark :: rest = bs
  induction bs using spacedToClose.go.induct element ctx generalizing front with
  | case1 bs why hf =>
    subst hbs
    have hfirst := he hfront hbehind
    rw [hf] at hfirst
    rw [spacedToClose_failed hf]
    cases hfirst with
    | failed decided => exact .failed decided
  | case2 bs a n ha hd hc | case3 bs a n ha hd hc =>
    subst hbs
    have hfirst := he hfront hbehind
    rw [ha] at hfirst
    cases hfirst with
    | done _ le =>
      rw [List.drop_append_of_le_length le] at hd
      simp at hd
  | case4 bs a n ha _ hd =>
    subst hbs
    have hfirst := he hfront hbehind
    rw [ha] at hfirst
    cases hfirst with
    | done _ le =>
      rw [spacedToClose_close ha hd]
      rw [List.drop_append_of_le_length le] at hd
      obtain ⟨front', hdrop, -⟩ := cons_of_framed hclose.symm hd
      have hlen := congrArg List.length hdrop
      rw [List.length_drop, List.length_cons] at hlen
      exact .done _ (by omega)
  | case5 bs a n ha _ hd _ ih =>
    subst hbs
    have hfirst := he hfront hbehind
    rw [ha] at hfirst
    cases hfirst with
    | done _ le =>
      rw [spacedToClose_space ha hd]
      rw [List.drop_append_of_le_length le] at hd
      obtain ⟨front', hdrop, hrest⟩ := cons_of_framed hspace.symm hd
      have hlen := congrArg List.length hdrop
      rw [List.length_drop, List.length_cons] at hlen
      have htail : f.Front front' := by
        have h := f.drop (f.drop hfront n) 1
        rwa [hdrop] at h
      exact ((ih htail hrest.symm).map _).shift (by omega)
  | case6 bs a n ha b rest hd hc hs =>
    rw [spacedToClose_other ha hd hc hs]
    exact .failed (.miss n rfl)

theorem parenthesized (hclose : f.mark ≠ 0x29) (hopen : f.mark ≠ 0x28) (hb : Within f body) :
    Within f (parenthesized.go body : Rule (List α)) := by
  intro ctx front rest hfront hbehind
  generalize hbs : front ++ f.mark :: rest = bs
  induction bs using parenthesized.go.induct body ctx generalizing front with
  | case1 | case2 => simp at hbs
  | case3 bs =>
    obtain ⟨front, rfl, -⟩ := cons_of_framed hclose.symm hbs
    rw [parenthesized_close]
    exact .done _ (Nat.succ_pos _)
  | case4 bs a n ha _ ih =>
    obtain ⟨front, rfl, rfl⟩ := cons_of_framed hopen.symm hbs
    have htail : f.Front front := f.drop hfront 1
    have hfirst := hb htail hbehind
    rw [ha] at hfirst
    cases hfirst with
    | done _ le =>
      have hothers := ih (f.drop htail n) (List.drop_append_of_le_length le).symm
      rw [parenthesized_done ha]
      exact (hothers.map _).shift (by rw [List.length_drop, List.length_cons]; omega)
  | case5 bs why hf =>
    obtain ⟨front, rfl, rfl⟩ := cons_of_framed hopen.symm hbs
    have hfirst := hb (f.drop hfront 1) hbehind
    rw [List.drop_one, List.tail_cons, hf] at hfirst
    rw [parenthesized_failed hf]
    cases hfirst with
    | failed decided => exact .failed (decided.shift 1)
  | case6 b bs hc ho =>
    rw [parenthesized_other bs hc ho]
    exact .failed (.miss 0 rfl)

end Within

end Rule

end Imap
