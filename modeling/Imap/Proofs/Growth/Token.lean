import Imap.Base64
import Imap.Proofs.Digits
import Imap.Proofs.Growth.Basic

namespace Imap

namespace Rule

/-- A token's length that stays the same unless the token runs up to the end of the octets. -/
def Greedy (length : Bytes → Nat) : Prop :=
  ∀ bs, length bs ≤ bs.length ∧ (length bs < bs.length → ∀ tail, length (bs ++ tail) = length bs)

theorem takeWhile_stays {p : UInt8 → Bool} {bs : Bytes} (tail : Bytes)
    (h : (bs.takeWhile p).length < bs.length) : (bs ++ tail).takeWhile p = bs.takeWhile p := by
  rw [List.takeWhile_append, if_neg (by omega)]

theorem greedy_takeWhile (p : UInt8 → Bool) : Greedy fun bs => (bs.takeWhile p).length := by
  intro bs
  refine ⟨(List.takeWhile_prefix p).length_le, fun h tail => ?_⟩
  exact congrArg List.length (takeWhile_stays tail h)

theorem greedy_base64 : Greedy Base64.tokenLength := by
  intro bs
  let n := (bs.takeWhile Octet.isBase64Char).length
  let pad (cs : Bytes) := ((cs.drop n).take 2).takeWhile (· = 0x3D)
  have hn : n ≤ bs.length := (List.takeWhile_prefix _).length_le
  have hpad : (pad bs).length ≤ min 2 (bs.length - n) := by
    have hle := (List.takeWhile_prefix (l := (bs.drop n).take 2) (· = 0x3D)).length_le
    simpa using hle
  have hlen : Base64.tokenLength bs = n + (pad bs).length := rfl
  refine ⟨by omega, fun h tail => ?_⟩
  rw [hlen] at h ⊢
  rcases Nat.lt_or_ge n bs.length with hlt | hge
  · have hsame : Base64.tokenLength (bs ++ tail) = n + (pad (bs ++ tail)).length := by
      simp only [Base64.tokenLength, takeWhile_stays tail hlt]
      rfl
    have hdrop : (bs ++ tail).drop n = bs.drop n ++ tail := List.drop_append_of_le_length hn
    have htwo : ((bs ++ tail).drop n).take 2 =
        (bs.drop n).take 2 ++ tail.take (2 - (bs.length - n)) := by
      rw [hdrop, List.take_append, List.length_drop]
    rw [hsame]
    congr 1
    -- With both padding signs there the first two octets are the same; else one octet ends them.
    rcases Nat.lt_or_ge (pad bs).length ((bs.drop n).take 2).length with hs | hs
    · simp only [pad, htwo, takeWhile_stays _ hs]
    · have h2 : ((bs.drop n).take 2).length = min 2 (bs.length - n) := by simp
      have : 2 - (bs.length - n) = 0 := by omega
      simp only [pad, htwo, this, List.take_zero, List.append_nil]
  · omega

theorem token_of_lt {length : Bytes → Nat} {mayBeEmpty : Bool} {missing : Shortage} {cause : Cause}
    {ctx : Context} {bs : Bytes} (h : length bs < bs.length) :
    token length mayBeEmpty missing cause ctx bs =
      if length bs = 0 && !mayBeEmpty then .failed (.miss cause 0)
      else .ofExcept (length bs) (Text.Ascii.decode (bs.take (length bs))) := by
  have hne : (bs.drop (length bs)).isEmpty = false := by
    simpa using h
  simp [token, hne]

theorem token_done {length : Bytes → Nat} {mayBeEmpty : Bool} {missing : Shortage} {cause : Cause}
    {ctx : Context} {bs : Bytes} {found : String} {n : Nat}
    (h : token length mayBeEmpty missing cause ctx bs = .done found n) :
    found = Bytes.text (bs.take (length bs)) ∧ n = length bs := by
  simp only [token] at h
  split at h
  · cases h
  · split at h
    · cases h
    · obtain ⟨hdecode, hn⟩ := Outcome.ofExcept_done h
      exact ⟨Text.Ascii.decode_eq hdecode, hn⟩

section

variable {isMember : UInt8 → Bool} {wanted : Element} {ctx : Context}

theorem span_done {bs : Bytes} {found : String} {n : Nat}
    (h : span isMember wanted ctx bs = .done found n) :
    found = Bytes.text (bs.takeWhile isMember) ∧ n = (bs.takeWhile isMember).length := by
  obtain ⟨hfound, hn⟩ := token_done h
  rw [← List.prefix_iff_eq_take.mp (List.takeWhile_prefix isMember)] at hfound
  exact ⟨hfound, hn⟩

/-- A run has at least one octet of its class. -/
theorem span_head {bs : Bytes} {found : String} {n : Nat}
    (h : span isMember wanted ctx bs = .done found n) :
    ∃ b rest, bs = b :: rest ∧ isMember b = true := by
  have hn : (bs.takeWhile isMember).length ≠ 0 := by
    intro hz
    simp only [span, token, hz] at h
    split at h <;> cases h
  cases bs with
  | nil => exact absurd rfl hn
  | cons b rest =>
    refine ⟨b, rest, rfl, ?_⟩
    apply Decidable.byContradiction
    intro hb
    exact hn (by rw [List.takeWhile_cons_of_neg hb]; rfl)

theorem span_not_miss {b : UInt8} (bs : Bytes) (hb : isMember b = true) (cause : Cause)
    (position : Nat) : span isMember wanted ctx (b :: bs) ≠ .failed (.miss cause position) := by
  intro h
  simp only [span, token] at h
  split at h
  · cases h
  · split at h
    · next hn => simp [List.takeWhile_cons_of_pos hb] at hn
    · obtain ⟨refusal, -, hwhy⟩ := Outcome.ofExcept_failed h
      cases hwhy

end

namespace Steady

theorem token {length : Bytes → Nat} (h : Greedy length) (mayBeEmpty : Bool) (missing : Shortage)
    (cause : Cause) : Steady (Rule.token length mayBeEmpty missing cause) where
  fits ctx bs a used ha := by
    simp only [Rule.token] at ha
    split at ha
    · cases ha
    · split at ha
      · cases ha
      · obtain ⟨-, rfl⟩ := Outcome.ofExcept_done ha
        exact (h bs).1
  grows d bs tail := by
    rcases Nat.lt_or_ge (length bs) bs.length with hlt | hge
    · have hsame := (h bs).2 hlt tail
      have hlt' : length (bs ++ tail) < (bs ++ tail).length := by
        rw [hsame, List.length_append]
        omega
      rw [token_of_lt hlt, token_of_lt hlt', hsame, List.take_append_of_le_length (h bs).1]
      split
      · exact .of_here (.miss cause) _
      · exact .ofExcept _ _ _
    · have hnil : bs.drop (length bs) = [] := List.drop_eq_nil_of_le hge
      simp only [Rule.token, hnil]
      exact .open _ _ _ _

theorem span (isMember : UInt8 → Bool) (wanted : Element) : Steady (Rule.span isMember wanted) :=
  token (greedy_takeWhile isMember) _ _ _

end Steady

theorem compareWord_grows (small bs tail : Bytes) :
    (∃ common, compareWord small bs = .cut common) ∨
      compareWord small (bs ++ tail) = compareWord small bs := by
  induction small generalizing bs with
  | nil => exact .inr rfl
  | cons w ws ih =>
    cases bs with
    | nil => exact .inl ⟨0, rfl⟩
    | cons b bs =>
      by_cases hb : Octet.lower b = w
      · simp only [List.cons_append, compareWord, hb, if_true]
        rcases ih bs with ⟨common, hc⟩ | h
        · exact .inl ⟨common + 1, by rw [hc]; rfl⟩
        · exact .inr (by rw [h])
      · exact .inr (by simp only [List.cons_append, compareWord, hb, if_false])

theorem compareWord_equal {small bs : Bytes} (h : compareWord small bs = .equal) :
    small.length ≤ bs.length ∧ (bs.take small.length).map Octet.lower = small := by
  induction small generalizing bs with
  | nil => simp
  | cons w ws ih =>
    cases bs with
    | nil => cases h
    | cons b bs =>
      simp only [compareWord] at h
      split at h
      · next hb =>
        have ht : compareWord ws bs = .equal := by
          cases hc : compareWord ws bs with
          | equal => rfl
          | cut => rw [hc] at h; cases h
          | different => rw [hc] at h; cases h
        obtain ⟨hl, hm⟩ := ih ht
        exact ⟨by simpa using hl, by simp [hb, hm]⟩
      · cases h

namespace Steady

theorem word (fixed : String) (cause : Cause) : Steady (Rule.word fixed cause) where
  fits ctx bs a used h := by
    simp only [Rule.word] at h
    split at h
    · next he => cases h; exact (compareWord_equal he).1
    · split at h <;> cases h
    · cases h
  grows d bs tail := by
    simp only [Rule.word]
    rcases compareWord_grows ((Bytes.ofText fixed).map Octet.lower) bs tail with ⟨common, hc⟩ | h
    · rw [hc]
      exact .open _ _ _ _
    · rw [h]
      cases compareWord ((Bytes.ofText fixed).map Octet.lower) bs with
      | equal => exact .done _ _
      | cut => exact .open _ _ _ _
      | different => exact .of_here (.miss cause) _

theorem expect (fixed : String) (wanted : Element) : Steady (Rule.expect fixed wanted) :=
  word _ _

theorem skip? (fixed : String) : Steady (Rule.skip? fixed) := by
  refine (word _ _).opt.bind fun _ _ => ?_
  exact pure _

end Steady

theorem decimal_append_le (run more : Bytes) : decimal run ≤ decimal (run ++ more) := by
  have grow (n : Nat) : n ≤ more.foldl (fun n d => 10 * n + (d.toNat - 0x30)) n := by
    induction more generalizing n with
    | nil => exact Nat.le_refl n
    | cons d ds ih => exact Nat.le_trans (by omega) (ih (10 * n + (d.toNat - 0x30)))
  rw [decimal, decimal, List.foldl_append]
  exact grow _

theorem decimal_takeWhile_le (p : UInt8 → Bool) (bs tail : Bytes) :
    decimal (bs.takeWhile p) ≤ decimal ((bs ++ tail).takeWhile p) := by
  rw [List.takeWhile_append]
  split
  · next h =>
    have hall : bs.takeWhile p = bs := (List.takeWhile_prefix p).eq_of_length h
    rw [hall]
    exact decimal_append_le bs _
  · exact Nat.le_refl _

namespace Steady

theorem digits (limit : Nat) (wanted : Element) : Steady (Rule.digits limit wanted) where
  fits ctx bs n used h := by
    simp only [digits_apply] at h
    split at h
    · cases h
    · cases hs : Rule.span Octet.isDigit wanted ctx bs with
      | failed why => rw [hs] at h; cases h
      | done a m => rw [hs] at h; cases h; exact (span _ wanted).fits _ _ _ _ hs
  grows d bs tail := by
    have hle := decimal_takeWhile_le Octet.isDigit bs tail
    simp only [digits_apply]
    by_cases hlimit : limit < decimal (bs.takeWhile Octet.isDigit)
    · rw [if_pos hlimit, if_pos (by omega)]
      exact .failed (.bad _ _ 0)
    · rw [if_neg hlimit]
      rcases Nat.lt_or_ge (bs.takeWhile Octet.isDigit).length bs.length with hlt | hge
      · rw [takeWhile_stays tail hlt, if_neg hlimit]
        exact ((span _ wanted).grows d bs tail).map _
      · -- The run may still grow, so that even its size is open.
        have hnil : bs.drop (bs.takeWhile Octet.isDigit).length = [] := List.drop_eq_nil_of_le hge
        simp only [Rule.span, Rule.token, hnil]
        exact .open _ _ _ _

end Steady

section

variable (ctx : Context) {b c : UInt8} (bs : Bytes)

theorem quotedTail_close : quotedTail ctx (0x22 :: bs) = .done [] 1 := by
  rw [quotedTail.eq_def]
  rfl

theorem quotedTail_escape (h : c = 0x22 ∨ c = 0x5C) :
    quotedTail ctx (0x5C :: c :: bs) = ((quotedTail ctx bs).map (c :: ·)).shift 2 := by
  rw [quotedTail.eq_def]
  simp [h]

theorem quotedTail_badEscape (h : ¬(c = 0x22 ∨ c = 0x5C)) :
    quotedTail ctx (0x5C :: c :: bs) = .failed (.miss .badEscape 1) := by
  rw [quotedTail.eq_def]
  simp [h]

theorem quotedTail_char (hq : b ≠ 0x22) (hs : b ≠ 0x5C) (ht : Octet.isTextChar b = true) :
    quotedTail ctx (b :: bs) = ((quotedTail ctx bs).map (b :: ·)).shift 1 := by
  rw [quotedTail.eq_def]
  simp [hq, hs, ht]

theorem quotedTail_badChar (hq : b ≠ 0x22) (hs : b ≠ 0x5C) (ht : ¬Octet.isTextChar b = true) :
    quotedTail ctx (b :: bs) = .failed (.miss .badQuotedChar 0) := by
  rw [quotedTail.eq_def]
  simp [hq, hs, ht]

end

theorem map_shift_done {α β : Type} {o : Outcome α} {f : α → β} {n : Nat} {b : β} {used : Nat}
    (h : (o.map f).shift n = .done b used) : ∃ a m, o = .done a m ∧ f a = b ∧ used = n + m := by
  cases o with
  | failed why => cases h
  | done a m => cases h; exact ⟨a, m, rfl, rfl, rfl⟩

theorem map_shift_failed {α β : Type} {o : Outcome α} {f : α → β} {n : Nat} {why : Failure}
    (h : (o.map f).shift n = .failed why) : ∃ why', o = .failed why' ∧ why = why'.shift n := by
  cases o with
  | done a m => cases h
  | failed why' => cases h; exact ⟨why', rfl, rfl⟩

theorem quotedTail_fits (ctx : Context) (bs : Bytes) {content : Bytes} {used : Nat}
    (h : quotedTail ctx bs = .done content used) : used ≤ bs.length := by
  induction bs using quotedTail.induct generalizing content used with
  | case1 => cases h
  | case2 bs =>
    rw [quotedTail_close] at h
    cases h
    simp
  | case3 => cases h
  | case4 c bs hc _ ih =>
    rw [quotedTail_escape _ _ hc] at h
    obtain ⟨_, m, hm, _, rfl⟩ := map_shift_done h
    have := ih hm
    simp only [List.length_cons]
    omega
  | case5 c bs hc => rw [quotedTail_badEscape _ _ hc] at h; cases h
  | case6 b bs hq hs ht ih =>
    rw [quotedTail_char _ _ hq hs ht] at h
    obtain ⟨_, m, hm, _, rfl⟩ := map_shift_done h
    have := ih hm
    simp only [List.length_cons]
    omega
  | case7 b bs hq hs ht => rw [quotedTail_badChar _ _ hq hs ht] at h; cases h

theorem quotedTail_grows (d : Dialect) (bs tail : Bytes) :
    (quotedTail ⟨false, d⟩ bs).Grows tail.length (quotedTail ⟨false, d⟩ (bs ++ tail)) := by
  induction bs using quotedTail.induct with
  | case1 => exact .open _ _ _ _
  | case2 bs =>
    rw [List.cons_append, quotedTail_close, quotedTail_close]
    exact .done _ _
  | case3 => exact .open _ _ _ _
  | case4 c bs hc _ ih =>
    rw [List.cons_append, List.cons_append, quotedTail_escape _ _ hc, quotedTail_escape _ _ hc]
    exact (ih.map _).shift 2
  | case5 c bs hc =>
    rw [List.cons_append, List.cons_append, quotedTail_badEscape _ _ hc,
      quotedTail_badEscape _ _ hc]
    exact .failed (.miss 1 rfl)
  | case6 b bs hq hs ht ih =>
    rw [List.cons_append, quotedTail_char _ _ hq hs ht, quotedTail_char _ _ hq hs ht]
    exact (ih.map _).shift 1
  | case7 b bs hq hs ht =>
    rw [List.cons_append, quotedTail_badChar _ _ hq hs ht, quotedTail_badChar _ _ hq hs ht]
    exact .of_here (.miss _) _

namespace Steady

theorem quotedTail : Steady Rule.quotedTail := by
  constructor
  · intro ctx bs _ _ h
    exact quotedTail_fits ctx bs h
  · exact quotedTail_grows

theorem literalBody (size : Nat) : Steady (Rule.literalBody size) where
  fits ctx bs body used h := by
    simp only [Rule.literalBody] at h
    split at h
    · split at h <;> cases h
    · next hsize =>
      split at h
      · cases h
      · cases h
        rw [List.length_take] at hsize
        omega
  grows d bs tail := by
    simp only [Rule.literalBody, List.length_take, List.length_append]
    by_cases hsize : bs.length < size
    · -- The shortage names exactly the octets of the body that are still to come.
      rw [if_pos (by omega)]
      refine .short _ _ _ _ fun n hn => ?_
      cases hn
      refine ⟨by omega, fun hm => ?_⟩
      rw [if_pos (by omega), Nat.sub_add_eq]
      rfl
    · have hnow : ¬min size bs.length < size := by omega
      have hthen : ¬min size (bs.length + tail.length) < size := by omega
      rw [if_neg hnow, if_neg hthen, List.take_append_of_le_length (by omega)]
      split
      · exact .of_here (.bad _) _
      · exact .done _ _

theorem lineEnd : Steady Rule.lineEnd := by
  refine (skip? _).bind fun found _ => ?_
  split
  · exact pure ()
  · exact expect _ _

end Steady

end Rule

end Imap
