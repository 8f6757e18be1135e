import Imap.Proofs.Built.Basic

namespace Imap

/-- An outcome that is no shortage. -/
inductive Outcome.Settled {α : Type} : Outcome α → Prop
  | done (a : α) (used : Nat) : Settled (.done a used)
  | failed {why : Failure} (decided : why.Decided) : Settled (.failed why)

namespace Outcome.Settled

variable {α β : Type} {o : Outcome α}

theorem of_here {why : Failure} (h : why.Here) : Settled (.failed why : Outcome α) :=
  .failed h.decided

theorem ofExcept (used : Nat) (x : Except Refusal α) : (Outcome.ofExcept used x).Settled := by
  cases x with
  | ok a => exact .done a used
  | error why => exact .failed (.refused why)

theorem shift (h : o.Settled) (n : Nat) : (o.shift n).Settled := by
  cases h with
  | done a used => exact .done a _
  | failed decided => exact .failed (Failure.Alike.shift decided n)

theorem map (h : o.Settled) (f : α → β) : (o.map f).Settled := by
  cases h with
  | done a used => exact .done _ _
  | failed decided => exact .failed decided

end Outcome.Settled

namespace Rule

variable {α β : Type}

section

variable {r other : Rule α} {ctx : Context} {bs : Bytes}

theorem bind_settled {next : α → Rule β} (hr : (r ctx bs).Settled)
    (hn : ∀ a n, r ctx bs = .done a n → (next a ctx (bs.drop n)).Settled) :
    ((r >>= next) ctx bs).Settled := by
  generalize hb : r ctx bs = o at hr
  cases hr with
  | done a n => rw [bind_of_done hb]; exact (hn a n hb).shift n
  | failed decided => rw [bind_of_failed hb]; exact .failed decided

theorem refine_settled {judge : α → Except Failure β} (hr : (r ctx bs).Settled)
    (hj : ∀ a why, judge a = .error why → why.Here) : (r.refine judge ctx bs).Settled := by
  simp only [Rule.refine]
  generalize r ctx bs = o at hr
  cases hr with
  | done a n =>
    cases hja : judge a with
    | error why => simp only [hja]; exact .of_here (hj a why hja)
    | ok b => simp only [hja]; exact .done b n
  | failed decided => exact .failed decided

theorem lookahead_settled (hr : (r ctx bs).Settled) : (r.lookahead ctx bs).Settled := by
  simp only [Rule.lookahead]
  generalize r ctx bs = o at hr
  cases hr with
  | done a n => exact .done a 0
  | failed decided => exact .failed decided

theorem opt_settled (hr : (r ctx bs).Settled) : (r.opt ctx bs).Settled := by
  simp only [Rule.opt]
  generalize r ctx bs = o at hr
  cases hr with
  | done a n => exact .done (some a) n
  | failed decided =>
    cases decided with
    | miss position same => exact .done none 0
    | bad cause => exact .failed (.bad _ _ _)
    | refused why => exact .failed (.refused why)

theorem orElse_settled (hr : (r ctx bs).Settled) (ho : (other ctx bs).Settled) :
    (r.orElse other ctx bs).Settled := by
  simp only [Rule.orElse]
  generalize r ctx bs = o at hr
  cases hr with
  | done a n => exact .done a n
  | failed decided =>
    cases decided with
    | miss position same => exact ho
    | bad cause => exact .failed (.bad _ _ _)
    | refused why => exact .failed (.refused why)

theorem alt_settled (hr : (r ctx bs).Settled) (ho : (other ctx bs).Settled) :
    (r.alt other ctx bs).Settled := by
  simp only [Rule.alt]
  generalize r ctx bs = o at hr
  generalize other ctx bs = o' at ho
  cases hr with
  | done a n => exact .done a n
  | failed decided =>
    cases decided with
    | miss position same =>
      cases ho with
      | done a n => exact .done a n
      | failed decided' => exact .failed (Steady.furthest_alike (.miss position same) decided')
    | bad cause => exact .failed (.bad _ _ _)
    | refused why => exact .failed (.refused why)

end

/-- What is done on longer octets is done on octets that are enough for an answer. -/
theorem Steady.done_of_settled {r : Rule α} (hr : Steady r) {d : Dialect} {bs tail : Bytes} {a : α}
    {n : Nat} (hs : (r ⟨false, d⟩ bs).Settled) (h : r ⟨false, d⟩ (bs ++ tail) = .done a n) :
    r ⟨false, d⟩ bs = .done a n := by
  generalize hb : r ⟨false, d⟩ bs = o at hs
  cases hs with
  | done a' n' => exact (hr.done_append tail hb).symm.trans h
  | failed decided =>
    obtain ⟨why', hw, _⟩ := hr.failed_append tail decided hb
    rw [h] at hw
    cases hw

theorem Steady.miss_of_settled {r : Rule α} (hr : Steady r) {d : Dialect} {bs tail : Bytes}
    {cause : Cause} {position : Nat} (hs : (r ⟨false, d⟩ bs).Settled)
    (h : r ⟨false, d⟩ (bs ++ tail) = .failed (.miss cause position)) :
    ∃ cause', r ⟨false, d⟩ bs = .failed (.miss cause' position) := by
  generalize hb : r ⟨false, d⟩ bs = o at hs
  cases hs with
  | done a n => rw [hr.done_append tail hb] at h; cases h
  | failed decided =>
    obtain ⟨why', hw, halike⟩ := hr.failed_append tail decided hb
    rw [h] at hw
    cases hw
    cases halike
    exact ⟨_, rfl⟩

/-- One line feed ahead is enough for an answer. -/
def Lined (r : Rule α) : Prop := ∀ d bs, 0x0A ∈ bs → (r ⟨false, d⟩ bs).Settled

/-- One line feed ahead is enough, and it is not used. -/
structure Inline (r : Rule α) : Prop where
  settled : r.Lined
  inLine : ∀ ctx bs a n, r ctx bs = .done a n → 0x0A ∉ bs.take n

theorem mem_drop {b : UInt8} {bs : Bytes} {n : Nat} (h : b ∈ bs) (ht : b ∉ bs.take n) :
    b ∈ bs.drop n := by
  rw [← List.take_append_drop n bs, List.mem_append] at h
  exact h.resolve_left ht

theorem not_mem_take_add {b : UInt8} {bs : Bytes} {n m : Nat} (hn : b ∉ bs.take n)
    (hm : b ∉ (bs.drop n).take m) : b ∉ bs.take (n + m) := by
  rw [List.take_add, List.mem_append]
  exact fun h => h.elim hn hm

/-- What cuts a word short is the word without its last octet, or less. -/
theorem compareWord_cut {small bs : Bytes} {common : Nat} (h : compareWord small bs = .cut common) :
    bs.map Octet.lower <+: small.dropLast := by
  induction small generalizing bs common with
  | nil => cases h
  | cons w ws ih =>
    cases bs with
    | nil => exact List.nil_prefix
    | cons b bs =>
      simp only [compareWord] at h
      split at h
      · next hb =>
        cases hc : compareWord ws bs with
        | equal => rw [hc] at h; cases h
        | different => rw [hc] at h; cases h
        | cut n =>
          have hws : ws ≠ [] := by
            rintro rfl
            cases hc
          rw [List.map_cons, hb, List.dropLast_cons_of_ne_nil hws]
          exact List.cons_prefix_cons.mpr ⟨rfl, ih hc⟩
      · cases h

theorem Lined.word (fixed : String) (cause : Cause)
    (hl : 0x0A ∉ ((Bytes.ofText fixed).map Octet.lower).dropLast) :
    Lined (Rule.word fixed cause) := by
  intro d bs h
  simp only [Rule.word]
  cases hc : compareWord ((Bytes.ofText fixed).map Octet.lower) bs with
  | equal => exact .done _ _
  | different => exact .of_here (.miss _)
  | cut common =>
    have hm : 0x0A ∈ bs.map Octet.lower := List.mem_map.mpr ⟨0x0A, h, rfl⟩
    exact absurd ((compareWord_cut hc).subset hm) hl

namespace Inline

theorem pure (a : α) : Inline (Pure.pure a : Rule α) where
  settled _ _ _ := .done a 0
  inLine := by rintro ctx bs _ _ ⟨⟩; simp

theorem fail {why : Failure} (h : why.Here) : Inline (Rule.fail why : Rule α) where
  settled _ _ _ := .of_here h
  inLine := nofun

theorem ofExcept (x : Except Refusal α) : Inline (Rule.ofExcept x) := by
  cases x with
  | ok a => exact pure a
  | error why => exact ⟨fun _ _ _ => .failed (.refused why), nofun⟩

theorem dialect : Inline Rule.dialect where
  settled d _ _ := .done d 0
  inLine := by rintro ctx bs _ _ ⟨⟩; simp

theorem peek : Inline Rule.peek where
  settled d bs h := by
    cases bs with
    | nil => cases h
    | cons b bs => exact .done (some b) 0
  inLine ctx bs a n h := by
    cases bs with
    | nil => simp
    | cons b bs => cases h; simp

theorem token {length : Bytes → Nat} (hl : ∀ bs : Bytes, 0x0A ∉ bs.take (length bs))
    (mayBeEmpty : Bool) (missing : Shortage) (cause : Cause) :
    Inline (Rule.token length mayBeEmpty missing cause) where
  settled d bs h := by
    have hlt : length bs < bs.length := by
      have hd := List.length_pos_of_mem (mem_drop h (hl bs))
      simp only [List.length_drop] at hd
      omega
    rw [token_of_lt hlt]
    split
    · exact .of_here (.miss _)
    · exact .ofExcept _ _
  inLine ctx bs a n h := by
    simp only [Rule.token] at h
    split at h
    · cases h
    · split at h
      · cases h
      · obtain ⟨-, rfl⟩ := Outcome.ofExcept_done h
        exact hl bs

theorem word (fixed : String) (cause : Cause) (hl : 0x0A ∉ (Bytes.ofText fixed).map Octet.lower) :
    Inline (Rule.word fixed cause) where
  settled := .word fixed cause fun hm => hl ((List.dropLast_prefix _).subset hm)
  inLine ctx bs a n h hm := by
    have hm' : 0x0A ∈ (bs.take n).map Octet.lower := List.mem_map.mpr ⟨0x0A, hm, rfl⟩
    simp only [Rule.word] at h
    split at h
    · next he =>
      cases h
      rw [(compareWord_equal he).2] at hm'
      exact hl hm'
    · split at h <;> cases h
    · cases h

theorem span {isMember : UInt8 → Bool} (hp : isMember 0x0A = false) (wanted : Element) :
    Inline (Rule.span isMember wanted) :=
  token (not_mem_takeWhile hp) _ _ _

theorem digits (limit : Nat) (wanted : Element) : Inline (Rule.digits limit wanted) where
  settled d bs h := by
    simp only [digits_apply]
    split
    · exact .of_here (.bad _)
    · exact ((span rfl wanted).settled d bs h).map _
  inLine ctx bs a n h := by
    simp only [digits_apply] at h
    split at h
    · cases h
    · cases hs : Rule.span Octet.isDigit wanted ctx bs with
      | failed why => rw [hs] at h; cases h
      | done text used => rw [hs] at h; cases h; exact (span rfl wanted).inLine _ _ _ _ hs

theorem quotedTail : Inline Rule.quotedTail where
  settled d bs h := by
    induction bs using quotedTail.induct with
    | case1 => cases h
    | case2 bs => rw [quotedTail_close]; exact .done _ _
    | case3 => cases h with | tail _ h => cases h
    | case4 c bs hc _ ih =>
      rw [quotedTail_escape _ _ hc]
      have hm : 0x0A ∈ bs := by
        cases h with
        | tail _ h =>
          cases h with
          | head => cases hc <;> contradiction
          | tail _ h => exact h
      exact ((ih hm).map _).shift 2
    | case5 c bs hc =>
      rw [quotedTail_badEscape _ _ hc]
      exact .failed (.miss 1 rfl)
    | case6 b bs hq hs ht ih =>
      rw [quotedTail_char _ _ hq hs ht]
      have hm : 0x0A ∈ bs := by
        cases h with
        | head => cases ht
        | tail _ h => exact h
      exact ((ih hm).map _).shift 1
    | case7 b bs hq hs ht =>
      rw [quotedTail_badChar _ _ hq hs ht]
      exact .of_here (.miss _)
  inLine ctx bs content n h := by
    induction bs using quotedTail.induct generalizing content n with
    | case1 => cases h
    | case2 bs =>
      rw [quotedTail_close] at h
      cases h
      simp
    | case3 => cases h
    | case4 c bs hc _ ih =>
      rw [quotedTail_escape _ _ hc] at h
      obtain ⟨_, m, hm, _, rfl⟩ := map_shift_done h
      rw [Nat.add_comm, List.take_succ_cons, List.take_succ_cons, List.mem_cons, List.mem_cons]
      rintro (h | h | h)
      · cases h
      · subst h; cases hc <;> contradiction
      · exact ih _ _ hm h
    | case5 c bs hc => rw [quotedTail_badEscape _ _ hc] at h; cases h
    | case6 b bs hq hs ht ih =>
      rw [quotedTail_char _ _ hq hs ht] at h
      obtain ⟨_, m, hm, _, rfl⟩ := map_shift_done h
      rw [Nat.add_comm, List.take_succ_cons, List.mem_cons]
      rintro (h | h)
      · subst h; cases ht
      · exact ih _ _ hm h
    | case7 b bs hq hs ht => rw [quotedTail_badChar _ _ hq hs ht] at h; cases h

variable {r other : Rule α}

theorem bind {next : α → Rule β} (hr : Inline r) (hn : ∀ a, r.Gives a → Inline (next a)) :
    Inline (r >>= next) where
  settled d bs h := by
    refine bind_settled (hr.settled d bs h) fun a n ha => ?_
    have hrest := mem_drop h (hr.inLine _ _ _ _ ha)
    exact (hn a ⟨_, _, _, ha⟩).settled d _ hrest
  inLine ctx bs b used h := by
    obtain ⟨a, n, m, ha, hb, rfl⟩ := bind_done h
    have hfirst := hr.inLine _ _ _ _ ha
    have hrest := (hn a ⟨_, _, _, ha⟩).inLine _ _ _ _ hb
    exact not_mem_take_add hfirst hrest

theorem refine {judge : α → Except Failure β} (hr : Inline r)
    (hj : ∀ a why, judge a = .error why → why.Here) : Inline (r.refine judge) where
  settled d bs h := refine_settled (hr.settled d bs h) hj
  inLine ctx bs b n h := by
    obtain ⟨a, ha⟩ := refine_done h
    exact hr.inLine _ _ _ _ ha.1

theorem lookahead (hr : Inline r) : Inline r.lookahead where
  settled d bs h := lookahead_settled (hr.settled d bs h)
  inLine ctx bs a n h := by
    cases hb : r ctx bs with
    | failed why => simp [Rule.lookahead, hb] at h
    | done a' n' =>
      simp only [Rule.lookahead, hb, Outcome.done.injEq] at h
      simp [← h.2]

theorem opt (hr : Inline r) : Inline r.opt where
  settled d bs h := opt_settled (hr.settled d bs h)
  inLine ctx bs a n h := by
    obtain ⟨a', ha, -⟩ | ⟨-, -, rfl⟩ := opt_done h
    · exact hr.inLine _ _ _ _ ha
    · simp

theorem orElse (hr : Inline r) (ho : Inline other) : Inline (r.orElse other) where
  settled d bs h := orElse_settled (hr.settled d bs h) (ho.settled d bs h)
  inLine ctx bs a n h := by
    obtain ha | ⟨-, ha⟩ := orElse_done h
    · exact hr.inLine _ _ _ _ ha
    · exact ho.inLine _ _ _ _ ha

theorem alt (hr : Inline r) (ho : Inline other) : Inline (r.alt other) where
  settled d bs h := alt_settled (hr.settled d bs h) (ho.settled d bs h)
  inLine ctx bs a n h := by
    obtain ha | ⟨-, ha⟩ := alt_done h
    · exact hr.inLine _ _ _ _ ha
    · exact ho.inLine _ _ _ _ ha

end Inline

end Rule

end Imap
