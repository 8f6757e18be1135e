import Imap.Report
import Imap.Rule.Lexical

namespace Imap

/-- The same failure, but for its text. -/
inductive Failure.Alike : Failure → Failure → Prop
  | miss {cause cause' : Cause} (position : Nat) (same : cause.missClass = cause'.missClass) :
    Alike (.miss cause position) (.miss cause' position)
  | bad (cause cause' : Cause) (position : Nat) :
    Alike (.bad cause position) (.bad cause' position)
  | refused (why : Refusal) : Alike (.refused why) (.refused why)

namespace Failure

theorem Alike.class?_eq {f g : Failure} (h : f.Alike g) : f.class? = g.class? := by
  cases h with
  | miss _ same => simp [class?, same]
  | bad => rfl
  | refused => rfl

theorem Alike.position?_eq {f g : Failure} (h : f.Alike g) : f.position? = g.position? := by
  cases h <;> rfl

theorem Alike.symm {f g : Failure} (h : f.Alike g) : g.Alike f := by
  cases h with
  | miss p same => exact .miss p same.symm
  | bad c c' p => exact .bad c' c p
  | refused why => exact .refused why

theorem Alike.trans {f g k : Failure} (h : f.Alike g) (h' : g.Alike k) : f.Alike k := by
  cases h with
  | miss p same => cases h' with | miss _ same' => exact .miss p (same.trans same')
  | bad c c' p => cases h' with | bad _ c'' _ => exact .bad c c'' p
  | refused why => exact h'

theorem Alike.shift {f g : Failure} (h : f.Alike g) (n : Nat) : (f.shift n).Alike (g.shift n) := by
  cases h with
  | miss p same => exact .miss _ same
  | bad c c' p => exact .bad c c' _
  | refused why => exact .refused why

/-- A failure that is no shortage. -/
def Decided (f : Failure) : Prop := f.Alike f

theorem decided_iff (f : Failure) : f.Decided ↔ f.class? ≠ some .incomplete := by
  cases f with
  | short => exact ⟨nofun, fun h => absurd rfl h⟩
  | miss cause p =>
    refine ⟨fun _ => ?_, fun _ => .miss p rfl⟩
    cases cause <;> simp [class?, Cause.missClass]
  | bad cause p => exact ⟨fun _ => by simp [class?], fun _ => .bad cause cause p⟩
  | refused why => exact ⟨fun _ => by simp [class?], fun _ => .refused why⟩

/-- Whether a failure is an error in the syntax, of whatever class. -/
def isBadSyntax (f : Failure) : Bool :=
  match f.class? with
  | some c => c.lineage.contains .badSyntax
  | none => false

theorem isBadSyntax_miss (cause : Cause) (position : Nat) :
    (Failure.miss cause position).isBadSyntax = true := by
  cases cause <;> rfl

theorem isBadSyntax_bad (cause : Cause) (position : Nat) :
    (Failure.bad cause position).isBadSyntax = true := rfl

theorem decided_of_isBadSyntax {f : Failure} (h : f.isBadSyntax = true) : f.Decided := by
  rw [decided_iff]
  intro hshort
  rw [isBadSyntax, hshort] at h
  cases h

theorem Decided.isBadSyntax {f : Failure} (h : f.Decided) (accepted : ∀ why, f ≠ .refused why) :
    f.isBadSyntax = true := by
  cases h with
  | miss position => exact isBadSyntax_miss _ position
  | bad cause _ position => exact isBadSyntax_bad cause position
  | refused why => exact absurd rfl (accepted why)

theorem Alike.isBadSyntax_eq {f g : Failure} (h : f.Alike g) : f.isBadSyntax = g.isBadSyntax := by
  rw [isBadSyntax, isBadSyntax, h.class?_eq]

/-- A failure at the place where the rule began. -/
inductive Here : Failure → Prop
  | miss (cause : Cause) : Here (.miss cause 0)
  | bad (cause : Cause) : Here (.bad cause 0)

theorem Here.decided {f : Failure} (h : f.Here) : f.Decided := by
  cases h with
  | miss cause => exact .miss 0 rfl
  | bad cause => exact .bad cause cause 0

end Failure

namespace Outcome

variable {α β : Type}

theorem shift_zero (o : Outcome α) : o.shift 0 = o := by
  cases o with
  | done a used => simp [shift]
  | failed why => cases why <;> simp [shift, Failure.shift]

/-- What an outcome may turn into when `more` octets arrive. -/
inductive Grows (more : Nat) : Outcome α → Outcome α → Prop
  | done (a : α) (used : Nat) : Grows more (.done a used) (.done a used)
  | failed {why why' : Failure} (alike : why.Alike why') : Grows more (.failed why) (.failed why')
  | short (missing : Shortage) (needed : Option Nat) (position : Nat) (later : Outcome α)
    (exact : ∀ n, needed = some n → 0 < n ∧
      (more < n → later = .failed (.short missing (some (n - more)) position))) :
    Grows more (.failed (.short missing needed position)) later

theorem Grows.of_here {why : Failure} (h : why.Here) (more : Nat) :
    Grows more (.failed why : Outcome α) (.failed why) := .failed h.decided

theorem Grows.ofExcept (more used : Nat) (x : Except Refusal α) :
    Grows more (Outcome.ofExcept used x) (Outcome.ofExcept used x) := by
  cases x with
  | ok a => exact .done a used
  | error why => exact .failed (.refused why)

theorem ofExcept_done {x : Except Refusal α} {a : α} {n used : Nat}
    (h : Outcome.ofExcept n x = .done a used) : x = .ok a ∧ used = n := by
  cases x with
  | ok b => cases h; exact ⟨rfl, rfl⟩
  | error why => cases h

theorem ofExcept_failed {x : Except Refusal α} {n : Nat} {why : Failure}
    (h : Outcome.ofExcept n x = .failed why) :
    ∃ refusal, x = .error refusal ∧ why = .refused refusal := by
  cases x with
  | ok a => cases h
  | error refusal => cases h; exact ⟨refusal, rfl, rfl⟩

/-- Where nothing says how much is missing, anything may follow. -/
theorem Grows.open (more : Nat) (missing : Shortage) (position : Nat) (later : Outcome α) :
    Grows more (.failed (.short missing none position)) later := .short _ _ _ _ nofun

/-- A shortage that something else passes on. -/
theorem Grows.pass {more : Nat} {missing : Shortage} {needed : Option Nat} {position : Nat}
    {later : Outcome α} {later' : Outcome β}
    (exact : ∀ n, needed = some n → 0 < n ∧
      (more < n → later = .failed (.short missing (some (n - more)) position)))
    (passed : ∀ m, later = .failed (.short missing m position) →
      later' = .failed (.short missing m position)) :
    Grows more (.failed (.short missing needed position) : Outcome β) later' := by
  refine .short _ _ _ _ fun n hn => ?_
  refine ⟨(exact n hn).1, ?_⟩
  intro hm
  exact passed _ ((exact n hn).2 hm)

theorem Grows.shift {more : Nat} {o later : Outcome α} (h : Grows more o later) (n : Nat) :
    Grows more (o.shift n) (later.shift n) := by
  cases h with
  | done a used => exact .done a _
  | failed alike => exact .failed (alike.shift n)
  | short missing needed position later exact =>
    refine .short _ _ _ _ fun k hk => ⟨(exact k hk).1, fun hm => ?_⟩
    rw [(exact k hk).2 hm]
    rfl

theorem Grows.map {more : Nat} {o later : Outcome α} (h : Grows more o later) (f : α → β) :
    Grows more (o.map f) (later.map f) := by
  cases h with
  | done a used => exact .done _ _
  | failed alike => exact .failed alike
  | short missing needed position later exact =>
    exact .pass exact fun m hm => by rw [hm]; rfl

end Outcome

namespace Rule

variable {α β : Type}

/-- Uses no more octets than there are. -/
def Fits (r : Rule α) : Prop := ∀ ctx bs a used, r ctx bs = .done a used → used ≤ bs.length

/-- While more may come, the answer holds for all longer octets. -/
structure Steady (r : Rule α) : Prop where
  fits : r.Fits
  grows : ∀ d bs tail, (r ⟨false, d⟩ bs).Grows tail.length (r ⟨false, d⟩ (bs ++ tail))

/-- A value that `r` can be done with. -/
def Gives (r : Rule α) (a : α) : Prop := ∃ ctx bs used, r ctx bs = .done a used

theorem shift_failed {o : Outcome α} {n : Nat} {why : Failure} (h : o.shift n = .failed why) :
    ∃ why', o = .failed why' ∧ why = why'.shift n := by
  cases o with
  | done a used => cases h
  | failed why' => cases h; exact ⟨why', rfl, rfl⟩

theorem miss_of_shift {why : Failure} {n : Nat} {cause : Cause} {position : Nat}
    (h : why.shift n = .miss cause position) : ∃ position', why = .miss cause position' := by
  cases why with
  | miss cause' position' => cases h; exact ⟨position', rfl⟩
  | _ => cases h

section

variable {r : Rule α} {next : α → Rule β} {ctx : Context} {bs : Bytes}

theorem bind_of_done {a : α} {n : Nat} (h : r ctx bs = .done a n) :
    (r >>= next) ctx bs = (next a ctx (bs.drop n)).shift n := by
  change Rule.bind r next ctx bs = _
  simp only [Rule.bind, h]

theorem peek_bind {next : Option UInt8 → Rule β} (b : UInt8) (bs : Bytes) :
    (peek >>= next) ctx (b :: bs) = next (some b) ctx (b :: bs) := by
  have hpeek : peek ctx (b :: bs) = .done (some b) 0 := rfl
  rw [bind_of_done hpeek, List.drop_zero, Outcome.shift_zero]

theorem dialect_bind {next : Dialect → Rule β} :
    (dialect >>= next) ctx bs = next ctx.dialect ctx bs := by
  have hdialect : dialect ctx bs = .done ctx.dialect 0 := rfl
  rw [bind_of_done hdialect, List.drop_zero, Outcome.shift_zero]

theorem bind_of_failed {why : Failure} (h : r ctx bs = .failed why) :
    (r >>= next) ctx bs = .failed why := by
  change Rule.bind r next ctx bs = _
  simp only [Rule.bind, h]

theorem bind_done {b : β} {used : Nat} (h : (r >>= next) ctx bs = .done b used) :
    ∃ a n m, r ctx bs = .done a n ∧ next a ctx (bs.drop n) = .done b m ∧ used = n + m := by
  cases hr : r ctx bs with
  | failed why => rw [bind_of_failed hr] at h; cases h
  | done a n =>
    rw [bind_of_done hr] at h
    cases hn : next a ctx (bs.drop n) with
    | failed why => rw [hn] at h; cases h
    | done b' m => rw [hn] at h; cases h; exact ⟨a, n, m, rfl, hn, rfl⟩

/-- Where a sequence fails, one of its parts does. -/
theorem bind_failed {why : Failure} (h : (r >>= next) ctx bs = .failed why) :
    r ctx bs = .failed why ∨ ∃ a n why', r ctx bs = .done a n ∧
      next a ctx (bs.drop n) = .failed why' ∧ why = why'.shift n := by
  cases hr : r ctx bs with
  | failed why' =>
    rw [bind_of_failed hr] at h
    cases h
    exact .inl rfl
  | done a n =>
    rw [bind_of_done hr] at h
    obtain ⟨why', hw, rfl⟩ := shift_failed h
    exact .inr ⟨a, n, why', rfl, hw, rfl⟩

theorem bind_miss {cause : Cause} {position : Nat}
    (h : (r >>= next) ctx bs = .failed (.miss cause position)) :
    r ctx bs = .failed (.miss cause position) ∨
      ∃ a n position', r ctx bs = .done a n ∧
        next a ctx (bs.drop n) = .failed (.miss cause position') := by
  refine (bind_failed h).imp_right ?_
  rintro ⟨a, n, why', ha, hw, hshift⟩
  obtain ⟨position', rfl⟩ := miss_of_shift hshift.symm
  exact ⟨a, n, position', ha, hw⟩

theorem refine_done {judge : α → Except Failure β} {b : β} {used : Nat}
    (h : r.refine judge ctx bs = .done b used) :
    ∃ a, r ctx bs = .done a used ∧ judge a = .ok b := by
  cases hr : r ctx bs with
  | failed why => simp [Rule.refine, hr] at h
  | done a n =>
    cases hj : judge a with
    | error why => simp [Rule.refine, hr, hj] at h
    | ok b' => simp only [Rule.refine, hr, hj] at h; cases h; exact ⟨a, rfl, hj⟩

theorem refine_failed {judge : α → Except Failure β} {why : Failure}
    (h : r.refine judge ctx bs = .failed why) :
    r ctx bs = .failed why ∨ ∃ a n, r ctx bs = .done a n ∧ judge a = .error why := by
  cases hr : r ctx bs with
  | failed why' => simp only [Rule.refine, hr] at h; cases h; exact .inl rfl
  | done a n =>
    cases hj : judge a with
    | ok b => simp [Rule.refine, hr, hj] at h
    | error why' => simp only [Rule.refine, hr, hj] at h; cases h; exact .inr ⟨a, n, rfl, hj⟩

theorem lookahead_failed {why : Failure} (h : r.lookahead ctx bs = .failed why) :
    r ctx bs = .failed why := by
  cases hr : r ctx bs with
  | done a n => simp [Rule.lookahead, hr] at h
  | failed why' => simpa only [Rule.lookahead, hr] using h

theorem opt_failed {why : Failure} (h : r.opt ctx bs = .failed why) : r ctx bs = .failed why := by
  cases hr : r ctx bs with
  | done a n => simp [Rule.opt, hr] at h
  | failed why' =>
    cases why' with
    | miss cause position => simp [Rule.opt, hr] at h
    | _ => simp only [Rule.opt, hr] at h; cases h; rfl

theorem opt_done {found : Option α} {used : Nat} (h : r.opt ctx bs = .done found used) :
    (∃ a, r ctx bs = .done a used ∧ found = some a) ∨
      (∃ cause position, r ctx bs = .failed (.miss cause position)) ∧ found = none ∧ used = 0 := by
  cases hr : r ctx bs with
  | done a n => simp only [Rule.opt, hr] at h; cases h; exact .inl ⟨a, rfl, rfl⟩
  | failed why =>
    cases why with
    | miss cause position =>
      simp only [Rule.opt, hr] at h
      cases h
      exact .inr ⟨⟨cause, position, rfl⟩, rfl, rfl⟩
    | _ => simp [Rule.opt, hr] at h

variable {other : Rule α} {a : α} {used : Nat}

theorem orElse_done (h : r.orElse other ctx bs = .done a used) :
    r ctx bs = .done a used ∨
      (∃ cause position, r ctx bs = .failed (.miss cause position)) ∧
        other ctx bs = .done a used := by
  cases hr : r ctx bs with
  | done a' n => simp only [Rule.orElse, hr] at h; exact .inl h
  | failed why =>
    cases why with
    | miss cause position =>
      simp only [Rule.orElse, hr] at h
      exact .inr ⟨⟨cause, position, rfl⟩, h⟩
    | _ => simp [Rule.orElse, hr] at h

theorem orElse_failed {why : Failure} (h : r.orElse other ctx bs = .failed why) :
    r ctx bs = .failed why ∨ other ctx bs = .failed why := by
  cases hr : r ctx bs with
  | done a' n => simp [Rule.orElse, hr] at h
  | failed why' =>
    cases why' with
    | miss cause position => simp only [Rule.orElse, hr] at h; exact .inr h
    | _ => simp only [Rule.orElse, hr] at h; exact .inl h

theorem alt_done (h : r.alt other ctx bs = .done a used) :
    r ctx bs = .done a used ∨
      (∃ cause position, r ctx bs = .failed (.miss cause position)) ∧
        other ctx bs = .done a used := by
  cases hr : r ctx bs with
  | done a' n => simp only [Rule.alt, hr] at h; exact .inl h
  | failed why =>
    cases why with
    | miss cause position =>
      simp only [Rule.alt, hr] at h
      cases ho : other ctx bs with
      | done a' n => simp only [ho] at h; exact .inr ⟨⟨cause, position, rfl⟩, h⟩
      | failed why' => simp [ho] at h
    | _ => simp [Rule.alt, hr] at h

theorem alt_failed {why : Failure} (h : r.alt other ctx bs = .failed why) :
    r ctx bs = .failed why ∨ ∃ cause position why', r ctx bs = .failed (.miss cause position) ∧
      other ctx bs = .failed why' ∧ why = furthest (.miss cause position) why' := by
  cases hr : r ctx bs with
  | done a' n => simp [Rule.alt, hr] at h
  | failed why' =>
    cases why' with
    | miss cause position =>
      simp only [Rule.alt, hr] at h
      cases ho : other ctx bs with
      | done a' n => simp [ho] at h
      | failed why' =>
        simp only [ho, Outcome.failed.injEq] at h
        exact .inr ⟨cause, position, why', rfl, rfl, h.symm⟩
    | _ => simp only [Rule.alt, hr] at h; exact .inl h

end

namespace Steady

section

variable {r : Rule α} {d : Dialect} {bs : Bytes} (hr : Steady r) (tail : Bytes)

include hr

theorem done_append {a : α} {n : Nat} (h : r ⟨false, d⟩ bs = .done a n) :
    r ⟨false, d⟩ (bs ++ tail) = .done a n := by
  have hg := hr.grows d bs tail
  generalize r ⟨false, d⟩ (bs ++ tail) = later at hg
  rw [h] at hg
  cases hg
  rfl

theorem failed_append {why : Failure} (hw : why.Decided) (h : r ⟨false, d⟩ bs = .failed why) :
    ∃ why', r ⟨false, d⟩ (bs ++ tail) = .failed why' ∧ why.Alike why' := by
  have hg := hr.grows d bs tail
  generalize r ⟨false, d⟩ (bs ++ tail) = later at hg
  rw [h] at hg
  cases hg with
  | failed alike => exact ⟨_, rfl, alike⟩
  | short => cases hw

theorem short_append {missing : Shortage} {n position : Nat}
    (h : r ⟨false, d⟩ bs = .failed (.short missing (some n) position)) :
    0 < n ∧ (tail.length < n →
      r ⟨false, d⟩ (bs ++ tail) = .failed (.short missing (some (n - tail.length)) position)) := by
  have hg := hr.grows d bs tail
  generalize r ⟨false, d⟩ (bs ++ tail) = later at hg
  rw [h] at hg
  cases hg with
  | failed alike => cases alike
  | short _ _ _ _ exact => exact exact n rfl

end

theorem pure (a : α) : Steady (Pure.pure a : Rule α) where
  fits := by rintro ctx bs _ _ ⟨⟩; exact Nat.zero_le _
  grows _ _ _ := .done a 0

theorem fail {why : Failure} (h : why.Here) : Steady (Rule.fail why : Rule α) where
  fits := nofun
  grows _ _ _ := .of_here h _

theorem dialect : Steady Rule.dialect where
  fits := by rintro ctx bs _ _ ⟨⟩; exact Nat.zero_le _
  grows d _ _ := .done d 0

theorem ofExcept (x : Except Refusal α) : Steady (Rule.ofExcept x) := by
  cases x with
  | ok a => exact pure a
  | error why => exact ⟨nofun, fun _ _ _ => .failed (.refused why)⟩

variable {r other : Rule α}

theorem bind {next : α → Rule β} (hr : Steady r)
    (hn : ∀ a, r.Gives a → Steady (next a)) : Steady (r >>= next) where
  fits := by
    intro ctx bs b used h
    obtain ⟨a, n, m, ha, hb, rfl⟩ := bind_done h
    have hn' := (hn a ⟨ctx, bs, n, ha⟩).fits _ _ _ _ hb
    have := hr.fits _ _ _ _ ha
    rw [List.length_drop] at hn'
    omega
  grows d bs tail := by
    have h := hr.grows d bs tail
    generalize hb : r ⟨false, d⟩ bs = o at h
    generalize hl : r ⟨false, d⟩ (bs ++ tail) = later at h
    cases h with
    | done a n =>
      rw [bind_of_done hb, bind_of_done hl, List.drop_append_of_le_length (hr.fits _ _ _ _ hb)]
      exact ((hn a ⟨_, _, _, hb⟩).grows d _ tail).shift n
    | failed alike =>
      rw [bind_of_failed hb, bind_of_failed hl]
      exact .failed alike
    | short missing needed position _ exact =>
      rw [bind_of_failed hb]
      exact .pass exact fun m hm => bind_of_failed (hl.trans hm)

theorem refine {judge : α → Except Failure β} (hr : Steady r)
    (hj : ∀ a why, judge a = .error why → why.Here) : Steady (r.refine judge) where
  fits ctx bs b used h := by
    obtain ⟨a, ha, -⟩ := refine_done h
    exact hr.fits _ _ _ _ ha
  grows d bs tail := by
    have h := hr.grows d bs tail
    simp only [Rule.refine]
    generalize r ⟨false, d⟩ bs = o at h
    generalize r ⟨false, d⟩ (bs ++ tail) = later at h
    cases h with
    | done a n =>
      cases hja : judge a with
      | error why => simp only [hja]; exact .of_here (hj a why hja) _
      | ok b => simp only [hja]; exact .done b n
    | failed alike => exact .failed alike
    | short missing needed position _ exact =>
      exact .pass exact fun m hm => by rw [hm]

theorem lookahead (hr : Steady r) : Steady r.lookahead where
  fits ctx bs a used h := by
    cases hb : r ctx bs with
    | failed why => simp [Rule.lookahead, hb] at h
    | done a' n => simp only [Rule.lookahead, hb, Outcome.done.injEq] at h; omega
  grows d bs tail := by
    have h := hr.grows d bs tail
    simp only [Rule.lookahead]
    generalize r ⟨false, d⟩ bs = o at h
    generalize r ⟨false, d⟩ (bs ++ tail) = later at h
    cases h with
    | done a n => exact .done a 0
    | failed alike => exact .failed alike
    | short missing needed position _ exact =>
      exact .pass exact fun m hm => by rw [hm]

theorem peek : Steady Rule.peek where
  fits ctx bs a used h := by
    cases bs with
    | cons b bs => simp only [Rule.peek, Outcome.done.injEq] at h; omega
    | nil =>
      simp only [Rule.peek] at h
      split at h
      · simp only [Outcome.done.injEq] at h; omega
      · cases h
  grows d bs tail := by
    cases bs with
    | nil => exact .open _ _ _ _
    | cons b bs => exact .done (some b) 0

theorem opt (hr : Steady r) : Steady r.opt where
  fits ctx bs found used h := by
    obtain ⟨a, ha, -⟩ | ⟨-, -, rfl⟩ := opt_done h
    · exact hr.fits _ _ _ _ ha
    · exact Nat.zero_le _
  grows d bs tail := by
    have h := hr.grows d bs tail
    simp only [Rule.opt]
    generalize r ⟨false, d⟩ bs = o at h
    generalize r ⟨false, d⟩ (bs ++ tail) = later at h
    cases h with
    | done a n => exact .done (some a) n
    | failed alike =>
      cases alike with
      | miss position same => exact .done none 0
      | bad cause cause' position => exact .failed (.bad cause cause' position)
      | refused why => exact .failed (.refused why)
    | short missing needed position _ exact =>
      exact .pass exact fun m hm => by rw [hm]

theorem orElse (hr : Steady r) (ho : Steady other) : Steady (r.orElse other) where
  fits ctx bs a used h := by
    obtain ha | ⟨-, ha⟩ := orElse_done h
    · exact hr.fits _ _ _ _ ha
    · exact ho.fits _ _ _ _ ha
  grows d bs tail := by
    have h := hr.grows d bs tail
    have h' := ho.grows d bs tail
    simp only [Rule.orElse]
    generalize r ⟨false, d⟩ bs = o at h
    generalize r ⟨false, d⟩ (bs ++ tail) = later at h
    cases h with
    | done a n => exact .done a n
    | failed alike =>
      cases alike with
      | miss position same => exact h'
      | bad cause cause' position => exact .failed (.bad cause cause' position)
      | refused why => exact .failed (.refused why)
    | short missing needed position _ exact =>
      exact .pass exact fun m hm => by rw [hm]

/-- Of two misses the same one is the furthest, whatever their texts. -/
theorem furthest_alike {f f' g g' : Failure} (hf : f.Alike f') (hg : g.Alike g') :
    (furthest f g).Alike (furthest f' g') := by
  cases hf with
  | miss p same =>
    cases hg with
    | miss p' same' =>
      simp only [furthest]
      split
      · exact .miss p' same'
      · exact .miss p same
    | bad c c' p' => exact .bad c c' p'
    | refused why => exact .refused why
  | bad => cases hg <;> (constructor; try assumption)
  | refused => cases hg <;> (constructor; try assumption)

theorem alt (hr : Steady r) (ho : Steady other) : Steady (r.alt other) where
  fits ctx bs a used h := by
    obtain ha | ⟨-, ha⟩ := alt_done h
    · exact hr.fits _ _ _ _ ha
    · exact ho.fits _ _ _ _ ha
  grows d bs tail := by
    have h := hr.grows d bs tail
    have h' := ho.grows d bs tail
    simp only [Rule.alt]
    generalize r ⟨false, d⟩ bs = o at h
    generalize r ⟨false, d⟩ (bs ++ tail) = later at h
    generalize other ⟨false, d⟩ bs = o' at h'
    generalize other ⟨false, d⟩ (bs ++ tail) = later' at h'
    cases h with
    | done a n => exact .done a n
    | failed alike =>
      cases alike with
      | miss position same =>
        cases h' with
        | done a n => exact .done a n
        | failed alike' => exact .failed (furthest_alike (.miss position same) alike')
        | short missing needed position _ exact =>
          exact .pass exact fun m hm => by rw [hm]; rfl
      | bad cause cause' position => exact .failed (.bad cause cause' position)
      | refused why => exact .failed (.refused why)
    | short missing needed position _ exact =>
      exact .pass exact fun m hm => by rw [hm]

end Steady

end Rule

end Imap
