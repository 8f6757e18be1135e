import Imap.Proofs.Letters
import Imap.Proofs.Line.Unit
import Imap.Source

namespace Imap

open Rule

/-- The Kelvin sign, which folds to a letter, is in no word that is found in small letters. -/
theorem Keyword.lower_of_toLower {s : String} {small : List Char} (h : s.toLower.toList = small)
    (hk : '\u212A' ∉ small) : s.toList.map Keyword.lower = small := by
  rw [toLower_toList] at h
  rw [← h]
  apply List.map_congr_left
  intro c hc
  have hne : c ≠ '\u212A' := by
    rintro rfl
    apply hk
    rw [← h]
    exact List.mem_map.mpr ⟨'\u212A', hc, by decide⟩
  simp [Keyword.lower, hne]

theorem find_bye {found : String} (h : found.toLower = "bye") :
    Keyword.find? Response.byKeyword found = some (Response.status <$> Status.byeRule) := by
  have hsmall : found.toLower.toList = ['b', 'y', 'e'] := by rw [h]; rfl
  have hname : Keyword.ruleName? "" found = some "bye" := by
    rw [Keyword.ruleName?, Keyword.lower_of_toLower hsmall (by decide)]
    decide
  rw [Keyword.find?, hname]
  rfl

namespace Rule

variable {α β : Type}

theorem bind_done_of {r : Rule α} {next : α → Rule β} {ctx : Context} {bs : Bytes} {a : α} {b : β}
    {n m : Nat} (ha : r ctx bs = .done a n) (hb : next a ctx (bs.drop n) = .done b m) :
    (r >>= next) ctx bs = .done b (n + m) := by
  rw [bind_of_done ha, hb]
  rfl

theorem word_done_any {fixed : String} {cause : Cause} {ctx : Context} {bs : Bytes} {n : Nat}
    (h : word fixed cause ctx bs = .done () n) (cause' : Cause) :
    word fixed cause' ctx bs = .done () n := by
  simp only [word] at h ⊢
  split at h
  · exact h
  · split at h <;> cases h
  · cases h

end Rule

theorem bye_found {ctx : Context} {bs : Bytes} {c : StatusKind × StatusText} {n : Nat}
    (h : StatusKind.byeRule ctx bs = .done c n) :
    ∃ found k, atom ctx bs = .done found k ∧ found.toLower = "bye" := by
  obtain ⟨kind, k, _, hkind, -⟩ := bind_done h
  obtain ⟨found, hatom, hj⟩ := refine_done hkind
  refine ⟨found, k, hatom, ?_⟩
  split at hj
  · next hfind =>
    have hbye := List.find?_some hfind
    have hmem := List.mem_of_find?_eq_some hfind
    simp only [List.mem_singleton] at hmem
    subst hmem
    exact (of_decide_eq_true hbye).symm
  · cases hj

/-- A letter at the front of a word is no digit. -/
theorem not_digit_of_bye {b : UInt8} {bs : Bytes} (h : (Bytes.text (b :: bs)).toLower = "bye") :
    Octet.isDigit b = false := by
  have hlist : (Bytes.text (b :: bs)).toLower.toList = ['b', 'y', 'e'] := by rw [h]; rfl
  rw [Bytes.text_toLower, List.map_cons, List.map_cons] at hlist
  have hchar : Octet.char (Octet.lower b) = Octet.char 0x62 := (List.cons.inj hlist).1
  have hlower : Octet.lower b = 0x62 := Octet.char_injective hchar
  apply Bool.eq_false_iff.mpr
  intro hd
  simp only [Octet.isDigit, Bool.and_eq_true, decide_eq_true_eq] at hd
  unfold Octet.lower at hlower
  split at hlower
  · next hcapital =>
    simp only [Bool.and_eq_true, decide_eq_true_eq] at hcapital
    grind
  · grind

/-- The keyword of a farewell is no number. -/
theorem bye_ahead {ctx : Context} {bs : Bytes} {found : String} {k : Nat}
    (h : atom ctx bs = .done found k) (hsmall : found.toLower = "bye") :
    ∃ b rest, bs = b :: rest ∧ Octet.isDigit b = false := by
  obtain ⟨b, rest, rfl, hb⟩ := span_head h
  obtain ⟨rfl, -⟩ := span_done h
  rw [List.takeWhile_cons_of_pos hb] at hsmall
  exact ⟨b, rest, rfl, not_digit_of_bye hsmall⟩

theorem untaggedRule_of_bye {ctx : Context} {bs : Bytes} {c : StatusKind × StatusText} {n : Nat}
    (h : StatusKind.byeRule ctx bs = .done c n) :
    Response.untaggedRule ctx bs = .done (.status ⟨c.1, c.2.2, none, c.2.1⟩) n := by
  obtain ⟨found, k, hatom, hsmall⟩ := bye_found h
  obtain ⟨b, rest, rfl, hdigit⟩ := bye_ahead hatom hsmall
  have hstatus : (Response.status <$> Status.byeRule) ctx (b :: rest) =
      .done (.status ⟨c.1, c.2.2, none, c.2.1⟩) (n + 0 + 0) := by
    refine bind_done_of (bind_done_of h ?_) rfl
    rw [Status.ofCondition, Status.build_untagged]
    rfl
  have hlook : lookahead atom ctx (b :: rest) = .done found 0 := by simp only [lookahead, hatom]
  have hdispatch : Keyword.dispatch Response.byKeyword .unknownResponse ctx (b :: rest) =
      .done (.status ⟨c.1, c.2.2, none, c.2.1⟩) (0 + (n + 0 + 0)) := by
    refine bind_done_of hlook ?_
    simp only [find_bye hsmall, List.drop_zero]
    exact hstatus
  have hpeek : peek ctx (b :: rest) = .done (some b) 0 := rfl
  rw [Response.untaggedRule, bind_of_done hpeek]
  simp only [hdigit, List.drop_zero]
  rw [if_neg Bool.false_ne_true, hdispatch]
  simp [Outcome.shift]

/-- A farewell is found as data before it is looked for on its own. -/
theorem dataRule_of_fatal {ctx : Context} {bs : Bytes} {s : Status} {n : Nat}
    (h : Status.fatalRule ctx bs = .done s n) :
    Response.dataRule ctx bs = .done (.status s) n := by
  obtain ⟨_, k₁, _, hstar, h₁, rfl⟩ := bind_done h
  obtain ⟨_, k₂, _, hspace, h₂, rfl⟩ := bind_done h₁
  obtain ⟨c, k₃, _, hbye, h₃, rfl⟩ := bind_done h₂
  obtain ⟨_, k₄, _, hend, h₄, rfl⟩ := bind_done h₃
  rw [Status.ofCondition, Status.build_untagged] at h₄
  cases h₄
  have hline : Response.lineRule ctx ((bs.drop k₁).drop k₂) =
      .done (.status ⟨c.1, c.2.2, none, c.2.1⟩) (k₃ + (k₄ + 0)) :=
    bind_done_of (untaggedRule_of_bye hbye) (bind_done_of hend rfl)
  have hcomplete : Response.lineRule.refine Response.complete ctx ((bs.drop k₁).drop k₂) =
      .done (.status ⟨c.1, c.2.2, none, c.2.1⟩) (k₃ + (k₄ + 0)) := by
    simp only [refine, hline]
    rfl
  exact bind_done_of (word_done_any hstar _) (bind_done_of hspace hcomplete)

theorem dataRule_miss {ctx : Context} {b : UInt8} (bs : Bytes) (h : b ≠ 0x2A) :
    Response.dataRule ctx (b :: bs) = .failed (.miss (.expected .untagged) 0) := by
  have hb : Octet.lower b ≠ 0x2A := mt (Octet.lower_eq_iff (by decide)).mp h
  have hword : expect "*" .untagged ctx (b :: bs) = .failed (.miss (.expected .untagged) 0) := by
    have : compareWord ((Bytes.ofText "*").map Octet.lower) (b :: bs) = .different := if_neg hb
    simp only [expect, word, this]
  exact bind_of_failed hword

namespace Continuation

theorem content_built : Built .line .wary (Rule.oneOf textRule [base64Rule]) := by
  refine .alt (by decide) ?_ ?_
  · exact textRule_built
  · exact base64Rule_built

theorem rule_lined : Lined Continuation.rule := by
  refine .behind (.expect _ _ (by decide)) fun _ => ?_
  refine .behind space_built fun _ => ?_
  refine .behind content_built fun c => ?_
  refine lineEnd_lined.bind_settled fun _ _ _ => ?_
  exact .done c 0

theorem rule_ends : Ends Continuation.rule := by
  refine .behind (.expect _ _ (by decide)) fun _ => ?_
  refine .behind space_built fun _ => ?_
  refine .behind content_built.ofLine fun _ => ?_
  refine Ends.lineEnd.bind_instant fun _ => ?_
  exact .pure _

end Continuation

namespace Status

theorem condition_built (allowed : List StatusKind) :
    Built .line .wary (StatusKind.conditionRule allowed) := StatusKind.conditionRule_built allowed

theorem taggedRule_lined : Lined taggedRule := by
  refine .behind tag_built fun _ => ?_
  refine .behind space_built fun _ => ?_
  refine .behind (condition_built _) fun _ => ?_
  refine lineEnd_lined.bind_settled fun _ _ _ => ?_
  exact ofExcept_settled _ _ _

theorem taggedRule_ends : Ends taggedRule := by
  refine .behind tag_built fun _ => ?_
  refine .behind space_built fun _ => ?_
  refine .behind (condition_built _).ofLine fun _ => ?_
  refine Ends.lineEnd.bind_instant fun _ => ?_
  exact .ofExcept _

theorem fatalRule_ends : Ends fatalRule := by
  refine .behind (.expect _ _ (by decide)) fun _ => ?_
  refine .behind space_built fun _ => ?_
  refine .behind (condition_built _).ofLine fun _ => ?_
  refine Ends.lineEnd.bind_instant fun _ => ?_
  exact .ofExcept _

theorem doneRule_ends : Ends doneRule :=
  taggedRule_ends.alt taggedRule_lined taggedRule_built fatalRule_ends

theorem greetingRule_ends : Ends Status.greetingRule := by
  refine .behind (.expect _ _ (by decide)) fun _ => ?_
  refine .behind space_built fun _ => ?_
  refine .behind greeting_built.ofLine fun _ => ?_
  refine Ends.lineEnd.bind_instant fun _ => ?_
  exact .ofExcept _

end Status

namespace Response

theorem dataRule_ends : Ends Response.dataRule := by
  refine .behind (.expect _ _ (by decide)) fun _ => ?_
  refine .behind space_built fun _ => ?_
  refine .refine ?_
  refine .behind untaggedRule_built fun _ => ?_
  refine Ends.lineEnd.bind_instant fun _ => ?_
  exact .pure _

/-- Where a response completes a command, or is a farewell, there was no data to find. -/
theorem data_or_done_ends : Ends (Response.dataRule.alt (status <$> Status.doneRule)) := by
  refine dataRule_ends.alt_of (Status.doneRule_ends.map _) ?_
  intro ctx pre tail r cause position hdone hmiss
  obtain ⟨s, n, m, hs, -, -⟩ := bind_done hdone
  rcases alt_done hs with htagged | ⟨-, hfatal⟩
  · obtain ⟨tag, k, _, htag, -⟩ := bind_done htagged
    obtain ⟨b, rest, hbs, hb⟩ := span_head htag
    have hstar : b ≠ 0x2A := by
      rintro rfl
      cases hb
    rw [hbs]
    exact ⟨_, _, dataRule_miss rest hstar⟩
  · have built : Built .unit .wary Response.dataRule := dataRule_built
    have hdata : Response.dataRule ⟨false, ctx.dialect⟩ (pre ++ 0x0A :: tail) =
        .done (.status s) n := by
      have happend := built.steady.done_append tail (dataRule_of_fatal hfatal)
      rwa [List.append_assoc] at happend
    rw [built.conclusive.either_of_done hdata] at hmiss
    cases hmiss

theorem rule_ends : Ends Response.rule := by
  exact (Continuation.rule_ends.map _).alt (Continuation.rule_lined.map _)
    (Continuation.rule_built.map _) data_or_done_ends

theorem greetingRule_ends : Ends Response.greetingRule := Status.greetingRule_ends.map _

end Response

theorem Command.rule_ends : Ends Command.rule := by
  refine .behind tag_built fun _ => ?_
  refine .behind space_built fun _ => ?_
  refine .behind CommandBody.rule_built fun _ => ?_
  refine Ends.lineEnd.bind_instant fun _ => ?_
  exact .pure _

namespace Source

variable {source : Source} {units : Nat}

theorem rule_built {m : Manner} (named : source ≠ .unnamed) (units : Nat) :
    Built .unit m (source.rule units) := by
  cases source with
  | unnamed => exact absurd rfl named
  | server greeting =>
    simp only [Source.rule]
    split
    · exact Response.greetingRule_built.map _
    · exact Response.rule_built.map _
  | client => exact Command.rule_built.map _

theorem rule_ends (named : source ≠ .unnamed) (units : Nat) : Ends (source.rule units) := by
  cases source with
  | unnamed => exact absurd rfl named
  | server greeting =>
    simp only [Source.rule]
    split
    · exact Response.greetingRule_ends.map _
    · exact Response.rule_ends.map _
  | client => exact Command.rule_ends.map _

theorem knowsQuota (named : source ≠ .unnamed) : source.dialect.knowsQuota = true := by
  cases source with
  | unnamed => exact absurd rfl named
  | server greeting => rfl
  | client => rfl

/-- Reading a unit refuses no value. -/
theorem decode_not_refused (named : source ≠ .unnamed) {bs : Bytes} {why : Failure}
    (h : source.decode units bs = .failed why) (refusal : Refusal) : why ≠ .refused refusal := by
  rintro rfl
  have hw : Willing (source.rule units) := (rule_built named units).willing
  exact hw _ _ _ (knowsQuota named) h

/-- Of an unnamed source nothing is read. -/
theorem named_of_done {bs : Bytes} {u : WireUnit} {used : Nat}
    (h : source.decode units bs = .done u used) : source ≠ .unnamed := by
  rintro rfl
  cases h

theorem decode_steady (named : source ≠ .unnamed) (units : Nat) : Steady (source.rule units) := by
  have hbuilt : Built .unit .wary (source.rule units) := rule_built named units
  exact hbuilt.steady

/-- A unit that is read takes up the octets up to a line feed, and is read from them alone. -/
theorem decode_done_span {bs : Bytes} {u : WireUnit} {used : Nat}
    (h : source.decode units bs = .done u used) :
    0 < used ∧ used ≤ bs.length ∧ source.decode units (bs.take used) = .done u used := by
  have named : source ≠ .unnamed := named_of_done h
  obtain ⟨pre, tail, rfl, rfl, hend⟩ := rule_ends named units _ _ _ _ h
  have htake : (pre ++ 0x0A :: tail).take (pre.length + 1) = pre ++ [0x0A] := by
    rw [List.take_append, List.take_of_length_le (by omega), Nat.add_sub_cancel_left]
    rfl
  refine ⟨Nat.succ_pos _, ?_, by rw [htake]; exact hend⟩
  rw [List.length_append, List.length_cons]
  omega

theorem decode_append {bs : Bytes} {u : WireUnit} {used : Nat}
    (h : source.decode units bs = .done u used) (more : Bytes) :
    source.decode units (bs ++ more) = .done u used := by
  have named := named_of_done h
  exact (decode_steady named units).done_append more h

end Source

end Imap
