import Imap.Proofs.Reader.Chunks

namespace Imap

namespace Rule

variable {α : Type}

/-- What is done has a span of its own, which a line feed closes. The span alone is done with the
same value while more may come, and so it is ahead of any octets, complete or not. -/
def SelfDelimiting (d : Dialect) (r : Rule α) : Prop :=
  ∀ complete data v n, r ⟨complete, d⟩ data = .done v n →
    ∃ span rest, data = span ++ rest ∧ n = span.length ∧ span.getLast? = some 0x0A ∧
      r ⟨false, d⟩ span = .done v n ∧
      ∀ complete' rest', r ⟨complete', d⟩ (span ++ rest') = .done v n

theorem Ends.selfDelimiting {r : Rule α} (h : Ends r) (hb : Built .unit .wary r) (d : Dialect) :
    r.SelfDelimiting d := by
  intro complete data v n hd
  obtain ⟨pre, tail, rfl, rfl, hend⟩ := h _ _ _ _ hd
  refine ⟨pre ++ [0x0A], tail, ?_, ?_, ?_, hend, fun complete' rest' => ?_⟩
  · rw [List.append_assoc]
    rfl
  · rw [List.length_append]
    rfl
  · exact List.getLast?_concat
  · have happend := hb.steady.done_append rest' hend
    exact hb.conclusive.either_of_done happend

end Rule

/-- A unit takes a line feed with it. -/
theorem Source.feeds_of_done {source : Source} {units : Nat} {bs : Bytes} {u : WireUnit}
    {used : Nat} (h : source.decode units bs = .done u used) :
    1 + (bs.drop used).count 0x0A ≤ bs.count 0x0A := by
  obtain ⟨pre, tail, rfl, rfl, -⟩ := rule_ends (named_of_done h) units _ _ _ _ h
  have hdrop : (pre ++ 0x0A :: tail).drop (pre.length + 1) = tail := by
    rw [List.drop_append, List.drop_eq_nil_of_le (Nat.le_succ _), Nat.add_sub_cancel_left]
    rfl
  rw [hdrop, List.count_append, List.count_cons_self]
  omega

namespace Reader

variable {r : Reader} {decoded : Bool} {f : Feed}

theorem Drains.attempts_le (h : Drains decoded r f) :
    f.attempts.length ≤ 1 + r.buffer.count 0x0A := by
  induction h with
  | wait => exact Nat.zero_le _
  | short => exact Nat.le_add_right 1 _
  | bad => exact Nat.le_add_right 1 _
  | @unit decoded r u used more tries done rest ih =>
    have hfeeds : 1 + (r.past used).buffer.count 0x0A ≤ r.buffer.count 0x0A :=
      Source.feeds_of_done done
    rw [List.length_cons]
    omega

/-- Behind every unit that is read there are fewer octets than before it. -/
theorem Drains.progress (h : Drains decoded r f) {a : Attempt} (ha : a ∈ f.attempts)
    {u : WireUnit} {used : Nat} (hu : a.outcome = .done u used) :
    0 < used ∧ used ≤ a.reader.buffer.length := by
  induction h with
  | wait => cases ha
  | short tries failed =>
    rw [List.mem_singleton.mp ha, failed] at hu
    cases hu
  | bad tries failed =>
    rw [List.mem_singleton.mp ha, failed] at hu
    cases hu
  | unit tries done rest ih =>
    rcases List.mem_cons.mp ha with rfl | ha
    · obtain ⟨hpos, hle, -⟩ := Source.decode_done_span hu
      exact ⟨hpos, hle⟩
    · exact ih ha

/-- A reader of an unnamed source gives up at its first attempt. -/
theorem drain_unnamed (h : r.source = .unnamed) (decoded : Bool) :
    (r.drain decoded).attempts.length ≤ 1 ∧
      ∀ a ∈ (r.drain decoded).attempts, ∃ why, a.outcome = .failed why := by
  by_cases tries : r.Tries
  · rw [drain_failed tries (next_unnamed h)]
    refine ⟨Nat.le_refl 1, fun a ha => ?_⟩
    rw [List.mem_singleton.mp ha]
    exact ⟨_, next_unnamed h⟩
  · rw [drain_wait tries]
    exact ⟨Nat.zero_le 1, fun a ha => absurd ha List.not_mem_nil⟩

/-- Units are self-delimiting. So whatever a reader holds and is fed, it makes at most one attempt
more than there are line feeds, and goes on behind a unit with fewer octets than before. -/
theorem feed_attempts :
    Response.greetingRule.SelfDelimiting .response ∧ Response.rule.SelfDelimiting .response ∧
      Command.rule.SelfDelimiting .command ∧
      ∀ (r : Reader) (chunk : Bytes),
        (r.feed chunk).attempts.length ≤ 1 + (r.buffer ++ chunk).count 0x0A ∧
        ∀ a ∈ (r.feed chunk).attempts, ∀ u used, a.outcome = .done u used →
          0 < used ∧ used ≤ a.reader.buffer.length := by
  refine ⟨Response.greetingRule_ends.selfDelimiting Response.greetingRule_built _,
    Response.rule_ends.selfDelimiting Response.rule_built _,
    Command.rule_ends.selfDelimiting Command.rule_built _, fun r chunk => ?_⟩
  by_cases named : r.source = .unnamed
  · have hextend : (r.extend chunk).source = .unnamed := named
    obtain ⟨hle, hfailed⟩ := drain_unnamed hextend false
    refine ⟨Nat.le_trans hle (Nat.le_add_right 1 _), fun a ha u used hu => ?_⟩
    obtain ⟨why, hw⟩ := hfailed a ha
    rw [hw] at hu
    cases hu
  · have h := feed_drains named chunk
    exact ⟨h.attempts_le, fun a ha u used hu => h.progress ha hu⟩

/-- Three attempts for two line feeds: the bound is reached. -/
example :
    ((new .client).feed (Bytes.ofText "a NOOP\r\nb NOOP\r\nc")).attempts.length = 3 := by
  decide +kernel

end Reader

end Imap
