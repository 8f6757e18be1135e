import Imap.Proofs.Reader.History
import Imap.Proofs.Stability

namespace Imap

/-- Says exactly how many octets are missing: as long as fewer have come, the answer is the same and
counts them. -/
def Rule.Exact {α : Type} (r : Rule α) : Prop :=
  ∀ d data missing n p, r ⟨false, d⟩ data = .failed (.short missing (some n) p) →
    1 ≤ n ∧ ∀ ext : Bytes, ext.length < n →
      r ⟨false, d⟩ (data ++ ext) = .failed (.short missing (some (n - ext.length)) p)

theorem Rule.Steady.exact {α : Type} {r : Rule α} (hr : Steady r) : r.Exact := by
  intro d data missing n p h
  exact ⟨(hr.short_append [] h).1, fun ext => (hr.short_append ext h).2⟩

/-- What a caller sees of an answer. -/
def Answer.shown : Answer → List WireUnit × Option Failure × Bytes
  | .fed f => (f.returned, f.raised, [])
  | .skipped octets => ([], none, octets)

/-- The reader without its patience. -/
def Reader.eager (r : Reader) : Reader := { r with waitFor := 0 }

/-- The outcomes of a chunk that differ at most in what the readers wait for. -/
structure Feed.Matches (f g : Feed) : Prop where
  units_eq : f.units = g.units
  raised_eq : f.raised = g.raised
  reader_eq : f.reader.eager = g.reader.eager

namespace Reader

/-- The answers of a reader that makes an attempt whenever it holds something. -/
def runEagerly (r : Reader) : List Call → List Answer × Reader
  | [] => ([], r)
  | c :: calls =>
    ((r.eager.call c).1 :: ((r.eager.call c).2.runEagerly calls).1,
      ((r.eager.call c).2.runEagerly calls).2)

variable {r : Reader} {decoded : Bool}

theorem eager_tries (something : r.buffer ≠ []) : r.eager.Tries := ⟨something, Nat.zero_le _⟩

theorem stop_eager (decoded : Bool) (why : Failure) :
    (r.stop decoded why).1.eager = (r.eager.stop decoded why).1.eager ∧
      (r.stop decoded why).2 = (r.eager.stop decoded why).2 := by
  cases why <;> exact ⟨rfl, rfl⟩

theorem drain_eager (hr : r.Ready) (decoded : Bool) :
    Feed.Matches (r.drain decoded) (r.eager.drain decoded) := by
  by_cases tries : r.Tries
  · have tries' : r.eager.Tries := eager_tries tries.1
    cases hnext : r.next with
    | failed why =>
      have hnext' : r.eager.next = .failed why := hnext
      obtain ⟨hreader, hraised⟩ := stop_eager (r := r) decoded why
      rw [drain_failed tries hnext, drain_failed tries' hnext']
      exact ⟨by rw [units_of_failed hnext, units_of_failed hnext'], hraised, hreader⟩
    | done u used =>
      have hnext' : r.eager.next = .done u used := hnext
      have hused : used ≠ 0 := Nat.ne_of_gt (Source.decode_done_span hnext).1
      rw [drain_done tries hnext hused, drain_done tries' hnext' hused]
      exact ⟨by rw [units_of_done hnext, units_of_done hnext']; rfl, rfl, rfl⟩
  · rw [drain_wait tries]
    by_cases hnil : r.buffer = []
    · have waits : ¬r.eager.Tries := fun h => h.1 hnil
      rw [drain_wait waits]
      exact ⟨rfl, rfl, rfl⟩
    · -- The attempt that is left out would have found the octets short.
      have hlt : r.buffer.length < r.waitFor := Nat.lt_of_not_le fun hle => tries ⟨hnil, hle⟩
      obtain ⟨missing, needed, position, failed, -⟩ := hr.waits hlt
      have failed' : r.eager.next = .failed (.short missing needed position) := failed
      rw [drain_failed (eager_tries hnil) failed']
      exact ⟨(units_of_failed failed' _ _).symm, rfl, rfl⟩

theorem call_eager (named : r.source ≠ .unnamed) (hr : r.Ready) (c : Call) :
    (r.call c).1.shown = (r.eager.call c).1.shown ∧
      (r.call c).2.eager = (r.eager.call c).2.eager := by
  cases c with
  | skipLine => exact ⟨rfl, rfl⟩
  | feed chunk =>
    have h : Feed.Matches (r.feed chunk) (r.eager.feed chunk) :=
      drain_eager (hr.extend named chunk) false
    refine ⟨?_, h.reader_eq⟩
    simp only [call, Answer.shown, Feed.returned, h.units_eq, h.raised_eq]

theorem run_eager (named : r.source ≠ .unnamed) (hr : r.Ready) {r' : Reader}
    (same : r.eager = r'.eager) (calls : List Call) :
    (r.run calls).1.map Answer.shown = (r'.runEagerly calls).1.map Answer.shown ∧
      (r.run calls).2.eager = (r'.runEagerly calls).2.eager := by
  induction calls generalizing r r' with
  | nil => exact ⟨rfl, same⟩
  | cons c calls ih =>
    have hfirst := call_accounts named hr c
    have named' : (r.call c).2.source ≠ .unnamed := by rw [hfirst.source_eq]; exact named
    obtain ⟨hshown, hreader⟩ := call_eager named hr c
    rw [same] at hshown hreader
    obtain ⟨hmore, hlast⟩ := ih named' hfirst.ready hreader
    refine ⟨?_, hlast⟩
    simp only [run, runEagerly, List.map_cons, hshown, hmore]

/-- The number of missing octets is exact, in every rule by name and in units and sequence sets. So
whatever a reader is asked to do, it loses nothing by waiting: a reader that never waits gives the
same units and the same failures at the same calls, and holds the same octets in the end. -/
theorem run_exact :
    (∀ name, Rule.Exact (Grammar.run · name)) ∧
      Response.greetingRule.Exact ∧ Response.rule.Exact ∧ Command.rule.Exact ∧
      SequenceSet.rule.Exact ∧
      ∀ source, source ≠ .unnamed → ∀ calls,
        ((new source).run calls).1.map Answer.shown =
          ((new source).runEagerly calls).1.map Answer.shown ∧
        ((new source).run calls).2.eager = ((new source).runEagerly calls).2.eager := by
  have greeting : Rule.Built .unit .wary Response.greetingRule := Response.greetingRule_built
  have response : Rule.Built .unit .wary Response.rule := Response.rule_built
  have command : Rule.Built .unit .wary Command.rule := Command.rule_built
  have sets : Rule.Built .line .wary SequenceSet.rule := SequenceSet.rule_built
  refine ⟨fun name => (Grammar.run_steady name).exact, greeting.steady.exact,
    response.steady.exact, command.steady.exact, sets.steady.exact, fun source named calls => ?_⟩
  exact run_eager named (ready_of_waitFor rfl) rfl calls

/-- Three of five octets of a literal are missing, and no attempt is made until they are there. -/
example :
    Command.rule ⟨false, .command⟩ (Bytes.ofText "a LOGIN \x7b5\x7d\r\nab") =
        .failed (.short (.literal 5) (some 3) 13) ∧
      (((new .client).feed (Bytes.ofText "a LOGIN \x7b5\x7d\r\nab")).reader.feed
        (Bytes.ofText "cd")).attempts = [] := by
  decide +kernel

end Reader

end Imap
