import Imap.Proofs.Line.Finished
import Imap.Proofs.Modes
import Imap.Proofs.Reader.Chunks

namespace Imap

namespace Rule

variable {α β : Type} {r other : Rule α} {next : α → Rule β}

/-- A finished line is enough for an answer. -/
def Decides (r : Rule α) : Prop :=
  ∀ d line, Bytes.Finished line → (r ⟨false, d⟩ (line ++ [0x0A])).Settled

theorem Lined.decides (hr : Lined r) : Decides r := by
  intro d _ _
  exact hr d _ (by simp)

namespace Decides

theorem behind (hr : Built .text .wary r) (hn : ∀ a, Decides (next a)) : Decides (r >>= next) := by
  intro d line hline
  have hfirst := hr.confined d line hline
  refine bind_settled hfirst.settled fun a n ha => ?_
  rw [ha] at hfirst
  cases hfirst with
  | done _ le =>
    rw [List.drop_append_of_le_length le]
    exact hn a d _ (hline.drop n)

theorem refine {judge : α → Except Failure β} (hr : Decides r)
    (hj : ∀ a why, judge a = .error why → why.Here) : Decides (r.refine judge) := by
  intro d line hline
  exact refine_settled (hr d line hline) hj

theorem alt (hr : Decides r) (ho : Decides other) : Decides (r.alt other) := by
  intro d line hline
  exact alt_settled (hr d line hline) (ho d line hline)

theorem map (hr : Decides r) (f : α → β) : Decides (f <$> r) := by
  intro d line hline
  apply bind_settled (hr d line hline)
  intro a _ _
  exact .done (f a) 0

end Decides

end Rule

open Rule

theorem Status.greetingRule_lined : Lined Status.greetingRule := by
  refine .behind (.expect _ _ (by decide)) fun _ => ?_
  refine .behind space_built fun _ => ?_
  refine .behind greeting_built fun _ => ?_
  refine lineEnd_lined.bind_settled fun _ _ _ => ?_
  exact ofExcept_settled _ _ _

theorem Status.fatalRule_lined : Lined fatalRule := by
  refine .behind (.expect _ _ (by decide)) fun _ => ?_
  refine .behind space_built fun _ => ?_
  refine .behind (condition_built _) fun _ => ?_
  refine lineEnd_lined.bind_settled fun _ _ _ => ?_
  exact ofExcept_settled _ _ _

theorem Status.doneRule_decides : Decides doneRule := by
  have htagged := taggedRule_lined.decides
  have hfatal := fatalRule_lined.decides
  exact htagged.alt hfatal

theorem lineEnd_decides {α : Type} (a : α) : Decides (do lineEnd; return a : Rule α) := by
  apply Lined.decides
  refine lineEnd_lined.bind_settled fun _ _ _ => ?_
  exact .done a 0

theorem Response.dataRule_decides : Decides Response.dataRule := by
  refine .behind (.expect _ _ (by decide)) fun _ => ?_
  refine .behind space_built fun _ => ?_
  exact .refine (.behind untaggedRule_built fun r => lineEnd_decides r) fun _ _ => complete_here

theorem Response.rule_decides : Decides Response.rule := by
  apply (Continuation.rule_lined.decides.map _).alt
  exact Response.dataRule_decides.alt (Status.doneRule_decides.map _)

theorem Response.greetingRule_decides : Decides Response.greetingRule := by
  have hgreeting := Status.greetingRule_lined.decides
  exact hgreeting.map _

theorem Command.rule_decides : Decides Command.rule := by
  refine .behind tag_built fun _ => ?_
  refine .behind space_built fun _ => ?_
  refine .behind CommandBody.rule_built fun _ => ?_
  exact lineEnd_decides _

theorem Source.rule_decides {source : Source} (named : source ≠ .unnamed) (units : Nat) :
    Decides (source.rule units) := by
  cases source with
  | unnamed => exact absurd rfl named
  | server greeting =>
    simp only [Source.rule]
    split
    · exact Response.greetingRule_decides.map _
    · exact Response.rule_decides.map _
  | client => exact Command.rule_decides.map _

/-- The outcome of octets that begin with a line of `size` octets, as that of the line alone: a unit
that is the line, or bad syntax of the same class at the same place. -/
inductive Outcome.OfLine {α : Type} (size : Nat) : Outcome α → Outcome α → Prop
  | done (v : α) : OfLine size (.done v size) (.done v size)
  | failed {why why' : Failure} (bad : why.isBadSyntax = true) (kind : why.class? = why'.class?)
    (place : why.position? = why'.position?) : OfLine size (.failed why) (.failed why')

theorem Outcome.OfLine.not_short {α : Type} {size : Nat} {whole alone : Outcome α}
    (h : whole.OfLine size alone) : ¬whole.IsShort := by
  rintro ⟨why, rfl, hshort⟩
  cases h with
  | failed bad =>
    exact (Failure.decided_iff why).mp (Failure.decided_of_isBadSyntax bad) hshort

theorem Outcome.OfLine.done_of {α : Type} {size n : Nat} {whole : Outcome α} {v : α}
    (h : whole.OfLine size (.done v n)) : whole = .done v size := by
  cases h
  rfl

namespace Rule

variable {α : Type} {r : Rule α} {d : Dialect}

/-- A unit that is found on a line takes up that line. -/
theorem Ends.used_eq (he : Ends r) {ctx : Context} {line : Bytes} (hline : 0x0A ∉ line) {v : α}
    {n : Nat} (h : r ctx (line ++ [0x0A]) = .done v n) : n = line.length + 1 := by
  obtain ⟨pre, tail, hbs, rfl, -⟩ := he _ _ _ _ h
  rcases List.append_eq_append_iff.mp hbs with ⟨more, rfl, hmore⟩ | ⟨more, rfl, hmore⟩
  · cases more with
    | nil => rw [List.append_nil]
    | cons b more => simp at hmore
  · cases more with
    | nil => rw [List.append_nil]
    | cons b more =>
      cases hmore
      exact absurd (List.mem_append_right _ (List.mem_cons_self ..)) hline

/-- With its answer on the line, a unit has it for all longer octets and when they are complete. -/
theorem Decides.ofLine (hr : Decides r) (he : Ends r) (hb : Built .unit .willing r)
    (hq : d.knowsQuota = true) {line : Bytes} (hline : line.Finished) (tail : Bytes)
    (complete complete' : Bool) :
    (r ⟨complete, d⟩ (line ++ 0x0A :: tail)).OfLine (line.length + 1)
      (r ⟨complete', d⟩ (line ++ [0x0A])) := by
  have hsplit : line ++ 0x0A :: tail = line ++ [0x0A] ++ tail := by simp
  have either (bs : Bytes) (h : (r ⟨false, d⟩ bs).Settled) (c : Bool) :
      r ⟨c, d⟩ bs = r ⟨false, d⟩ bs := by
    cases c with
    | false => rfl
    | true => exact (hb.conclusive d bs).eq_of_settled h
  have halone := hr d line hline
  rw [either _ halone, hsplit]
  generalize ho : r ⟨false, d⟩ (line ++ [0x0A]) = o at halone
  cases halone with
  | done v n =>
    have hwhole := hb.steady.done_append tail ho
    rw [either _ (hwhole ▸ .done v n), hwhole, he.used_eq hline.inLine ho]
    exact .done v
  | failed decided =>
    obtain ⟨why', hwhole, alike⟩ := hb.steady.failed_append tail decided ho
    have bad : why'.isBadSyntax = true := by
      refine Failure.Decided.isBadSyntax (alike.symm.trans alike) fun refusal hr => ?_
      rw [hr] at hwhole
      exact hb.willing _ _ _ hq hwhole
    rw [either _ (hwhole ▸ .failed (alike.symm.trans alike)), hwhole]
    exact .failed bad alike.class?_eq.symm alike.position?_eq.symm

end Rule

/-- A reader has no reason to wait in front of a finished line. -/
theorem Reader.Rests.bad_of_finished {r : Reader} (h : r.Rests) (named : r.source ≠ .unnamed)
    {line tail : Bytes} (hline : line.Finished) (hbuffer : r.buffer = line ++ 0x0A :: tail) :
    ∃ why, r.Tries ∧ r.next = .failed why ∧ why.isBadSyntax = true := by
  cases h with
  | empty nothing =>
    rw [nothing] at hbuffer
    simp at hbuffer
  | short something failed =>
    have hnext := (Source.rule_decides named r.units).ofLine (Source.rule_ends named r.units)
      (Source.rule_built named r.units) (Source.knowsQuota named) hline tail false false
    rw [Reader.next, Source.decode, hbuffer] at failed
    exact absurd ⟨_, failed, rfl⟩ hnext.not_short
  | bad tries failed bad => exact ⟨_, tries, failed, bad⟩

namespace Grammar

/-- Octets that begin with a finished line are a unit that is this line, or bad syntax there, and
never short; which of them the line tells by itself, whether or not more may come. So a reader that
is left with such a line in front has found it bad, and says so when it is fed next. -/
theorem run_ofLine {line : Bytes} (hline : line.Finished) (tail : Bytes)
    (complete complete' : Bool) :
    let whole := line ++ 0x0A :: tail
    let alone := line ++ [0x0A]
    let size := line.length + 1
    (Response.greetingRule ⟨complete, .response⟩ whole).OfLine size
        (Response.greetingRule ⟨complete', .response⟩ alone) ∧
      (Response.rule ⟨complete, .response⟩ whole).OfLine size
        (Response.rule ⟨complete', .response⟩ alone) ∧
      (Command.rule ⟨complete, .command⟩ whole).OfLine size
        (Command.rule ⟨complete', .command⟩ alone) ∧
      (run ⟨complete, .response⟩ (some "greeting") whole).OfLine size
        (run ⟨complete', .response⟩ (some "greeting") alone) ∧
      (run ⟨complete, .response⟩ (some "response") whole).OfLine size
        (run ⟨complete', .response⟩ (some "response") alone) ∧
      (run ⟨complete, .command⟩ (some "command") whole).OfLine size
        (run ⟨complete', .command⟩ (some "command") alone) ∧
      ∀ (source : Source) (chunks : List Bytes), source ≠ .unnamed →
        let last := ((Reader.new source).feedAll chunks).2
        last.buffer = whole →
          ∃ why, (last.feed []).raised = some why ∧ why.isBadSyntax = true := by
  intro whole alone size
  have unit {α : Type} {r : Rule α} {d : Dialect} (hd : Decides r) (he : Ends r)
      (hb : Built .unit .willing r) (hq : d.knowsQuota = true) :
      (r ⟨complete, d⟩ whole).OfLine size (r ⟨complete', d⟩ alone) :=
    hd.ofLine he hb hq hline tail complete complete'
  have named {d : Dialect} {name : Option String} {r : Rule Term} (hfind : find d name = .ok r)
      (h : (r ⟨complete, d⟩ whole).OfLine size (r ⟨complete', d⟩ alone)) :
      (run ⟨complete, d⟩ name whole).OfLine size (run ⟨complete', d⟩ name alone) := by
    simpa only [run_of_find hfind] using h
  obtain ⟨hgreeting, hresponse, hcommand⟩ := find_units
  refine ⟨?_, ?_, ?_, ?_, ?_, ?_, ?_⟩
  · exact unit Response.greetingRule_decides Response.greetingRule_ends
      Response.greetingRule_built rfl
  · exact unit Response.rule_decides Response.rule_ends Response.rule_built rfl
  · exact unit Command.rule_decides Command.rule_ends Command.rule_built rfl
  · apply named hgreeting
    exact unit (Response.greetingRule_decides.map _) (Response.greetingRule_ends.map _)
      (Response.greetingRule_built.map _) rfl
  · apply named hresponse
    exact unit (Response.rule_decides.map _) (Response.rule_ends.map _)
      (Response.rule_built.map _) rfl
  · apply named hcommand
    exact unit (Command.rule_decides.map _) (Command.rule_ends.map _) (Command.rule_built.map _) rfl
  · intro source chunks hsource last hbuffer
    have hfed := Reader.feedAll_fed (r := .new source) hsource (.empty rfl rfl) chunks
    have hlast : last.source ≠ .unnamed := by rw [hfed.source_eq]; exact hsource
    obtain ⟨why, tries, failed, bad⟩ := hfed.rests.bad_of_finished hlast hline hbuffer
    obtain ⟨raised, hraised, -, -, -, alike⟩ := Reader.feed_bad hlast tries failed bad []
    exact ⟨raised, hraised, by rw [← alike.isBadSyntax_eq, bad]⟩

/-- A size in braces announces nothing in the middle of a line. -/
theorem run_ofLine_braces :
    Bytes.Finished (Bytes.ofText "* OK \x7b3\x7d!") ∧
      Response.rule ⟨false, .response⟩ (Bytes.ofText "* OK \x7b3\x7d!" ++ 0x0A :: Bytes.ofText "+ ") =
        .done (.status ⟨.ok, "\x7b3\x7d!", none, none⟩) 10 := by
  have hline : Bytes.Finished (Bytes.ofText "* OK \x7b3\x7d!") :=
    ⟨by decide, fun h => absurd h.getLast (by decide)⟩
  have halone : Response.rule ⟨true, .response⟩ (Bytes.ofText "* OK \x7b3\x7d!" ++ [0x0A]) =
      .done (.status ⟨.ok, "\x7b3\x7d!", none, none⟩) 10 := by
    decide +kernel
  have h := (run_ofLine hline (Bytes.ofText "+ ") false true).2.1
  rw [halone] at h
  exact ⟨hline, h.done_of⟩

end Grammar

end Imap
