import Imap.Proofs.Reader.Salvage

namespace Imap

namespace Feed

/-- Whether a chunk is answered with bad octets. -/
def isBad (f : Feed) : Bool := f.raised.any Failure.isBadSyntax

/-- Whether there is nothing more to do before more octets arrive. -/
def isOver (f : Feed) : Bool := !f.isBad && f.returned.isEmpty

/-- The answer to a chunk, and what is done about bad octets: a line of them is thrown away. -/
def resume (f : Feed) : List Answer × Reader :=
  if f.isBad then ([.fed f, .skipped f.reader.skipLine.1], f.reader.skipLine.2)
  else ([.fed f], f.reader)

end Feed

namespace Reader

variable {r : Reader} {decoded : Bool} {f : Feed}

theorem feed_unnamed (h : r.source = .unnamed) (chunk : Bytes) : (r.feed chunk).isOver = true := by
  change ((r.extend chunk).drain false).isOver = true
  by_cases tries : (r.extend chunk).Tries
  · have hextend : (r.extend chunk).source = .unnamed := h
    rw [drain_failed tries (next_unnamed hextend)]
    rfl
  · rw [drain_wait tries]
    rfl

theorem Drains.shrinks (h : Drains decoded r f) :
    f.reader.buffer.length + f.units.length ≤ r.buffer.length := by
  induction h with
  | wait => exact Nat.le_refl _
  | short tries failed => rw [units_of_failed failed]; exact Nat.le_refl _
  | bad tries failed bad => rw [units_of_failed failed]; exact Nat.le_refl _
  | @unit decoded r u used more tries done rest ih =>
    obtain ⟨hpos, hle, -⟩ := Source.decode_done_span done
    have hpast : (r.past used).buffer.length = r.buffer.length - used := List.length_drop
    rw [units_of_done done, List.length_cons]
    show more.reader.buffer.length + _ ≤ _
    omega

theorem Drains.bad_eq (h : Drains decoded r f) (bad : f.isBad = true) :
    decoded = false ∧ f.reader = r ∧ f.units = [] ∧ r.Tries ∧
      ∃ why, r.next = .failed why ∧ why.isBadSyntax = true := by
  cases hraised : f.raised with
  | none => rw [Feed.isBad, hraised] at bad; cases bad
  | some why =>
    obtain ⟨hdecoded, hf, tries, failed, hwhy⟩ := h.raised_eq hraised
    have hreader : f.reader = r := by rw [hf]
    have hunits : f.units = [] := by rw [hf, units_of_failed failed]
    exact ⟨hdecoded, hreader, hunits, tries, why, failed, hwhy⟩

theorem skipLine_eq (r : Reader) :
    r.skipLine = (r.buffer.line, { r with buffer := r.buffer.behindLine, waitFor := 0 }) := rfl

theorem extend_nil (r : Reader) : r.extend [] = r := by simp [extend]

/-- As long as it is not over, the buffer gets shorter. -/
theorem resume_shrinks (h : ¬(r.feed []).isOver) :
    (r.feed []).resume.2.buffer.length < r.buffer.length := by
  have named : r.source ≠ .unnamed := fun hu => h (feed_unnamed hu [])
  have hfeed := feed_drains named []
  rw [extend_nil] at hfeed
  unfold Feed.resume
  split
  · next bad =>
    obtain ⟨-, hreader, -, tries, -⟩ := hfeed.bad_eq bad
    rw [hreader, skipLine_eq]
    exact Bytes.behindLine_length tries.1
  · next good =>
    have hunits : (r.feed []).units ≠ [] := by
      intro hnil
      apply h
      rw [Feed.isOver, hfeed.returned_eq, hnil, Bool.eq_false_iff.mpr good]
      rfl
    have hle := hfeed.shrinks
    have hpos := List.length_pos_iff.mpr hunits
    show (r.feed []).reader.buffer.length < _
    omega

/-- Feeds nothing until that gives nothing, and throws a line away whenever it is answered with bad
octets. This ends, for every answer but the last makes the buffer shorter. -/
def settle (r : Reader) : List Answer × Reader :=
  if (r.feed []).isOver then (r.feed []).resume
  else
    let more := (r.feed []).resume.2.settle
    ((r.feed []).resume.1 ++ more.1, more.2)
termination_by r.buffer.length
decreasing_by exact resume_shrinks ‹_›

/-- Feeds a chunk, and then nothing until that gives nothing. -/
def drive (r : Reader) (chunk : Bytes) : List Answer × Reader :=
  let first := (r.feed chunk).resume
  (first.1 ++ first.2.settle.1, first.2.settle.2)

def driveAll (r : Reader) : List Bytes → List Answer × Reader
  | [] => ([], r)
  | chunk :: chunks =>
    let more := (r.drive chunk).2.driveAll chunks
    ((r.drive chunk).1 ++ more.1, more.2)

end Reader

namespace Answer

def skips : Answer → List Bytes
  | fed _ => []
  | skipped octets => [octets]

/-- All that the answers amount to, and what is left over. -/
def sum (answers : List Answer) (rest : Bytes) : Salvage :=
  ⟨answers.flatMap returned, answers.flatMap skips, rest⟩

theorem sum_append (answers answers' : List Answer) (rest rest' : Bytes) :
    sum (answers ++ answers') rest' = (sum answers rest).before (sum answers' rest') := by
  simp only [sum, Salvage.before, List.flatMap_append]

/-- Whether only whole lines were thrown away. -/
def Whole (answers : List Answer) : Prop := ∀ octets ∈ answers.flatMap skips, 0x0A ∈ octets

instance (answers : List Answer) : Decidable (Whole answers) :=
  inferInstanceAs (Decidable (∀ octets ∈ answers.flatMap skips, 0x0A ∈ octets))

theorem whole_append {answers answers' : List Answer} :
    Whole (answers ++ answers') ↔ Whole answers ∧ Whole answers' := by
  show (sum (answers ++ answers') []).Whole ↔ _
  rw [sum_append answers answers' [] []]
  exact Salvage.whole_before

end Answer

namespace Reader

variable {r : Reader} {decoded : Bool} {f : Feed}

def salvage (r : Reader) : Salvage := r.source.salvage r.units r.buffer

/-- There is nothing to be had of the buffer before more octets arrive. -/
def Still (r : Reader) : Prop := r.salvage = ⟨[], [], r.buffer⟩

theorem Drains.salvage_eq (h : Drains decoded r f) :
    r.salvage = Salvage.before ⟨f.units, [], []⟩ f.reader.salvage := by
  induction h with
  | wait => rfl
  | short tries failed => rw [units_of_failed failed]; rfl
  | bad tries failed bad => rw [units_of_failed failed]; rfl
  | @unit decoded r u used more tries done rest ih =>
    have hdone : r.salvage = Salvage.before ⟨[u], [], []⟩ (r.past used).salvage :=
      Source.salvage_done done
    rw [hdone, ih, units_of_done done, ← Salvage.before_assoc]
    rfl

/-- How a reader stands to one in whose buffer there is all that it was answered. -/
structure Onward (r : Reader) (answers : List Answer) (last : Reader) : Prop where
  ready : last.Ready
  source_eq : last.source = r.source
  units_eq : last.units = r.units + (answers.flatMap Answer.returned).length
  salvage_eq : r.salvage = (Answer.sum answers []).before last.salvage

theorem Onward.trans {r' r'' : Reader} {answers answers' : List Answer} (h : Onward r answers r')
    (h' : Onward r' answers' r'') : Onward r (answers ++ answers') r'' where
  ready := h'.ready
  source_eq := h'.source_eq.trans h.source_eq
  units_eq := by
    rw [h'.units_eq, h.units_eq, List.flatMap_append, List.length_append, Nat.add_assoc]
  salvage_eq := by
    rw [Answer.sum_append answers answers' [] [], Salvage.before_assoc, ← h'.salvage_eq]
    exact h.salvage_eq

theorem resume_onward (hr : r.Ready) (h : Drains false r f) : Onward r f.resume.1 f.resume.2 := by
  unfold Feed.resume
  split
  · next bad =>
    obtain ⟨-, hreader, hunits, tries, why, failed, hwhy⟩ := h.bad_eq bad
    have hreturned : f.returned = [] := by rw [h.returned_eq, hunits]
    rw [hreader, skipLine_eq]
    refine ⟨ready_of_waitFor rfl, rfl, ?_, ?_⟩
    · simp [Answer.returned, hreturned]
    · have hskip : r.salvage = _ := Source.salvage_bad tries.1 failed hwhy
      have hanswer : Answer.sum [.fed f, .skipped r.buffer.line] [] =
          ⟨[], [r.buffer.line], []⟩ := by
        simp [Answer.sum, Answer.returned, Answer.skips, hreturned]
      rw [hskip, hanswer]
      rfl
  · have hanswer : Answer.sum [.fed f] [] = ⟨f.units, [], []⟩ := by
      simp [Answer.sum, Answer.returned, Answer.skips, h.returned_eq]
    refine ⟨(h.rests hr).ready, h.source_eq, ?_, ?_⟩
    · rw [h.units_eq]
      simp [Answer.returned, h.returned_eq]
    · rw [hanswer]
      exact h.salvage_eq

theorem still_of_wait (hr : r.Ready) (waits : ¬r.Tries) : r.Still := by
  by_cases hnil : r.buffer = []
  · rw [Still, salvage, hnil, Source.salvage_nil]
  · have hlt : r.buffer.length < r.waitFor := Nat.lt_of_not_le fun hle => waits ⟨hnil, hle⟩
    obtain ⟨missing, needed, position, failed, -⟩ := hr.waits hlt
    exact Source.salvage_stuck failed rfl

/-- When it is over, the octets that are left are to no purpose. -/
theorem still_of_over (hr : r.Ready) (h : Drains false r f) (hover : f.isOver = true) :
    f.reader.Still := by
  rw [Feed.isOver, Bool.and_eq_true, Bool.not_eq_true', h.returned_eq] at hover
  cases h with
  | wait waits => exact still_of_wait hr waits
  | short tries failed =>
    have hstuck : r.source.salvage r.units r.buffer = _ := Source.salvage_stuck failed rfl
    exact hstuck
  | bad tries failed bad =>
    have hno : true = false := bad.symm.trans hover.1
    cases hno
  | unit tries done rest =>
    rw [units_of_done done] at hover
    cases hover.2

theorem settle_onward (named : r.source ≠ .unnamed) (hr : r.Ready) :
    Onward r r.settle.1 r.settle.2 ∧ r.settle.2.Still := by
  induction hk : r.buffer.length using Nat.strongRecOn generalizing r with
  | ind k ih =>
  have h : Drains false r (r.feed []) := by
    have hfeed := feed_drains named []
    rwa [extend_nil] at hfeed
  have hfirst := resume_onward hr h
  rw [settle]
  split
  · next hover =>
    refine ⟨hfirst, ?_⟩
    have hgood : (r.feed []).isBad = false := by
      rw [Feed.isOver, Bool.and_eq_true, Bool.not_eq_true'] at hover
      exact hover.1
    rw [Feed.resume, hgood]
    exact still_of_over hr h hover
  · next more =>
    have hlt := resume_shrinks more
    have hnamed : (r.feed []).resume.2.source ≠ .unnamed := by rw [hfirst.source_eq]; exact named
    obtain ⟨hrest, hstill⟩ := ih _ (by omega) hnamed hfirst.ready rfl
    exact ⟨hfirst.trans hrest, hstill⟩

/-- A reader between the chunks of a driver. -/
structure Idle (r : Reader) : Prop where
  named : r.source ≠ .unnamed
  ready : r.Ready
  still : r.Still

theorem idle_new {source : Source} (named : source ≠ .unnamed) : (new source).Idle := by
  refine ⟨named, ?_, Source.salvage_nil⟩
  exact ready_of_waitFor rfl

/-- How a reader stands to what it was before `more` arrived, once it was answered all of it. -/
structure Driven (r : Reader) (more : Bytes) (answers : List Answer) (last : Reader) : Prop where
  idle : last.Idle
  source_eq : last.source = r.source
  units_eq : last.units = r.units + (answers.flatMap Answer.returned).length
  salvage_eq : r.source.salvage r.units (r.buffer ++ more) = Answer.sum answers last.buffer

theorem drive_driven (h : r.Idle) (chunk : Bytes) :
    Driven r chunk (r.drive chunk).1 (r.drive chunk).2 := by
  have hfirst := resume_onward (h.ready.extend h.named chunk) (feed_drains h.named chunk)
  have hnamed : (r.feed chunk).resume.2.source ≠ .unnamed := by
    rw [hfirst.source_eq]
    exact h.named
  obtain ⟨hrest, hstill⟩ := settle_onward hnamed hfirst.ready
  have hall := hfirst.trans hrest
  have hlast : (r.drive chunk).2.source ≠ .unnamed := by
    show (r.feed chunk).resume.2.settle.2.source ≠ _
    rw [hrest.source_eq]
    exact hnamed
  refine ⟨⟨hlast, hall.ready, hstill⟩, hall.source_eq, hall.units_eq, ?_⟩
  show (r.extend chunk).salvage = _
  rw [hall.salvage_eq, hstill]
  simp [Answer.sum, Salvage.before, drive]

theorem Driven.trans {r' r'' : Reader} {c c' : Bytes} {answers answers' : List Answer}
    (named : r.source ≠ .unnamed) (h : Driven r c answers r') (h' : Driven r' c' answers' r'')
    (whole : Answer.Whole answers) : Driven r (c ++ c') (answers ++ answers') r'' where
  idle := h'.idle
  source_eq := h'.source_eq.trans h.source_eq
  units_eq := by
    rw [h'.units_eq, h.units_eq, List.flatMap_append, List.length_append, Nat.add_assoc]
  salvage_eq := by
    have hsecond : r.source.salvage (r.units + (answers.flatMap Answer.returned).length)
        (r'.buffer ++ c') = Answer.sum answers' r''.buffer := by
      rw [← h.units_eq, ← h.source_eq]
      exact h'.salvage_eq
    have happend := Source.salvage_append named r.units (r.buffer ++ c) c' (by rwa [h.salvage_eq])
    rw [h.salvage_eq] at happend
    rw [← List.append_assoc, happend, Answer.sum_append answers answers' r'.buffer, ← hsecond]
    rfl

theorem driveAll_append (r : Reader) (cs cs' : List Bytes) : r.driveAll (cs ++ cs') =
    ((r.driveAll cs).1 ++ ((r.driveAll cs).2.driveAll cs').1,
      ((r.driveAll cs).2.driveAll cs').2) := by
  induction cs generalizing r with
  | nil => rfl
  | cons c cs ih => simp only [List.cons_append, driveAll, ih, List.append_assoc]

theorem driveAll_singleton (r : Reader) (chunk : Bytes) : r.driveAll [chunk] = r.drive chunk := by
  simp only [driveAll, List.append_nil]

theorem driveAll_driven (h : r.Idle) {chunks : List Bytes}
    (whole : Answer.Whole (r.driveAll chunks).1) :
    Driven r chunks.flatten (r.driveAll chunks).1 (r.driveAll chunks).2 := by
  induction chunks generalizing r with
  | nil =>
    refine ⟨h, rfl, rfl, ?_⟩
    rw [List.flatten_nil, List.append_nil]
    exact h.still
  | cons chunk chunks ih =>
    obtain ⟨hwhole, hrest⟩ := Answer.whole_append.mp whole
    have hfirst := drive_driven h chunk
    have hthen := ih hfirst.idle hrest
    exact hfirst.trans h.named hthen hwhole

theorem driveAll_snoc (h : r.Idle) {chunks : List Bytes}
    (whole : Answer.Whole (r.driveAll chunks).1) (chunk : Bytes) :
    Driven r (chunks.flatten ++ chunk) (r.driveAll (chunks ++ [chunk])).1
      (r.driveAll (chunks ++ [chunk])).2 := by
  have hfirst := driveAll_driven h whole
  have hthen := drive_driven hfirst.idle chunk
  rw [driveAll_append, driveAll_singleton]
  exact hfirst.trans h.named hthen whole

/-- Whatever was read before, there is a line that is a unit next. -/
theorem exists_line (source : Source) (named : source ≠ .unnamed) (units : Nat) :
    ∃ l u, 0x0A ∉ l ∧ source.decode units (l ++ [0x0A]) = .done u (l ++ [0x0A]).length := by
  cases source with
  | unnamed => exact absurd rfl named
  | server greeting =>
    refine ⟨Bytes.ofText "* OK hi\r", .response (.status ⟨.ok, "hi", none, none⟩), by decide, ?_⟩
    by_cases first : greeting ∧ units = 0
    · have hrule : (Source.server greeting).rule units = .response <$> Response.greetingRule := by
        simp only [Source.rule, if_pos first]
      rw [Source.decode, hrule]
      show (WireUnit.response <$> Response.greetingRule) ⟨false, .response⟩ _ = _
      decide +kernel
    · have hrule : (Source.server greeting).rule units = .response <$> Response.rule := by
        simp only [Source.rule, if_neg first]
      rw [Source.decode, hrule]
      show (WireUnit.response <$> Response.rule) ⟨false, .response⟩ _ = _
      decide +kernel
  | client =>
    refine ⟨Bytes.ofText "a NOOP\r", .command ⟨"a", .simple "NOOP"⟩, by decide, ?_⟩
    show Source.client.decode 0 _ = _
    decide +kernel

/-- Between lines a reader gives the unit that is the next line. -/
theorem drive_line (h : r.Idle) (hnil : r.buffer = []) {line : Bytes} {u : WireUnit}
    (hline : r.source.decode r.units line = .done u line.length) :
    (r.drive line).1.flatMap Answer.returned = [u] := by
  have hdriven := (drive_driven h line).salvage_eq
  have hdone : r.source.salvage r.units line = ⟨[u], [], []⟩ := by
    rw [Source.salvage_done hline, List.drop_length, Source.salvage_nil]
    rfl
  rw [hnil, List.nil_append, hdone] at hdriven
  exact (congrArg Salvage.units hdriven).symm

/-- If it does not matter whether what follows was there already, the last chunk did not have a line
thrown away too early. -/
theorem whole_of_same (h : r.Idle) {chunks : List Bytes} {chunk : Bytes}
    (whole : Answer.Whole (r.driveAll chunks).1)
    (same : ∀ more, (r.driveAll (chunks ++ [chunk] ++ [more])).1.flatMap Answer.returned =
      (r.driveAll [chunks.flatten ++ chunk ++ more]).1.flatMap Answer.returned) :
    Answer.Whole (r.driveAll (chunks ++ [chunk])).1 := by
  apply Decidable.byContradiction
  intro broken
  have hcut := driveAll_snoc h whole chunk
  have hlast := hcut.idle
  obtain ⟨l, u, hl, hline⟩ := exists_line _ hlast.named (r.driveAll (chunks ++ [chunk])).2.units
  have hbroken : ¬(r.source.salvage r.units (r.buffer ++ (chunks.flatten ++ chunk))).Whole := by
    rw [hcut.salvage_eq]
    exact broken
  obtain ⟨hunits, hrest⟩ := Source.salvage_late h.named hl _ _ hbroken
  rw [hcut.salvage_eq] at hunits hrest
  -- Cut here, the next line is a unit; in one piece, it is thrown away with what is before it.
  have hlate : (r.driveAll (chunks ++ [chunk] ++ [l ++ [0x0A]])).1.flatMap Answer.returned =
      (r.driveAll (chunks ++ [chunk])).1.flatMap Answer.returned ++ [u] := by
    rw [driveAll_append, List.flatMap_append, driveAll_singleton, drive_line hlast hrest hline]
  have honce : (r.driveAll [chunks.flatten ++ chunk ++ (l ++ [0x0A])]).1.flatMap Answer.returned =
      (r.driveAll (chunks ++ [chunk])).1.flatMap Answer.returned := by
    have hpiece := (drive_driven h (chunks.flatten ++ chunk ++ (l ++ [0x0A]))).salvage_eq
    rw [← List.append_assoc] at hpiece
    rw [driveAll_singleton]
    exact (congrArg Salvage.units hpiece).symm.trans hunits
  have hsame := same (l ++ [0x0A])
  rw [hlate, honce] at hsame
  have hlength := congrArg List.length hsame
  rw [List.length_append, List.length_singleton] at hlength
  omega

/-- How the octets of bad lines are cut matters to the driver, who throws a line away whenever a
chunk is answered with bad octets, in exactly one way. If all that it threw away were whole lines,
it makes no difference, here or at the end of any of the chunks, whether what follows was there
already; otherwise it does. Cut in two such ways, the same octets give the same units. -/
theorem driveAll_whole_iff (source : Source) (named : source ≠ .unnamed) (chunks : List Bytes) :
    let run := fun cs => ((new source).driveAll cs).1
    (Answer.Whole (run chunks) ↔ ∀ before, before <+: chunks → ∀ more,
      (run (before ++ [more])).flatMap Answer.returned =
        (run [before.flatten ++ more]).flatMap Answer.returned) ∧
      ∀ others, others.flatten = chunks.flatten →
        Answer.Whole (run chunks) → Answer.Whole (run others) →
          (run others).flatMap Answer.returned = (run chunks).flatMap Answer.returned ∧
            (run others).flatMap Answer.skips = (run chunks).flatMap Answer.skips := by
  intro run
  have h := idle_new named
  refine ⟨⟨?_, ?_⟩, ?_⟩
  · rintro whole before ⟨after, rfl⟩ more
    have hbefore : Answer.Whole (run before) := by
      have hsplit := congrArg Prod.fst (driveAll_append (new source) before after)
      simp only [run, hsplit] at whole
      exact (Answer.whole_append.mp whole).1
    have hcut := driveAll_snoc h hbefore more
    have honce := drive_driven h (before.flatten ++ more)
    rw [← driveAll_singleton] at honce
    exact congrArg Salvage.units (hcut.salvage_eq.symm.trans honce.salvage_eq)
  · intro same
    have htake : ∀ n, Answer.Whole (run (chunks.take n)) := by
      intro n
      induction n with
      | zero => exact nofun
      | succ n ih =>
        have hsame := same (chunks.take (n + 1)) (List.take_prefix _ _)
        rw [List.take_add_one] at hsame ⊢
        cases hchunk : chunks[n]? with
        | none => simpa using ih
        | some chunk =>
          rw [hchunk] at hsame
          apply whole_of_same h ih
          simpa using hsame
    have hall := htake chunks.length
    rwa [List.take_length] at hall
  · intro others same whole whole'
    have hthese := (driveAll_driven h whole).salvage_eq
    have hothers := (driveAll_driven h whole').salvage_eq
    rw [same, hthese] at hothers
    exact ⟨(congrArg Salvage.units hothers).symm, (congrArg Salvage.skipped hothers).symm⟩

/-- A bad line that is there to its end, and a unit that is cut. -/
theorem driveAll_bad_line :
    let run := fun cs => ((new (.server false)).driveAll cs).1
    Source.server false ≠ .unnamed ∧
      (run [Bytes.ofText "(* OK no\r\n* O", Bytes.ofText "K hi\r\n"]).flatMap Answer.returned =
        [.response (.status ⟨.ok, "hi", none, none⟩)] := by
  refine ⟨by decide, ?_⟩
  have h := driveAll_whole_iff (.server false) (by decide)
    [Bytes.ofText "(* OK no\r\n* OK hi\r\n"]
  have hsame := h.2 [Bytes.ofText "(* OK no\r\n* O", Bytes.ofText "K hi\r\n"] (by decide)
    (by decide +kernel) (by decide +kernel)
  rw [hsame.1]
  decide +kernel

/-- A bad line that is cut: what follows of it is taken for a unit. -/
theorem driveAll_cut_bad_line :
    let run := fun cs => ((new (.server false)).driveAll cs).1
    let cut := [Bytes.ofText "(", Bytes.ofText "* OK hi\r\n"]
    let whole := [Bytes.ofText "(* OK hi\r\n"]
    cut.flatten = whole.flatten ∧
      (run cut).flatMap Answer.returned = [.response (.status ⟨.ok, "hi", none, none⟩)] ∧
      (run whole).flatMap Answer.returned = [] := by
  decide +kernel

end Reader

end Imap
