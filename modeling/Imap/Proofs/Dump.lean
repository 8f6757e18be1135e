import Imap.Dump
import Imap.Proofs.Print
import Imap.Proofs.Reader.Chunks

namespace Imap

namespace Reading

theorem chunks_flatten {size : Nat} (hsize : 0 < size) (bs : Bytes) :
    (chunks size bs).flatten = bs := by
  induction hk : bs.length using Nat.strongRecOn generalizing bs with
  | ind k ih =>
  rw [chunks]
  by_cases hbs : bs = []
  · rw [if_pos (.inl hbs), hbs]
    rfl
  · have hlen : bs.length ≠ 0 := fun h => hbs (List.eq_nil_of_length_eq_zero h)
    have hrest : (chunks size (bs.drop size)).flatten = bs.drop size := by
      refine ih _ ?_ (bs.drop size) rfl
      rw [List.length_drop]
      omega
    have hneither : ¬(bs = [] ∨ size = 0) := fun h => h.elim hbs (Nat.ne_of_gt hsize)
    rw [if_neg hneither, List.flatten_cons, hrest, List.take_append_drop]

/-- How a reading ends where the reference stops. -/
inductive Ends : Option Failure → Source.Decoded → Prop
  | whole (units : List WireUnit) : Ends none ⟨units, [], none⟩
  | cut (units : List WireUnit) {rest : Bytes} (something : rest ≠ [])
    (missing missing' : Shortage) (needed needed' : Option Nat) (position position' : Nat) :
    Ends (some (.short missing needed position))
      ⟨units, rest, some (.short missing' needed' position')⟩
  | wrong (units : List WireUnit) {rest : Bytes} (something : rest ≠ []) {why why' : Failure}
    (bad : why.isBadSyntax = true) (bad' : why'.isBadSyntax = true) :
    Ends (some why) ⟨units, rest, some why'⟩

theorem Ends.behind {failure : Option Failure} {d : Source.Decoded} (h : Ends failure d)
    (us : List WireUnit) : Ends failure (d.behind us) := by
  cases h with
  | whole units => exact .whole (us ++ units)
  | cut units something => exact .cut (us ++ units) something _ _ _ _ _ _
  | wrong units something bad bad' => exact .wrong (us ++ units) something bad bad'

variable {r : Reader}

open Reader in
/-- Feeding nothing answers with what is left: nothing, a unit that is not whole, or an error that
was held back. -/
theorem ofChunks_nil (named : r.source ≠ .unnamed) (hr : r.Rests) :
    (ofChunks r []).units = [] ∧ Ends (ofChunks r []).failure r.remaining := by
  have hsame : r.extend [] = r := by simp [extend]
  have hwait (waits : ¬r.Tries) : r.feed [] = ⟨[], r, none⟩ := by
    change (r.extend []).drain false = _
    rw [hsame]
    exact drain_wait waits
  cases hr with
  | empty nothing ready =>
    have waits : ¬r.Tries := fun tries => tries.1 nothing
    rw [remaining_of_empty nothing]
    simp only [ofChunks, Reading.units, hwait waits, ending?, isPending, nothing]
    exact ⟨rfl, .whole []⟩
  | short something failed waits =>
    have waits : ¬r.Tries := fun tries => by
      have := tries.2
      omega
    have hpending : r.buffer.isEmpty = false := List.isEmpty_eq_false_iff.mpr something
    rw [remaining_of_failed something failed]
    simp only [ofChunks, Reading.units, hwait waits, ending?, isPending, hpending]
    exact ⟨rfl, .cut [] something _ _ _ _ _ _⟩
  | @bad why tries failed bad =>
    obtain ⟨why', hraised, -, -, -, alike⟩ := feed_bad named tries failed bad []
    have hfeed := feed_drains named []
    obtain ⟨-, hf, -, failed', bad'⟩ := hfeed.raised_eq hraised
    rw [remaining_of_failed tries.1 failed]
    simp only [ofChunks, hraised]
    refine ⟨?_, .wrong [] tries.1 bad' bad⟩
    rw [Reading.units, List.flatMap_singleton, hf]
    exact units_of_failed failed' _ _

open Reader in
/-- A reading of chunks gives the units that lie in the octets, and ends as they do. -/
theorem ofChunks_ends (named : r.source ≠ .unnamed) (hr : r.Rests) (chunks : List Bytes) :
    (ofChunks r chunks).units = (r.extend chunks.flatten).remaining.units ∧
      Ends (ofChunks r chunks).failure (r.extend chunks.flatten).remaining := by
  induction chunks generalizing r with
  | nil =>
    have hsame : r.extend [] = r := by simp [extend]
    rw [List.flatten_nil, hsame, hr.remaining_eq.1]
    exact ofChunks_nil named hr
  | cons chunk chunks ih =>
    have hdrains := feed_drains named chunk
    have hfed := feed_fed named hr.ready chunk
    rw [List.flatten_cons]
    cases hraised : (r.feed chunk).raised with
    | some why =>
      -- Whatever chunks are left, the octets that follow do not make the front any better.
      obtain ⟨-, hf, tries, failed, bad⟩ := hdrains.raised_eq hraised
      have named' : (r.extend chunk).source ≠ .unnamed := named
      obtain ⟨why', -, -, tries', failed', alike⟩ :=
        feed_bad named' tries failed bad chunks.flatten
      have hmore : (r.extend chunk).extend chunks.flatten = r.extend (chunk ++ chunks.flatten) := by
        simp only [extend, List.append_assoc]
      have bad' : why'.isBadSyntax = true := by rw [← alike.isBadSyntax_eq, bad]
      rw [hmore] at tries' failed'
      rw [remaining_of_failed tries'.1 failed']
      simp only [ofChunks, hraised]
      refine ⟨?_, .wrong [] tries'.1 bad bad'⟩
      rw [Reading.units, List.flatMap_singleton, hf]
      exact units_of_failed failed _ _
    | none =>
      have hgiven : (r.feed chunk).returned = (r.feed chunk).units := hdrains.returned_eq
      obtain ⟨hunits, hends⟩ := ih (by rw [hfed.source_eq]; exact named) hfed.rests
      rw [hfed.remaining_append]
      simp only [ofChunks, hraised]
      refine ⟨?_, hends.behind _⟩
      rw [Reading.units, List.flatMap_cons, ← hgiven]
      exact congrArg _ hunits

end Reading

namespace Dump

theorem status_of_ends {name : String} {r : Reading} {whole : Source.Decoded}
    (h : Reading.Ends r.failure whole) :
    let status := (ofReading name r).status
    (status = 0 ∨ status = 1 ∨ status = 2) ∧ (status = 0 ↔ whole.rest = []) ∧
      (status = 1 ↔ ∃ why, whole.stop = some why ∧ why.isBadSyntax = true) ∧
      (status = 2 ↔ whole.rest ≠ [] ∧
        ∃ why, whole.stop = some why ∧ why.class? = some .incomplete) := by
  intro status
  cases hfailure : r.failure with
  | none =>
    have hstatus : status = 0 := by simp only [status, ofReading, verdict, hfailure]
    rw [hfailure] at h
    cases h
    simp [hstatus]
  | some why =>
    rw [hfailure] at h
    cases h with
    | cut units something =>
      have hstatus : status = 2 := by simp only [status, ofReading, verdict, hfailure]
      simp [hstatus, something, Failure.isBadSyntax, Failure.class?, FailureClass.lineage]
    | @wrong _ _ something why why' bad bad' =>
      have hstatus : status = 1 := by
        cases why with
        | short => cases bad
        | _ => simp only [status, ofReading, verdict, hfailure]
      have hshort : why'.class? ≠ some .incomplete :=
        (Failure.decided_iff _).mp (Failure.decided_of_isBadSyntax bad')
      simp [hstatus, something, bad', hshort]

/-- A dump prints the units that lie in the capture when it is read from the front all at once, each
on one line, and tells by its status how that ends: with nothing left, at bad octets, or inside a
unit. The size of the chunks makes no difference. -/
theorem ofCapture_eq_decodeAll (name : String) (source : Source) (named : source ≠ .unnamed)
    {chunkSize : Nat} (hsize : 0 < chunkSize) (capture : Bytes) :
    let whole := source.decodeAll 0 capture
    let dump := ofCapture name source chunkSize capture
    dump.lines = whole.units.map (fun unit => (term unit).print) ∧
      (∀ line ∈ dump.lines, '\r' ∉ line.toList ∧ '\n' ∉ line.toList) ∧
      (dump.status = 0 ∨ dump.status = 1 ∨ dump.status = 2) ∧
      (dump.status = 0 ↔ whole.rest = []) ∧
      (dump.status = 1 ↔ ∃ why, whole.stop = some why ∧ why.isBadSyntax = true) ∧
      (dump.status = 2 ↔ whole.rest ≠ [] ∧
        ∃ why, whole.stop = some why ∧ why.class? = some .incomplete) := by
  intro whole dump
  have hchunks : (Reading.chunks chunkSize capture).flatten = capture :=
    Reading.chunks_flatten hsize capture
  obtain ⟨hunits, hends⟩ := Reading.ofChunks_ends (r := .new source) named (.empty rfl rfl)
    (Reading.chunks chunkSize capture)
  rw [hchunks] at hunits hends
  have hwhole : ((Reader.new source).extend capture).remaining = whole := rfl
  rw [hwhole] at hunits hends
  have hlines : dump.lines = whole.units.map (fun unit => (term unit).print) := by
    rw [← hunits]
    rfl
  refine ⟨hlines, ?_, status_of_ends hends⟩
  intro line hline
  rw [hlines, List.mem_map] at hline
  obtain ⟨unit, -, rfl⟩ := hline
  have hone : Text.OneLine (term unit).print := Term.print_oneLine _ (Plain.plain unit)
  exact ⟨fun h => (hone _ h).1 rfl, fun h => (hone _ h).2 rfl⟩

/-- A command that is cut in three, with bad octets behind it. -/
theorem ofCapture_command_cut :
    Source.client ≠ .unnamed ∧ 0 < 3 ∧
      (ofCapture "session" .client 3 (Bytes.ofText "a NOOP\r\n(")).lines =
        ["Command(tag='a', body=SimpleCommand(name='NOOP'))"] ∧
      (ofCapture "session" .client 3 (Bytes.ofText "a NOOP\r\n(")).status = 1 := by
  have hall : Source.client.decodeAll 0 (Bytes.ofText "a NOOP\r\n(") =
      ⟨[.command ⟨"a", .simple "NOOP"⟩], Bytes.ofText "(", some (.miss (.expected .tag) 0)⟩ := by
    decide +kernel
  have h := ofCapture_eq_decodeAll "session" .client (by decide) (by decide : 0 < 3)
    (Bytes.ofText "a NOOP\r\n(")
  rw [hall] at h
  obtain ⟨hlines, -, -, -, hwrong, -⟩ := h
  refine ⟨by decide, by decide, ?_, hwrong.mpr ⟨_, rfl, rfl⟩⟩
  rw [hlines]
  decide +kernel

end Dump

end Imap
