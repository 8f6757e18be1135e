import Imap.Proofs.Reader.Chunks

namespace Imap

namespace Reader

variable {r : Reader} {why : Failure}

/-- The reader makes an attempt at its buffer, and the octets there are bad. -/
structure Stuck (r : Reader) (why : Failure) : Prop where
  named : r.source ≠ .unnamed
  tries : r.Tries
  failed : r.next = .failed why
  bad : why.isBadSyntax = true

/-- The octets are looked at once and stay where they are. -/
theorem stuck_of_raised {chunk : Bytes} (raised : (r.feed chunk).raised = some why)
    (bad : why.isBadSyntax = true) :
    (r.feed chunk).units = [] ∧ (r.feed chunk).reader = r.extend chunk ∧
      (r.extend chunk).Stuck why := by
  have named : r.source ≠ .unnamed := by
    intro hu
    have hextend : (r.extend chunk).source = .unnamed := hu
    change ((r.extend chunk).drain false).raised = some why at raised
    by_cases tries : (r.extend chunk).Tries
    · rw [drain_failed tries (next_unnamed hextend)] at raised
      cases raised
      cases bad
    · rw [drain_wait tries] at raised
      cases raised
  obtain ⟨-, hfeed, tries, failed, -⟩ := (feed_drains named chunk).raised_eq raised
  rw [hfeed]
  exact ⟨units_of_failed failed _ _, rfl, named, tries, failed, bad⟩

namespace Stuck

theorem feed (h : r.Stuck why) (chunk : Bytes) :
    ∃ again, (r.feed chunk).raised = some again ∧ why.Alike again ∧ (r.feed chunk).units = [] ∧
      (r.feed chunk).reader = r.extend chunk ∧ (r.extend chunk).Stuck again := by
  obtain ⟨again, raised, -, -, -, alike⟩ := feed_bad h.named h.tries h.failed h.bad chunk
  have bad : again.isBadSyntax = true := by rw [← alike.isBadSyntax_eq, h.bad]
  exact ⟨again, raised, alike, stuck_of_raised raised bad⟩

theorem feedAll (h : r.Stuck why) (chunks : List Bytes) :
    ∃ again, why.Alike again ∧ (r.feedAll chunks).2 = r.extend chunks.flatten ∧
      (r.feedAll chunks).2.Stuck again := by
  induction chunks generalizing r why with
  | nil =>
    have hsame : r.extend [].flatten = r := by simp [extend]
    exact ⟨why, Failure.decided_of_isBadSyntax h.bad, hsame.symm, h⟩
  | cons chunk chunks ih =>
    obtain ⟨again, -, alike, -, hreader, hstuck⟩ := h.feed chunk
    obtain ⟨last, alike', hheld, hlast⟩ := ih hstuck
    rw [← hreader] at hheld hlast
    refine ⟨last, alike.trans alike', hheld.trans ?_, hlast⟩
    rw [hreader]
    simp only [extend, List.flatten_cons, List.append_assoc]

end Stuck

/-- A chunk that is answered with bad octets is added to the buffer, which is all that it changes. From
then on every further chunk is answered so, with the same class of failure at the same place, and is
added as well. -/
theorem feed_bad_stuck (r : Reader) (chunk : Bytes) (why : Failure)
    (raised : (r.feed chunk).raised = some why) (bad : why.isBadSyntax = true) :
    (r.feed chunk).units = [] ∧
      (r.feed chunk).reader = { r with buffer := r.buffer ++ chunk } ∧
      ∀ (chunks : List Bytes) (more : Bytes),
        let held := ((r.feed chunk).reader.feedAll chunks).2
        ∃ again, (held.feed more).raised = some again ∧ again.class? = why.class? ∧
          again.position? = why.position? ∧ (held.feed more).units = [] ∧
          (held.feed more).reader =
            { r with buffer := r.buffer ++ chunk ++ chunks.flatten ++ more } := by
  obtain ⟨hunits, hreader, hstuck⟩ := stuck_of_raised raised bad
  refine ⟨hunits, hreader, fun chunks more => ?_⟩
  rw [hreader]
  obtain ⟨last, alike, hheld, hlast⟩ := hstuck.feedAll chunks
  obtain ⟨again, hraised, alike', hnone, hafter, -⟩ := hlast.feed more
  have hsame := alike.trans alike'
  refine ⟨again, hraised, hsame.class?_eq.symm, hsame.position?_eq.symm, hnone, ?_⟩
  rw [hafter, hheld]
  rfl

/-- A literal is waited for, and turns out to be bad before it is there. -/
theorem feed_bad_stuck_literal :
    let r := ((new .client).feed (Bytes.ofText "a LOGIN \x7b3\x7d\r\nx")).reader
    let bad := Failure.bad .nulInLiteral 13
    r.waitFor = 16 ∧ (r.feed [0, 0]).raised = some bad ∧ bad.isBadSyntax = true ∧
      (r.feed [0, 0]).reader.waitFor = 16 ∧
      ∃ again, ((r.feed [0, 0]).reader.feed (Bytes.ofText "\r\n")).raised = some again ∧
        again.class? = some .badSyntax ∧ again.position? = some 13 := by
  intro r bad
  have hwait : r.waitFor = 16 := by decide +kernel
  have raised : (r.feed [0, 0]).raised = some bad := by decide +kernel
  obtain ⟨-, hreader, hmore⟩ := feed_bad_stuck r [0, 0] bad raised rfl
  obtain ⟨again, hraised, hclass, hposition, -⟩ := hmore [] (Bytes.ofText "\r\n")
  refine ⟨hwait, raised, rfl, ?_, again, hraised, hclass, hposition⟩
  rw [hreader]
  exact hwait

end Reader

end Imap
