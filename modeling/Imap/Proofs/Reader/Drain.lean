import Imap.Proofs.Unit
import Imap.Reader

namespace Imap

namespace Reader

/-- The attempt at the unit that the buffer begins with. -/
def next (r : Reader) : Outcome WireUnit := r.source.decode r.units r.buffer

/-- The reader behind a unit of `used` octets. -/
def past (r : Reader) (used : Nat) : Reader :=
  { r with buffer := r.buffer.drop used, units := r.units + 1, waitFor := 0 }

/-- The reader once its buffer was found short. -/
def await (r : Reader) (needed : Option Nat) : Reader :=
  { r with waitFor := r.buffer.length + max 1 (needed.getD 1) }

/-- Whether the reader makes an attempt at all. -/
def Tries (r : Reader) : Prop := r.buffer ≠ [] ∧ r.waitFor ≤ r.buffer.length

/-- The ways of the loop over the units of a buffer. -/
inductive Drains : Bool → Reader → Feed → Prop
  | wait {decoded : Bool} {r : Reader} (waits : ¬r.Tries) : Drains decoded r ⟨[], r, none⟩
  | short {decoded : Bool} {r : Reader} {missing : Shortage} {needed : Option Nat} {position : Nat}
    (tries : r.Tries) (failed : r.next = .failed (.short missing needed position)) :
    Drains decoded r ⟨[⟨r, r.next⟩], r.await needed, none⟩
  | bad {decoded : Bool} {r : Reader} {why : Failure} (tries : r.Tries)
    (failed : r.next = .failed why) (bad : why.isBadSyntax = true) :
    Drains decoded r ⟨[⟨r, r.next⟩], r, if decoded then none else some why⟩
  | unit {decoded : Bool} {r : Reader} {u : WireUnit} {used : Nat} {more : Feed} (tries : r.Tries)
    (done : r.next = .done u used) (rest : Drains true (r.past used) more) :
    Drains decoded r { more with attempts := ⟨r, r.next⟩ :: more.attempts }

section

variable {r : Reader} {decoded : Bool}

theorem drain_wait (waits : ¬r.Tries) : r.drain decoded = ⟨[], r, none⟩ := by
  rw [drain, if_pos]
  apply Decidable.byContradiction
  intro h
  rw [not_or] at h
  exact waits ⟨h.1, Nat.le_of_not_lt h.2⟩

theorem next_unnamed (h : r.source = .unnamed) : r.next = .failed (.refused .abstractDialect) := by
  rw [next, h]
  rfl

theorem not_waits (tries : r.Tries) : ¬(r.buffer = [] ∨ r.buffer.length < r.waitFor) := by
  rintro (hnil | hlt)
  · exact tries.1 hnil
  · exact Nat.not_lt_of_le tries.2 hlt

theorem drain_failed {why : Failure} (tries : r.Tries) (failed : r.next = .failed why) :
    r.drain decoded = ⟨[⟨r, r.next⟩], (r.stop decoded why).1, (r.stop decoded why).2⟩ := by
  rw [failed]
  unfold next at failed
  rw [drain, if_neg (not_waits tries)]
  simp only [failed]

theorem drain_done {u : WireUnit} {used : Nat} (tries : r.Tries) (done : r.next = .done u used)
    (hused : used ≠ 0) : r.drain decoded =
      { (r.past used).drain true with
        attempts := ⟨r, r.next⟩ :: ((r.past used).drain true).attempts } := by
  rw [done]
  unfold next at done
  rw [drain, if_neg (not_waits tries)]
  simp only [done, if_neg hused]
  rfl

end

theorem drain_drains (r : Reader) (named : r.source ≠ .unnamed) (decoded : Bool) :
    Drains decoded r (r.drain decoded) := by
  induction hk : r.buffer.length using Nat.strongRecOn generalizing r decoded with
  | ind k ih =>
  by_cases tries : r.Tries
  · cases hnext : r.next with
    | failed why =>
      rw [drain_failed tries hnext]
      cases why with
      | short missing needed position => exact .short tries hnext
      | miss cause position => exact .bad tries hnext (Failure.isBadSyntax_miss _ _)
      | bad cause position => exact .bad tries hnext (Failure.isBadSyntax_bad _ _)
      | refused refusal => exact absurd rfl (Source.decode_not_refused named hnext refusal)
    | done u used =>
      obtain ⟨hpos, hle, -⟩ := Source.decode_done_span hnext
      rw [drain_done tries hnext (by omega)]
      refine .unit tries hnext (ih _ ?_ (r.past used) named true rfl)
      simp only [past, List.length_drop]
      omega
  · rw [drain_wait tries]
    exact .wait tries

section

variable {r : Reader}

theorem units_of_failed {why : Failure} (failed : r.next = .failed why) (after : Reader)
    (raised : Option Failure) : Feed.units ⟨[⟨r, r.next⟩], after, raised⟩ = [] := by
  rw [failed]
  rfl

theorem units_of_done {u : WireUnit} {used : Nat} (done : r.next = .done u used) (more : Feed) :
    Feed.units { more with attempts := ⟨r, r.next⟩ :: more.attempts } = u :: more.units := by
  rw [done]
  rfl

theorem stop_bad {why : Failure} (bad : why.isBadSyntax = true) (decoded : Bool) :
    r.stop decoded why = (r, if decoded then none else some why) := by
  cases why with
  | short => cases bad
  | refused => cases bad
  | _ => rfl

end

/-- A reader that waits knows what for. -/
structure Ready (r : Reader) : Prop where
  empty : r.buffer = [] → r.waitFor = 0
  waits : r.buffer.length < r.waitFor → ∃ missing needed position,
    r.next = .failed (.short missing needed position) ∧
      r.waitFor = r.buffer.length + max 1 (needed.getD 1)

/-- The reader after a chunk: there is no unit in its buffer. -/
inductive Rests (r : Reader) : Prop
  | empty (nothing : r.buffer = []) (ready : r.waitFor = 0)
  | short {missing : Shortage} {needed : Option Nat} {position : Nat} (something : r.buffer ≠ [])
    (failed : r.next = .failed (.short missing needed position))
    (waits : r.waitFor = r.buffer.length + max 1 (needed.getD 1))
  | bad {why : Failure} (tries : r.Tries) (failed : r.next = .failed why)
    (bad : why.isBadSyntax = true)

variable {r : Reader} {decoded : Bool} {f : Feed}

theorem ready_of_waitFor (h : r.waitFor = 0) : r.Ready where
  empty _ := h
  waits hlt := by
    rw [h] at hlt
    exact absurd hlt (Nat.not_lt_zero _)

theorem Rests.ready (h : r.Rests) : r.Ready := by
  cases h with
  | empty nothing ready => exact ready_of_waitFor ready
  | short something failed waits =>
    exact ⟨fun hnil => absurd hnil something, fun _ => ⟨_, _, _, failed, waits⟩⟩
  | bad tries failed bad =>
    exact ⟨fun hnil => absurd hnil tries.1, fun hlt => absurd tries.2 (Nat.not_le_of_lt hlt)⟩

namespace Drains

theorem rests (h : Drains decoded r f) (hr : r.Ready) : f.reader.Rests := by
  induction h with
  | @wait _ r waits =>
    by_cases hnil : r.buffer = []
    · exact .empty hnil (hr.empty hnil)
    · have hlt : r.buffer.length < r.waitFor := Nat.lt_of_not_le fun hle => waits ⟨hnil, hle⟩
      obtain ⟨missing, needed, position, failed, hwait⟩ := hr.waits hlt
      exact .short hnil failed hwait
  | short tries failed => exact .short tries.1 failed rfl
  | bad tries failed bad => exact .bad tries failed bad
  | unit tries done rest ih => exact ih (ready_of_waitFor rfl)

theorem source_eq (h : Drains decoded r f) : f.reader.source = r.source := by
  induction h with
  | unit tries done rest ih => exact ih
  | _ => rfl

theorem units_eq (h : Drains decoded r f) : f.reader.units = r.units + f.units.length := by
  induction h with
  | wait => rfl
  | short tries failed => rw [units_of_failed failed]; rfl
  | bad tries failed bad => rw [units_of_failed failed]; rfl
  | unit tries done rest ih =>
    rw [units_of_done done, List.length_cons, ih]
    simp only [past]
    omega

/-- A failure is raised for the front of the buffer, with nothing read before it. -/
theorem raised_eq (h : Drains decoded r f) {why : Failure} (hw : f.raised = some why) :
    decoded = false ∧ f = ⟨[⟨r, r.next⟩], r, some why⟩ ∧ r.Tries ∧ r.next = .failed why ∧
      why.isBadSyntax = true := by
  induction h with
  | wait => cases hw
  | short => cases hw
  | @bad decoded r why' tries failed bad =>
    cases decoded with
    | true => cases hw
    | false =>
      cases hw
      exact ⟨rfl, rfl, tries, failed, bad⟩
  | unit tries done rest ih =>
    obtain ⟨hdecoded, -⟩ := ih hw
    cases hdecoded

end Drains

end Reader

end Imap
