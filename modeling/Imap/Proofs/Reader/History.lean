import Imap.Proofs.Reader.Chunks

namespace Imap

/-- What a reader can be asked to do. -/
inductive Call where
  | feed (chunk : Bytes)
  | skipLine
  deriving DecidableEq, Repr

def Call.octets : Call → Bytes
  | feed chunk => chunk
  | skipLine => []

/-- A stretch of octets that a reader is through with. -/
inductive Piece where
  | unit (u : WireUnit) (span : Bytes)
  | skipped (octets : Bytes)
  deriving DecidableEq, Repr

namespace Piece

def octets : Piece → Bytes
  | unit _ span => span
  | skipped octets => octets

def unit? : Piece → Option WireUnit
  | unit u _ => some u
  | skipped _ => none

/-- How many of the pieces are units. -/
def count (pieces : List Piece) : Nat := (pieces.filterMap unit?).length

/-- Every unit is read from its own octets and nothing else, by the rule that is in force behind the
units before it. -/
def Legible (source : Source) : Nat → List Piece → Prop
  | _, [] => True
  | units, unit u span :: pieces =>
    source.decode units span = .done u span.length ∧ Legible source (units + 1) pieces
  | units, skipped _ :: pieces => Legible source units pieces

theorem count_cons_unit (u : WireUnit) (span : Bytes) (pieces : List Piece) :
    count (unit u span :: pieces) = count pieces + 1 := rfl

theorem count_append (before after : List Piece) :
    count (before ++ after) = count before + count after := by
  simp [count]

theorem Legible.append {source : Source} {units : Nat} {before after : List Piece}
    (h : Legible source units before) (h' : Legible source (units + count before) after) :
    Legible source units (before ++ after) := by
  induction before generalizing units with
  | nil => exact h'
  | cons piece before ih =>
    cases piece with
    | unit u span =>
      refine ⟨h.1, ih h.2 ?_⟩
      rwa [count_cons_unit, Nat.add_comm (count before), ← Nat.add_assoc] at h'
    | skipped octets => exact ih h h'

end Piece

def Attempt.piece? (a : Attempt) : Option Piece :=
  match a.outcome with
  | .done u used => some (.unit u (a.reader.buffer.take used))
  | .failed _ => none

/-- The units that a chunk is answered with, and their octets. -/
def Feed.pieces (f : Feed) : List Piece :=
  if f.raised.isSome then [] else f.attempts.filterMap Attempt.piece?

theorem Attempt.piece_unit (a : Attempt) : a.piece?.bind Piece.unit? = a.unit? := by
  unfold piece? unit?
  cases a.outcome <;> rfl

theorem Feed.pieces_units (f : Feed) : f.pieces.filterMap Piece.unit? = f.returned := by
  unfold Feed.pieces Feed.returned
  split
  · rfl
  · rw [List.filterMap_filterMap, Feed.units]
    exact congrArg (List.filterMap · f.attempts) (funext Attempt.piece_unit)

/-- What a reader answers to a call. -/
inductive Answer where
  | fed (f : Feed)
  | skipped (octets : Bytes)
  deriving DecidableEq, Repr

namespace Answer

def returned : Answer → List WireUnit
  | fed f => f.returned
  | skipped _ => []

def pieces : Answer → List Piece
  | fed f => f.pieces
  | skipped octets => [.skipped octets]

theorem pieces_units (answers : List Answer) :
    (answers.flatMap pieces).filterMap Piece.unit? = answers.flatMap returned := by
  rw [List.filterMap_flatMap]
  congr 1
  funext answer
  cases answer with
  | fed f => exact f.pieces_units
  | skipped octets => rfl

end Answer

namespace Reader

def call (r : Reader) : Call → Answer × Reader
  | .feed chunk => (.fed (r.feed chunk), (r.feed chunk).reader)
  | .skipLine => (.skipped r.skipLine.1, r.skipLine.2)

/-- The answers to the calls in turn, and the reader behind them. A failure ends nothing. -/
def run (r : Reader) : List Call → List Answer × Reader
  | [] => ([], r)
  | c :: calls => ((r.call c).1 :: ((r.call c).2.run calls).1, ((r.call c).2.run calls).2)

/-- How a reader stands to what it was before `fed` arrived and it got through `pieces`. -/
structure Accounts (r : Reader) (fed : Bytes) (pieces : List Piece) (last : Reader) : Prop where
  ready : last.Ready
  source_eq : last.source = r.source
  octets : r.buffer ++ fed = pieces.flatMap Piece.octets ++ last.buffer
  legible : Piece.Legible r.source r.units pieces
  units_eq : last.units = r.units + Piece.count pieces

variable {r : Reader} {decoded : Bool} {f : Feed}

theorem Drains.pieces (h : Drains decoded r f) :
    r.buffer = (f.attempts.filterMap Attempt.piece?).flatMap Piece.octets ++ f.reader.buffer ∧
      Piece.Legible r.source r.units (f.attempts.filterMap Attempt.piece?) ∧
      f.reader.units = r.units + Piece.count (f.attempts.filterMap Attempt.piece?) := by
  induction h with
  | wait => exact ⟨rfl, trivial, rfl⟩
  | short tries failed => rw [failed]; exact ⟨rfl, trivial, rfl⟩
  | bad tries failed => rw [failed]; exact ⟨rfl, trivial, rfl⟩
  | @unit decoded r u used more tries done rest ih =>
    obtain ⟨hoctets, hlegible, hunits⟩ := ih
    obtain ⟨hpos, hle, hspan⟩ := Source.decode_done_span done
    have hpieces : List.filterMap Attempt.piece? (⟨r, r.next⟩ :: more.attempts) =
        .unit u (r.buffer.take used) :: more.attempts.filterMap Attempt.piece? := by
      rw [done]
      rfl
    have hlen : (r.buffer.take used).length = used := by rw [List.length_take]; omega
    refine ⟨?_, ?_, ?_⟩
    · have hsplit : r.buffer = r.buffer.take used ++ (r.past used).buffer :=
        (List.take_append_drop used r.buffer).symm
      rw [hpieces, List.flatMap_cons, List.append_assoc, ← hoctets]
      exact hsplit
    · rw [hpieces]
      refine ⟨?_, hlegible⟩
      rw [hlen]
      exact hspan
    · rw [hpieces, Piece.count_cons_unit, hunits]
      simp only [past]
      omega

theorem Drains.pieces_eq (h : Drains false r f) :
    f.pieces = f.attempts.filterMap Attempt.piece? := by
  unfold Feed.pieces
  split
  · next hsome =>
    obtain ⟨why, hwhy⟩ := Option.isSome_iff_exists.mp hsome
    obtain ⟨-, hf, -, failed, -⟩ := h.raised_eq hwhy
    rw [hf, failed]
    rfl
  · rfl

theorem call_accounts (named : r.source ≠ .unnamed) (hr : r.Ready) (c : Call) :
    Accounts r c.octets (r.call c).1.pieces (r.call c).2 := by
  cases c with
  | feed chunk =>
    have h := feed_drains named chunk
    obtain ⟨hoctets, hlegible, hunits⟩ := h.pieces
    rw [← h.pieces_eq] at hoctets hlegible hunits
    exact ⟨(h.rests (hr.extend named chunk)).ready, h.source_eq, hoctets, hlegible, hunits⟩
  | skipLine =>
    have hsplit : r.buffer = r.skipLine.1 ++ r.skipLine.2.buffer :=
      (List.take_append_drop _ r.buffer).symm
    refine ⟨ready_of_waitFor rfl, rfl, ?_, trivial, rfl⟩
    simpa [Call.octets, call, Answer.pieces, Piece.octets] using hsplit

theorem Accounts.trans {r' r'' : Reader} {fed fed' : Bytes} {ps ps' : List Piece}
    (h : Accounts r fed ps r') (h' : Accounts r' fed' ps' r'') :
    Accounts r (fed ++ fed') (ps ++ ps') r'' where
  ready := h'.ready
  source_eq := h'.source_eq.trans h.source_eq
  octets := by
    rw [← List.append_assoc, h.octets, List.append_assoc, h'.octets, List.flatMap_append,
      List.append_assoc]
  legible := by
    refine h.legible.append ?_
    rw [← h.units_eq, ← h.source_eq]
    exact h'.legible
  units_eq := by rw [h'.units_eq, h.units_eq, Piece.count_append, Nat.add_assoc]

theorem run_accounts (named : r.source ≠ .unnamed) (hr : r.Ready) (calls : List Call) :
    Accounts r (calls.flatMap Call.octets) ((r.run calls).1.flatMap Answer.pieces)
      (r.run calls).2 := by
  induction calls generalizing r with
  | nil => exact ⟨hr, rfl, List.append_nil _, trivial, rfl⟩
  | cons c calls ih =>
    have hfirst := call_accounts named hr c
    have hrest := ih (by rw [hfirst.source_eq]; exact named) hfirst.ready
    exact hfirst.trans hrest

/-- The invariant of readers over any calls. All octets that were fed are found again: in the units
given, each read from its own octets by the rule in force then, in what was thrown away, and in the
buffer. The units given are counted; and a reader that waits holds octets that are short. -/
theorem run_invariant (source : Source) (named : source ≠ .unnamed) (calls : List Call) :
    let answers := ((new source).run calls).1
    let last := ((new source).run calls).2
    let pieces := answers.flatMap Answer.pieces
    pieces.filterMap Piece.unit? = answers.flatMap Answer.returned ∧
      calls.flatMap Call.octets = pieces.flatMap Piece.octets ++ last.buffer ∧
      Piece.Legible source 0 pieces ∧
      last.units = (answers.flatMap Answer.returned).length ∧
      (last.buffer ≠ [] → last.buffer.length < last.waitFor →
        ∃ why, source.decode last.units last.buffer = .failed why ∧
          why.class? = some .incomplete) := by
  intro answers last pieces
  have hnew : (new source).Ready := ready_of_waitFor rfl
  have h : Accounts (new source) (calls.flatMap Call.octets) pieces last :=
    run_accounts named hnew calls
  have hunits : pieces.filterMap Piece.unit? = answers.flatMap Answer.returned :=
    Answer.pieces_units answers
  refine ⟨hunits, h.octets, h.legible, ?_, ?_⟩
  · rw [h.units_eq, Piece.count, hunits]
    exact Nat.zero_add _
  · intro _ hlt
    obtain ⟨missing, needed, position, failed, -⟩ := h.ready.waits hlt
    rw [next, h.source_eq] at failed
    exact ⟨_, failed, rfl⟩

/-- A bad line is thrown away in the middle of a run, and a command is still waited for. -/
theorem run_over_bad_line :
    Source.client ≠ .unnamed ∧
      ((new .client).run [.feed (Bytes.ofText "(\r\na NO"), .skipLine,
        .feed (Bytes.ofText "OP\r\nb"), .feed []]).2.units = 1 := by
  refine ⟨by decide, ?_⟩
  have h := run_invariant .client (by decide) [.feed (Bytes.ofText "(\r\na NO"), .skipLine,
    .feed (Bytes.ofText "OP\r\nb"), .feed []]
  rw [h.2.2.2.1]
  decide +kernel

end Reader

end Imap
