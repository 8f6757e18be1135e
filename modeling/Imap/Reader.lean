import Imap.Report
import Imap.Source

namespace Imap

/-- Octets go in as they arrive, units come out as they are complete. The octets of an unfinished
unit are kept, and it is started on again when more arrive. -/
structure Reader where
  source : Source
  buffer : Bytes
  units : Nat
  /-- The next attempt waits until the buffer is that long. -/
  waitFor : Nat
  deriving DecidableEq, Repr

/-- One attempt to read a unit from the front of a buffer. -/
structure Attempt where
  reader : Reader
  outcome : Outcome WireUnit
  deriving DecidableEq, Repr

def Attempt.unit? (a : Attempt) : Option WireUnit :=
  match a.outcome with
  | .done unit _ => some unit
  | .failed _ => none

/-- What a chunk led to: the attempts in order, the reader after them, and the failure that the
chunk is answered with, if any. -/
structure Feed where
  attempts : List Attempt
  reader : Reader
  raised : Option Failure
  deriving DecidableEq, Repr

def Feed.units (f : Feed) : List WireUnit := f.attempts.filterMap Attempt.unit?

namespace Reader

def new (source : Source) : Reader := ⟨source, [], 0, 0⟩

/-- Whether part of a unit is held. -/
def isPending (r : Reader) : Bool := !r.buffer.isEmpty

def nextRule? (r : Reader) : Option String := r.source.ruleName? r.units

def name (r : Reader) : String :=
  match r.source with
  | .unnamed => "UnitReader"
  | .server _ => "ResponseReader"
  | .client => "CommandReader"

def display (r : Reader) : String :=
  s!"<{r.name} {r.units} units, {r.buffer.length} bytes pending>"

/-- What a failed attempt does: wait for more octets, or answer with the failure, which behind units
of the same chunk is left to the next one. -/
def stop (r : Reader) (decoded : Bool) (why : Failure) : Reader × Option Failure :=
  match why with
  | .short _ needed _ => ({ r with waitFor := r.buffer.length + max 1 (needed.getD 1) }, none)
  | .refused _ => (r, some why)
  | _ => (r, if decoded then none else some why)

/-- Reads every unit that the buffer holds; `decoded` tells whether this chunk gave any before. -/
def drain (decoded : Bool) (r : Reader) : Feed :=
  if r.buffer = [] ∨ r.buffer.length < r.waitFor then ⟨[], r, none⟩
  else
    let attempt : Attempt := ⟨r, r.source.decode r.units r.buffer⟩
    match attempt.outcome with
    | .failed why =>
      let (after, raised) := r.stop decoded why
      ⟨[attempt], after, raised⟩
    | .done _ used =>
      let after := { r with buffer := r.buffer.drop used, units := r.units + 1, waitFor := 0 }
      if used = 0 then ⟨[attempt], after, none⟩
      else
        let more := drain true after
        { more with attempts := attempt :: more.attempts }
termination_by r.buffer.length
decreasing_by
  have : r.buffer.length ≠ 0 := by grind
  simp only [List.length_drop]; omega

def feed (r : Reader) (chunk : Bytes) : Feed := drain false { r with buffer := r.buffer ++ chunk }

/-- Throws away everything up to the next line feed, and gives what was thrown away. -/
def skipLine (r : Reader) : Bytes × Reader :=
  let length := (r.buffer.takeWhile (· != 0x0A)).length + 1
  (r.buffer.take length, { r with buffer := r.buffer.drop length, waitFor := 0 })

/-- The failure of a source that ends inside a unit. -/
def ending? (r : Reader) : Option Failure :=
  if r.isPending then some (.short (.unit r.buffer.length) none 0) else none

end Reader

/-- A source read to its end, or to a failure. -/
structure Reading where
  feeds : List Feed
  reader : Reader
  failure : Option Failure
  deriving DecidableEq, Repr

namespace Reading

def units (r : Reading) : List WireUnit := r.feeds.flatMap Feed.units

/-- Feeds the chunks in turn. At the end nothing more is fed once, which answers with a failure that
was left from before. -/
def ofChunks (r : Reader) : List Bytes → Reading
  | [] =>
    let last := r.feed []
    ⟨[last], last.reader, last.raised <|> last.reader.ending?⟩
  | chunk :: chunks =>
    let fed := r.feed chunk
    match fed.raised with
    | some why => ⟨[fed], fed.reader, some why⟩
    | none =>
      let more := ofChunks fed.reader chunks
      { more with feeds := fed :: more.feeds }

/-- Cuts octets into chunks of a size, the last one perhaps shorter. -/
def chunks (size : Nat) (bs : Bytes) : List Bytes :=
  if bs = [] ∨ size = 0 then [] else bs.take size :: chunks size (bs.drop size)
termination_by bs.length
decreasing_by
  have : bs.length ≠ 0 := by grind
  simp only [List.length_drop]; omega

end Reading

end Imap
