import Imap.Log

namespace Imap

/-- What a capture holds, one unit a line, and how it ends. -/
structure Dump where
  lines : List String
  records : List Log.Record
  status : Nat
  deriving DecidableEq, Repr

namespace Dump

/-- The verdict on the capture `name`: whole, cut off inside a unit, or wrong behind some units. -/
def verdict (name : String) (r : Reading) : Log.Record × Nat :=
  let units := r.reader.units
  match r.failure with
  | none => (⟨.debug, .dump, s!"{name}: {units} units", []⟩, 0)
  | some why =>
    let message := why.message r.reader.buffer
    match why with
    | .short .. => (⟨.error, .dump, s!"{name}: {message}", []⟩, 2)
    | _ => (⟨.error, .dump, s!"{name}: after {units} units: {message}", []⟩, 1)

def ofReading (name : String) (r : Reading) : Dump :=
  let (record, status) := verdict name r
  ⟨r.units.map fun unit => (term unit).print, Log.ofReading r ++ [record], status⟩

/-- The dump of a capture that is read `chunkSize` octets at a time. -/
def ofCapture (name : String) (source : Source) (chunkSize : Nat) (capture : Bytes) : Dump :=
  ofReading name (Reading.ofChunks (.new source) (Reading.chunks chunkSize capture))

end Dump

end Imap
