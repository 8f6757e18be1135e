import Imap.Run

namespace Imap.Program

def lookUp (name : String) : IO Variable := do
  match ← IO.getEnv name with
  | none => return .unset
  | some value => return .set value

def environment : IO Environment := do
  return ⟨← lookUp "CHUNK_SIZE", ← lookUp "DEBUG", ← lookUp "LOG_CONFIG", ← lookUp "TRACE_FILE"⟩

def contents (name : String) : IO (Option Bytes) := do
  try return some (← IO.FS.readBinFile name).toList
  catch _ => return none

/-- Adds lines to a file, which is made if it is not there; tells whether it could be opened. -/
def append (name : String) (lines : List String) : IO Bool := do
  try
    let file ← IO.FS.Handle.mk name .append
    lines.forM file.putStrLn
    return true
  catch _ => return false

/-- The trace has no file where a config file sets up the log. -/
def files (s : Settings) : IO Files := do
  let logConfig ← match s.logConfig with
    | some path => contents path.text
    | none => pure none
  let traceOpens ← match s.traceFile, logConfig with
    | some name, none => append name []
    | _, _ => pure false
  return ⟨← contents s.capture, logConfig, traceOpens⟩

def traceLine (stamp : String) (r : Log.Record) : String :=
  let fields := ("asctime", stamp) :: r.fields
  (Text.Json.object (fields.map fun (name, text) => (name, .string text))).print

/-- Times of the log are the milliseconds of the machine's own clock. -/
def stamp : IO String := do return toString (← IO.monoMsNow)

def exit : Except Stop Nat → IO UInt32
  | .ok status => return status.toUInt32
  | .error .help | .error .version => return 0
  | .error why => do
    IO.eprintln why.message
    return 1

end Imap.Program

open Imap Imap.Program in
def main (words : List String) : IO UInt32 := do
  let run ← match Settings.ofCommandLine words (← environment) with
    | .ok settings => Run.ofSettings settings <$> files settings
    | .error why => pure (Run.stopped [] why)
  let now ← stamp
  run.printed.forM (IO.println ·)
  (run.logLines now).forM (IO.eprintln ·)
  if let some trace := run.trace then
    let _ ← append trace.file (trace.records.map (traceLine now))
  exit run.ending
