import Imap.Dump
import Imap.Settings

namespace Imap

/-- What stands under the names of the settings. -/
structure Files where
  capture : Option Bytes
  logConfig : Option Bytes
  /-- Whether the trace can be written. -/
  traceOpens : Bool
  deriving DecidableEq, Repr

/-- The file of a trace, and what it gains. -/
structure Trace where
  file : String
  records : List Log.Record
  deriving DecidableEq, Repr

structure Run where
  printed : List String
  /-- What is said before there is a log. -/
  warnings : List String
  setup : Log.Setup
  records : List Log.Record
  trace : Option Trace
  ending : Except Stop Nat

namespace Run

/-- A run that ends before there is a log. -/
def stopped (warnings : List String) (why : Stop) : Run :=
  ⟨why.printed, warnings, .standard false, [], none, .error why⟩

/-- The lines of the log, each with the time of writing. -/
def logLines (stamp : String) (r : Run) : List String :=
  r.warnings ++ (r.records.filter r.setup.shows).map (r.setup.line stamp)

/-- The run once the log is set up, with the records so far and the file of the trace, if any. -/
def read (s : Settings) (f : Files) (warnings : List String) (setup : Log.Setup)
    (records : List Log.Record) (traceFile : Option String) : Run :=
  match f.capture with
  | none =>
    ⟨[], warnings, setup, records, traceFile.map (⟨·, []⟩), .error (.noCapture s.capture)⟩
  | some capture =>
    let dump := Dump.ofCapture s.capture s.source s.chunkSize capture
    let traced := dump.records.filter fun r => r.logger = .trace
    ⟨dump.lines, warnings, setup, records ++ dump.records, traceFile.map (⟨·, traced⟩),
      .ok dump.status⟩

/-- Without a config file the log goes to the standard error, and the trace may have its file. -/
def standard (s : Settings) (f : Files) (warnings : List String) : Run :=
  let enabled : Log.Record := ⟨.debug, .setup, "Debug enabled", []⟩
  if s.traceFile.isSome ∧ ¬f.traceOpens then stopped warnings .noTraceFile
  else read s f warnings (.standard s.debug) [enabled] s.traceFile

def ofSettings (s : Settings) (f : Files) : Run :=
  match s.logConfig, f.logConfig with
  | none, _ => standard s f []
  | some path, none => standard s f [s!"WARNING: Logging config '{path.text}' does not exist"]
  | some path, some content =>
    match Log.Setup.ofFile s.debug (path.suffix = ".json") content with
    | .ok setup => read s f [] setup [] none
    | .error fault => stopped [] (.logConfig fault)

end Run

end Imap
