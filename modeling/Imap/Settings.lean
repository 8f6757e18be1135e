import Imap.CommandLine
import Imap.Log.Config
import Imap.Path
import Imap.Source
import Imap.Text.Integer

namespace Imap

/-- A variable of the environment, which may be named there without a value. -/
inductive Variable where
  | unset
  | bare
  | set (value : String)
  deriving DecidableEq, Repr

namespace Variable

def value? : Variable → Option String
  | set value => some value
  | unset | bare => none

end Variable

structure Environment where
  chunkSize : Variable
  debug : Variable
  logConfig : Variable
  traceFile : Variable
  deriving DecidableEq, Repr

/-- Why no dump is made. -/
inductive Stop where
  | help
  | version
  | usage (fault : CommandLine.Fault)
  | noChunkSize
  | badChunkSize (text : String)
  | smallChunkSize (n : Int)
  | noTraceFile
  | logConfig (fault : Log.Config.Fault)
  | noCapture (name : String)
  deriving DecidableEq, Repr

namespace Stop

/-- What is said in the end; help and version are printed instead. -/
def message : Stop → String
  | help | version => ""
  | usage fault => fault.message
  | noChunkSize =>
    "int() argument must be a string, a bytes-like object or a real number, not 'NoneType'"
  | badChunkSize text => s!"Chunk size must be a number, not '{text}'"
  | smallChunkSize n => s!"Chunk size must be at least 1, not {n}"
  | noTraceFile => "Unable to configure handler 'trace_file'"
  | logConfig fault => fault.message
  | noCapture name => s!"[Errno 2] No such file or directory: {Text.quoted name}"

def printed : Stop → List String
  | help => CommandLine.help.splitOn "\n"
  | version => [CommandLine.version]
  | _ => []

end Stop

/-- What a dump is to do. An option goes before the environment's variable of the same meaning, and
that before the default. -/
structure Settings where
  capture : String
  source : Source
  chunkSize : Nat
  debug : Bool
  logConfig : Option Path
  traceFile : Option String
  deriving DecidableEq, Repr

namespace Settings

def defaultChunkSize : Nat := 4096

def chunkSizeOf (text : String) : Except Stop Nat :=
  match Text.Integer.read? text with
  | none => .error (.badChunkSize text)
  | some n => if n < 1 then .error (.smallChunkSize n) else .ok n.toNat

def resolveChunkSize : Option String → Variable → Except Stop Nat
  | some text, _ | none, .set text => chunkSizeOf text
  | none, .bare => .error .noChunkSize
  | none, .unset => .ok defaultChunkSize

/-- The words that switch a variable on, in any letters. -/
def isOn (v : Variable) : Bool :=
  match v.value? with
  | some text => ["1", "true", "yes"].contains text.toLower
  | none => false

def ofOptions (o : CommandLine.Options) (env : Environment) : Except Stop Settings := do
  let chunkSize ← resolveChunkSize o.chunkSize env.chunkSize
  return {
    capture := o.capture
    source := if o.commands then .client else .server !o.noGreeting
    chunkSize
    debug := o.debug || isOn env.debug
    logConfig := (o.logConfig <|> env.logConfig.value?).map Path.ofText
    traceFile := (o.trace <|> env.traceFile.value?).filter (· ≠ "") }

def ofCommandLine (words : List String) (env : Environment) : Except Stop Settings :=
  match CommandLine.read words with
  | .error fault => .error (.usage fault)
  | .ok .help => .error .help
  | .ok .version => .error .version
  | .ok (.dump options) => ofOptions options env

end Settings

end Imap
