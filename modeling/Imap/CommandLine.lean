namespace Imap

namespace CommandLine

def usage : String := "\n".intercalate [
  "Usage:",
  "  imapwire-dump [--commands] [--no-greeting] [--chunk-size=<n>] [--debug]",
  "                [--log-config=<lc>] [--trace=<trace>] <capture>",
  "  imapwire-dump (-h | --help)",
  "  imapwire-dump --version"]

def help : String := "\n".intercalate [
  "Decode a captured IMAP session and print what is in it, one response or",
  "command per line.",
  "",
  "A capture is the raw bytes of one direction of a connection: what the",
  "server sent (the default) or what the client sent (`--commands`).",
  "",
  "Exits with 1 if the capture has a syntax error in it, and 2 if it ends part",
  "way through a response or command.",
  "",
  "NOTE: For all command line options that can also be specified via an env. var:",
  "      the command line option will override the env. var if set.",
  "",
  usage,
  "",
  "Options:",
  "  --version",
  "  -h, --help         Show this text and exit",
  "  --commands         The capture is what a client sent.",
  "  --no-greeting      The capture of what the server sent does not start with",
  "                     the greeting.",
  "  --chunk-size=<n>   Read the capture this many bytes at a time. Defaults to",
  "                     4096. The env. var is `CHUNK_SIZE`",
  "  --debug            Will set the default logging level to `DEBUG` thus",
  "                     enabling all of the debug logging. The env var is `DEBUG`",
  "  --log-config=<lc>  The log config file. This file may be either a JSON file",
  "                     that follows the python logging configuration dictionary",
  "                     schema or a file that conforms to the python logging",
  "                     configuration file format. If no file is specified we",
  "                     log to stderr. The env. var is `LOG_CONFIG`",
  "  --trace=<trace>    Write every decoded unit to this file as a line of JSON.",
  "                     The env. var is `TRACE_FILE`"]

def version : String := "1.0.0"

/-- What an option asks for. One that nobody knows is kept until the whole line has been read. -/
inductive Key where
  | version | help | commands | noGreeting | chunkSize | debug | logConfig | trace | unknown
  deriving DecidableEq, Repr

/-- An option's name, which may be cut short as long as it stays unique. -/
structure Spelling where
  key : Key
  name : String
  takesValue : Bool
  deriving DecidableEq, Repr

def known : List Spelling := [
  ⟨.version, "--version", false⟩,
  ⟨.help, "--help", false⟩,
  ⟨.commands, "--commands", false⟩,
  ⟨.noGreeting, "--no-greeting", false⟩,
  ⟨.chunkSize, "--chunk-size", true⟩,
  ⟨.debug, "--debug", false⟩,
  ⟨.logConfig, "--log-config", true⟩,
  ⟨.trace, "--trace", true⟩]

inductive Fault where
  | ambiguous (name : String) (candidates : List String)
  | excessValue (name : String)
  | noValue (name : String)
  | mismatch
  deriving DecidableEq, Repr

/-- The fault, if it has a name of its own, and how the line should look. -/
def Fault.message : Fault → String
  | ambiguous name candidates =>
    let names := ", ".intercalate candidates
    s!"{name} is not a unique prefix: {names}?\n{usage}"
  | excessValue name => s!"{name} must not have an argument\n{usage}"
  | noValue name => s!"{name} requires argument\n{usage}"
  | mismatch => usage

inductive Item where
  | option (key : Key) (value : Option String)
  | operand (text : String)
  deriving DecidableEq, Repr

/-- The options that a name can mean: the one it spells, or else all that it begins. -/
def candidates (table : List Spelling) (name : String) : List Spelling :=
  match table.filter fun o => o.name = name with
  | [] => table.filter fun o => name.isPrefixOf o.name
  | spelled => spelled

/-- A word with two hyphens: its option, the value behind an equals sign, and the options that the
words behind it can mean, among them now an unknown one. -/
def long (table : List Spelling) (word : String) :
    Except Fault (Spelling × Option String × List Spelling) :=
  let name := String.ofList (word.toList.takeWhile (· ≠ '='))
  let value := match word.toList.dropWhile (· ≠ '=') with
    | [] => none
    | _ :: cs => some (String.ofList cs)
  match candidates table name with
  | [] =>
    let o : Spelling := ⟨.unknown, name, value.isSome⟩
    .ok (o, value, table ++ [o])
  | [o] => if value.isSome ∧ ¬o.takesValue then .error (.excessValue o.name) else .ok (o, value, table)
  | several => .error (.ambiguous name (several.map Spelling.name))

/-- The letters behind one hyphen are an option each. -/
def letters (cs : List Char) : List Item :=
  cs.map fun c => .option (if c = 'h' then .help else .unknown) none

/-- The option's value may be the next word, whatever that is. Elsewhere two hyphens alone, and all
words behind them, are operands; so is one hyphen alone. -/
def items (table : List Spelling) : List String → Except Fault (List Item)
  | [] => .ok []
  | word :: words =>
    match word.toList with
    | ['-', '-'] => .ok ((word :: words).map .operand)
    | '-' :: '-' :: _ => do
      let (o, value, table) ← long table word
      if value.isNone ∧ o.takesValue then
        match words with
        | [] => throw (.noValue o.name)
        | next :: words => return .option o.key (some next) :: (← items table words)
      else return .option o.key value :: (← items table words)
    | '-' :: c :: cs => do return letters (c :: cs) ++ (← items table words)
    | _ => do return .operand word :: (← items table words)

structure Options where
  capture : String
  commands : Bool
  noGreeting : Bool
  chunkSize : Option String
  debug : Bool
  logConfig : Option String
  trace : Option String
  deriving DecidableEq, Repr

inductive Request where
  | help | version
  | dump (options : Options)
  deriving DecidableEq, Repr

def keyOf? : Item → Option Key
  | .option key _ => some key
  | .operand _ => none

def operand? : Item → Option String
  | .operand text => some text
  | .option .. => none

def valueOf? (items : List Item) (key : Key) : Option String :=
  items.findSome? fun item =>
    match item with
    | .option k value => if k = key then value else none
    | .operand _ => none

/-- Help and version come before everything else; a dump takes one capture, and no option twice. -/
def request (items : List Item) : Except Fault Request :=
  let keys := items.filterMap keyOf?
  if keys.contains .help then .ok .help
  else if keys.contains .version then .ok .version
  else if keys.contains .unknown ∨ keys.eraseDups ≠ keys then .error .mismatch
  else match items.filterMap operand? with
    | [capture] => .ok <| .dump {
        capture
        commands := keys.contains .commands
        noGreeting := keys.contains .noGreeting
        chunkSize := valueOf? items .chunkSize
        debug := keys.contains .debug
        logConfig := valueOf? items .logConfig
        trace := valueOf? items .trace }
    | _ => .error .mismatch

def read (words : List String) : Except Fault Request := do request (← items known words)

end CommandLine

end Imap
