import Imap.Reader

namespace Imap.Log

inductive Level where
  | debug | info | warning | error | critical
  deriving DecidableEq, Repr

namespace Level

def all : List Level := [debug, info, warning, error, critical]

def name : Level → String
  | debug => "DEBUG"
  | info => "INFO"
  | warning => "WARNING"
  | error => "ERROR"
  | critical => "CRITICAL"

def rank : Level → Nat
  | debug => 10
  | info => 20
  | warning => 30
  | error => 40
  | critical => 50

instance : LE Level := ⟨fun a b => a.rank ≤ b.rank⟩

instance (a b : Level) : Decidable (a ≤ b) := inferInstanceAs (Decidable (a.rank ≤ b.rank))

/-- The level of a name; two of them have a second name. -/
def ofName? (s : String) : Option Level :=
  if s = "WARN" then some warning
  else if s = "FATAL" then some critical
  else all.find? fun l => l.name = s

end Level

/-- Who logs: the rules of a dialect, a reader about its source, a reader about the units it read, the
dump, and the set-up of the log itself. -/
inductive Logger where
  | rules (d : Dialect)
  | stream
  | trace
  | dump
  | setup
  deriving DecidableEq, Repr

namespace Logger

/-- The name, from the whole to the part. -/
def path : Logger → List String
  | rules d => ["imapwire", "parse", d.label]
  | stream => ["imapwire", "stream"]
  | trace => ["imapwire", "trace"]
  | dump => ["imapwire", "wiredump"]
  | setup => ["imapwire", "utils"]

def name (l : Logger) : String := ".".intercalate l.path

/-- The step of the work that a stamped line names. -/
def step : Logger → String
  | rules _ => "parse"
  | stream | trace => "feed"
  | dump => "dump_capture"
  | setup => "setup_logging"

end Logger

/-- What reading leaves on record, and who says it. -/
structure Record where
  level : Level
  logger : Logger
  message : String
  details : List (String × String)
  deriving DecidableEq, Repr

namespace Record

def fields (r : Record) : List (String × String) := ("message", r.message) :: r.details

end Record

/-- No more than that of a failure's input is shown. -/
def shownInput (bs : Bytes) : String := Text.quotedOctets (bs.take 80)

/-- What an attempt leaves: its outcome, and for a unit its trace. A refusal leaves nothing. -/
def ofAttempt (a : Attempt) : List Record :=
  let rule := a.reader.nextRule?.getD ""
  let said (text : String) : Record := ⟨.debug, .rules a.reader.source.dialect, s!"{rule}: {text}", []⟩
  let input := a.reader.buffer
  match a.outcome with
  | .done unit _ =>
    let shown := (term unit).print
    [said shown,
      ⟨.info, .trace, "decoded", [("reader", a.reader.name), ("rule", rule), ("unit", shown)]⟩]
  | .failed (.refused _) => []
  | .failed (.short missing needed position) =>
    [said s!"incomplete: {(Failure.short missing needed position).message input}"]
  | .failed why => [said s!"{why.message input}, input: {shownInput input}"]

/-- A reader warns of the failure that it answers with. -/
def ofRaised (r : Reader) : Failure → List Record
  | .refused _ => []
  | why =>
    let message := s!"{r.display}: syntax error: {why.message r.buffer}, input: {shownInput r.buffer}"
    [⟨.warning, .stream, message, []⟩]

def ofFeed (f : Feed) : List Record :=
  f.attempts.flatMap ofAttempt ++ (f.raised.map (ofRaised f.reader)).getD []

def ofReading (r : Reading) : List Record := r.feeds.flatMap ofFeed

end Imap.Log
