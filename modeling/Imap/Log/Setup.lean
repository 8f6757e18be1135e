import Imap.Log

namespace Imap.Log

/-- A line with the time and the step of the work, the message alone, or the message behind level and
name. -/
inductive Layout where
  | stamped | bare | leveled
  deriving DecidableEq, Repr

/-- A named logger's level counts for everything below it, up to the next named one. -/
structure Setup where
  layout : Layout
  /-- Nothing below it is written, whatever the loggers' levels. -/
  floor : Level
  /-- The level where no named logger has one. -/
  root : Level
  named : List (List String × Level)
  /-- What these say goes nowhere. -/
  silent : List Logger
  deriving DecidableEq, Repr

namespace Setup

/-- The names of a logger and of everything it is part of, the logger first. -/
def lineage (l : Logger) : List (List String) :=
  (List.range l.path.length).map fun n => l.path.take (l.path.length - n)

def level (s : Setup) (l : Logger) : Level :=
  ((lineage l).findSome? fun path => s.named.lookup path).getD s.root

def shows (s : Setup) (r : Record) : Bool :=
  s.floor ≤ r.level && s.level r.logger ≤ r.level && !s.silent.contains r.logger

def line (s : Setup) (stamp : String) (r : Record) : String :=
  match s.layout with
  | .stamped => s!"[{stamp}] {r.level.name}:{r.logger.name}.{r.logger.step}: {r.message}"
  | .bare => r.message
  | .leveled => s!"{r.level.name} {r.logger.name}: {r.message}"

/-- The level of the root before any file says otherwise. -/
def initialRoot (debug : Bool) : Level := if debug then .debug else .warning

/-- The set-up where no file gives one. The trace has a file of its own or none. -/
def standard (debug : Bool) : Setup where
  layout := .stamped
  floor := .debug
  root := initialRoot debug
  named := [(["imapwire"], if debug then .debug else .info), (["imapwire", "trace"], .info)]
  silent := [.trace]

end Setup

end Imap.Log
