import Imap.Log.Setup
import Imap.Text.Ini
import Imap.Text.Json
import Imap.Text.Utf8

namespace Imap.Log

namespace Config

open Text (Json Section)

inductive Fault where
  | malformed
  | noVersion
  | version (shown : String)
  /-- A logger's settings, none for the root's. -/
  | settings (logger : Option String)
  | unknownLevel (name : String)
  deriving DecidableEq, Repr

def Fault.message : Fault → String
  | malformed => "malformed log config"
  | noVersion => "dictionary doesn't specify a version"
  | version shown => s!"Unsupported version: {shown}"
  | settings (some logger) => s!"Unable to configure logger {Text.quoted logger}"
  | settings none => "Unable to configure root logger"
  | unknownLevel name => s!"Unknown level: {Text.quoted name}"

/-- A named logger's level from its name; the level that is none leaves it to the loggers above. -/
def ownLevel? : Option String → Option (Option Level)
  | none | some "NOTSET" => some none
  | some name => (Level.ofName? name).map some

/-- The root's level, which stays as it is if no name is given. -/
def rootLevel? (root : Level) : Option String → Option Level
  | none => some root
  | some "NOTSET" => some .debug
  | some name => Level.ofName? name

def levels (named : List (List String × Option Level)) : List (List String × Level) :=
  named.filterMap fun (path, level) => level.map (path, ·)

/-- The loggers that are there already and lie outside every named one. -/
def muted (named : List (List String × Option Level)) : List Logger :=
  [Logger.stream, .trace, .dump].filter fun l => !named.any fun (path, _) => path.isPrefixOf l.path

def pathOf (name : String) : List String := name.splitOn "."

/-- The level's name among a logger's settings. A level that is no text has no name that is known.
-/
def jsonLevel (settings : Json) : Option String :=
  match settings.member? "level" with
  | none => none
  | some (.string name) => some name
  | some other => some other.print

def jsonLogger : String × Json → Except Fault (List String × Option Level)
  | (name, settings) =>
    match ownLevel? (jsonLevel settings) with
    | some level => .ok (pathOf name, level)
    | none => .error (.settings (some name))

def jsonRoot (root : Level) (settings : Json) : Except Fault Level :=
  match rootLevel? root (jsonLevel settings) with
  | some level => .ok level
  | none => .error (.settings none)

def jsonVersion (j : Json) : Except Fault Unit :=
  match j.member? "version" with
  | none => .error .noVersion
  | some (.number "1") => .ok ()
  | some (.string shown) => .error (.version shown)
  | some other => .error (.version other.print)

/-- Levels alone: the writing is left to the last resort, which shows bare messages from warnings
on. The loggers that are there and not named are muted, unless the file says otherwise. -/
def ofJson (root : Level) (j : Json) : Except Fault Setup := do
  jsonVersion j
  let named ← match j.member? "loggers" with
    | none => pure []
    | some (.object members) => members.mapM jsonLogger
    | some _ => throw .malformed
  let root ← match j.member? "root" with
    | none => pure root
    | some settings => jsonRoot root settings
  let mutes := match j.member? "disable_existing_loggers" with
    | some (.bool b) => b
    | _ => true
  return ⟨.bare, .warning, root, levels named, if mutes then muted named else []⟩

def iniSection (sections : List Section) (key : String) : Except Fault Section :=
  match Section.find? sections ("logger_" ++ key) with
  | some s => .ok s
  | none => .error .malformed

def iniLogger (sections : List Section) (key : String) :
    Except Fault (List String × Option Level) := do
  let s ← iniSection sections key
  match s.get? "qualname" with
  | none => throw .malformed
  | some name =>
    match ownLevel? (s.get? "level") with
    | some level => return (pathOf name, level)
    | none => throw (.unknownLevel ((s.get? "level").getD ""))

def iniRoot (root : Level) (sections : List Section) : Except Fault Level := do
  let s ← iniSection sections "root"
  match rootLevel? root (s.get? "level") with
  | some level => return level
  | none => throw (.unknownLevel ((s.get? "level").getD ""))

/-- The keys of the loggers, which are listed first. -/
def iniKeys (sections : List Section) : Option (List String) := do
  let keys ← (← Section.find? sections "loggers").get? "keys"
  return (keys.splitOn ",").map fun key => String.ofList (Text.trim Section.isBlank key.toList)

def ofSections (root : Level) (sections : List Section) : Except Fault Setup := do
  match iniKeys sections with
  | none => throw .malformed
  | some keys =>
    let root ← iniRoot root sections
    let named ← (keys.filter (· ≠ "root")).mapM (iniLogger sections)
    return ⟨.leveled, .debug, root, levels named, muted named⟩

end Config

/-- The set-up that a file gives; `json` tells which kind of file it is. -/
def Setup.ofFile (debug json : Bool) (content : Bytes) : Except Config.Fault Setup :=
  let text := Text.Utf8.decode content
  let root := initialRoot debug
  if json then
    match Text.Json.read? text with
    | some j => Config.ofJson root j
    | none => .error .malformed
  else
    match Text.Section.read? text with
    | some sections => Config.ofSections root sections
    | none => .error .malformed

end Imap.Log
