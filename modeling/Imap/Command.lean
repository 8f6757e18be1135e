import Imap.Base64
import Imap.Data
import Imap.SequenceSet.Rule

namespace Imap

inductive StoreAction where
  | replace | add | remove
  deriving DecidableEq, Repr

instance : Vocabulary StoreAction where
  name := "StoreAction"
  all := [.replace, .add, .remove]
  spelling
    | .replace => "flags"
    | .add => "+flags"
    | .remove => "-flags"
  label
    | .replace => "REPLACE"
    | .add => "ADD"
    | .remove => "REMOVE"

namespace StoreAction

/-- What stands before a final `.silent`, if the text ends in it. -/
def loud? (s : String) : Option String :=
  let suffix := ".silent".toList
  if suffix.isSuffixOf s.toList then some (String.ofList (s.toList.take (s.length - suffix.length)))
  else none

/-- The action of a data item, and whether the server is to keep silent about it. -/
def rule : Rule (StoreAction × Bool) :=
  Rule.atom.refine fun found =>
    let small := found.toLower
    let name := (loud? small).getD small
    match Vocabulary.find? name with
    | some action => .ok (action, (loud? small).isSome)
    | none => .error (.miss (.unknownStoreItem name) 0)

end StoreAction

inductive CommandBody where
  /-- A command without arguments. -/
  | simple (name : String)
  | authenticate (mechanism : String) (initialResponse : Option String)
  | login (username password : String)
  /-- A command whose argument is a mailbox. -/
  | onMailbox (name mailbox : String)
  | rename (old new : String)
  | list (name reference pattern : String)
  | status (mailbox : String) (attributes : List StatusAttribute)
  | copy (set : SequenceSet) (mailbox : String) (uid : Bool)
  | store (set : SequenceSet) (action : StoreAction) (flags : List String) (silent uid : Bool)
  | uidExpunge (set : SequenceSet)
  | enable (capabilities : List Capability)
  | getQuota (root : String)
  | getQuotaRoot (mailbox : String)
  | setQuota (root : String) (quotas : List QuotaLimit)
  deriving DecidableEq, Repr

namespace CommandBody

instance : ToTerm CommandBody where
  term
    | simple name => .record "SimpleCommand" [("name", term name)]
    | authenticate mechanism initialResponse => .record "Authenticate"
        [("mechanism", term mechanism), ("initial_response", term initialResponse)]
    | login username password =>
      .record "Login" [("username", term username), ("password", .secret (term password))]
    | onMailbox name mailbox =>
      .record "MailboxCommand" [("name", term name), ("mailbox", term mailbox)]
    | rename old new => .record "Rename" [("old_mailbox", term old), ("new_mailbox", term new)]
    | list name reference pattern => .record "ListCommand"
        [("name", term name), ("reference", term reference), ("pattern", term pattern)]
    | status mailbox attributes =>
      .record "StatusCommand" [("mailbox", term mailbox), ("attributes", term attributes)]
    | copy set mailbox uid => .record "Copy"
        [("sequence_set", term set), ("mailbox", term mailbox), ("uid", term uid)]
    | store set action flags silent uid => .record "Store"
        [("sequence_set", term set), ("action", Vocabulary.toTerm action), ("flags", term flags),
          ("silent", term silent), ("uid", term uid)]
    | uidExpunge set => .record "UidExpunge" [("sequence_set", term set)]
    | enable capabilities => .record "Enable" [("capabilities", term capabilities)]
    | getQuota root => .record "GetQuota" [("root", term root)]
    | getQuotaRoot mailbox => .record "GetQuotaRoot" [("mailbox", term mailbox)]
    | setQuota root quotas => .record "SetQuota" [("root", term root), ("quotas", term quotas)]

def simpleRule : Rule CommandBody := do return simple (← Rule.atom).toUpper

/-- An initial response of `=` is an empty one. -/
def initialResponseRule : Rule (Option String) := do
  if ← Rule.skip? " " then
    if ← Rule.skip? "=" then return some ""
    return some (← Base64.rule)
  return none

def authenticateRule : Rule CommandBody := do
  discard (Rule.keyword "authenticate")
  Rule.space
  let mechanism ← Rule.atom
  return authenticate mechanism.toUpper (← initialResponseRule)

def loginRule : Rule CommandBody := do
  discard (Rule.keyword "login")
  Rule.space
  let username ← Rule.astring
  Rule.space
  return login username (← Rule.astring)

def mailboxRule : Rule CommandBody := do
  let name ← Rule.atom
  Rule.space
  return onMailbox name.toUpper (← Rule.mailbox)

def renameRule : Rule CommandBody := do
  discard (Rule.keyword "rename")
  Rule.space
  let old ← Rule.mailbox
  Rule.space
  return rename old (← Rule.mailbox)

def listRule : Rule CommandBody := do
  let name ← Rule.atom
  Rule.space
  let reference ← Rule.mailbox
  Rule.space
  return list name.toUpper reference (← Rule.mailboxPattern)

def statusRule : Rule CommandBody := do
  discard (Rule.keyword "status")
  Rule.space
  let mailbox ← Rule.mailbox
  Rule.space
  return status mailbox (← Rule.nonEmptyList StatusAttribute.rule)

def copyRule (uid : Bool) : Rule CommandBody := do
  discard (Rule.keyword "copy")
  Rule.space
  let set ← SequenceSet.rule
  Rule.space
  return copy set (← Rule.mailbox) uid

/-- Flags in parentheses, perhaps none, or at least one without. -/
def storeFlagsRule : Rule (List String) := do
  match ← Rule.peek with
  | some 0x28 => Rule.flags
  | _ => Rule.separated 0x20 Rule.flag

def storeRule (uid : Bool) : Rule CommandBody := do
  discard (Rule.keyword "store")
  Rule.space
  let set ← SequenceSet.rule
  Rule.space
  let (action, silent) ← StoreAction.rule
  Rule.space
  return store set action (← storeFlagsRule) silent uid

def uidExpungeRule : Rule CommandBody := do
  discard (Rule.keyword "expunge")
  Rule.space
  return uidExpunge (← SequenceSet.rule)

/-- A command that speaks of unique identifiers. -/
def uidRule : Rule CommandBody := do
  discard (Rule.keyword "uid")
  Rule.space
  let name ← Rule.lookahead Rule.atom
  match name.toLower with
  | "copy" => copyRule true
  | "store" => storeRule true
  | "expunge" => uidExpungeRule
  | name => Rule.fail (.miss (.unknownUidCommand name) 0)

def enableRule : Rule CommandBody := do
  discard (Rule.keyword "enable")
  return enable (← Capability.listRule)

def getQuotaRule : Rule CommandBody := do
  discard (Rule.keyword "getquota")
  Rule.space
  return getQuota (← Rule.astring)

def getQuotaRootRule : Rule CommandBody := do
  discard (Rule.keyword "getquotaroot")
  Rule.space
  return getQuotaRoot (← Rule.mailbox)

def setQuotaRule : Rule CommandBody := do
  discard (Rule.keyword "setquota")
  Rule.space
  let root ← Rule.astring
  Rule.space
  return setQuota root (← QuotaLimit.listRule)

def simpleNames : List String := ["capability", "noop", "logout", "starttls", "idle", "check",
  "close", "expunge", "unselect", "namespace"]

def mailboxNames : List String :=
  ["select", "examine", "create", "delete", "subscribe", "unsubscribe"]

def byName : List (String × Rule CommandBody) :=
  simpleNames.map (·, simpleRule) ++ mailboxNames.map (·, mailboxRule) ++ [
    ("authenticate", authenticateRule),
    ("login", loginRule),
    ("rename", renameRule),
    ("list", listRule),
    ("lsub", listRule),
    ("status", statusRule),
    ("copy", copyRule false),
    ("store", storeRule false),
    ("uid", uidRule),
    ("enable", enableRule),
    ("getquota", getQuotaRule),
    ("getquotaroot", getQuotaRootRule),
    ("setquota", setQuotaRule)]

def rule : Rule CommandBody := Keyword.dispatch byName .unknownCommand

end CommandBody

/-- What a client sends: one line, with the literals in it. -/
structure Command where
  tag : String
  body : CommandBody
  deriving DecidableEq, Repr

namespace Command

instance : ToTerm Command where
  term c := .record "Command" [("tag", term c.tag), ("body", term c.body)]

def rule : Rule Command := do
  let tag ← Rule.tag
  Rule.space
  let body ← CommandBody.rule
  Rule.lineEnd
  return ⟨tag, body⟩

end Command

end Imap
