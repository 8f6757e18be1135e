import Imap.Capability
import Imap.Fetch
import Imap.Keyword
import Imap.Quota

namespace Imap

inductive StatusAttribute where
  | messages | recent | uidnext | uidvalidity | unseen
  deriving DecidableEq, Repr

namespace StatusAttribute

instance : Vocabulary StatusAttribute where
  name := "StatusAttribute"
  all := [.messages, .recent, .uidnext, .uidvalidity, .unseen]
  spelling
    | .messages => "messages"
    | .recent => "recent"
    | .uidnext => "uidnext"
    | .uidvalidity => "uidvalidity"
    | .unseen => "unseen"

instance : ToTerm StatusAttribute := ⟨Vocabulary.toTerm⟩

def rule : Rule StatusAttribute :=
  Rule.atom.refine fun found =>
    match Vocabulary.find? found.toLower with
    | some item => .ok item
    | none => .error (.miss (.unknownStatusItem found) 0)

def valueRule : Rule (StatusAttribute × Int) := do
  let item ← rule
  Rule.space
  let n ← Rule.number
  return (item, n)

end StatusAttribute

/-- The numbers of data that was read are not negative; data that is built by hand may hold any. -/
inductive Data where
  | capability (capabilities : List Capability)
  | enabled (capabilities : List Capability)
  | flags (items : List String)
  /-- The answer to LIST or LSUB; `command` is the one that was asked. -/
  | list (command : String) (attributes : List String) (delimiter : Option String)
      (mailbox : String)
  | search (ids : List Int)
  | status (mailbox : String) (attributes : List (StatusAttribute × Int))
  | exist (count : Int)
  | recent (count : Int)
  | expunge (message : Int)
  | fetch (data : FetchData)
  | quota (root : String) (quotas : List QuotaUsage)
  | quotaRoot (mailbox : String) (roots : List String)
  deriving DecidableEq, Repr

namespace Data

/-- A quota report tells of at least one resource. -/
def buildQuota (root : String) (quotas : List QuotaUsage) : Except Refusal Data :=
  if quotas = [] then .error .noQuotas else .ok (quota root quotas)

instance : ToTerm Data where
  term
    | capability capabilities => .record "CapabilityData" [("capabilities", term capabilities)]
    | enabled capabilities => .record "EnabledData" [("capabilities", term capabilities)]
    | flags items => .record "FlagsData" [("flags", term items)]
    | list command attributes delimiter mailbox => .record "ListData" [("command", term command),
        ("attributes", term attributes), ("delimiter", term delimiter), ("mailbox", term mailbox)]
    | search ids => .record "SearchData" [("ids", term ids)]
    | status mailbox attributes =>
      .record "StatusData" [("mailbox", term mailbox), ("attributes", term attributes)]
    | exist count => .record "ExistsData" [("count", term count)]
    | recent count => .record "RecentData" [("count", term count)]
    | expunge message => .record "ExpungeData" [("msg", term message)]
    | fetch data => term data
    | quota root quotas => .record "QuotaData" [("root", term root), ("quotas", term quotas)]
    | quotaRoot mailbox roots =>
      .record "QuotaRootData" [("mailbox", term mailbox), ("roots", term roots)]

def capabilityRule : Rule Data := do
  discard (Rule.keyword "capability")
  return capability (← Capability.listRule)

def enabledRule : Rule Data := do
  discard (Rule.keyword "enabled")
  return enabled (← Rule.behind 0x20 Capability.rule)

def flagsRule : Rule Data := do
  discard (Rule.keyword "flags")
  Rule.space
  return flags (← Rule.flags)

/-- One character between quotes, or NIL for none. -/
def delimiterRule : Rule (Option String) := do
  match ← Rule.peek with
  | some 0x22 => Rule.quotedText.refine fun content =>
      if content.length = 1 then .ok (some content)
      else .error (.miss .wideDelimiter 0)
  | _ => Rule.nil; return none

def mailboxListRule (command : String) : Rule Data := do
  let attributes ← Rule.flags
  Rule.space
  let delimiter ← delimiterRule
  Rule.space
  return list command attributes delimiter (← Rule.mailbox)

def listRule : Rule Data := do
  let command ← Rule.atom
  Rule.space
  mailboxListRule command.toUpper

def searchRule : Rule Data := do
  discard (Rule.keyword "search")
  let ids ← Rule.behind 0x20 Rule.nonZeroNumber
  return search (ids.map Int.ofNat)

def statusRule : Rule Data := do
  discard (Rule.keyword "status")
  Rule.space
  let mailbox ← Rule.mailbox
  Rule.space
  return status mailbox (← Rule.list StatusAttribute.valueRule)

def quotaRule : Rule Data := do
  discard (Rule.keyword "quota")
  Rule.space
  let root ← Rule.astring
  Rule.space
  Rule.ofExcept (buildQuota root (← QuotaUsage.listRule))

def quotaRootRule : Rule Data := do
  discard (Rule.keyword "quotaroot")
  Rule.space
  let mailbox ← Rule.mailbox
  return quotaRoot mailbox (← Rule.behind 0x20 Rule.astring)

def byKeyword : List (String × Rule Data) := [
  ("capability", capabilityRule),
  ("enabled", enabledRule),
  ("flags", flagsRule),
  ("list", listRule),
  ("lsub", listRule),
  ("search", searchRule),
  ("status", statusRule),
  ("quota", quotaRule),
  ("quotaroot", quotaRootRule)]

/-- The keyword of data about one message, whose number must not be zero. -/
def messageKeyword (name : String) (number : Nat) : Rule Unit :=
  (Rule.keyword name).refine fun _ =>
    if number = 0 then .error (.miss .messageZero 0) else .ok ()

def existRule (number : Nat) : Rule Data := do
  discard (Rule.keyword "exists")
  return exist number

def recentRule (number : Nat) : Rule Data := do
  discard (Rule.keyword "recent")
  return recent number

def expungeRule (number : Nat) : Rule Data := do
  messageKeyword "expunge" number
  return expunge number

def fetchRule (number : Nat) : Rule Data := do
  messageKeyword "fetch" number
  Rule.space
  return fetch ⟨number, ← Rule.nonEmptyList FetchValue.attributeRule⟩

def behindNumber (number : Nat) : List (String × Rule Data) := [
  ("exists", existRule number),
  ("recent", recentRule number),
  ("expunge", expungeRule number),
  ("fetch", fetchRule number)]

def numberedRule : Rule Data := do
  let number ← Rule.number
  Rule.space
  Keyword.dispatch (behindNumber number) .unknownResponse

end Data

end Imap
