import Imap.Resource

namespace Imap

inductive CapabilityKind where
  | imap4rev1 | starttls | idle | mailboxReferrals | loginReferrals | saslIr | enable
  | auth | quotaset | quotaRes | quota | other
  deriving DecidableEq, Repr

instance : Vocabulary CapabilityKind where
  name := "CapabilityKind"
  all := [.imap4rev1, .starttls, .idle, .mailboxReferrals, .loginReferrals, .saslIr, .enable,
    .auth, .quotaset, .quotaRes, .quota, .other]
  spelling
    | .imap4rev1 => "imap4rev1"
    | .starttls => "starttls"
    | .idle => "idle"
    | .mailboxReferrals => "mailbox-referrals"
    | .loginReferrals => "login-referrals"
    | .saslIr => "sasl-ir"
    | .enable => "enable"
    | .auth => "auth="
    | .quotaset => "quotaset"
    | .quotaRes => "quota=res-"
    | .quota => "quota"
    | .other => "other"
  label
    | .imap4rev1 => "IMAP4REV1"
    | .starttls => "STARTTLS"
    | .idle => "IDLE"
    | .mailboxReferrals => "MAILBOX_REFERRALS"
    | .loginReferrals => "LOGIN_REFERRALS"
    | .saslIr => "SASL_IR"
    | .enable => "ENABLE"
    | .auth => "AUTH"
    | .quotaset => "QUOTASET"
    | .quotaRes => "QUOTA_RES"
    | .quota => "QUOTA"
    | .other => "OTHER"

/-- A capability that a server advertises. -/
inductive Capability where
  | imap4rev1 | starttls | idle | mailboxReferrals | loginReferrals | saslIr | enable
  | quotaset | quota
  | auth (mechanism : String)
  | quotaRes (resource : Resource)
  | other (token : String)
  deriving DecidableEq, Repr

namespace Capability

def kind : Capability → CapabilityKind
  | imap4rev1 => .imap4rev1
  | starttls => .starttls
  | idle => .idle
  | mailboxReferrals => .mailboxReferrals
  | loginReferrals => .loginReferrals
  | saslIr => .saslIr
  | enable => .enable
  | quotaset => .quotaset
  | quota => .quota
  | auth _ => .auth
  | quotaRes _ => .quotaRes
  | other _ => .other

def text : Capability → String
  | auth mechanism => "AUTH=" ++ mechanism
  | quotaRes resource => "QUOTA=RES-" ++ resource.text
  | other token => token
  | imap4rev1 => "IMAP4rev1"
  | c => (spelling c.kind).toUpper

/-- The capabilities that are a plain word in every dialect. -/
def coreWords : List Capability :=
  [imap4rev1, starttls, idle, mailboxReferrals, loginReferrals, saslIr, enable]

/-- The plain words that the quota extension adds. -/
def quotaWords : List Capability := [quotaset, quota]

def find? (words : List Capability) (s : String) : Option Capability :=
  words.find? fun c => spelling c.kind = s.toLower

/-- What stands in `s` behind the spelling of a kind, in any case; at least one character. -/
def parameterOf? (kind : CapabilityKind) (s : String) : Option String :=
  let start := (spelling kind).toList
  if start.isPrefixOf s.toLower.toList ∧ start.length < s.length then
    some (String.ofList (s.toList.drop start.length))
  else none

/-- Whether a token means a capability of a kind of its own. -/
def isKnown (token : String) : Bool :=
  (find? (coreWords ++ quotaWords) token).isSome || (parameterOf? .auth token).isSome ||
    (parameterOf? .quotaRes token).isSome

inductive Parameter where
  | none
  | text (s : String)
  | resource (r : Resource)
  deriving DecidableEq, Repr

/-- A capability from its kind and parameter. A token of the other kind must not be a known one. -/
def build (kind : CapabilityKind) (parameter : Parameter) : Except Refusal Capability :=
  match kind, parameter with
  | .auth, .text mechanism => if mechanism = "" then .error .noMechanism else .ok (auth mechanism)
  | .auth, _ => .error .noMechanism
  | .quotaRes, .resource r => .ok (quotaRes r)
  | .quotaRes, _ => .error .noResource
  | .other, .text token =>
    if token = "" then .error .noToken
    else if isKnown token then .error (.knownCapability token)
    else .ok (other token)
  | .other, _ => .error .noToken
  | .imap4rev1, .none => .ok imap4rev1
  | .starttls, .none => .ok starttls
  | .idle, .none => .ok idle
  | .mailboxReferrals, .none => .ok mailboxReferrals
  | .loginReferrals, .none => .ok loginReferrals
  | .saslIr, .none => .ok saslIr
  | .enable, .none => .ok enable
  | .quotaset, .none => .ok quotaset
  | .quota, .none => .ok quota
  | kind, _ => .error (.parameter (label kind))

/-- The capability that a whole atom names; the words of the quota extension count only where the
dialect has it. -/
def classify (d : Dialect) (atom : String) : Except Refusal Capability :=
  match find? (if d.knowsQuota then coreWords ++ quotaWords else coreWords) atom with
  | some c => .ok c
  | none =>
    match parameterOf? .quotaRes atom with
    | some name => if d.knowsQuota then quotaRes <$> Resource.ofAtom name else build .other (.text atom)
    | none => build .other (.text atom)

instance : ToTerm Capability where
  term c := .record "Capability" [("kind", Vocabulary.toTerm c.kind), ("value", match c with
    | auth mechanism => term mechanism
    | quotaRes resource => term resource
    | other token => term token
    | _ => .absent)]

def authRule : Rule Capability := do
  Rule.word "auth=" (.word "auth=")
  Rule.ofExcept (build .auth (.text (← Rule.atom).toUpper))

def atomRule : Rule Capability := do
  let atom ← Rule.atom
  Rule.ofExcept (classify (← Rule.dialect) atom)

def rule : Rule Capability := Rule.oneOf authRule [atomRule]

/-- Capabilities, each behind a space. -/
def listRule : Rule (List Capability) := do
  Rule.space
  Rule.separated 0x20 rule

/-- A server's list must hold IMAP4rev1. More may arrive until the list is at its end, so this is
asked only then, and the answer is final. -/
def complete (cs : List Capability) : Except Failure (List Capability) :=
  if imap4rev1 ∈ cs then .ok cs else .error (.bad .noImap4rev1 0)

def dataRule : Rule (List Capability) :=
  Rule.refine (do discard (Rule.keyword "capability"); listRule) complete

end Capability

end Imap
