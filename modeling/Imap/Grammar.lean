import Imap.Command
import Imap.Report
import Imap.Response

namespace Imap.Grammar

variable {α : Type}

def entry [ToTerm α] (name : String) (rule : Rule α) : String × Rule Term := (name, term <$> rule)

/-- Rules of a table, under their names behind `lead`. -/
def entries [ToTerm α] (lead : String) (table : List (String × Rule α)) : List (String × Rule Term) :=
  table.map fun (name, rule) => entry (lead ++ name) rule

instance : ToTerm (StatusKind × StatusText) where
  term c := .tuple [Vocabulary.toTerm c.1, term c.2.1, term c.2.2]

instance : ToTerm (StoreAction × Bool) where
  term p := .tuple [Vocabulary.toTerm p.1, term p.2]

/-- The rules of every dialect. -/
def common : List (String × Rule Term) := [
  entry "sp" Rule.space,
  entry "crlf" Rule.lineEnd,
  entry "atom" Rule.atom,
  entry "tag" Rule.tag,
  entry "text" Rule.text,
  entry "base64" Base64.rule,
  entry "number" Rule.number,
  entry "nz_number" Rule.nonZeroNumber,
  entry "number64" Rule.number64,
  entry "quoted" Rule.quoted,
  entry "literal" Rule.literal,
  entry "string" Rule.string,
  entry "astring" Rule.astring,
  entry "nil" Rule.nil,
  entry "nstring" Rule.nstring,
  entry "charset" Rule.charset,
  entry "auth_type" Rule.atom,
  entry "mailbox" Rule.mailbox,
  entry "list_mailbox" Rule.mailboxPattern,
  entry "flag" Rule.flag,
  entry "flag_perm" Rule.permanentFlag,
  entry "flag_list" Rule.flags,
  entry "date_time" DateTime.rule,
  entry "status_att" StatusAttribute.rule,
  entry "sequence_set" SequenceSet.rule,
  entry "seq_range" SeqElement.rangeRule,
  entry "seq_single" SeqElement.singleRule,
  entry "seq_number" SeqNo.rule,
  entry "capability" Capability.rule,
  entry "capability_auth" Capability.authRule,
  entry "capability_atom" Capability.atomRule,
  entry "capability_list" Capability.listRule,
  entry "capability_data" Capability.dataRule]

def quota : List (String × Rule Term) := [
  entry "quota_root_name" Rule.astring,
  entry "resource_name" Resource.rule]

def response : List (String × Rule Term) :=
  [entry "greeting" Response.greetingRule,
    entry "response" Response.rule,
    entry "continue_req" Continuation.rule,
    entry "continue_text" Continuation.textRule,
    entry "continue_base64" Continuation.base64Rule,
    entry "response_data" Response.dataRule,
    entry "response_done" Status.doneRule,
    entry "response_tagged" Status.taggedRule,
    entry "response_fatal" Status.fatalRule,
    entry "resp_cond_auth" StatusKind.authRule,
    entry "resp_cond_bye" StatusKind.byeRule,
    entry "resp_cond_state" StatusKind.stateRule,
    entry "resp_text" StatusText.rule,
    entry "bracketed_code" Code.bracketedRule,
    entry "resp_text_code" Code.rule,
    entry "mailbox_list" (Data.mailboxListRule "LIST"),
    entry "status_att_value" StatusAttribute.valueRule,
    entry "message_data" Data.numberedRule,
    entry "msg_att" FetchValue.attributeRule,
    entry "envelope" Envelope.rule,
    entry "env_addresses" Address.listRule,
    entry "address" Address.rule,
    entry "quota_list" QuotaUsage.listRule,
    entry "quota_resource" QuotaUsage.rule] ++
  entries "code_" Code.arguments ++ entries "data_" Response.byKeyword

def command : List (String × Rule Term) :=
  [entry "command" Command.rule,
    entry "simple_command" CommandBody.simpleRule,
    entry "mailbox_command" CommandBody.mailboxRule,
    entry "store_att" StoreAction.rule,
    entry "setquota_list" QuotaLimit.listRule,
    entry "setquota_resource" QuotaLimit.rule] ++
  entries "cmd_" CommandBody.byName

def rules : Dialect → List (String × Rule Term)
  | .base => []
  | .core => common
  | .quota => common ++ quota
  | .response => common ++ quota ++ response
  | .command => common ++ quota ++ command

/-- The rule a dialect begins with, where it has one. -/
def start? : Dialect → Option String
  | .response => some "response"
  | .command => some "command"
  | _ => none

/-- The rule of a name, hyphens and underscores alike. -/
def find (d : Dialect) (name : Option String) : Except Refusal (Rule Term) :=
  if d = .base then .error .abstractDialect
  else match name <|> start? d with
    | none => .error .noRule
    | some name =>
      match (rules d).lookup (name.map fun c => if c = '-' then '_' else c) with
      | some rule => .ok rule
      | none => .error (.unknownRule name)

/-- Runs the rule of a name on all the octets. -/
def run (ctx : Context) (name : Option String) (bs : Bytes) : Outcome Term :=
  match find ctx.dialect name with
  | .ok rule => rule ctx bs
  | .error why => .failed (.refused why)

end Imap.Grammar
