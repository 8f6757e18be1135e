import Imap.Rule.Lexical
import Imap.Term

namespace Imap

structure Address where
  name : Option Bytes
  route : Option Bytes
  mailbox : Option Bytes
  host : Option Bytes
  deriving DecidableEq, Repr

namespace Address

instance : ToTerm Address where
  term a := .record "Address" [("name", term a.name), ("adl", term a.route),
    ("mailbox", term a.mailbox), ("host", term a.host)]

/-- An address behind its opening parenthesis. -/
def bodyRule : Rule Address := do
  let name ← Rule.nstring
  Rule.space
  let route ← Rule.nstring
  Rule.space
  let mailbox ← Rule.nstring
  Rule.space
  let host ← Rule.nstring
  Rule.expect ")" .addressEnd
  return ⟨name, route, mailbox, host⟩

def rule : Rule Address := do
  Rule.expect "(" .addressStart
  bodyRule

/-- Addresses in parentheses, or NIL for none. -/
def listRule : Rule (Option (List Address)) := do
  match ← Rule.peek with
  | some 0x28 =>
    Rule.expect "(" .addressStart
    return some (← Rule.parenthesized bodyRule)
  | _ => Rule.nil; return none

end Address

/-- The addresses and header fields of a message, as a server takes them apart. -/
structure Envelope where
  date : Option Bytes
  subject : Option Bytes
  authors : Option (List Address)
  sender : Option (List Address)
  replyTo : Option (List Address)
  recipients : Option (List Address)
  cc : Option (List Address)
  bcc : Option (List Address)
  inReplyTo : Option Bytes
  messageId : Option Bytes
  deriving DecidableEq, Repr

namespace Envelope

instance : ToTerm Envelope where
  term e := .record "Envelope" [("date", term e.date), ("subject", term e.subject),
    ("from_", term e.authors), ("sender", term e.sender), ("reply_to", term e.replyTo),
    ("to", term e.recipients), ("cc", term e.cc), ("bcc", term e.bcc),
    ("in_reply_to", term e.inReplyTo), ("message_id", term e.messageId)]

def rule : Rule Envelope := do
  Rule.expect "(" .envelopeStart
  let date ← Rule.nstring
  Rule.space
  let subject ← Rule.nstring
  Rule.space
  let authors ← Address.listRule
  Rule.space
  let sender ← Address.listRule
  Rule.space
  let replyTo ← Address.listRule
  Rule.space
  let recipients ← Address.listRule
  Rule.space
  let cc ← Address.listRule
  Rule.space
  let bcc ← Address.listRule
  Rule.space
  let inReplyTo ← Rule.nstring
  Rule.space
  let messageId ← Rule.nstring
  Rule.expect ")" .envelopeEnd
  return ⟨date, subject, authors, sender, replyTo, recipients, cc, bcc, inReplyTo, messageId⟩

end Envelope

end Imap
