namespace Imap

/-- Why a value or a request is turned down, other than by the grammar. -/
inductive Refusal where
  /-- Something other than a word of the closed vocabulary; it is shown as it prints. -/
  | unknownWord (shown vocabulary : String)
  | unnamedResource
  | knownResource (name : String)
  | namedResource (label : String)
  | noMechanism
  | noResource
  | noToken
  | knownCapability (token : String)
  | parameter (label : String)
  | noCodeAtom
  | taggedStatus (label : String)
  | textBesideBase64
  | emptyContinuation
  | noBase64
  | notAscii
  /-- An octet that no character of ASCII has, and its place. -/
  | beyondAscii (octet place : Nat)
  | badBase64
  | sequenceNumber (n : Int)
  | starInEmptyMailbox
  | beyondMailbox (n : Nat)
  | noNumbers
  /-- Something other than a part of a sequence set; it is shown as it prints. -/
  | notSequenceElement (shown : String)
  | noQuotas
  | abstractDialect
  | noRule
  | unknownRule (name : String)
  deriving DecidableEq, Repr

def Refusal.message : Refusal → String
  | .unknownWord shown vocabulary => s!"{shown} is not a valid {vocabulary}"
  | .unnamedResource => "OTHER resource requires the resource name"
  | .knownResource name => s!"'{name}' is a known resource, not an OTHER"
  | .namedResource label => s!"{label} resource takes no name"
  | .noMechanism => "AUTH= capability requires a mechanism"
  | .noResource => "QUOTA=RES- capability requires a resource"
  | .noToken => "OTHER capability requires the token"
  | .knownCapability token => s!"'{token}' is a known capability, not an OTHER"
  | .parameter label => s!"{label} takes no parameter"
  | .noCodeAtom => "OTHER code requires its atom"
  | .taggedStatus label => s!"{label} status can not be tagged"
  | .textBesideBase64 => "base64 continuation can not carry text"
  | .emptyContinuation => "continuation requires text or base64 data"
  | .noBase64 => "continuation has no base64 data"
  | .notAscii => "string argument should contain only ASCII characters"
  | .beyondAscii octet place =>
    let hex := String.ofList (Nat.toDigits 16 octet)
    s!"'ascii' codec can't decode byte 0x{hex} in position {place}: ordinal not in range(128)"
  | .badBase64 => "malformed base64 data"
  | .sequenceNumber n => s!"sequence numbers must be greater than 0: {n}"
  | .starInEmptyMailbox => "Message index '*' is invalid in empty mailbox when not a uid command"
  | .beyondMailbox n => s!"Message index '{n}' is greater than the size of the mailbox"
  | .noNumbers => "a sequence set needs at least one number"
  | .notSequenceElement shown => s!"not part of a sequence set: {shown}"
  | .noQuotas => "QUOTA response requires at least one resource"
  | .abstractDialect => "IMAPParser is a base class, use ResponseParser or CommandParser"
  | .noRule => "no grammar rule to parse"
  | .unknownRule name => s!"unknown grammar rule '{name}'"

end Imap
