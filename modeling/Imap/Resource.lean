import Imap.Rule.Lexical
import Imap.Vocabulary

namespace Imap

inductive ResourceKind where
  | storage | message | mailbox | annotationStorage | other
  deriving DecidableEq, Repr

instance : Vocabulary ResourceKind where
  name := "ResourceKind"
  all := [.storage, .message, .mailbox, .annotationStorage, .other]
  spelling
    | .storage => "storage"
    | .message => "message"
    | .mailbox => "mailbox"
    | .annotationStorage => "annotation-storage"
    | .other => "other"

/-- What a quota limits. -/
inductive Resource where
  | storage | message | mailbox | annotationStorage
  | other (name : String)
  deriving DecidableEq, Repr

namespace Resource

def kind : Resource → ResourceKind
  | storage => .storage
  | message => .message
  | mailbox => .mailbox
  | annotationStorage => .annotationStorage
  | other _ => .other

def name? : Resource → Option String
  | other name => some name
  | _ => none

/-- The known resource of a name in any case. -/
def known? (name : String) : Option Resource :=
  [storage, message, mailbox, annotationStorage].find? fun r => spelling r.kind = name.toLower

/-- A resource from its kind; only one of the other kind has a name, which must not be a known one. -/
def build (kind : ResourceKind) (name : Option String) : Except Refusal Resource :=
  match kind, name with
  | .storage, none => .ok storage
  | .message, none => .ok message
  | .mailbox, none => .ok mailbox
  | .annotationStorage, none => .ok annotationStorage
  | .other, none => .error .unnamedResource
  | .other, some name =>
    if name = "" then .error .unnamedResource
    else if (known? name).isSome then .error (.knownResource name)
    else .ok (other name)
  | kind, some _ => .error (.namedResource (label kind))

def ofAtom (atom : String) : Except Refusal Resource :=
  match known? atom with
  | some r => .ok r
  | none => build .other (some atom)

def text : Resource → String
  | other name => name
  | r => (spelling r.kind).toUpper

instance : ToTerm Resource where
  term r := .record "Resource" [("kind", Vocabulary.toTerm r.kind), ("other", term r.name?)]

/-- A resource is a whole atom: a known name at the front of a longer one does not count. -/
def rule : Rule Resource := do Rule.ofExcept (ofAtom (← Rule.atom))

end Resource

end Imap
