import Imap.Proofs.Written.Name

namespace Imap

namespace Written

/-- The commands without arguments. -/
def simpleCommands : List String := ["CAPABILITY", "NOOP", "LOGOUT", "STARTTLS", "IDLE", "CHECK",
  "CLOSE", "EXPUNGE", "UNSELECT", "NAMESPACE"]

/-- The commands whose argument is a mailbox. -/
def mailboxCommands : List String :=
  ["SELECT", "EXAMINE", "CREATE", "DELETE", "SUBSCRIBE", "UNSUBSCRIBE"]

/-- What a client may send along with a mechanism. -/
inductive InitialResponse where
  | absent
  | empty
  | base64 (data : Base64Text)

namespace InitialResponse

def octets : InitialResponse → Bytes
  | absent => []
  | empty => [0x20, 0x3D]
  | base64 data => 0x20 :: data.octets

def value : InitialResponse → Option String
  | absent => none
  | empty => some ""
  | base64 data => some data.text

end InitialResponse

/-- The flags to be stored: in parentheses, perhaps none, or at least one without. -/
inductive StoreFlags where
  | inParens (flags : List Flag)
  | bare (flags : List Flag) (some : flags ≠ [])

namespace StoreFlags

def octets : StoreFlags → Bytes
  | inParens flags => Bytes.inParens (flags.map Flag.octets)
  | bare flags _ => Bytes.joined 0x20 (flags.map Flag.octets)

def value : StoreFlags → List String
  | inParens flags => flags.map Flag.value
  | bare flags _ => flags.map Flag.value

end StoreFlags

/-- UID in front of a command whose numbers are unique identifiers. -/
def uidOctets : Option (Spelling "UID") → Bytes
  | none => []
  | some spelled => spelled.octets ++ [0x20]

/-- What a client can ask for. -/
inductive Request (d : Dialect) where
  | simple (name : String) (known : name ∈ simpleCommands) (spelled : Spelling name)
  | authenticate (name : Spelling "AUTHENTICATE") (mechanism : Atom) (initial : InitialResponse)
  | login (name : Spelling "LOGIN") (username password : Astring d)
  | onMailbox (name : String) (known : name ∈ mailboxCommands) (spelled : Spelling name)
      (mailbox : Astring d)
  | rename (name : Spelling "RENAME") (old new : Astring d)
  | list (name : String) (known : name ∈ listCommands) (spelled : Spelling name)
      (reference : Astring d) (pattern : Pattern d)
  | status (name : Spelling "STATUS") (mailbox : Astring d) (items : List StatusItem)
      (some : items ≠ [])
  | copy (uid : Option (Spelling "UID")) (name : Spelling "COPY") (set : SequenceSet)
      (wellFormed : set.WellFormed) (mailbox : Astring d)
  | store (uid : Option (Spelling "UID")) (name : Spelling "STORE") (set : SequenceSet)
      (wellFormed : set.WellFormed) (item : StoreItem) (flags : StoreFlags)
  | uidExpunge (uid : Spelling "UID") (name : Spelling "EXPUNGE") (set : SequenceSet)
      (wellFormed : set.WellFormed)
  | enable (name : Spelling "ENABLE") (capabilities : List Atom) (some : capabilities ≠ [])
  | getQuota (name : Spelling "GETQUOTA") (root : Astring d)
  | getQuotaRoot (name : Spelling "GETQUOTAROOT") (mailbox : Astring d)
  | setQuota (name : Spelling "SETQUOTA") (root : Astring d) (limits : List Limit)

namespace Request

variable {d : Dialect}

def octets : Request d → Bytes
  | simple _ _ spelled => spelled.octets
  | authenticate name mechanism initial =>
    name.octets ++ 0x20 :: (mechanism.octets ++ initial.octets)
  | login name username password =>
    name.octets ++ 0x20 :: (username.octets ++ 0x20 :: password.octets)
  | onMailbox _ _ spelled mailbox => spelled.octets ++ 0x20 :: mailbox.octets
  | rename name old new => name.octets ++ 0x20 :: (old.octets ++ 0x20 :: new.octets)
  | list _ _ spelled reference pattern =>
    spelled.octets ++ 0x20 :: (reference.octets ++ 0x20 :: pattern.octets)
  | status name mailbox items _ =>
    name.octets ++ 0x20 :: (mailbox.octets ++ 0x20 :: Bytes.inParens (items.map StatusItem.octets))
  | copy uid name set _ mailbox =>
    uidOctets uid ++ (name.octets ++ 0x20 :: (Bytes.ofText set.text ++ 0x20 :: mailbox.octets))
  | store uid name set _ item flags =>
    uidOctets uid ++ (name.octets ++ 0x20 :: (Bytes.ofText set.text ++
      0x20 :: (item.spelled.octets ++ 0x20 :: flags.octets)))
  | uidExpunge uid name set _ =>
    uid.octets ++ 0x20 :: (name.octets ++ 0x20 :: Bytes.ofText set.text)
  | enable name capabilities _ =>
    name.octets ++ 0x20 :: Bytes.joined 0x20 (capabilities.map Run.octets)
  | getQuota name root => name.octets ++ 0x20 :: root.octets
  | getQuotaRoot name mailbox => name.octets ++ 0x20 :: mailbox.octets
  | setQuota name root limits =>
    name.octets ++ 0x20 :: (root.octets ++ 0x20 :: Bytes.inParens (limits.map Limit.octets))

/-- What the request means. -/
def value : Request d → CommandBody
  | simple name _ _ => .simple name
  | authenticate _ mechanism initial => .authenticate mechanism.text.toUpper initial.value
  | login _ username password => .login username.value password.value
  | onMailbox name _ _ mailbox => .onMailbox name mailbox.mailbox
  | rename _ old new => .rename old.mailbox new.mailbox
  | list name _ _ reference pattern => .list name reference.mailbox pattern.value
  | status _ mailbox items _ => .status mailbox.mailbox (items.map StatusItem.item)
  | copy uid _ set _ mailbox => .copy set mailbox.mailbox uid.isSome
  | store uid _ set _ item flags => .store set item.action flags.value item.silent uid.isSome
  | uidExpunge _ _ set _ => .uidExpunge set
  | enable _ capabilities _ => .enable (capabilities.map fun c => .named c.text)
  | getQuota _ root => .getQuota root.value
  | getQuotaRoot _ mailbox => .getQuotaRoot mailbox.mailbox
  | setQuota _ root limits => .setQuota root.value (limits.map Limit.value)

end Request

/-- A command with its tag, up to and with its line end. -/
structure ClientLine where
  tag : Run Octet.isTagChar
  request : Request .command
  lineEnd : LineEnd

namespace ClientLine

def octets (l : ClientLine) : Bytes :=
  l.tag.octets ++ 0x20 :: (l.request.octets ++ l.lineEnd.octets)

def value (l : ClientLine) : Command := ⟨l.tag.text, l.request.value⟩

end ClientLine

end Written

open Written

namespace CommandBody

open Rule

variable {ctx : Context} {rest : Bytes} {name : String}

theorem byName_nodup : (byName.map Prod.fst).Nodup := by decide +kernel

theorem isWord_of_command (h : name ∈ simpleCommands ++ mailboxCommands ++ listCommands) :
    IsWord Octet.isAtomChar name := by
  have all : ∀ name ∈ simpleCommands ++ mailboxCommands ++ listCommands,
      IsWord Octet.isAtomChar name := by decide
  exact all name h

/-- The name of a command is kept in capitals. -/
theorem toUpper_of_spelling (h : name ∈ simpleCommands ++ mailboxCommands ++ listCommands)
    (s : Spelling name) : (Bytes.text s.octets).toUpper = name := by
  have all : ∀ name ∈ simpleCommands ++ mailboxCommands ++ listCommands,
      name.toList.map Char.toUpper = name.toList := by decide
  exact s.toUpper_eq (isWord_of_command h) (all name h)

theorem initialResponse_reads (i : InitialResponse) (hrest : ctx.Stops Octet.isInLine rest) :
    initialResponseRule.Reads ctx (i.octets ++ rest) i.value rest := by
  have hinner := hrest.mono Octet.inLine_of_inner
  cases i with
  | absent => exact (Reads.skip_none rfl rfl (hrest.octet rfl)).bind (.pure none)
  | empty => exact (Reads.skip rfl).bind ((Reads.skip rfl).bind (.pure (some "")))
  | base64 data =>
    have hsign : ctx.Stops (· == 0x3D) (data.octets ++ rest) := data.opens (hrest.octet rfl)
    apply (Reads.skip rfl).bind
    apply (Reads.skip_none rfl rfl hsign).bind
    exact (base64_reads data hinner).bind (.pure _)

theorem storeFlags_reads (f : StoreFlags) (hrest : ctx.Stops Octet.isInLine rest) :
    storeFlagsRule.Reads ctx (f.octets ++ rest) f.value rest := by
  cases f with
  | inParens flags => exact Reads.peek.bind (flags_reads flags)
  | bare flags hne =>
    have hflags : (separated 0x20 flag).Reads ctx
        (Bytes.joined 0x20 (flags.map Flag.octets) ++ rest) (flags.map Flag.value) rest :=
      .separated hne (fun f _ _ hmore => flag_reads f hmore) rfl
        (hrest.mono Octet.inLine_of_inner) (hrest.octet rfl)
    obtain ⟨f, flags, rfl⟩ := List.exists_cons_of_ne_nil hne
    obtain ⟨b, bs, hbs, hb⟩ := f.head
    have hcons : Bytes.joined 0x20 ((f :: flags).map Flag.octets) ++ rest =
        b :: (bs ++ Bytes.behind 0x20 (flags.map Flag.octets) ++ rest) := by
      rw [List.map_cons, Bytes.joined, hbs]
      rfl
    rw [StoreFlags.octets, hcons]
    rw [hcons] at hflags
    refine Reads.peek.bind ?_
    split
    · next h =>
      cases h
      rcases hb with hb | hb <;> cases hb
    · exact hflags

theorem simpleRule_reads (known : name ∈ simpleCommands) (s : Spelling name)
    (hrest : ctx.Stops Octet.isInner rest) :
    simpleRule.Reads ctx (s.octets ++ rest) (.simple name) rest := by
  have hmem : name ∈ simpleCommands ++ mailboxCommands ++ listCommands := by simp [known]
  have hname := atom_reads_word s (isWord_of_command hmem) (hrest.mono Octet.inner_of_atom)
  have hvalue := congrArg simple (toUpper_of_spelling hmem s)
  refine Reads.of_eq ?_ hvalue
  exact hname.bind (.pure _)

theorem authenticateRule_reads (s : Spelling "AUTHENTICATE") (mechanism : Atom)
    (initial : InitialResponse) (hrest : ctx.Stops Octet.isInLine rest) :
    authenticateRule.Reads ctx (s.octets ++ 0x20 :: (mechanism.octets ++ (initial.octets ++ rest)))
      (.authenticate mechanism.text.toUpper initial.value) rest := by
  have hatom : ctx.Stops Octet.isAtomChar (initial.octets ++ rest) := by
    cases initial with
    | absent => exact (hrest.mono Octet.inLine_of_inner).mono Octet.inner_of_atom
    | _ => rfl
  apply (keyword_reads s (by decide) (by rfl)).discard.bind
  apply space_reads.bind
  apply (atom_reads mechanism hatom).bind
  exact (initialResponse_reads initial hrest).bind (.pure _)

theorem loginRule_reads (s : Spelling "LOGIN") (username password : Astring ctx.dialect)
    (hrest : ctx.Stops Octet.isInner rest) :
    loginRule.Reads ctx (s.octets ++ 0x20 :: (username.octets ++ 0x20 :: (password.octets ++ rest)))
      (.login username.value password.value) rest := by
  apply (keyword_reads s (by decide) (by rfl)).discard.bind
  apply space_reads.bind
  apply (astring_reads username (by rfl)).bind
  apply space_reads.bind
  exact (astring_reads password hrest).bind (.pure _)

theorem mailboxRule_reads (known : name ∈ mailboxCommands) (s : Spelling name)
    (mailbox : Astring ctx.dialect) (hrest : ctx.Stops Octet.isInner rest) :
    mailboxRule.Reads ctx (s.octets ++ 0x20 :: (mailbox.octets ++ rest))
      (.onMailbox name mailbox.mailbox) rest := by
  have hmem : name ∈ simpleCommands ++ mailboxCommands ++ listCommands := by simp [known]
  have hvalue := congrArg (onMailbox · mailbox.mailbox) (toUpper_of_spelling hmem s)
  refine Reads.of_eq ?_ hvalue
  apply (atom_reads_word s (isWord_of_command hmem) (by rfl)).bind
  apply space_reads.bind
  exact (mailbox_reads mailbox hrest).bind (.pure _)

theorem renameRule_reads (s : Spelling "RENAME") (old new : Astring ctx.dialect)
    (hrest : ctx.Stops Octet.isInner rest) :
    renameRule.Reads ctx (s.octets ++ 0x20 :: (old.octets ++ 0x20 :: (new.octets ++ rest)))
      (.rename old.mailbox new.mailbox) rest := by
  apply (keyword_reads s (by decide) (by rfl)).discard.bind
  apply space_reads.bind
  apply (mailbox_reads old (by rfl)).bind
  apply space_reads.bind
  exact (mailbox_reads new hrest).bind (.pure _)

theorem listRule_reads (known : name ∈ listCommands) (s : Spelling name)
    (reference : Astring ctx.dialect) (pattern : Pattern ctx.dialect)
    (hrest : ctx.Stops Octet.isInner rest) :
    listRule.Reads ctx
      (s.octets ++ 0x20 :: (reference.octets ++ 0x20 :: (pattern.octets ++ rest)))
      (.list name reference.mailbox pattern.value) rest := by
  have hmem : name ∈ simpleCommands ++ mailboxCommands ++ listCommands := by simp [known]
  have hvalue := congrArg (list · reference.mailbox pattern.value) (toUpper_of_spelling hmem s)
  refine Reads.of_eq ?_ hvalue
  apply (atom_reads_word s (isWord_of_command hmem) (by rfl)).bind
  apply space_reads.bind
  apply (mailbox_reads reference (by rfl)).bind
  apply space_reads.bind
  exact (mailboxPattern_reads pattern hrest).bind (.pure _)

theorem statusRule_reads (s : Spelling "STATUS") (mailbox : Astring ctx.dialect)
    {items : List StatusItem} (hne : items ≠ []) :
    statusRule.Reads ctx
      (s.octets ++ 0x20 :: (mailbox.octets ++
        0x20 :: (Bytes.inParens (items.map StatusItem.octets) ++ rest)))
      (.status mailbox.mailbox (items.map StatusItem.item)) rest := by
  apply (keyword_reads s (by decide) (by rfl)).discard.bind
  apply space_reads.bind
  apply (mailbox_reads mailbox (by rfl)).bind
  apply space_reads.bind
  exact (nonEmptyList_reads (statusItems_read items) hne).bind (.pure _)

theorem copyRule_reads {set : SequenceSet} (uid : Bool) (s : Spelling "COPY") (h : set.WellFormed)
    (mailbox : Astring ctx.dialect) (hrest : ctx.Stops Octet.isInner rest) :
    (copyRule uid).Reads ctx
      (s.octets ++ 0x20 :: (Bytes.ofText set.text ++ 0x20 :: (mailbox.octets ++ rest)))
      (.copy set mailbox.mailbox uid) rest := by
  apply (keyword_reads s (by decide) (by rfl)).discard.bind
  apply space_reads.bind
  apply (SequenceSet.reads_inner h (by rfl)).bind
  apply space_reads.bind
  exact (mailbox_reads mailbox hrest).bind (.pure _)

theorem storeRule_reads {set : SequenceSet} (uid : Bool) (s : Spelling "STORE")
    (h : set.WellFormed) (item : StoreItem) (f : StoreFlags) (hrest : ctx.Stops Octet.isInLine rest) :
    (storeRule uid).Reads ctx (s.octets ++ 0x20 :: (Bytes.ofText set.text ++
      0x20 :: (item.spelled.octets ++ 0x20 :: (f.octets ++ rest))))
      (.store set item.action f.value item.silent uid) rest := by
  apply (keyword_reads s (by decide) (by rfl)).discard.bind
  apply space_reads.bind
  apply (SequenceSet.reads_inner h (by rfl)).bind
  apply space_reads.bind
  apply (storeAction_reads item (by rfl)).bind
  apply space_reads.bind
  exact (storeFlags_reads f hrest).bind (.pure _)

theorem uidExpungeRule_reads {set : SequenceSet} (s : Spelling "EXPUNGE") (h : set.WellFormed)
    (hrest : ctx.Stops Octet.isInner rest) :
    uidExpungeRule.Reads ctx (s.octets ++ 0x20 :: (Bytes.ofText set.text ++ rest))
      (.uidExpunge set) rest := by
  apply (keyword_reads s (by decide) (by rfl)).discard.bind
  apply space_reads.bind
  exact (SequenceSet.reads_inner h hrest).bind (.pure _)

/-- The rule that goes on behind UID, by the command's name in small letters. -/
def behindUid : String → Rule CommandBody
  | "copy" => copyRule true
  | "store" => storeRule true
  | "expunge" => uidExpungeRule
  | name => Rule.fail (.miss (.unknownUidCommand name) 0)

theorem uidRule_eq : uidRule = (do
    discard (Rule.keyword "uid")
    Rule.space
    let name ← Rule.lookahead Rule.atom
    behindUid name.toLower) := rfl

theorem uidRule_reads {word name : String} {body : CommandBody} {more : Bytes} (uid : Spelling "UID")
    (s : Spelling word) (hword : IsKeyword word name) (hmore : ctx.Stops Octet.isAtomChar more)
    (h : (behindUid name).Reads ctx (s.octets ++ more) body rest) :
    uidRule.Reads ctx (uid.octets ++ 0x20 :: (s.octets ++ more)) body rest := by
  rw [← s.toLower_eq hword.1 hword.2] at h
  rw [uidRule_eq]
  apply (keyword_reads uid (by decide) (by rfl)).discard.bind
  apply space_reads.bind
  exact (atom_reads_word s hword.1 hmore).lookahead.bind h

theorem enableRule_reads (s : Spelling "ENABLE") {capabilities : List Atom}
    (hd : ctx.dialect.knowsQuota = true) (hne : capabilities ≠ [])
    (hrest : ctx.Stops Octet.isInLine rest) :
    enableRule.Reads ctx
      (s.octets ++ 0x20 :: (Bytes.joined 0x20 (capabilities.map Run.octets) ++ rest))
      (.enable (capabilities.map fun c => .named c.text)) rest := by
  have hatom := (hrest.mono Octet.inLine_of_inner).mono Octet.inner_of_atom
  apply (keyword_reads s (by decide) (by rfl)).discard.bind
  exact (capabilities_reads hd hne hatom (hrest.octet rfl)).bind (.pure _)

theorem getQuotaRule_reads (s : Spelling "GETQUOTA") (root : Astring ctx.dialect)
    (hrest : ctx.Stops Octet.isInner rest) :
    getQuotaRule.Reads ctx (s.octets ++ 0x20 :: (root.octets ++ rest)) (.getQuota root.value) rest := by
  apply (keyword_reads s (by decide) (by rfl)).discard.bind
  apply space_reads.bind
  exact (astring_reads root hrest).bind (.pure _)

theorem getQuotaRootRule_reads (s : Spelling "GETQUOTAROOT") (mailbox : Astring ctx.dialect)
    (hrest : ctx.Stops Octet.isInner rest) :
    getQuotaRootRule.Reads ctx (s.octets ++ 0x20 :: (mailbox.octets ++ rest))
      (.getQuotaRoot mailbox.mailbox) rest := by
  apply (keyword_reads s (by decide) (by rfl)).discard.bind
  apply space_reads.bind
  exact (mailbox_reads mailbox hrest).bind (.pure _)

theorem setQuotaRule_reads (s : Spelling "SETQUOTA") (root : Astring ctx.dialect)
    (limits : List Limit) :
    setQuotaRule.Reads ctx
      (s.octets ++ 0x20 :: (root.octets ++ 0x20 :: (Bytes.inParens (limits.map Limit.octets) ++ rest)))
      (.setQuota root.value (limits.map Limit.value)) rest := by
  apply (keyword_reads s (by decide) (by rfl)).discard.bind
  apply space_reads.bind
  apply (astring_reads root (by rfl)).bind
  apply space_reads.bind
  exact (list_reads (limits_read limits)).bind (.pure _)

/-- A request is read as what it means, as far as its line goes. -/
theorem rule_reads (r : Request ctx.dialect) (hd : ctx.dialect.knowsQuota = true)
    (hrest : ctx.Stops Octet.isInLine rest) :
    CommandBody.rule.Reads ctx (r.octets ++ rest) r.value rest := by
  have hinner := hrest.mono Octet.inLine_of_inner
  have hatom := hinner.mono Octet.inner_of_atom
  cases r with simp only [Request.octets, List.append_assoc, List.cons_append]
  | simple name known s =>
    have hnames : simpleCommands.map (Keyword.ruleName? "") = simpleNames.map some := by
      decide +kernel
    have hrule : ∀ name ∈ simpleNames, (name, simpleRule) ∈ byName := by simp [simpleNames, byName]
    have hfind := Keyword.find?_of_names byName_nodup hnames hrule known
    exact dispatch_reads s (isWord_of_command (by simp [known])) hfind hatom
      (simpleRule_reads known s hinner)
  | authenticate s mechanism initial =>
    exact dispatch_reads s (by decide) rfl (by rfl) (authenticateRule_reads s mechanism initial hrest)
  | login s username password =>
    exact dispatch_reads s (by decide) rfl (by rfl) (loginRule_reads s username password hinner)
  | onMailbox name known s mailbox =>
    have hnames : mailboxCommands.map (Keyword.ruleName? "") = mailboxNames.map some := by
      decide +kernel
    have hrule : ∀ name ∈ mailboxNames, (name, mailboxRule) ∈ byName := by
      simp [mailboxNames, byName]
    have hfind := Keyword.find?_of_names byName_nodup hnames hrule known
    exact dispatch_reads s (isWord_of_command (by simp [known])) hfind (by rfl)
      (mailboxRule_reads known s mailbox hinner)
  | rename s old new =>
    exact dispatch_reads s (by decide) rfl (by rfl) (renameRule_reads s old new hinner)
  | list name known s reference pattern =>
    have hnames : listCommands.map (Keyword.ruleName? "") = ["list", "lsub"].map some := by
      decide +kernel
    have hrule : ∀ name ∈ ["list", "lsub"], (name, listRule) ∈ byName := by simp [byName]
    have hfind := Keyword.find?_of_names byName_nodup hnames hrule known
    exact dispatch_reads s (isWord_of_command (by simp [known])) hfind (by rfl)
      (listRule_reads known s reference pattern hinner)
  | status s mailbox items hne =>
    exact dispatch_reads s (by decide) rfl (by rfl) (statusRule_reads s mailbox hne)
  | copy uid s set h mailbox =>
    cases uid with
    | none =>
      exact dispatch_reads s (by decide) rfl (by rfl) (copyRule_reads false s h mailbox hinner)
    | some uid =>
      simp only [uidOctets, List.append_assoc, List.singleton_append]
      have hkeyword : IsKeyword "COPY" "copy" := by decide
      exact dispatch_reads uid (by decide) rfl (by rfl)
        (uidRule_reads uid s hkeyword (by rfl) (copyRule_reads true s h mailbox hinner))
  | store uid s set h item flags =>
    cases uid with
    | none =>
      exact dispatch_reads s (by decide) rfl (by rfl) (storeRule_reads false s h item flags hrest)
    | some uid =>
      simp only [uidOctets, List.append_assoc, List.singleton_append]
      have hkeyword : IsKeyword "STORE" "store" := by decide
      exact dispatch_reads uid (by decide) rfl (by rfl)
        (uidRule_reads uid s hkeyword (by rfl) (storeRule_reads true s h item flags hrest))
  | uidExpunge uid s set h =>
    have hkeyword : IsKeyword "EXPUNGE" "expunge" := by decide
    exact dispatch_reads uid (by decide) rfl (by rfl)
      (uidRule_reads uid s hkeyword (by rfl) (uidExpungeRule_reads s h hinner))
  | enable s capabilities hne =>
    exact dispatch_reads s (by decide) rfl (by rfl) (enableRule_reads s hd hne hrest)
  | getQuota s root =>
    exact dispatch_reads s (by decide) rfl (by rfl) (getQuotaRule_reads s root hinner)
  | getQuotaRoot s mailbox =>
    exact dispatch_reads s (by decide) rfl (by rfl) (getQuotaRootRule_reads s mailbox hinner)
  | setQuota s root limits =>
    exact dispatch_reads s (by decide) rfl (by rfl) (setQuotaRule_reads s root limits)

end CommandBody

end Imap
