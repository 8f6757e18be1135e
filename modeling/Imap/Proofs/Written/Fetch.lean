import Imap.Proofs.Written.DateTime
import Imap.Proofs.Written.Response

namespace Imap

namespace Written

/-- An address behind its opening parenthesis. -/
structure AddressText (d : Dialect) where
  name : NString d
  route : NString d
  mailbox : NString d
  host : NString d

namespace AddressText

variable {d : Dialect}

def octets (a : AddressText d) : Bytes :=
  a.name.octets ++ 0x20 :: (a.route.octets ++ 0x20 :: (a.mailbox.octets ++
    0x20 :: (a.host.octets ++ [0x29])))

def value (a : AddressText d) : Address := ⟨a.name.value, a.route.value, a.mailbox.value, a.host.value⟩

end AddressText

/-- One address or more, side by side in parentheses, or NIL for none. -/
inductive AddressList (d : Dialect) where
  | nil (spelled : Spelling "NIL")
  | addresses (first : AddressText d) (others : List (AddressText d))

namespace AddressList

variable {d : Dialect}

def octets : AddressList d → Bytes
  | nil spelled => spelled.octets
  | addresses first others =>
    0x28 :: (Bytes.behind 0x28 ((first :: others).map AddressText.octets) ++ [0x29])

def value : AddressList d → Option (List Address)
  | nil _ => none
  | addresses first others => some ((first :: others).map AddressText.value)

end AddressList

structure EnvelopeText (d : Dialect) where
  date : NString d
  subject : NString d
  authors : AddressList d
  sender : AddressList d
  replyTo : AddressList d
  recipients : AddressList d
  cc : AddressList d
  bcc : AddressList d
  inReplyTo : NString d
  messageId : NString d

namespace EnvelopeText

variable {d : Dialect}

def octets (e : EnvelopeText d) : Bytes :=
  0x28 :: (e.date.octets ++ 0x20 :: (e.subject.octets ++ 0x20 :: (e.authors.octets ++
    0x20 :: (e.sender.octets ++ 0x20 :: (e.replyTo.octets ++ 0x20 :: (e.recipients.octets ++
      0x20 :: (e.cc.octets ++ 0x20 :: (e.bcc.octets ++ 0x20 :: (e.inReplyTo.octets ++
        0x20 :: (e.messageId.octets ++ [0x29]))))))))))

def value (e : EnvelopeText d) : Envelope :=
  ⟨e.date.value, e.subject.value, e.authors.value, e.sender.value, e.replyTo.value,
    e.recipients.value, e.cc.value, e.bcc.value, e.inReplyTo.value, e.messageId.value⟩

end EnvelopeText

/-- The attributes whose value is a part of the message. -/
def contentNames : List String := ["RFC822", "RFC822.HEADER", "RFC822.TEXT"]

/-- An attribute of a message, with its value. -/
inductive Attribute (d : Dialect) where
  | flags (name : Spelling "FLAGS") (flags : List Flag)
  | uid (name : Spelling "UID") (n : NonZero)
  | size (name : Spelling "RFC822.SIZE") (n : Number Rule.maxNumber)
  | internalDate (name : Spelling "INTERNALDATE") (moment : Moment)
  | envelope (name : Spelling "ENVELOPE") (e : EnvelopeText d)
  | content (name : String) (known : name ∈ contentNames) (spelled : Spelling name) (s : NString d)
  /-- A part of the message, perhaps from its octet of number `origin` on. -/
  | body (name : Spelling "BODY") (part : Bytes)
      (bracketed : ∀ b ∈ part, Octet.isBracketedChar b = true)
      (origin : Option (Number Rule.maxNumber)) (s : NString d)

namespace Attribute

variable {d : Dialect}

def originOctets : Option (Number Rule.maxNumber) → Bytes
  | none => []
  | some n => 0x3C :: (n.octets ++ [0x3E])

def originText : Option (Number Rule.maxNumber) → String
  | none => ""
  | some n => s!"<{n.value}>"

def octets : Attribute d → Bytes
  | flags name fs => name.octets ++ 0x20 :: Bytes.inParens (fs.map Flag.octets)
  | uid name n => name.octets ++ 0x20 :: n.octets
  | size name n => name.octets ++ 0x20 :: n.octets
  | internalDate name moment => name.octets ++ 0x20 :: moment.octets
  | envelope name e => name.octets ++ 0x20 :: e.octets
  | content _ _ spelled s => spelled.octets ++ 0x20 :: s.octets
  | body name part _ origin s =>
    name.octets ++ 0x5B :: (part ++ 0x5D :: (originOctets origin ++ 0x20 :: s.octets))

/-- The name in capitals, and the value. -/
def value : Attribute d → String × FetchValue
  | flags _ fs => ("FLAGS", .flags (fs.map Flag.value))
  | uid _ n => ("UID", .number n.value)
  | size _ n => ("RFC822.SIZE", .number n.value)
  | internalDate _ moment => ("INTERNALDATE", .moment moment.date)
  | envelope _ e => ("ENVELOPE", .envelope e.value)
  | content name _ _ s => (name, .octets s.value)
  | body _ part _ origin s =>
    (s!"BODY[{(Bytes.text part).toUpper}]{originText origin}", .octets s.value)

end Attribute

/-- An answer to FETCH, up to and with its line end. -/
structure FetchLine where
  message : NonZero
  name : Spelling "FETCH"
  attributes : List (Attribute .response)
  some : attributes ≠ []
  lineEnd : LineEnd

namespace FetchLine

def octets (l : FetchLine) : Bytes :=
  0x2A :: 0x20 :: (l.message.octets ++ 0x20 :: (l.name.octets ++
    0x20 :: (Bytes.inParens (l.attributes.map Attribute.octets) ++ l.lineEnd.octets)))

def value (l : FetchLine) : FetchData := ⟨l.message.value, l.attributes.map Attribute.value⟩

end FetchLine

end Written

open Rule Written

variable {ctx : Context} {rest : Bytes}

namespace Address

theorem bodyRule_reads (a : AddressText ctx.dialect) :
    bodyRule.Reads ctx (a.octets ++ rest) a.value rest := by
  simp only [AddressText.octets, List.append_assoc, List.cons_append]
  apply (nstring_reads a.name).bind
  apply space_reads.bind
  apply (nstring_reads a.route).bind
  apply space_reads.bind
  apply (nstring_reads a.mailbox).bind
  apply space_reads.bind
  apply (nstring_reads a.host).bind
  exact (Reads.octet rfl).bind (.pure _)

theorem listRule_reads (as : AddressList ctx.dialect) :
    listRule.Reads ctx (as.octets ++ rest) as.value rest := by
  cases as with
  | nil spelled =>
    apply nil_or_reads spelled
    intro b hb
    split
    · next h => cases h; cases hb
    · rfl
  | addresses first others =>
    have hall : (parenthesized bodyRule).Reads ctx
        (Bytes.behind 0x28 ((first :: others).map AddressText.octets) ++ 0x29 :: rest)
        ((first :: others).map AddressText.value) rest :=
      parenthesized_reads first others fun a _ => bodyRule_reads a
    have htotal : AddressList.octets (.addresses first others) ++ rest =
        0x28 :: (Bytes.behind 0x28 ((first :: others).map AddressText.octets) ++ 0x29 :: rest) := by
      rw [AddressList.octets, List.cons_append, List.append_assoc]
      rfl
    rw [htotal]
    apply Reads.peek.bind
    exact (Reads.octet rfl).bind (hall.bind (.pure _))

end Address

theorem Envelope.rule_reads (e : EnvelopeText ctx.dialect) :
    Envelope.rule.Reads ctx (e.octets ++ rest) e.value rest := by
  simp only [EnvelopeText.octets, List.append_assoc, List.cons_append]
  apply (Reads.octet rfl).bind
  apply (nstring_reads e.date).bind
  apply space_reads.bind
  apply (nstring_reads e.subject).bind
  apply space_reads.bind
  apply (Address.listRule_reads e.authors).bind
  apply space_reads.bind
  apply (Address.listRule_reads e.sender).bind
  apply space_reads.bind
  apply (Address.listRule_reads e.replyTo).bind
  apply space_reads.bind
  apply (Address.listRule_reads e.recipients).bind
  apply space_reads.bind
  apply (Address.listRule_reads e.cc).bind
  apply space_reads.bind
  apply (Address.listRule_reads e.bcc).bind
  apply space_reads.bind
  apply (nstring_reads e.inReplyTo).bind
  apply space_reads.bind
  apply (nstring_reads e.messageId).bind
  exact (Reads.octet rfl).bind (.pure _)

namespace FetchValue

/-- An attribute is read under its name, with what its rule adds to that. -/
theorem attributeRule_reads {word more : String} {rule : Rule (String × FetchValue)} {v : FetchValue}
    {bs : Bytes} (s : Spelling word) (hword : IsWord Octet.isAttributeChar word)
    (hupper : word.toList.map Char.toUpper = word.toList) (hfind : values.lookup word = some rule)
    (hstop : ctx.Stops Octet.isAttributeChar bs) (hrule : rule.Reads ctx bs (more, v) rest) :
    attributeRule.Reads ctx (s.octets ++ bs) (word ++ more, v) rest := by
  have hspan : (span Octet.isAttributeChar .attributeName).Reads ctx (s.octets ++ bs)
      (Bytes.text s.octets) bs := (s.run .attributeChar hword).reads .attributeChar hstop
  have hfound : (Bytes.text s.octets).toUpper = word := s.toUpper_eq hword hupper
  have hname : nameRule.Reads ctx (s.octets ++ bs) (word, rule) bs := by
    refine hspan.refine ?_
    rw [hfound, hfind]
  exact hname.bind (hrule.bind (.pure _))

theorem plainRule_reads {word : String} {rule : Rule FetchValue} {v : FetchValue} {bs : Bytes}
    (s : Spelling word) (hword : IsWord Octet.isAttributeChar word)
    (hupper : word.toList.map Char.toUpper = word.toList) (hfind : values.lookup word = some (plainRule rule))
    (hrule : rule.Reads ctx bs v rest) :
    attributeRule.Reads ctx (s.octets ++ 0x20 :: bs) (word, v) rest := by
  have hplain : (plainRule rule).Reads ctx (0x20 :: bs) ("", v) rest :=
    space_reads.bind (hrule.bind (.pure _))
  have h := attributeRule_reads s hword hupper hfind (by rfl) hplain
  rwa [String.append_empty] at h

theorem numberRule_reads {r : Rule Nat} {n : Nat} {bs : Bytes} (hr : r.Reads ctx bs n rest) :
    (numberRule r).Reads ctx bs (.number n) rest := by
  have hcast : (do return Int.ofNat (← r) : Rule Int).Reads ctx bs n rest := hr.bind (.pure _)
  exact hcast.map _

theorem contentRule_reads (s : NString ctx.dialect) :
    contentRule.Reads ctx (s.octets ++ rest) (.octets s.value) rest := (nstring_reads s).map _

theorem originRule_reads (origin : Option (Number maxNumber)) :
    originRule.Reads ctx (Attribute.originOctets origin ++ 0x20 :: rest)
      (Attribute.originText origin) (0x20 :: rest) := by
  cases origin with
  | none => exact (Reads.skip_none rfl rfl (by rfl)).bind (.pure "")
  | some n =>
    simp only [Attribute.originOctets, List.cons_append, List.append_assoc]
    apply (Reads.skip rfl).bind
    apply (number_reads n (by rfl)).bind
    exact (Reads.octet rfl).bind (.pure _)

theorem bodyRule_reads {part : Bytes} (hpart : ∀ b ∈ part, Octet.isBracketedChar b = true)
    (origin : Option (Number maxNumber)) (s : NString ctx.dialect) :
    bodyRule.Reads ctx
      (0x5B :: (part ++ 0x5D :: (Attribute.originOctets origin ++ 0x20 :: (s.octets ++ rest))))
      (s!"[{(Bytes.text part).toUpper}]{Attribute.originText origin}", .octets s.value) rest := by
  have hstop (more : Bytes) : ctx.Stops Octet.isBracketedChar (0x5D :: more) := by rfl
  have hname (more : Bytes) : (token (fun bs => (bs.takeWhile Octet.isBracketedChar).length) true
      (.element .section) (.expected .section)).Reads ctx (part ++ 0x5D :: more) (Bytes.text part)
        (0x5D :: more) :=
    .token (by rw [(hstop more).takeWhile_append hpart]) (hstop more).settled (.inr rfl)
      fun b hb => Octet.Ascii.bracketedChar b (hpart b hb)
  apply (Reads.octet rfl).bind
  apply (hname _).bind
  apply (Reads.octet rfl).bind
  apply (originRule_reads origin).bind
  apply space_reads.bind
  exact (contentRule_reads s).bind (.pure _)

/-- A name of a part of the message, as the table of the attributes has it. -/
theorem content_known : ∀ name ∈ contentNames, IsWord Octet.isAttributeChar name ∧
    name.toList.map Char.toUpper = name.toList ∧ values.lookup name = some (plainRule contentRule) := by
  rw [contentNames, List.forall_mem_cons, List.forall_mem_cons, List.forall_mem_singleton]
  exact ⟨⟨by decide, by decide, rfl⟩, ⟨by decide, by decide, rfl⟩,
    ⟨by decide, by decide, rfl⟩⟩

/-- An attribute is read in front of a space or the closing parenthesis of its list. -/
theorem attribute_reads (a : Attribute ctx.dialect) (hrest : ctx.Stops Octet.isInner rest) :
    attributeRule.Reads ctx (a.octets ++ rest) a.value rest := by
  have hdigit : ctx.Stops Octet.isDigit rest := hrest.mono Octet.inner_of_digit
  cases a with
  | flags name fs =>
    have hvalue : (FetchValue.flags <$> Rule.flags).Reads ctx
        (Bytes.inParens (fs.map Flag.octets) ++ rest) (.flags (fs.map Flag.value)) rest :=
      (flags_reads fs).map _
    simp only [Attribute.octets, List.append_assoc, List.cons_append]
    exact plainRule_reads name (by decide) (by decide) rfl hvalue
  | uid name n =>
    simp only [Attribute.octets, List.append_assoc, List.cons_append]
    exact plainRule_reads name (by decide) (by decide) rfl
      (numberRule_reads (nonZeroNumber_reads n hdigit))
  | size name n =>
    simp only [Attribute.octets, List.append_assoc, List.cons_append]
    exact plainRule_reads name (by decide) (by decide) rfl
      (numberRule_reads (number_reads n hdigit))
  | internalDate name m =>
    have hvalue : (FetchValue.moment <$> DateTime.rule).Reads ctx (m.octets ++ rest)
        (.moment m.date) rest := (DateTime.rule_reads m).map _
    simp only [Attribute.octets, List.append_assoc, List.cons_append]
    exact plainRule_reads name (by decide) (by decide) rfl hvalue
  | envelope name e =>
    have hvalue : (FetchValue.envelope <$> Envelope.rule).Reads ctx (e.octets ++ rest)
        (.envelope e.value) rest := (Envelope.rule_reads e).map _
    simp only [Attribute.octets, List.append_assoc, List.cons_append]
    exact plainRule_reads name (by decide) (by decide) rfl hvalue
  | content name known spelled s =>
    obtain ⟨hword, hupper, hfind⟩ := content_known name known
    simp only [Attribute.octets, List.append_assoc, List.cons_append]
    exact plainRule_reads spelled hword hupper hfind (contentRule_reads s)
  | body name part bracketed origin s =>
    simp only [Attribute.octets, List.append_assoc, List.cons_append]
    exact attributeRule_reads name (by decide) (by decide) rfl (by rfl)
      (bodyRule_reads bracketed origin s)

theorem attribute_opens (a : Attribute ctx.dialect) (more : Bytes) :
    ctx.Stops (· == 0x29) (a.octets ++ more) := by
  have hname {word : String} (s : Spelling word) (hword : IsWord Octet.isAttributeChar word)
      (bs : Bytes) : ctx.Stops (· == 0x29) (s.octets ++ bs) :=
    (s.run .attributeChar hword).stops rfl ctx bs
  cases a <;> simp only [Attribute.octets, List.append_assoc]
  case content name known spelled s => exact hname spelled (content_known name known).1 _
  all_goals exact hname _ (by decide) _

theorem attributes_read (as : List (Attribute ctx.dialect)) :
    ReadsItems attributeRule ctx Attribute.octets Attribute.value as where
  each a _ _ hmore := attribute_reads a hmore
  opens a _ more := attribute_opens a more

end FetchValue

theorem Data.fetchRule_reads {complete : Bool} (l : FetchLine) :
    (fetchRule l.message.value).Reads ⟨complete, .response⟩
      (l.name.octets ++ 0x20 :: (Bytes.inParens (l.attributes.map Attribute.octets) ++ rest))
      (.fetch l.value) rest := by
  let ctx : Context := ⟨complete, .response⟩
  have hkeyword (more : Bytes) : (messageKeyword "fetch" l.message.value).Reads ctx
      (l.name.octets ++ 0x20 :: more) () (0x20 :: more) :=
    (keyword_reads l.name (by decide) (by rfl)).refine
      (if_neg (Nat.ne_of_gt l.message.positive))
  have hitems := @FetchValue.attributes_read ctx l.attributes
  apply (hkeyword _).bind
  apply space_reads.bind
  exact (nonEmptyList_reads hitems l.some).bind (.pure _)

end Imap
