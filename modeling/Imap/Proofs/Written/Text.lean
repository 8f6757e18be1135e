import Imap.Proofs.Line.Framed
import Imap.Proofs.Written.Token

namespace Imap

/-- ASCII is its own UTF-8. -/
theorem Text.Utf8.decode_ascii {bs : Bytes} (h : ∀ b ∈ bs, b < 0x80) : decode bs = Bytes.text bs := by
  have hchars : chars bs = bs.map Octet.char := by
    induction bs with
    | nil => rw [chars]; rfl
    | cons b bs ih =>
      have hlead : lead b = some (b.toNat, []) := if_pos (h b List.mem_cons_self)
      rw [chars, hlead, List.map_cons, ← ih fun c hc => h c (List.mem_cons_of_mem _ hc)]
      rfl
  rw [decode, hchars]
  rfl

namespace Written

/-- A line end; the carriage return may be missing. -/
inductive LineEnd where
  | feed
  | returnFeed

def LineEnd.octets : LineEnd → Bytes
  | feed => [0x0A]
  | returnFeed => [0x0D, 0x0A]

theorem LineEnd.stops (e : LineEnd) (ctx : Context) (rest : Bytes) :
    ctx.Stops Octet.isInLine (e.octets ++ rest) := by
  cases e <;> rfl

end Written

open Written

namespace Rule

variable {ctx : Context} {rest : Bytes}

theorem lineEnd_reads (e : LineEnd) : lineEnd.Reads ctx (e.octets ++ rest) () rest := by
  cases e with
  | feed => exact ⟨[0x0A], rfl, lineEnd_feed ctx rest⟩
  | returnFeed => exact ⟨[0x0D, 0x0A], rfl, lineEnd_return ctx rest⟩

end Rule

namespace Written

/-- What stands for an octet between quotes: the quote and the backslash are escaped. -/
def escape (b : UInt8) : Bytes := if b = 0x22 ∨ b = 0x5C then [0x5C, b] else [b]

structure Quoted where
  content : Bytes
  isText : ∀ b ∈ content, Octet.isTextChar b = true

def Quoted.octets (q : Quoted) : Bytes := 0x22 :: (q.content.flatMap escape ++ [0x22])

/-- What announces a literal of a size, with zeros in front of the size. -/
def announce (zeros size : Nat) (plus : Bool) (e : LineEnd) : Bytes :=
  0x7B :: (Bytes.numeral zeros size ++ (if plus then [0x2B] else []) ++ 0x7D :: e.octets)

/-- What announces a literal to the rules of a language. -/
structure Announcement (d : Dialect) where
  zeros : Nat
  size : Nat
  plus : Bool
  lineEnd : LineEnd
  bounded : size ≤ Rule.maxNumber
  plusAllowed : plus = true → d.plusLiterals = true

namespace Announcement

variable {d : Dialect}

def octets (a : Announcement d) : Bytes := announce a.zeros a.size a.plus a.lineEnd

theorem octets_append (a : Announcement d) (rest : Bytes) : a.octets ++ rest =
    0x7B :: (Bytes.numeral a.zeros a.size ++
      ((if a.plus then [0x2B] else []) ++ 0x7D :: (a.lineEnd.octets ++ rest))) := by
  simp only [octets, announce, List.cons_append, List.append_assoc]

end Announcement

/-- Octets other than NUL behind their number, which a client may mark with a plus. -/
structure Literal (d : Dialect) where
  content : Bytes
  zeros : Nat
  plus : Bool
  lineEnd : LineEnd
  bounded : content.length ≤ Rule.maxNumber
  noNul : 0 ∉ content
  plusAllowed : plus = true → d.plusLiterals = true

/-- What announces the content. -/
def Literal.header {d : Dialect} (l : Literal d) : Bytes :=
  announce l.zeros l.content.length l.plus l.lineEnd

def Literal.octets {d : Dialect} (l : Literal d) : Bytes := l.header ++ l.content

def Literal.announcement {d : Dialect} (l : Literal d) : Announcement d where
  zeros := l.zeros
  size := l.content.length
  plus := l.plus
  lineEnd := l.lineEnd
  bounded := l.bounded
  plusAllowed := l.plusAllowed

/-- A string between quotes or as a literal. -/
inductive Str (d : Dialect) where
  | quoted (q : Quoted)
  | literal (l : Literal d)

namespace Str

variable {d : Dialect}

def content : Str d → Bytes
  | quoted q => q.content
  | literal l => l.content

def octets : Str d → Bytes
  | quoted q => q.octets
  | literal l => l.octets

end Str

end Written

namespace Rule

variable {ctx : Context} {rest : Bytes}

theorem quotedTail_escaped {b : UInt8} {bs : Bytes} (h : Octet.isTextChar b = true) :
    quotedTail ctx (escape b ++ bs) = ((quotedTail ctx bs).map (b :: ·)).shift (escape b).length := by
  unfold escape
  split
  · next hb => exact quotedTail_escape _ _ hb
  · next hb =>
    rw [not_or] at hb
    exact quotedTail_char _ _ hb.1 hb.2 h

theorem quotedTail_reads {content : Bytes} (h : ∀ b ∈ content, Octet.isTextChar b = true) :
    Reads quotedTail ctx (content.flatMap escape ++ 0x22 :: rest) content rest := by
  induction content with
  | nil => exact ⟨[0x22], rfl, quotedTail_close ctx rest⟩
  | cons b content ih =>
    obtain ⟨hb, hothers⟩ := List.forall_mem_cons.mp h
    rw [List.flatMap_cons, List.append_assoc]
    exact Reads.step (escape b) (ih hothers) (quotedTail_escaped hb)

theorem quoted_reads (q : Quoted) : quoted.Reads ctx (q.octets ++ rest) q.content rest := by
  rw [Quoted.octets, List.cons_append, List.append_assoc]
  exact (Reads.octet rfl).bind (quotedTail_reads q.isText)

theorem quotedText_reads (q : Quoted) :
    quotedText.Reads ctx (q.octets ++ rest) (Bytes.text q.content) rest := by
  apply (quoted_reads q).bind
  refine .ofExcept ?_
  apply Text.Ascii.decode_ok
  intro b hb
  exact Octet.Ascii.textChar b (q.isText b hb)

theorem literalBody_reads {content : Bytes} (h : 0 ∉ content) :
    (literalBody content.length).Reads ctx (content ++ rest) content rest := by
  refine .of_done ?_
  have hnul : content.contains 0 = false := Bool.eq_false_iff.mpr fun hc => h (List.contains_iff_mem.mp hc)
  simp only [literalBody, List.take_left, Nat.lt_irrefl, hnul, if_false, Bool.false_eq_true]

/-- Behind its announcement the body of a literal decides. -/
theorem literal_announced {bs content : Bytes} (a : Announcement ctx.dialect) :
    literal.Reads ctx (a.octets ++ bs) content rest ↔
      (literalBody a.size).Reads ctx bs content rest := by
  have htail : Reads (do expect "\x7d" .literalEnd; lineEnd; literalBody a.size) ctx
      (0x7D :: (a.lineEnd.octets ++ bs)) content rest ↔
        (literalBody a.size).Reads ctx bs content rest :=
    (Reads.octet rfl).bind_iff.trans (lineEnd_reads _).bind_iff
  have hsize (more : Bytes) (hmore : ctx.Stops Octet.isDigit more) :
      (digits maxNumber .literalLength).Reads ctx (Bytes.numeral a.zeros a.size ++ more) a.size more :=
    digits_reads a.bounded hmore
  rw [a.octets_append]
  refine (Reads.octet rfl).bind_iff.trans ?_
  cases hplus : a.plus with
  | true =>
    refine (hsize _ (by rfl)).bind_iff.trans (Reads.dialect.bind_iff.trans ?_)
    rw [if_pos (a.plusAllowed hplus)]
    exact (Reads.skip rfl).discard.bind_iff.trans htail
  | false =>
    refine (hsize _ (by rfl)).bind_iff.trans (Reads.dialect.bind_iff.trans ?_)
    split
    · exact (Reads.skip_none rfl rfl (by rfl)).discard.bind_iff.trans htail
    · exact htail

theorem literal_reads (l : Literal ctx.dialect) :
    literal.Reads ctx (l.octets ++ rest) l.content rest := by
  have htotal : l.octets ++ rest = l.announcement.octets ++ (l.content ++ rest) :=
    List.append_assoc ..
  rw [htotal]
  exact (literal_announced l.announcement).mpr (literalBody_reads l.noNul)

theorem string_reads (s : Str ctx.dialect) : string.Reads ctx (s.octets ++ rest) s.content rest := by
  cases s with
  | quoted q => exact Reads.peek.bind (quoted_reads q)
  | literal l => exact Reads.peek.bind (literal_reads l)

end Rule

namespace Written

/-- A text: bare, if a class admits all its octets, or a string. -/
inductive BareOrString (isMember : UInt8 → Bool) (d : Dialect) where
  | bare (r : Run isMember)
  | string (s : Str d)

abbrev Astring := BareOrString Octet.isAstringChar

/-- A mailbox pattern, which may hold wildcards. -/
abbrev Pattern := BareOrString Octet.isPatternChar

namespace BareOrString

variable {isMember : UInt8 → Bool} {d : Dialect}

def content : BareOrString isMember d → Bytes
  | bare r => r.octets
  | string s => s.content

def octets : BareOrString isMember d → Bytes
  | bare r => r.octets
  | string s => s.octets

def value (t : BareOrString isMember d) : String := Text.Utf8.decode t.content

/-- As a mailbox; INBOX is one name in any case. -/
def mailbox (t : BareOrString isMember d) : String :=
  if t.value.toLower = "inbox" then "INBOX" else t.value

end BareOrString

/-- A string, or NIL for none. -/
inductive NString (d : Dialect) where
  | nil (spelled : Spelling "NIL")
  | string (s : Str d)

namespace NString

variable {d : Dialect}

def value : NString d → Option Bytes
  | nil _ => none
  | string s => some s.content

def octets : NString d → Bytes
  | nil spelled => spelled.octets
  | string s => s.octets

end NString

/-- A flag, with a backslash where the protocol defines it. -/
structure Flag where
  backslash : Bool
  name : Atom

namespace Flag

def octets (f : Flag) : Bytes := (if f.backslash then [0x5C] else []) ++ f.name.octets

def value (f : Flag) : String := if f.backslash then "\\" ++ f.name.text else f.name.text

end Flag

/-- A string begins with a quote or a brace. -/
theorem Str.head {d : Dialect} (s : Str d) :
    ∃ b bs, s.octets = b :: bs ∧ (b = 0x22 ∨ b = 0x7B) := by
  cases s with
  | quoted q => exact ⟨_, _, rfl, .inl rfl⟩
  | literal l => exact ⟨_, _, rfl, .inr rfl⟩

theorem Flag.head (f : Flag) :
    ∃ b bs, f.octets = b :: bs ∧ (b = 0x5C ∨ Octet.isAtomChar b = true) := by
  obtain ⟨backslash, name⟩ := f
  cases backslash with
  | true => exact ⟨0x5C, name.octets, rfl, .inl rfl⟩
  | false =>
    obtain ⟨b, bs, hbs⟩ := List.exists_cons_of_ne_nil name.some
    refine ⟨b, bs, hbs, .inr (name.members b ?_)⟩
    rw [hbs]
    exact List.mem_cons_self

end Written

namespace Rule

variable {α σ : Type} {ctx : Context} {rest : Bytes} {isMember : UInt8 → Bool}

theorem bareOrString_reads_string (s : Str ctx.dialect) {pattern : String}
    (hquote : isMember 0x22 = false) (hbrace : isMember 0x7B = false) :
    (bareOrString isMember pattern).Reads ctx (s.octets ++ rest) (Text.Utf8.decode s.content)
      rest := by
  have hstop : ctx.Stops isMember (s.octets ++ rest) := by
    obtain ⟨b, bs, hbs, rfl | rfl⟩ := s.head
    · rw [hbs]; exact hquote
    · rw [hbs]; exact hbrace
  have hbare : (bare isMember pattern).Reads ctx (s.octets ++ rest) none (s.octets ++ rest) :=
    .opt_none (.run hstop)
  exact hbare.bind ((string_reads s).bind (.pure _))

theorem bareOrString_reads (t : BareOrString isMember ctx.dialect) {pattern : String}
    (ascii : Octet.Ascii isMember) (hquote : isMember 0x22 = false) (hbrace : isMember 0x7B = false)
    (hrest : ctx.Stops isMember rest) :
    (bareOrString isMember pattern).Reads ctx (t.octets ++ rest) t.value rest := by
  cases t with
  | bare r =>
    have hvalue : BareOrString.value (.bare r : BareOrString isMember ctx.dialect) = r.text :=
      Text.Utf8.decode_ascii fun b hb => ascii b (r.members b hb)
    have hbare : (bare isMember pattern).Reads ctx (r.octets ++ rest) (some r.text) rest :=
      (Reads.token (by rw [hrest.takeWhile_append r.members]) hrest.settled (.inl r.some)
        fun b hb => ascii b (r.members b hb)).opt
    rw [hvalue]
    exact hbare.bind (.pure _)
  | string s => exact bareOrString_reads_string s hquote hbrace

theorem astring_reads (t : Astring ctx.dialect) (hrest : ctx.Stops Octet.isInner rest) :
    astring.Reads ctx (t.octets ++ rest) t.value rest := by
  have hbare := hrest.mono Octet.inner_of_astring
  exact bareOrString_reads t .astringChar rfl rfl hbare

theorem mailboxPattern_reads (t : Pattern ctx.dialect) (hrest : ctx.Stops Octet.isInner rest) :
    mailboxPattern.Reads ctx (t.octets ++ rest) t.value rest := by
  have hbare := hrest.mono Octet.inner_of_pattern
  exact bareOrString_reads t .patternChar rfl rfl hbare

theorem mailbox_reads (t : Astring ctx.dialect) (hrest : ctx.Stops Octet.isInner rest) :
    mailbox.Reads ctx (t.octets ++ rest) t.mailbox rest := by
  apply (astring_reads t hrest).bind
  exact .pure _

/-- NIL begins with a letter. -/
theorem nil_head (s : Spelling "NIL") : ∃ b bs, s.octets = b :: bs ∧ Octet.isLetter b = true := by
  let r := s.run .letter (by decide)
  obtain ⟨b, bs, hbs⟩ := List.exists_cons_of_ne_nil r.some
  exact ⟨b, bs, hbs, r.members b (by rw [hbs]; exact List.mem_cons_self)⟩

theorem nil_reads (s : Spelling "NIL") : nil.Reads ctx (s.octets ++ rest) () rest := by
  refine .word ?_
  rw [Bytes.Alike, s.alike]
  decide

/-- A rule that reads NIL where no other form of its value begins. -/
theorem nil_or_reads {a : α} {choose : Option UInt8 → Rule α} (s : Spelling "NIL")
    (hletter : ∀ b, Octet.isLetter b = true → choose (some b) = (do nil; return a)) :
    (do choose (← peek) : Rule α).Reads ctx (s.octets ++ rest) a rest := by
  have hnil : (do nil; return a : Rule α).Reads ctx (s.octets ++ rest) a rest :=
    (nil_reads s).bind (.pure a)
  obtain ⟨b, bs, hbs, hb⟩ := nil_head s
  rw [hbs, List.cons_append] at hnil ⊢
  refine Reads.peek.bind ?_
  rw [hletter b hb]
  exact hnil

theorem nstring_reads (s : NString ctx.dialect) :
    nstring.Reads ctx (s.octets ++ rest) s.value rest := by
  cases s with
  | nil spelled =>
    refine nil_or_reads spelled fun b hb => ?_
    split
    · next h => cases h; cases hb
    · next h => cases h; cases hb
    · rfl
  | string s =>
    have hs : (do return some (← string) : Rule (Option Bytes)).Reads ctx (s.octets ++ rest)
        (some s.content) rest := (string_reads s).bind (.pure _)
    obtain ⟨b, bs, hbs, hb⟩ := s.head
    change nstring.Reads ctx (s.octets ++ rest) (some s.content) rest
    rw [hbs, List.cons_append] at hs ⊢
    rcases hb with rfl | rfl <;> exact Reads.peek.bind hs

theorem flag_reads (f : Flag) (hrest : ctx.Stops Octet.isInner rest) :
    flag.Reads ctx (f.octets ++ rest) f.value rest := by
  have hname : atom.Reads ctx (f.name.octets ++ rest) f.name.text rest :=
    atom_reads f.name (hrest.mono Octet.inner_of_atom)
  obtain ⟨backslash, name⟩ := f
  cases backslash with
  | true => exact (Reads.skip rfl).bind (hname.bind (.pure _))
  | false => exact (Reads.skip_none rfl rfl (name.stops rfl ctx rest)).bind hname

section

variable {element : Rule α} {octets : σ → Bytes} {value : σ → α} {items : List σ}

/-- Reads the elements of a list, none of which begins with the closing parenthesis. -/
structure ReadsItems (element : Rule α) (ctx : Context) (octets : σ → Bytes) (value : σ → α)
    (items : List σ) : Prop where
  each : ∀ i ∈ items, ∀ more, ctx.Stops Octet.isInner more →
    element.Reads ctx (octets i ++ more) (value i) more
  opens : ∀ i ∈ items, ∀ more, ctx.Stops (· == 0x29) (octets i ++ more)

theorem spacedToClose_opens (h : ReadsItems element ctx octets value items) (hne : items ≠ [])
    (more : Bytes) : ctx.Stops (· == 0x29) (Bytes.joined 0x20 (items.map octets) ++ more) := by
  obtain ⟨i, items, rfl⟩ := List.exists_cons_of_ne_nil hne
  rw [List.map_cons, Bytes.joined, List.append_assoc]
  exact h.opens i List.mem_cons_self _

theorem list_reads (h : ReadsItems element ctx octets value items) :
    (list element).Reads ctx (Bytes.inParens (items.map octets) ++ rest) (items.map value) rest := by
  rw [Bytes.inParens, List.cons_append, List.cons_append, List.append_assoc]
  apply (Reads.octet rfl).bind
  by_cases hne : items = []
  · subst hne
    exact (Reads.skip rfl).bind (.pure [])
  · apply (Reads.skip_none rfl rfl (spacedToClose_opens h hne _)).bind
    exact .spacedToClose hne h.each rfl rfl

theorem nonEmptyList_reads (h : ReadsItems element ctx octets value items) (hne : items ≠ []) :
    (nonEmptyList element).Reads ctx (Bytes.inParens (items.map octets) ++ rest)
      (items.map value) rest := by
  rw [Bytes.inParens, List.cons_append, List.cons_append, List.append_assoc]
  refine (Reads.octet rfl).bind ?_
  have hclose : (word ")" (.word ")")).Misses ctx
      (Bytes.joined 0x20 (items.map octets) ++ ([0x29] ++ rest)) :=
    .octet rfl rfl (spacedToClose_opens h hne _)
  exact (Reads.opt_none hclose.lookahead).bind (.spacedToClose hne h.each rfl rfl)

theorem parenthesized_reads (i : σ) (items : List σ)
    (each : ∀ i more, element.Reads ctx (octets i ++ more) (value i) more) :
    (parenthesized element).Reads ctx
      (Bytes.behind 0x28 ((i :: items).map octets) ++ 0x29 :: rest) ((i :: items).map value) rest := by
  rw [List.map_cons, Bytes.behind_cons, List.cons_append, List.append_assoc]
  apply (Reads.octet rfl).bind
  apply (each i _).bind
  exact (Reads.parenthesized_go fun i _ => each i).bind (.pure _)

end

theorem flags_reads (fs : List Flag) :
    flags.Reads ctx (Bytes.inParens (fs.map Flag.octets) ++ rest) (fs.map Flag.value) rest := by
  refine list_reads ⟨fun f _ more hmore => flag_reads f hmore, fun f _ more => ?_⟩
  obtain ⟨b, bs, hbs, rfl | hb⟩ := f.head
  · rw [hbs]; rfl
  · rw [hbs]
    exact beq_false_of_ne fun h => by rw [h] at hb; cases hb

end Rule

end Imap
