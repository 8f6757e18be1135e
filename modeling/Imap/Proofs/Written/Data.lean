import Imap.Proofs.Written.Name
import Imap.Proofs.Written.Response

namespace Imap

namespace Written

/-- The character between the levels of a mailbox's name, or NIL for none. -/
inductive Delimiter where
  | nil (spelled : Spelling "NIL")
  | character (q : Quoted) (single : q.content.length = 1)

namespace Delimiter

def octets : Delimiter → Bytes
  | nil spelled => spelled.octets
  | character q _ => q.octets

def value : Delimiter → Option String
  | nil _ => none
  | character q _ => some (Bytes.text q.content)

end Delimiter

/-- What a server reports unasked. -/
inductive Notice (d : Dialect) where
  | enabled (name : Spelling "ENABLED") (capabilities : List Atom)
  | flags (name : Spelling "FLAGS") (items : List Flag)
  | list (name : String) (known : name ∈ listCommands) (spelled : Spelling name)
      (attributes : List Flag) (delimiter : Delimiter) (mailbox : Astring d)
  | search (name : Spelling "SEARCH") (ids : List NonZero)
  | status (name : Spelling "STATUS") (mailbox : Astring d) (counts : List StatusCount)
  | exist (count : Number Rule.maxNumber) (name : Spelling "EXISTS")
  | recent (count : Number Rule.maxNumber) (name : Spelling "RECENT")
  | quota (name : Spelling "QUOTA") (root : Astring d) (usages : List Usage) (some : usages ≠ [])
  | quotaRoot (name : Spelling "QUOTAROOT") (mailbox : Astring d) (roots : List (Astring d))

namespace Notice

variable {d : Dialect}

def octets : Notice d → Bytes
  | enabled name capabilities => name.octets ++ Bytes.behind 0x20 (capabilities.map Run.octets)
  | flags name items => name.octets ++ 0x20 :: Bytes.inParens (items.map Flag.octets)
  | list _ _ spelled attributes delimiter mailbox =>
    spelled.octets ++ 0x20 :: (Bytes.inParens (attributes.map Flag.octets) ++
      0x20 :: (delimiter.octets ++ 0x20 :: mailbox.octets))
  | search name ids => name.octets ++ Bytes.behind 0x20 (ids.map NonZero.octets)
  | status name mailbox counts =>
    name.octets ++ 0x20 :: (mailbox.octets ++ 0x20 :: Bytes.inParens (counts.map StatusCount.octets))
  | exist count name => count.octets ++ 0x20 :: name.octets
  | recent count name => count.octets ++ 0x20 :: name.octets
  | quota name root usages _ =>
    name.octets ++ 0x20 :: (root.octets ++ 0x20 :: Bytes.inParens (usages.map Usage.octets))
  | quotaRoot name mailbox roots =>
    name.octets ++ 0x20 :: (mailbox.octets ++ Bytes.behind 0x20 (roots.map BareOrString.octets))

/-- What the notice says. -/
def value : Notice d → Data
  | enabled _ capabilities => .enabled (capabilities.map fun c => .named c.text)
  | flags _ items => .flags (items.map Flag.value)
  | list name _ _ attributes delimiter mailbox =>
    .list name (attributes.map Flag.value) delimiter.value mailbox.mailbox
  | search _ ids => .search (ids.map fun n => n.value)
  | status _ mailbox counts => .status mailbox.mailbox (counts.map StatusCount.value)
  | exist count _ => .exist count.value
  | recent count _ => .recent count.value
  | quota _ root usages _ => .quota root.value (usages.map Usage.value)
  | quotaRoot _ mailbox roots => .quotaRoot mailbox.mailbox (roots.map BareOrString.value)

end Notice

/-- A notice up to and with its line end. -/
structure NoticeLine where
  notice : Notice .response
  lineEnd : LineEnd

namespace NoticeLine

def octets (l : NoticeLine) : Bytes := 0x2A :: 0x20 :: (l.notice.octets ++ l.lineEnd.octets)

end NoticeLine

end Written

open Rule Written

namespace Data

variable {ctx : Context} {rest : Bytes}

theorem delimiterRule_reads (delimiter : Delimiter) :
    delimiterRule.Reads ctx (delimiter.octets ++ rest) delimiter.value rest := by
  cases delimiter with
  | nil spelled =>
    refine nil_or_reads spelled fun b hb => ?_
    split
    · next h => cases h; cases hb
    · rfl
  | character q single =>
    have hlength : (Bytes.text q.content).length = 1 := by
      rw [← String.length_toList, Bytes.text_toList, List.length_map, single]
    exact Reads.peek.bind ((quotedText_reads q).refine (if_pos hlength))

theorem listRule_reads {name : String} (known : name ∈ listCommands) (s : Spelling name)
    (attributes : List Flag) (delimiter : Delimiter) (mailbox : Astring ctx.dialect)
    (hrest : ctx.Stops Octet.isInner rest) :
    listRule.Reads ctx
      (s.octets ++ 0x20 :: (Bytes.inParens (attributes.map Flag.octets) ++
        0x20 :: (delimiter.octets ++ 0x20 :: (mailbox.octets ++ rest))))
      (.list name (attributes.map Flag.value) delimiter.value mailbox.mailbox) rest := by
  have words : ∀ name ∈ listCommands,
      IsWord Octet.isAtomChar name ∧ name.toList.map Char.toUpper = name.toList := by decide
  obtain ⟨hword, hupper⟩ := words name known
  have hname : (Bytes.text s.octets).toUpper = name := s.toUpper_eq hword hupper
  have hvalue := congrArg (list · (attributes.map Flag.value) delimiter.value mailbox.mailbox) hname
  refine Reads.of_eq ?_ hvalue
  apply (atom_reads_word s hword (by rfl)).bind
  apply space_reads.bind
  apply (flags_reads attributes).bind
  apply space_reads.bind
  apply (delimiterRule_reads delimiter).bind
  apply space_reads.bind
  exact (mailbox_reads mailbox hrest).bind (.pure _)

theorem statusRule_reads (s : Spelling "STATUS") (mailbox : Astring ctx.dialect)
    (counts : List StatusCount) :
    statusRule.Reads ctx
      (s.octets ++ 0x20 :: (mailbox.octets ++
        0x20 :: (Bytes.inParens (counts.map StatusCount.octets) ++ rest)))
      (.status mailbox.mailbox (counts.map StatusCount.value)) rest := by
  apply (keyword_reads s (by decide) (by rfl)).discard.bind
  apply space_reads.bind
  apply (mailbox_reads mailbox (by rfl)).bind
  apply space_reads.bind
  exact (list_reads (statusCounts_read counts)).bind (.pure _)

end Data

namespace Response

variable {ctx : Context} {rest : Bytes}

end Response

end Imap
