import Imap.Source

namespace Imap

namespace Text

/-- Neither a carriage return nor a line feed. -/
def InLine (c : Char) : Prop := c ≠ '\r' ∧ c ≠ '\n'

/-- All characters stand on one line. -/
def OneLine (s : String) : Prop := ∀ c ∈ s.toList, InLine c

instance (c : Char) : Decidable (InLine c) := inferInstanceAs (Decidable (c ≠ '\r' ∧ c ≠ '\n'))

instance (s : String) : Decidable (OneLine s) := List.decidableBAll InLine s.toList

namespace OneLine

theorem ofList {cs : List Char} (h : ∀ c ∈ cs, InLine c) : OneLine (String.ofList cs) := by
  rwa [OneLine, String.toList_ofList]

@[simp] theorem append_iff {s t : String} : OneLine (s ++ t) ↔ OneLine s ∧ OneLine t := by
  simp only [OneLine, String.toList_append, List.mem_append, or_imp, forall_and]

theorem intercalate {separator : String} (hs : OneLine separator) {items : List String}
    (h : ∀ item ∈ items, OneLine item) : OneLine (separator.intercalate items) := by
  induction items with
  | nil =>
    rw [String.intercalate_nil]
    decide
  | cons item items ih =>
    have hitem : OneLine item := h item (List.mem_cons_self ..)
    have hitems := ih fun i hi => h i (List.mem_cons_of_mem _ hi)
    cases items with
    | nil => rwa [String.intercalate_singleton]
    | cons next items =>
      rw [String.intercalate_cons_cons]
      exact append_iff.mpr ⟨append_iff.mpr ⟨hitem, hs⟩, hitems⟩

@[simp] theorem nat (n : Nat) : OneLine n.repr := by
  intro c hc
  have hmem : c ∈ Nat.toDigits 10 n := by rwa [← Nat.toList_repr]
  have hdigit : c.isDigit = true := Nat.isDigit_of_mem_toDigits (by decide) (by decide) hmem
  constructor <;> (rintro rfl; cases hdigit)

@[simp] theorem int (n : Int) : OneLine n.repr := by
  cases n with
  | ofNat n => exact nat n
  | negSucc n => exact append_iff.mpr ⟨(by decide : OneLine "-"), nat (n + 1)⟩

end OneLine

theorem hex_inLine (width n : Nat) : ∀ c ∈ hex width n, InLine c := by
  have digit : ∀ d : Fin 16, InLine d.val.digitChar := by decide
  induction width generalizing n with
  | zero => simp [hex]
  | succ width ih =>
    intro c hc
    rw [hex, List.mem_append, List.mem_singleton] at hc
    rcases hc with hc | rfl
    · exact ih _ c hc
    · exact digit ⟨n % 16, Nat.mod_lt _ (by decide)⟩

/-- Behind a backslash and a mark there are digits. -/
theorem escaped_inLine {mark : Char} (hmark : InLine mark) (width n : Nat) :
    ∀ c ∈ '\\' :: mark :: hex width n, InLine c := by
  intro c hc
  rcases List.mem_cons.mp hc with rfl | hc
  · decide
  rcases List.mem_cons.mp hc with rfl | hc
  · exact hmark
  · exact hex_inLine width n c hc

variable {quote c : Char}

/-- A short escape is a backslash and one more character, and both line ends have one. -/
theorem shortEscape_inLine (hquote : InLine quote) {cs : List Char}
    (h : shortEscape? quote c = some cs) : ∀ d ∈ cs, InLine d := by
  unfold shortEscape? at h
  split at h
  · next hc =>
    have hin : InLine c := by
      rcases hc with rfl | rfl
      · exact hquote
      · decide
    cases h
    intro d hd
    rcases List.mem_cons.mp hd with rfl | hd
    · decide
    · rwa [List.mem_singleton.mp hd]
  repeat' split at h
  all_goals cases h
  all_goals exact List.forall_mem_cons.mpr ⟨by decide, List.forall_mem_singleton.mpr (by decide)⟩

theorem inLine_of_shortEscape_none (h : shortEscape? quote c = none) : InLine c := by
  unfold shortEscape? at h
  constructor <;>
  · rintro rfl
    split at h <;> cases h

theorem escapeChar_inLine (hquote : InLine quote) (c : Char) :
    ∀ d ∈ escapeChar quote c, InLine d := by
  unfold escapeChar
  cases hs : shortEscape? quote c with
  | some cs => exact shortEscape_inLine hquote hs
  | none =>
    rw [Option.getD_none]
    split
    · intro d hd
      rw [List.mem_singleton.mp hd]
      exact inLine_of_shortEscape_none hs
    split
    · exact escaped_inLine (by decide) 2 _
    split
    · exact escaped_inLine (by decide) 4 _
    · exact escaped_inLine (by decide) 8 _

theorem escapeOctet_inLine (hquote : InLine quote) (b : UInt8) :
    ∀ d ∈ escapeOctet quote b, InLine d := by
  simp only [escapeOctet]
  cases hs : shortEscape? quote (Char.ofNat b.toNat) with
  | some cs => exact shortEscape_inLine hquote hs
  | none =>
    rw [Option.getD_none]
    split
    · intro d hd
      rw [List.mem_singleton.mp hd]
      exact inLine_of_shortEscape_none hs
    · exact escaped_inLine (by decide) 2 _

theorem quoteOf_inLine (cs : List Char) : InLine (quoteOf cs) := by
  unfold quoteOf
  split <;> decide

/-- Between quotes, what is escaped piece by piece. -/
theorem enclosed_inLine {α : Type} (hquote : InLine quote) {escape : α → List Char}
    (h : ∀ a, ∀ d ∈ escape a, InLine d) (items : List α) :
    ∀ d ∈ quote :: items.flatMap escape ++ [quote], InLine d := by
  intro d hd
  rw [List.cons_append, List.mem_cons, List.mem_append, List.mem_flatMap, List.mem_singleton] at hd
  rcases hd with rfl | ⟨a, -, hd⟩ | rfl
  · exact hquote
  · exact h a d hd
  · exact hquote

theorem quoted_oneLine (s : String) : OneLine (quoted s) := by
  have hquote := quoteOf_inLine s.toList
  exact .ofList (enclosed_inLine hquote (escapeChar_inLine hquote) s.toList)

theorem quotedOctets_oneLine (bs : Bytes) : OneLine (quotedOctets bs) := by
  have hquote := quoteOf_inLine (bs.map fun b => Char.ofNat b.toNat)
  refine .ofList fun c hc => ?_
  rcases List.mem_cons.mp hc with rfl | hc
  · decide
  · exact enclosed_inLine hquote (escapeOctet_inLine hquote) bs c hc

end Text

theorem DateTime.display_oneLine (d : DateTime) : Text.OneLine d.display := by
  unfold display
  split <;> split <;> simp +decide [toString]

namespace Term

mutual

/-- The names in a term are on one line. -/
def Plain : Term → Prop
  | word vocabulary label _ => Text.OneLine vocabulary ∧ Text.OneLine label
  | tuple items => PlainAll items
  | list items => PlainAll items
  | table entries => PlainEntries entries
  | record name fields => Text.OneLine name ∧ PlainFields fields
  | _ => True

def PlainAll : List Term → Prop
  | [] => True
  | t :: ts => t.Plain ∧ PlainAll ts

def PlainEntries : List (String × Term) → Prop
  | [] => True
  | (_, t) :: rest => t.Plain ∧ PlainEntries rest

def PlainFields : List (String × Term) → Prop
  | [] => True
  | (name, t) :: rest => (Text.OneLine name ∧ t.Plain) ∧ PlainFields rest

end

open Text (OneLine)

theorem parenthesized_oneLine {items : List String} (h : ∀ item ∈ items, OneLine item) :
    OneLine (parenthesized items) := by
  have hitems : OneLine (", ".intercalate items) := .intercalate (by decide) h
  unfold parenthesized
  split
  · next item =>
    have hitem := h item (List.mem_singleton_self _)
    simp +decide [hitem]
  · simp +decide [hitems]

mutual

theorem print_oneLine : ∀ t : Term, t.Plain → OneLine t.print
  | absent, _ => by decide
  | truth b, _ => by cases b <;> decide
  | number n, _ => by simp [print, toString]
  | text s, _ => Text.quoted_oneLine s
  | octets bs, _ => Text.quotedOctets_oneLine bs
  | moment d, _ => d.display_oneLine
  | word vocabulary label spelling, h => by
    simp +decide [print, toString, Text.quoted_oneLine, h.1, h.2]
  | tuple items, h => parenthesized_oneLine (printAll_oneLine items h)
  | list items, h => by
    have hitems : OneLine (", ".intercalate (printAll items)) :=
      .intercalate (by decide) (printAll_oneLine items h)
    simp +decide [print, bracketed, hitems]
  | table entries, h => by
    have hentries : OneLine (", ".intercalate (printEntries entries)) :=
      .intercalate (by decide) (printEntries_oneLine entries h)
    simp +decide [print, hentries]
  | record name fields, h => by
    have hfields : OneLine (", ".intercalate (printFields fields)) :=
      .intercalate (by decide) (printFields_oneLine fields h.2)
    simp +decide [print, hfields, h.1]
  | secret _, _ => by
    simp only [print]
    decide

theorem printAll_oneLine : ∀ ts : List Term, PlainAll ts → ∀ s ∈ printAll ts, OneLine s
  | [], _ => by simp [printAll]
  | t :: ts, h => by
    simp only [printAll, List.forall_mem_cons]
    exact ⟨print_oneLine t h.1, printAll_oneLine ts h.2⟩

theorem printEntries_oneLine :
    ∀ entries : List (String × Term), PlainEntries entries → ∀ s ∈ printEntries entries, OneLine s
  | [], _ => by simp [printEntries]
  | (key, t) :: rest, h => by
    have ht : OneLine t.print := print_oneLine t h.1
    simp only [printEntries, List.forall_mem_cons]
    refine ⟨?_, printEntries_oneLine rest h.2⟩
    simp +decide [toString, Text.quoted_oneLine, ht]

theorem printFields_oneLine :
    ∀ fields : List (String × Term), PlainFields fields → ∀ s ∈ printFields fields, OneLine s
  | [], _ => by simp [printFields]
  | (name, t) :: rest, h => by
    have hrest := printFields_oneLine rest h.2
    have ht : OneLine t.print := print_oneLine t h.1.2
    by_cases hsecret : ∃ u, t = secret u
    · obtain ⟨u, rfl⟩ := hsecret
      simpa only [printFields] using hrest
    · rw [printFields]
      · simp only [List.forall_mem_cons]
        refine ⟨?_, hrest⟩
        simp +decide [toString, ht, h.1.1]
      · exact fun u hu => hsecret ⟨u, hu⟩

end

end Term

/-- Types whose values are shown under plain names. -/
class Plain (α : Type) [ToTerm α] : Prop where
  plain : ∀ a : α, (term a).Plain

attribute [simp] Plain.plain

instance : Plain Bool := ⟨fun _ => trivial⟩
instance : Plain Nat := ⟨fun _ => trivial⟩
instance : Plain Int := ⟨fun _ => trivial⟩
instance : Plain String := ⟨fun _ => trivial⟩
instance : Plain Bytes := ⟨fun _ => trivial⟩
instance : Plain DateTime := ⟨fun _ => trivial⟩

section

variable {α β : Type} [ToTerm α] [ToTerm β] [Plain α] [Plain β]

instance : Plain (List α) where
  plain items := by
    induction items with
    | nil => trivial
    | cons item items ih => exact ⟨Plain.plain item, ih⟩

instance : Plain (Option α) where
  plain
    | none => trivial
    | some a => Plain.plain a

instance : Plain (α × β) := ⟨fun p => ⟨Plain.plain p.1, Plain.plain p.2, trivial⟩⟩

end

/-- Vocabularies whose name and labels are plain. -/
class PlainWords (α : Type) [Vocabulary α] : Prop where
  name : Text.OneLine (Vocabulary.name α)
  label : ∀ a : α, Text.OneLine (label a)

@[simp] theorem plain_word {α : Type} [Vocabulary α] [PlainWords α] (a : α) :
    (Vocabulary.toTerm a).Plain := by
  constructor
  · exact PlainWords.name
  · exact PlainWords.label a

instance : PlainWords ResourceKind := ⟨by decide, by intro a; cases a <;> decide +kernel⟩
instance : PlainWords CapabilityKind := ⟨by decide, by intro a; cases a <;> decide +kernel⟩
instance : PlainWords CodeKind := ⟨by decide, by intro a; cases a <;> decide +kernel⟩
instance : PlainWords StatusKind := ⟨by decide, by intro a; cases a <;> decide +kernel⟩
instance : PlainWords StatusAttribute := ⟨by decide, by intro a; cases a <;> decide +kernel⟩
instance : PlainWords StoreAction := ⟨by decide, by intro a; cases a <;> decide +kernel⟩

instance : Plain Resource where
  plain a := by
    show (Term.record _ _).Plain
    simp +decide [Term.Plain, Term.PlainFields]

instance : Plain QuotaUsage where
  plain a := by
    show (Term.record _ _).Plain
    simp +decide [Term.Plain, Term.PlainFields]

instance : Plain QuotaLimit where
  plain a := by
    show (Term.record _ _).Plain
    simp +decide [Term.Plain, Term.PlainFields]

instance : Plain Capability where
  plain a := by
    cases a <;> (show (Term.record _ _).Plain) <;> simp +decide [Term.Plain, Term.PlainFields]

instance : Plain SeqNo where
  plain a := by
    show (Term.record _ _).Plain
    simp +decide [Term.Plain, Term.PlainFields]

instance : Plain SeqElement where
  plain a := by
    cases a <;> (show (Term.record _ _).Plain) <;> simp +decide [Term.Plain, Term.PlainFields]

instance : Plain CodeArgument where
  plain
    | .none => trivial
    | .number n => Plain.plain n
    | .texts items => Plain.plain items
    | .capabilities items => Plain.plain items

instance : Plain Code where
  plain a := by
    show (Term.record _ _).Plain
    simp +decide [Term.Plain, Term.PlainFields]

instance : Plain Status where
  plain a := by
    show (Term.record _ _).Plain
    simp +decide [Term.Plain, Term.PlainFields]

instance : Plain Continuation where
  plain a := by
    cases a <;> (show (Term.record _ _).Plain) <;> simp +decide [Term.Plain, Term.PlainFields]

instance : Plain Address where
  plain a := by
    show (Term.record _ _).Plain
    simp +decide [Term.Plain, Term.PlainFields]

instance : Plain Envelope where
  plain a := by
    show (Term.record _ _).Plain
    simp +decide [Term.Plain, Term.PlainFields]

instance : Plain FetchValue where
  plain
    | .flags items => Plain.plain items
    | .number n => Plain.plain n
    | .moment d => Plain.plain d
    | .envelope e => Plain.plain e
    | .octets content => Plain.plain content
    | .text s => Plain.plain s

instance : Plain StatusAttribute := ⟨plain_word⟩

instance : Plain Data where
  plain a := by
    cases a <;> (show (Term.record _ _).Plain) <;> simp +decide [Term.Plain, Term.PlainFields]

instance : Plain Response where
  plain
    | .status s => Plain.plain s
    | .continuation c => Plain.plain c
    | .data d => Plain.plain d

instance : Plain CommandBody where
  plain a := by
    cases a <;> (show (Term.record _ _).Plain) <;> simp +decide [Term.Plain, Term.PlainFields]

instance : Plain Command where
  plain a := by
    show (Term.record _ _).Plain
    simp +decide [Term.Plain, Term.PlainFields]

instance : Plain WireUnit where
  plain
    | .response r => Plain.plain r
    | .command c => Plain.plain c

end Imap
