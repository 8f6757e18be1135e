import Imap.Proofs.Order
import Imap.Proofs.Written.Fetch
import Imap.Proofs.Written.Spelled

namespace Imap

namespace Written

/-- What a server says of a message behind its number: that it is gone, or its attributes. -/
inductive MessageData where
  | expunge (name : Spelling "EXPUNGE")
  | fetch (name : Spelling "FETCH") (attributes : List (Attribute .response))
      (some : attributes ≠ [])

namespace MessageData

def octets : MessageData → Bytes
  | expunge name => name.octets
  | fetch name attributes _ =>
    name.octets ++ 0x20 :: Bytes.inParens (attributes.map Attribute.octets)

/-- What is said of message `n`. -/
def value (n : Nat) : MessageData → Data
  | expunge _ => .expunge n
  | fetch _ attributes _ => .fetch ⟨n, attributes.map Attribute.value⟩

/-- The line that says it of the message whose number these digits are. -/
def line (m : MessageData) (d : Run Octet.isDigit) (e : LineEnd) : Bytes :=
  0x2A :: 0x20 :: (d.octets ++ 0x20 :: (m.octets ++ e.octets))

end MessageData

end Written

open Rule Written

namespace Data

variable {ctx : Context} {rest : Bytes} {word name : String} {n : Nat}

theorem messageKeyword_reads (s : Spelling word) (hword : IsKeyword word name) (hn : 0 < n)
    (hrest : ctx.Stops Octet.isAtomChar rest) :
    (messageKeyword name n).Reads ctx (s.octets ++ rest) () rest := by
  apply (keyword_reads s hword hrest).refine
  exact if_neg (Nat.ne_of_gt hn)

theorem messageKeyword_misses (s : Spelling word) (hword : IsKeyword word name)
    (hrest : ctx.Stops Octet.isAtomChar rest) :
    (messageKeyword name 0).Misses ctx (s.octets ++ rest) := by
  have hread := keyword_reads s hword hrest
  exact .rejected hread.done rfl

end Data

namespace Written.MessageData

variable {complete : Bool} {rest : Bytes} (m : MessageData) (d : Run Octet.isDigit)

theorem numberedRule_reads (e : LineEnd) (hpos : 0 < decimal d.octets)
    (hmax : decimal d.octets ≤ maxNumber) :
    Data.numberedRule.Reads ⟨complete, .response⟩
      (d.octets ++ 0x20 :: (m.octets ++ (e.octets ++ rest))) (m.value (decimal d.octets))
      (e.octets ++ rest) := by
  let ctx : Context := ⟨complete, .response⟩
  have hatom : ctx.Stops Octet.isAtomChar (e.octets ++ rest) :=
    ((e.stops ctx rest).mono Octet.inLine_of_inner).mono Octet.inner_of_atom
  have hnumber {more : Bytes} : number.Reads ctx (d.octets ++ 0x20 :: more) (decimal d.octets)
      (0x20 :: more) := run_digits_reads d hmax (by rfl)
  cases m with
  | expunge name =>
    have hrule : (Data.expungeRule (decimal d.octets)).Reads ctx (name.octets ++ (e.octets ++ rest))
        (.expunge (decimal d.octets)) (e.octets ++ rest) :=
      (Data.messageKeyword_reads name (by decide) hpos hatom).bind (.pure _)
    exact hnumber.bind (space_reads.bind (dispatch_reads name (by decide) rfl hatom hrule))
  | fetch name attributes hsome =>
    have hrule := @Data.fetchRule_reads (e.octets ++ rest) complete
      ⟨⟨_, hpos, hmax⟩, name, attributes, hsome, e⟩
    rw [octets, List.append_assoc, List.cons_append]
    exact hnumber.bind (space_reads.bind (dispatch_reads name (by decide) rfl (by rfl) hrule))

theorem numberedRule_misses {ctx : Context} (hzero : decimal d.octets = 0)
    (hrest : ctx.Stops Octet.isAtomChar rest) :
    Data.numberedRule.Misses ctx (d.octets ++ 0x20 :: (m.octets ++ rest)) := by
  have hnumber {more : Bytes} : number.Reads ctx (d.octets ++ 0x20 :: more) 0 (0x20 :: more) :=
    (run_digits_reads d (Nat.le_trans (Nat.le_of_eq hzero) (Nat.zero_le _)) (by rfl)).of_eq hzero
  have keyword {word : String} {rule : Rule Data} {bs : Bytes} (s : Spelling word)
      (hword : IsWord Octet.isAtomChar word)
      (hfind : Keyword.find? (Data.behindNumber 0) word = .some rule)
      (hmore : ctx.Stops Octet.isAtomChar bs) (hrule : rule.Misses ctx (s.octets ++ bs)) :
      Data.numberedRule.Misses ctx (d.octets ++ 0x20 :: (s.octets ++ bs)) := by
    obtain ⟨cause, position, hmiss⟩ := hrule
    exact .behind hnumber (.behind space_reads
      ⟨cause, position, (dispatch_eq s hword hfind hmore).trans hmiss⟩)
  cases m with
  | expunge name =>
    exact keyword name (by decide) rfl hrest
      (Data.messageKeyword_misses name (by decide) hrest).bind
  | fetch name attributes hsome =>
    rw [octets, List.append_assoc, List.cons_append]
    exact keyword name (by decide) rfl (by rfl)
      (Data.messageKeyword_misses name (by decide) (by rfl)).bind

theorem numberedRule_rejects {ctx : Context} {more : Bytes} (hlarge : maxNumber < decimal d.octets) :
    Data.numberedRule.Rejects ctx (d.octets ++ 0x20 :: more) (.tooLarge d.text maxNumber) 0 := by
  have hnumber : number.Rejects ctx (d.octets ++ 0x20 :: more) (.tooLarge d.text maxNumber) 0 :=
    (digits_eq d (by rfl)).trans (if_pos hlarge)
  exact hnumber.bind

end Written.MessageData

/-- A star is no tag, and digits are no farewell. -/
theorem Status.doneRule_misses {ctx : Context} (d : Run Octet.isDigit) (more : Bytes) :
    doneRule.Misses ctx (0x2A :: 0x20 :: (d.octets ++ 0x20 :: more)) := by
  let a : Atom := ⟨d.octets, d.some, fun b hb => Octet.atom_of_digit b (d.members b hb)⟩
  have hatom : Rule.atom.Reads ctx (a.octets ++ 0x20 :: more) a.text (0x20 :: more) :=
    atom_reads a (by rfl)
  have hword : a.text.toLower ≠ "bye" := by
    intro hsmall
    obtain ⟨b, tail, hb, hother⟩ := bye_ahead hatom.done hsmall
    obtain ⟨c, cs, hcs⟩ := List.exists_cons_of_ne_nil d.some
    have hdigit : Octet.isDigit c = true := d.members c (by rw [hcs]; exact List.mem_cons_self)
    have hoctets : a.octets = c :: cs := hcs
    rw [hoctets] at hb
    cases hb
    exact absurd hdigit (Bool.eq_false_iff.mp hother)
  have hbye : StatusKind.byeRule.Misses ctx (a.octets ++ 0x20 :: more) :=
    StatusKind.byeRule_misses hatom.done hword
  have hfatal : fatalRule.Misses ctx (0x2A :: 0x20 :: (d.octets ++ 0x20 :: more)) :=
    .behind (.octet rfl) (.behind space_reads hbye.bind)
  exact .alt (Response.taggedRule_misses rfl) hfatal

namespace Written.MessageData

variable {complete : Bool} {rest : Bytes} (m : MessageData) (d : Run Octet.isDigit) (e : LineEnd)

theorem line_append (rest : Bytes) : m.line d e ++ rest =
    0x2A :: 0x20 :: (d.octets ++ 0x20 :: (m.octets ++ (e.octets ++ rest))) := by
  simp only [line, List.cons_append, List.append_assoc]

theorem line_reads (hpos : 0 < decimal d.octets) (hmax : decimal d.octets ≤ maxNumber) :
    Response.rule.Reads ⟨complete, .response⟩ (m.line d e ++ rest)
      (.data (m.value (decimal d.octets))) rest := by
  have hnumbered : Data.numberedRule.Reads ⟨complete, .response⟩ _ _ (e.octets ++ rest) :=
    m.numberedRule_reads d e hpos hmax
  obtain ⟨span, hspan, hdone⟩ := hnumbered.map Response.data
  rw [line_append]
  refine Response.data_reads e ⟨span, hspan, ?_⟩ ?_
  · exact (Response.untaggedRule_digits d _).trans hdone
  · cases m <;> rfl

theorem line_fails (h : decimal d.octets = 0 ∨ maxNumber < decimal d.octets) :
    ∃ why, Response.rule ⟨complete, .response⟩ (m.line d e ++ rest) = .failed why ∧
      why.isBadSyntax = true := by
  let ctx : Context := ⟨complete, .response⟩
  rw [line_append]
  have huntagged := @Response.untaggedRule_digits ctx d (0x20 :: (m.octets ++ (e.octets ++ rest)))
  rcases h with hzero | hlarge
  · have hatom : ctx.Stops Octet.isAtomChar (e.octets ++ rest) :=
      ((e.stops ctx rest).mono Octet.inLine_of_inner).mono Octet.inner_of_atom
    obtain ⟨cause, position, hmiss⟩ := (m.numberedRule_misses d hzero hatom).map Response.data
    have hline : Response.lineRule.Misses ctx _ := .bind ⟨cause, position, huntagged.trans hmiss⟩
    have hdata : Response.dataRule.Misses ctx
        (0x2A :: 0x20 :: (d.octets ++ 0x20 :: (m.octets ++ (e.octets ++ rest)))) :=
      .behind (.octet rfl) (.behind space_reads hline.refine)
    obtain ⟨cause, position, hmiss⟩ : Response.rule.Misses ctx _ :=
      .alt (Response.continuation_misses (by decide)) (.alt hdata ((Status.doneRule_misses d _).map _))
    exact ⟨_, hmiss, Failure.isBadSyntax_miss _ _⟩
  · have hdata : Response.untaggedRule.Rejects ctx _ _ _ :=
      huntagged.trans ((numberedRule_rejects d hlarge).map Response.data)
    exact ⟨_, Response.data_rejects hdata.bind.refine, rfl⟩

/-- Up to the space behind them, the digits are the non-zero number `n`. -/
def IsNonZero (ctx : Context) (d : Run Octet.isDigit) (n : Nat) : Prop :=
  nonZeroNumber ctx (d.octets ++ [0x20]) = .done n d.octets.length

theorem isNonZero_iff {ctx : Context} {n : Nat} : IsNonZero ctx d n ↔
    d.octets.head? ≠ .some 0x30 ∧ decimal d.octets ≤ maxNumber ∧ decimal d.octets = n := by
  have hdigits : digits maxNumber .nonZeroNumber ctx (d.octets ++ [0x20]) = _ := digits_eq d (by rfl)
  rw [IsNonZero, nonZeroNumber_eq, hdigits]
  by_cases hzero : d.octets.head? = .some 0x30
  · simp only [hzero, if_true, reduceCtorEq, ne_eq, not_true_eq_false, false_and]
  · by_cases hlarge : maxNumber < decimal d.octets
    · simp only [hzero, if_false, hlarge, if_true, reduceCtorEq, Nat.not_le.mpr hlarge, false_and,
        and_false]
    · simp only [hzero, if_false, hlarge, Outcome.done.injEq, and_true, ne_eq, not_false_eq_true,
        true_and, Nat.not_lt.mp hlarge]

/-- The line is read just if its digits are a non-zero number, and for that message; else it is bad. -/
structure Strict (complete : Bool) (m : MessageData) (d : Run Octet.isDigit) (e : LineEnd)
    (rest : Bytes) : Prop where
  reads : ∀ n, Response.rule ⟨complete, .response⟩ (m.line d e ++ rest) =
    .done (.data (m.value n)) (m.line d e).length ↔ IsNonZero ⟨complete, .response⟩ d n
  fails : (∀ n, ¬IsNonZero ⟨complete, .response⟩ d n) →
    ∃ why, Response.rule ⟨complete, .response⟩ (m.line d e ++ rest) = .failed why ∧
      why.isBadSyntax = true

theorem value_inj {n n' : Nat} : m.value n = m.value n' ↔ n = n' := by
  cases m <;> simp only [value, Data.expunge.injEq, Data.fetch.injEq, FetchData.mk.injEq,
    Int.natCast_inj, and_true]

/-- The line is read for the message that its digits are worth, with zeros in front or without, if that
is a number above zero in 32 bits, and else it is bad. So the digits pass for a non-zero number where
they are none just by such zeros. -/
theorem strict_iff (complete : Bool) (rest : Bytes) :
    (if 0 < decimal d.octets ∧ decimal d.octets ≤ maxNumber then
      Response.rule ⟨complete, .response⟩ (m.line d e ++ rest) =
        .done (.data (m.value (decimal d.octets))) (m.line d e).length
    else ∃ why, Response.rule ⟨complete, .response⟩ (m.line d e ++ rest) = .failed why ∧
      why.isBadSyntax = true) ∧
    (Strict complete m d e rest ↔
      ¬(d.octets.head? = .some 0x30 ∧ 0 < decimal d.octets ∧ decimal d.octets ≤ maxNumber)) := by
  by_cases hrange : 0 < decimal d.octets ∧ decimal d.octets ≤ maxNumber
  · have hread : Response.rule.Reads ⟨complete, .response⟩ (m.line d e ++ rest) _ rest :=
      m.line_reads d e hrange.1 hrange.2
    have hdone := hread.done
    rw [if_pos hrange]
    refine ⟨hdone, fun hstrict hexcept => ?_, fun hexcept => ⟨fun n => ?_, fun h => ?_⟩⟩
    · exact (isNonZero_iff d).mp ((hstrict.reads _).mp hdone) |>.1 hexcept.1
    · rw [hdone, isNonZero_iff]
      simp only [Outcome.done.injEq, Response.data.injEq, value_inj, and_true, hrange.2, true_and]
      exact ⟨fun h => ⟨fun hzero => hexcept ⟨hzero, hrange⟩, h⟩, And.right⟩
    · exact absurd ((isNonZero_iff d).mpr ⟨fun hzero => hexcept ⟨hzero, hrange⟩, hrange.2, rfl⟩)
        (h _)
  · have hout : decimal d.octets = 0 ∨ maxNumber < decimal d.octets := by omega
    have hfails : ∃ why, Response.rule ⟨complete, .response⟩ (m.line d e ++ rest) = .failed why ∧
        why.isBadSyntax = true := m.line_fails d e hout
    rw [if_neg hrange]
    refine ⟨hfails, fun _ hexcept => hrange hexcept.2, fun _ => ⟨fun n => ?_, fun _ => hfails⟩⟩
    obtain ⟨why, hfailed, -⟩ := hfails
    rw [hfailed, isNonZero_iff]
    refine ⟨nofun, fun ⟨hzero, hmax, _⟩ => absurd ⟨?_, hmax⟩ hrange⟩
    exact decimal_pos d.some hzero d.members

/-- A zero in front of the one is let through. -/
theorem not_strict_one : ¬Strict false (.expunge ⟨Bytes.ofText "EXPUNGE", rfl⟩)
    ⟨Bytes.ofText "01", by decide, List.all_eq_true.mp rfl⟩ .returnFeed [] := by
  intro h
  have hread : IsNonZero ⟨false, .response⟩ ⟨Bytes.ofText "01", by decide, List.all_eq_true.mp rfl⟩ 1 :=
    (h.reads 1).mp (by decide +kernel)
  exact absurd hread (by unfold IsNonZero; decide +kernel)

end Written.MessageData

end Imap
