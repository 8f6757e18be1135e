import Imap.Proofs.Written.Text
import Imap.Response

namespace Imap

open Rule Written

namespace Response

variable {ctx : Context} {bs rest : Bytes} {d : Data}

/-- Only a plus begins a request to continue. -/
theorem continuation_misses {b : UInt8} (h : b ≠ 0x2B) :
    (continuation <$> Continuation.rule).Misses ctx (b :: bs) := by
  refine .map _ ?_
  exact .bind (.octet rfl rfl (beq_false_of_ne h))

/-- Data with their line end are the response that their line is. -/
theorem data_reads {r : Response} (e : LineEnd)
    (hdata : untaggedRule.Reads ctx bs r (e.octets ++ rest)) (hcomplete : complete r = .ok r) :
    Response.rule.Reads ctx (0x2A :: 0x20 :: bs) r rest := by
  have hline : lineRule.Reads ctx bs r rest := hdata.bind ((lineEnd_reads e).bind (.pure _))
  have hrule : dataRule.Reads ctx (0x2A :: 0x20 :: bs) r rest :=
    (Reads.octet rfl).bind (space_reads.bind (hline.refine hcomplete))
  exact .second (continuation_misses (by decide)) hrule.first

/-- Data that are bad are so for the response. -/
theorem data_rejects {cause : Cause} {position : Nat}
    (hline : (lineRule.refine complete).Rejects ctx bs cause position) :
    Response.rule.Rejects ctx (0x2A :: 0x20 :: bs) cause (1 + (1 + position)) := by
  have hrule : dataRule.Rejects ctx (0x2A :: 0x20 :: bs) cause (1 + (1 + position)) :=
    .octet rfl (.octet rfl hline)
  exact .second (continuation_misses (by decide)) hrule.first

/-- A keyword hands over to its rule. -/
theorem untaggedRule_eq {word : String} {rule : Rule Response} (s : Spelling word)
    (hword : IsWord Octet.isLetter word) (hfind : Keyword.find? byKeyword word = some rule)
    (hmore : ctx.Stops Octet.isAtomChar bs) :
    untaggedRule ctx (s.octets ++ bs) = rule ctx (s.octets ++ bs) := by
  have hatom : IsWord Octet.isAtomChar word :=
    ⟨hword.1, hword.2.1, List.all_eq_true.mpr fun b hb =>
      Octet.atom_of_letter b (List.all_eq_true.mp hword.2.2 b hb)⟩
  let r := s.run .letter hword
  obtain ⟨b, tail, hb⟩ := List.exists_cons_of_ne_nil r.some
  have hletter : Octet.isLetter b = true := r.members b (by rw [hb]; exact List.mem_cons_self)
  have hoctets : s.octets = b :: tail := hb
  have hdispatch : Keyword.dispatch byKeyword .unknownResponse ctx (s.octets ++ bs) =
      rule ctx (s.octets ++ bs) := dispatch_eq s hatom hfind hmore
  rw [hoctets, List.cons_append] at hdispatch ⊢
  rw [untaggedRule, peek_bind]
  simp only [Octet.letter_not_digit b hletter, Bool.false_eq_true, if_false]
  exact hdispatch

/-- Data that begin with their keyword. -/
theorem keyword_data_reads {word : String} {rule : Rule Data} (s : Spelling word)
    (hword : IsWord Octet.isLetter word)
    (hfind : Keyword.find? byKeyword word = some (data <$> rule))
    (hmore : ctx.Stops Octet.isAtomChar bs) (hrule : rule.Reads ctx (s.octets ++ bs) d rest) :
    untaggedRule.Reads ctx (s.octets ++ bs) (.data d) rest := by
  obtain ⟨span, hspan, hdone⟩ := hrule.map data
  exact ⟨span, hspan, (untaggedRule_eq s hword hfind hmore).trans hdone⟩

/-- A number hands over to the rule for data that begin with one. -/
theorem untaggedRule_digits (d : Run Octet.isDigit) (bs : Bytes) :
    untaggedRule ctx (d.octets ++ bs) = (data <$> Data.numberedRule) ctx (d.octets ++ bs) := by
  obtain ⟨b, tail, hb⟩ := List.exists_cons_of_ne_nil d.some
  have hdigit : Octet.isDigit b = true := d.members b (by rw [hb]; exact List.mem_cons_self)
  rw [hb, List.cons_append, untaggedRule, peek_bind]
  simp only [hdigit, if_true]

end Response

end Imap
