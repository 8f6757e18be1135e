import Imap.Proofs.Written.Name
import Imap.Proofs.Written.Spelled

namespace Imap

theorem SeqNo.rule_takes : SeqNo.rule.Takes fun n span => span = Bytes.ofText n.text := by
  refine (Rule.Takes.skip rfl rfl).bind fun starred front hfront => ?_
  cases starred with
  | true =>
    subst hfront
    exact .pure rfl
  | false =>
    subst hfront
    refine Rule.nonZeroNumber_takes.bind fun n digits hdigits => .ofExcept fun a ha => ?_
    rw [ofInt] at ha
    split at ha
    · cases ha
      exact hdigits ▸ List.append_nil _
    · cases ha

namespace SeqElement

theorem rangeRule_takes : rangeRule.Takes fun e span => span = Bytes.ofText e.text := by
  refine SeqNo.rule_takes.bind fun first front hfront => ?_
  refine (Rule.Takes.octet rfl rfl).bind fun _ colon hcolon => ?_
  refine SeqNo.rule_takes.bind fun last back hback => .pure ?_
  rw [text, Bytes.ofText_append, Bytes.ofText_append, hfront, hcolon, hback, List.append_nil,
    List.append_assoc]
  rfl

theorem rule_takes : rule.Takes fun e span => span = Bytes.ofText e.text := by
  apply rangeRule_takes.alt
  exact SeqNo.rule_takes.map fun _ _ h => h

end SeqElement

namespace SequenceSet

theorem rule_takes : rule.Takes fun set span => span = Bytes.ofText set.text := by
  refine (SeqElement.rule_takes.separated 0x2C).mono fun set span hspan => ?_
  rw [hspan, text, Bytes.ofText_intercalate rfl, List.map_map]
  rfl

/-- A set is read off its written form, at the end or before any octet that could not go on with it;
and what a set is read off is its written form, which nothing sorts, merges or leaves out. -/
theorem rule_text_round_trip (d : Dialect) :
    (∀ set : SequenceSet, set.WellFormed →
      rule ⟨true, d⟩ (Bytes.ofText set.text) = .done set (Bytes.ofText set.text).length ∧
      ∀ b more, Octet.isDigit b = false → b ≠ 0x3A → b ≠ 0x2C →
        rule ⟨false, d⟩ (Bytes.ofText set.text ++ b :: more) =
          .done set (Bytes.ofText set.text).length) ∧
    ∀ complete data set used, rule ⟨complete, d⟩ data = .done set used →
      set.WellFormed ∧
        ∃ rest, data = Bytes.ofText set.text ++ rest ∧ used = (Bytes.ofText set.text).length := by
  refine ⟨fun set h => ⟨?_, fun b more hdigit hcolon hcomma => ?_⟩,
    fun complete data set used hdone => ?_⟩
  · have hread : rule.Reads ⟨true, d⟩ (Bytes.ofText set.text ++ []) set [] := reads h rfl rfl
    have hdone := hread.done
    rwa [List.append_nil] at hdone
  · have hsequence : Octet.isSequenceChar b = false := by
      rw [Octet.isSequenceChar, hdigit, Bool.false_or]
      exact beq_false_of_ne hcolon
    have hstop : Context.Stops ⟨false, d⟩ Octet.isSequenceChar (b :: more) := hsequence
    exact (reads h hstop (beq_false_of_ne hcomma)).done
  · obtain ⟨span, rest, hdata, hused, rfl⟩ := rule_takes hdone
    exact ⟨rule_ensures set ⟨_, _, _, hdone⟩, rest, hdata, hused⟩

/-- A set out of order with the greatest number of 32 bits, and a range downwards in front of commas
that no element follows. -/
theorem text_five_round_trip :
    let set : SequenceSet := [.single (.number 5 (by decide)),
      .range (.number 3 (by decide)) .star, .single (.number 4294967295 (by decide))]
    let downwards : SequenceSet := [.range (.number 2 (by decide)) (.number 1 (by decide))]
    set.WellFormed ∧ set.text = "5,3:*,4294967295" ∧
      rule ⟨true, .command⟩ (Bytes.ofText set.text) = .done set (Bytes.ofText set.text).length ∧
      rule ⟨false, .command⟩ (Bytes.ofText set.text ++ Bytes.ofText " INBOX") =
        .done set (Bytes.ofText set.text).length ∧
      rule ⟨true, .command⟩ (Bytes.ofText "2:1,,7") = .done downwards 3 ∧
      downwards.WellFormed ∧
      ∃ rest, Bytes.ofText "2:1,,7" = Bytes.ofText downwards.text ++ rest := by
  intro set downwards
  have hset : set.WellFormed := by
    refine ⟨List.cons_ne_nil _ _, ?_⟩
    simp [set, SeqElement.WellFormed, SeqNo.WellFormed]
  obtain ⟨hwritten, hread⟩ := rule_text_round_trip .command
  obtain ⟨hwhole, hfollowed⟩ := hwritten set hset
  have hdone : rule ⟨true, .command⟩ (Bytes.ofText "2:1,,7") = .done downwards 3 := by
    decide +kernel
  obtain ⟨hdownwards, rest, hrest, -⟩ := hread _ _ _ _ hdone
  exact ⟨hset, by decide +kernel, hwhole,
    hfollowed 0x20 (Bytes.ofText "INBOX") rfl (by decide) (by decide), hdone, hdownwards, rest, hrest⟩

end SequenceSet

end Imap
