import Imap.Base64
import Imap.DateTime.Rule
import Imap.Proofs.Caseless.List
import Imap.Proofs.Caseless.Text
import Imap.SequenceSet.Rule

namespace Imap

namespace Rule

theorem space_caseless : Caseless space := .expect _ _

theorem lineEnd_caseless : Caseless lineEnd := by
  refine (Agree.skip? _).bind fun found _ h => ?_
  rw [← h]
  split
  · exact .pure (.refl _)
  · exact .expect _ _

theorem atom_caseless : Caseless atom := .span .atomChar _

theorem tag_caseless : Caseless tag := .span .tagChar _

theorem text_caseless : Caseless text := .span .textChar _

theorem keyword_caseless (name : String) : Caseless (keyword name) := by
  apply atom_caseless.refine
  intro found found' h
  rw [← Akin.text.mp h]
  split
  · exact .ok h
  · exact .error (.miss 0 rfl)

theorem number_caseless : Agree Eq number number := .digits _ _

theorem number64_caseless : Agree Eq number64 number64 := .digits _ _

theorem nonZeroNumber_caseless : Agree Eq nonZeroNumber nonZeroNumber := by
  refine .peek (fun ahead => ?_) fun b hb => ?_
  · split
    · split
      · exact .digits _ _
      · exact .fail (.refl _)
    · exact .fail (.refl _)
  · simp only [Octet.letter_not_digit b hb, Bool.false_and, Bool.false_eq_true, if_false]

theorem quoted_caseless : Caseless quoted := by
  apply (Agree.expect _ _).andThen
  exact .quotedTail

theorem quotedText_caseless : Caseless quotedText := by
  apply quoted_caseless.bind
  intro _ _ h
  refine .ofExcept ?_
  exact Text.Ascii.decode_alike (Akin.octets.mp h)

theorem literal_caseless : Caseless literal := by
  apply (Agree.expect _ _).andThen
  apply (Agree.digits _ _).bind
  intro size _ hsize
  apply Agree.dialect.bind
  intro d _ hd
  cases hsize
  cases hd
  have tail : Caseless (do
      expect "\x7d" .literalEnd
      lineEnd
      literalBody size) := by
    apply (Agree.expect _ _).andThen
    apply lineEnd_caseless.andThen
    exact .literalBody size
  split
  · exact ((Agree.skip? _).map fun _ _ _ => trivial : Agree (fun _ _ => True) _ _).andThen tail
  · exact tail

theorem string_caseless : Caseless string := by
  refine .peek (fun ahead => ?_) fun b hb => ?_
  · split
    · exact quoted_caseless
    · exact literal_caseless
    · exact .fail (.refl _)
  · split
    · next h => cases h; cases hb
    · next h => cases h; cases hb
    · rfl

theorem bareOrString_caseless {isMember : UInt8 → Bool} (hp : Octet.CaselessClass isMember)
    (pattern : String) : Caseless (bareOrString isMember pattern) := by
  refine (Agree.token (Agree.run_length hp) _ _ _).opt.bind fun found found' h => ?_
  cases h with
  | some related => exact .pure related
  | none => exact string_caseless.bind fun _ _ h => .pure (Text.Utf8.decode_alike (Akin.octets.mp h))

theorem astring_caseless : Caseless astring := bareOrString_caseless .astringChar _

theorem mailboxPattern_caseless : Caseless mailboxPattern :=
  bareOrString_caseless .patternChar _

theorem nil_caseless : Caseless nil := .expect _ _

theorem nstring_caseless : Caseless nstring := by
  have some : Caseless (do return some (← string) : Rule (Option Bytes)) :=
    string_caseless.bind fun _ _ h => .pure h
  refine .peek (fun ahead => ?_) fun b hb => ?_
  · split
    · exact some
    · exact some
    · exact nil_caseless.andThen (.pure (.refl _))
  · split
    · next h => cases h; cases hb
    · next h => cases h; cases hb
    · rfl

theorem charset_caseless : Caseless charset := by
  refine .peek (fun ahead => ?_) fun b hb => ?_
  · split
    · exact quotedText_caseless
    · exact atom_caseless
  · split
    · next h => cases h; cases hb
    · rfl

theorem mailbox_caseless : Caseless mailbox := by
  apply astring_caseless.bind
  intro name name' h
  refine .pure ?_
  rw [← Akin.text.mp h]
  split
  · exact .refl _
  · exact h

theorem flag_caseless : Caseless flag := by
  refine (Agree.skip? _).bind fun found _ h => ?_
  rw [← h]
  split
  · exact atom_caseless.bind fun _ _ h => .pure ((Akin.refl "\\").append h)
  · exact atom_caseless

theorem permanentFlag_caseless : Caseless permanentFlag := by
  refine (Agree.skip? _).bind fun found _ h => ?_
  rw [← h]
  split
  · exact .pure (.refl _)
  · exact flag_caseless

theorem flags_caseless : Caseless flags := flag_caseless.list

end Rule

open Rule

theorem Base64.tokenLength_alike {bs bs' : Bytes} (h : bs.Alike bs') :
    tokenLength bs = tokenLength bs' := by
  have hrun := Agree.run_length .base64Char _ _ h
  have hpad (n : Nat) := Agree.run_length (p := (· = 0x3D)) (.of_capitals (by decide)) _ _
    ((h.drop n).take 2)
  simp only [tokenLength, hrun, hpad]

theorem Base64.rule_caseless : Caseless Base64.rule := by
  apply (Agree.token (fun _ _ => tokenLength_alike) _ _ _).refine
  intro text text' h
  rw [← h.length_eq]
  split
  · exact .ok h
  · exact .error (.miss 0 rfl)

namespace DateTime

theorem slice_lower (bs : Bytes) (start width : Nat) :
    slice (bs.map Octet.lower) start width = (slice bs start width).map Octet.lower := by
  rw [slice, slice, List.map_take, List.map_drop]

theorem number?_lower (bs : Bytes) (start width : Nat) :
    number? (bs.map Octet.lower) start width = number? bs start width := by
  have hall : ((slice bs start width).map Octet.lower).all Octet.isDigit =
      (slice bs start width).all Octet.isDigit := by
    rw [List.all_map]
    exact congrArg (List.all _) (funext Octet.CaselessClass.digit)
  simp only [number?, slice_lower, hall]
  split
  · next hdigits =>
    congr 2
    refine (List.map_congr_left fun b hb => ?_).trans (List.map_id _)
    exact Octet.lower_digit b (List.all_eq_true.mp hdigits b hb)
  · rfl

theorem mark_lower (bs : Bytes) (n : Nat) {w : UInt8} (hw : Octet.isLetter w = false) :
    (bs.map Octet.lower)[n]? = some w ↔ bs[n]? = some w := by
  rw [List.getElem?_map, Option.map_eq_some_iff]
  simp only [Octet.lower_eq_iff hw, exists_eq_right]

/-- A date is the same in small letters. -/
theorem ofText?_lower (bs : Bytes) : ofText? (bs.map Octet.lower) = ofText? bs := by
  have hshape : hasShape (bs.map Octet.lower) = hasShape bs := by
    simp only [hasShape, List.length_map, mark_lower bs _ (w := 0x2D) rfl,
      mark_lower bs _ (w := 0x20) rfl, mark_lower bs _ (w := 0x3A) rfl]
  have hday : day? (bs.map Octet.lower) = day? bs := by
    simp only [day?, List.head?_eq_getElem?, mark_lower bs _ (w := 0x20) rfl, number?_lower]
  have hsign : zoneSign? (bs.map Octet.lower) = zoneSign? bs := by
    simp only [zoneSign?, mark_lower bs _ (w := 0x2B) rfl, mark_lower bs _ (w := 0x2D) rfl]
  have hmonth : monthOf? (Bytes.text (slice (bs.map Octet.lower) 3 3)) =
      monthOf? (Bytes.text (slice bs 3 3)) := by
    have halike : Bytes.Alike ((slice bs 3 3).map Octet.lower) (slice bs 3 3) := by
      simp only [Bytes.Alike, List.map_map, Function.comp_def, Octet.lower_lower]
    rw [monthOf?, monthOf?, slice_lower, Akin.text.mp halike.text]
  simp only [ofText?, hshape, hday, hmonth, hsign, number?_lower]

theorem ofText?_alike {bs bs' : Bytes} (h : bs.Alike bs') : ofText? bs = ofText? bs' := by
  rw [← ofText?_lower, h, ofText?_lower]

theorem rule_caseless : Caseless DateTime.rule := by
  apply quotedText_caseless.refine
  intro text text' h
  rw [← ofText?_alike h.octets_alike]
  split
  · exact .error (.miss 0 rfl)
  · split
    · exact .ok (.refl _)
    · exact .error (.bad _ _ _)

end DateTime

theorem SeqNo.rule_caseless : Agree Eq SeqNo.rule SeqNo.rule := by
  refine (Agree.skip? _).bind fun star _ h => ?_
  rw [← h]
  split
  · exact .pure rfl
  · refine nonZeroNumber_caseless.bind fun n _ h => ?_
    rw [← h]
    cases SeqNo.ofInt n with
    | ok s => exact .pure rfl
    | error why => exact .fail (.refl _)

namespace SeqElement

theorem rangeRule_caseless : Agree Eq rangeRule rangeRule := by
  apply SeqNo.rule_caseless.bind
  intro _ _ hfirst
  apply (Agree.expect _ _).andThen
  apply SeqNo.rule_caseless.bind
  intro _ _ hlast
  exact .pure (by rw [hfirst, hlast])

theorem singleRule_caseless : Agree Eq singleRule singleRule := by
  apply SeqNo.rule_caseless.map
  intro _ _ h
  exact congrArg single h

theorem rule_caseless : Agree Eq SeqElement.rule SeqElement.rule :=
  rangeRule_caseless.alt singleRule_caseless

end SeqElement

theorem SequenceSet.rule_caseless : Caseless SequenceSet.rule := by
  apply Caseless.separated (by decide)
  apply SeqElement.rule_caseless.mono
  intro a _ h
  exact h ▸ Akin.refl a

end Imap
