import Imap.DateTime.Rule
import Imap.Proofs.Built.Value
import Imap.Resource
import Imap.SequenceSet.Rule

namespace Imap

namespace Rule

namespace Built

variable {e : Extent} {m : Manner} {α β : Type} {r : Rule α}

theorem andThen {next : α → Rule β} (first : Built e m r) (rest : ∀ a, Built e m (next a)) :
    Built e m (r >>= next) := by
  refine .bind first fun a _ => ?_
  exact rest a

theorem map (f : α → β) (first : Built e m r) : Built e m (f <$> r) := by
  apply first.andThen
  intro a
  exact .pure (f a)

theorem discard (first : Built e m r) : Built e m (discard r) :=
  first.map fun _ => PUnit.unit

theorem expect (fixed : String) (wanted : Element)
    (inLine : 0x0A ∉ (Bytes.ofText fixed).map Octet.lower) : Built e m (Rule.expect fixed wanted) :=
  .word _ _ inLine

theorem skip? (fixed : String) (inLine : 0x0A ∉ (Bytes.ofText fixed).map Octet.lower) :
    Built e m (Rule.skip? fixed) := by
  refine .ofLine ?_
  refine andThen (.opt (by decide) (.word _ _ inLine)) fun _ => ?_
  exact .pure _

theorem span {isMember : UInt8 → Bool} (hp : isMember 0x0A = false) (ha : Octet.Ascii isMember)
    (wanted : Element) : Built e m (Rule.span isMember wanted) :=
  .token (greedy_takeWhile isMember) (not_mem_takeWhile hp) (takeWhile_ascii ha) _ _ _

theorem list {element : Rule α} (each : Built e m element) : Built e m (Rule.list element) := by
  refine (expect _ _ (by decide)).andThen fun _ => (skip? _ (by decide)).andThen fun closed => ?_
  split
  · exact .pure []
  · exact .spacedToClose each

theorem nonEmptyList {element : Rule α} (each : Built e m element) :
    Built e m (Rule.nonEmptyList element) := by
  have close : Built .line m (Rule.opt (Rule.lookahead (Rule.word ")" (.word ")")))) :=
    .opt (by decide) (.lookahead (.word _ _ (by decide)))
  refine (expect _ _ (by decide)).andThen fun _ => close.ofLine.andThen fun closed => ?_
  split
  · exact .fail (.miss _)
  · exact .spacedToClose each

theorem separated {element : Rule α} {separator : UInt8} (hs : separator ≠ 0x0A)
    (each : Built .line m element) : Built e m (Rule.separated separator element) := by
  refine each.ofLine.andThen fun _ => ?_
  refine (behind hs each).andThen fun _ => ?_
  exact .pure _

theorem parenthesizedBy {body : Rule α} (each : Built .text m body) :
    Built .text m (Rule.parenthesized body) := by
  refine (expect _ _ (by decide)).andThen fun _ => ?_
  refine each.andThen fun _ => ?_
  refine (parenthesized each).andThen fun _ => ?_
  exact .pure _

end Built

variable {e : Extent} {m : Manner}

theorem space_built : Built e m space := .expect _ _ (by decide)

theorem atom_built : Built e m atom := .span rfl .atomChar _

theorem tag_built : Built e m tag := .span rfl .tagChar _

theorem text_built : Built e m text := .span rfl .textChar _

theorem keyword_built (name : String) : Built e m (keyword name) := by
  refine .refine atom_built fun found why h => ?_
  split at h <;> cases h
  exact .miss _

theorem lineEnd_built : Built .unit m lineEnd := .ofRaw .lineEnd

theorem number_built : Built e m number := .digits _ _

theorem number64_built : Built e m number64 := .digits _ _

theorem nonZeroNumber_built : Built e m nonZeroNumber := by
  refine .andThen .peek fun ahead => ?_
  split
  · split
    · exact .digits _ _
    · exact .fail (.miss _)
  · exact .fail (.miss _)

theorem quoted_built : Built e m quoted := by
  refine .andThen (.expect _ _ (by decide)) fun _ => ?_
  exact .quotedTail

theorem quotedText_built : Built e m quotedText := by
  apply quoted_built.bind
  intro _ hc
  refine .ofExcept _ fun _ => ?_
  exact ⟨_, Text.Ascii.decode_ok (quoted_gives hc)⟩

theorem literal_built : Built .text m literal := by
  have tail (size : Nat) : Built .raw m (do
      Rule.expect "\x7d" .literalEnd
      lineEnd
      literalBody size) :=
    (Built.expect _ _ (by decide)).andThen fun _ => .andThen .lineEnd fun _ => .literalBody size
  refine .literal ?_
  refine (Built.expect _ _ (by decide)).andThen fun _ => ?_
  refine .andThen (.digits _ _) fun size => ?_
  refine .andThen .dialect fun d => ?_
  split
  · exact (Built.skip? _ (by decide)).discard.andThen fun _ => tail size
  · exact tail size

theorem string_built : Built .text m string := by
  refine .andThen .peek fun ahead => ?_
  split
  · exact quoted_built
  · exact literal_built
  · exact .fail (.miss _)

theorem bare_built {isMember : UInt8 → Bool} (hp : isMember 0x0A = false)
    (ha : Octet.Ascii isMember) (pattern : String) : Built e m (bare isMember pattern) := by
  refine .ofLine ?_
  refine .opt (by decide) ?_
  exact .token (greedy_takeWhile isMember) (not_mem_takeWhile hp) (takeWhile_ascii ha) _ _ _

theorem bareOrString_built {isMember : UInt8 → Bool} (hp : isMember 0x0A = false)
    (ha : Octet.Ascii isMember) (pattern : String) :
    Built .text m (bareOrString isMember pattern) := by
  refine (bare_built hp ha pattern).andThen fun found => ?_
  split
  · exact .pure _
  · exact string_built.andThen fun _ => .pure _

theorem astring_built : Built .text m astring := bareOrString_built rfl .astringChar _

theorem mailboxPattern_built : Built .text m mailboxPattern :=
  bareOrString_built rfl .patternChar _

theorem nil_built : Built e m nil := .expect _ _ (by decide)

theorem nstring_built : Built .text m nstring := by
  refine .andThen .peek fun ahead => ?_
  split
  · exact string_built.andThen fun _ => .pure _
  · exact string_built.andThen fun _ => .pure _
  · exact nil_built.andThen fun _ => .pure _

theorem charset_built : Built e m charset := by
  refine .andThen .peek fun ahead => ?_
  split
  · exact quotedText_built
  · exact atom_built

theorem mailbox_built : Built .text m mailbox := by
  refine astring_built.andThen fun _ => ?_
  exact .pure _

theorem flag_built : Built e m flag := by
  refine (Built.skip? _ (by decide)).andThen fun found => ?_
  split
  · exact atom_built.andThen fun _ => .pure _
  · exact atom_built

theorem permanentFlag_built : Built e m permanentFlag := by
  refine (Built.skip? _ (by decide)).andThen fun found => ?_
  split
  · exact .pure _
  · exact flag_built

theorem flags_built : Built e m flags := flag_built.list

end Rule

open Rule

variable {e : Extent} {m : Manner}

/-- The padding adds nothing to the octets of a token but `=`. -/
theorem Base64.mem_token {bs : Bytes} {b : UInt8} (h : b ∈ bs.take (Base64.tokenLength bs)) :
    Octet.isBase64Char b = true ∨ b = 0x3D := by
  let n := (bs.takeWhile Octet.isBase64Char).length
  let pad := ((bs.drop n).take 2).takeWhile (· = 0x3D)
  have hpad : (bs.drop n).take pad.length = pad := by
    have h : pad <+: bs.drop n := (List.takeWhile_prefix _).trans (List.take_prefix 2 _)
    exact (List.prefix_iff_eq_take.mp h).symm
  have hsplit : bs.take (Base64.tokenLength bs) = bs.take n ++ pad := by
    rw [← hpad]
    exact List.take_add
  rw [hsplit, List.mem_append] at h
  rcases h with h | h
  · exact .inl (takeWhile_all _ bs b h)
  · have hall := List.all_takeWhile (p := (· = 0x3D)) (l := (bs.drop n).take 2)
    exact .inr (of_decide_eq_true (List.all_eq_true.mp hall _ h))

theorem Base64.inLine (bs : Bytes) : 0x0A ∉ bs.take (Base64.tokenLength bs) := by
  intro h
  rcases Base64.mem_token h with h | h <;> cases h

theorem Base64.ascii (bs : Bytes) : ∀ b ∈ bs.take (Base64.tokenLength bs), b < 0x80 := by
  intro b h
  rcases Base64.mem_token h with h | rfl
  · exact Octet.Ascii.base64Char b h
  · decide

theorem Base64.rule_built : Built e m Base64.rule := by
  refine .refine (.token greedy_base64 Base64.inLine Base64.ascii _ _ _) fun found why h => ?_
  split at h <;> cases h
  exact .miss _

theorem DateTime.rule_built : Built e m DateTime.rule := by
  refine .refine quotedText_built fun text why h => ?_
  split at h
  · cases h; exact .miss _
  · split at h <;> cases h
    exact .bad _

theorem SeqNo.ofInt_ok {n : Nat} (h : 0 < n) : ∃ s, SeqNo.ofInt n = .ok s := by
  have hn : (1 : Int) ≤ n := by omega
  exact ⟨_, dif_pos hn⟩

theorem SeqNo.rule_built : Built e m SeqNo.rule := by
  refine (Built.skip? _ (by decide)).andThen fun star => ?_
  split
  · exact .pure _
  · exact nonZeroNumber_built.bind fun n hn =>
      .ofExcept _ fun _ => SeqNo.ofInt_ok (nonZeroNumber_gives hn)

namespace SeqElement

theorem rangeRule_built : Built e m rangeRule := by
  refine SeqNo.rule_built.andThen fun _ => ?_
  refine (Built.expect _ _ (by decide)).andThen fun _ => ?_
  refine SeqNo.rule_built.andThen fun _ => ?_
  exact .pure _

theorem singleRule_built : Built e m singleRule := SeqNo.rule_built.map _

theorem rule_built : Built .line m SeqElement.rule := by
  refine .alt (by decide) ?_ ?_
  · exact rangeRule_built
  · exact singleRule_built

end SeqElement

theorem SequenceSet.rule_built : Built e m SequenceSet.rule :=
  .separated (by decide) SeqElement.rule_built

theorem Resource.ofAtom_ok {atom : String} (h : atom ≠ "") : ∃ r, Resource.ofAtom atom = .ok r := by
  unfold Resource.ofAtom
  cases hk : Resource.known? atom with
  | some r => exact ⟨r, rfl⟩
  | none => exact ⟨.other atom, by simp [Resource.build, h, hk]⟩

theorem Resource.rule_built : Built e m Resource.rule := by
  apply atom_built.bind
  intro _ ha
  refine .ofExcept _ fun _ => ?_
  exact Resource.ofAtom_ok (atom_gives ha)

end Imap
