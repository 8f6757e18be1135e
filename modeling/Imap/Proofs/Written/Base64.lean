import Imap.Proofs.Written.Command
import Imap.Proofs.Written.Spelled

namespace Imap

namespace Base64

/-- Groups of four characters of the alphabet, of which the last may lack one or two. -/
inductive WellFormed : List Char → Prop where
  | nil : WellFormed []
  | two (a b : Char) (ha : a ∈ alphabet) (hb : b ∈ alphabet) : WellFormed [a, b, '=', '=']
  | three (a b c : Char) (ha : a ∈ alphabet) (hb : b ∈ alphabet) (hc : c ∈ alphabet) :
    WellFormed [a, b, c, '=']
  | group (a b c d : Char) (rest : List Char) (ha : a ∈ alphabet) (hb : b ∈ alphabet)
    (hc : c ∈ alphabet) (hd : d ∈ alphabet) (hrest : WellFormed rest) :
    WellFormed (a :: b :: c :: d :: rest)

theorem value?_digit {n : Nat} (h : n < 64) : value? (digit n) = some n := by
  have all : ∀ n < 64, value? (digit n) = some n := by decide +kernel
  exact all n h

theorem exists_value {c : Char} (h : c ∈ alphabet) : ∃ n, value? c = some n := by
  cases hvalue : value? c with
  | none => exact absurd h (List.idxOf?_eq_none_iff.mp hvalue)
  | some n => exact ⟨n, rfl⟩

theorem digit_mem {n : Nat} (h : n < 64) : digit n ∈ alphabet := by
  refine Decidable.byContradiction fun hnot => ?_
  have hnone : value? (digit n) = none := List.idxOf?_eq_none_iff.mpr hnot
  rw [value?_digit h] at hnone
  cases hnone

theorem sign_not_mem : '=' ∉ alphabet := by decide +kernel

theorem value?_sign : value? '=' = none := by
  rw [value?, List.idxOf?_eq_none_iff]
  exact sign_not_mem

theorem char_mem : ∀ b, Octet.isBase64Char b = true → Octet.char b ∈ alphabet := by
  apply Octet.forall_of_lt
  decide +kernel

theorem exists_digit {c : Char} (h : c ∈ alphabet) : ∃ n < 64, digit n = c := by
  obtain ⟨n, hn, rfl⟩ := List.getElem_of_mem h
  have hlength : alphabet.length = 64 := by decide +kernel
  refine ⟨n, hlength ▸ hn, ?_⟩
  rw [digit, List.getD_eq_getElem?_getD, List.getElem?_eq_getElem hn, Option.getD_some]

theorem octet_of_mem {c : Char} (h : c ∈ alphabet) :
    ∃ b, Octet.isBase64Char b = true ∧ Octet.char b = c := by
  have all : ∀ n < 64, Octet.isBase64Char (UInt8.ofNat (digit n).toNat) = true ∧
      Octet.char (UInt8.ofNat (digit n).toNat) = digit n := by decide +kernel
  obtain ⟨n, hn, rfl⟩ := exists_digit h
  exact ⟨_, all n hn⟩

theorem encodeChars_wellFormed (octets : Bytes) : WellFormed (encodeChars octets) := by
  induction octets using encodeChars.induct with
  | case1 => exact .nil
  | case2 a =>
    have := a.toNat_lt
    exact .two _ _ (digit_mem (by omega)) (digit_mem (by omega))
  | case3 a b =>
    have := a.toNat_lt
    have := b.toNat_lt
    exact .three _ _ _ (digit_mem (by omega)) (digit_mem (by omega)) (digit_mem (by omega))
  | case4 a b c rest ih =>
    have := a.toNat_lt
    have := b.toNat_lt
    have := c.toNat_lt
    exact .group _ _ _ _ _ (digit_mem (by omega)) (digit_mem (by omega)) (digit_mem (by omega))
      (digit_mem (by omega)) ih

/-- The octets of any number of groups. -/
def groups? (cs : List Char) : Option Bytes := if cs = [] then some [] else decodeGroups cs

theorem WellFormed.ascii {cs : List Char} (h : WellFormed cs) : ∀ c ∈ cs, c.toNat < 0x80 := by
  have letter : ∀ c ∈ alphabet, c.toNat < 0x80 := by
    intro c hc
    obtain ⟨b, hb, rfl⟩ := octet_of_mem hc
    rw [Octet.char_toNat]
    exact Octet.Ascii.base64Char b hb
  have sign : '='.toNat < 0x80 := by decide
  induction h with
  | nil => exact List.forall_mem_nil _
  | two a b ha hb =>
    simp only [List.forall_mem_cons]
    exact ⟨letter a ha, letter b hb, sign, sign, List.forall_mem_nil _⟩
  | three a b c ha hb hc =>
    simp only [List.forall_mem_cons]
    exact ⟨letter a ha, letter b hb, letter c hc, sign, List.forall_mem_nil _⟩
  | group a b c d rest ha hb hc hd _ ih =>
    simp only [List.forall_mem_cons]
    exact ⟨letter a ha, letter b hb, letter c hc, letter d hd, ih⟩

theorem decode_eq {cs : List Char} (h : WellFormed cs) {octets : Bytes}
    (hgroups : groups? cs = some octets) : decode (String.ofList cs) = .ok octets := by
  have hascii : cs.any (0x80 ≤ ·.toNat) = false := by
    rw [List.any_eq_false]
    exact fun c hc => by simpa using h.ascii c hc
  simp only [decode, String.toList_ofList, hascii, Bool.false_eq_true, if_false]
  unfold groups? at hgroups
  split at hgroups
  · next hnil =>
    cases hgroups
    rw [if_pos hnil]
  · next hnil => rw [if_neg hnil, hgroups]

/-- Padding stands behind a character at least. -/
theorem WellFormed.not_all_signs {cs : List Char} (h : WellFormed cs) :
    cs.all (· = '=') = decide (cs = []) := by
  have first {a : Char} (ha : a ∈ alphabet) : decide (a = '=') = false := by
    refine decide_eq_false ?_
    rintro rfl
    exact sign_not_mem ha
  cases h with
  | nil => rfl
  | two a b ha | three a b c ha | group a b c d rest ha =>
    rw [List.all_cons, first ha]
    rfl

section

variable {a b c d : Char} {w x y z : Nat}

theorem groups?_two (ha : value? a = some w) (hb : value? b = some x) :
    groups? [a, b, '=', '='] = some [UInt8.ofNat ((w * 64 + x) / 16)] := by
  simp only [groups?, decodeGroups, ha, hb, value?_sign, reduceCtorEq, and_self, if_true, if_false]

theorem groups?_three (ha : value? a = some w) (hb : value? b = some x) (hc : value? c = some y) :
    groups? [a, b, c, '='] = some [UInt8.ofNat (((w * 64 + x) * 64 + y) / 4 / 256),
      UInt8.ofNat (((w * 64 + x) * 64 + y) / 4 % 256)] := by
  simp only [groups?, decodeGroups, ha, hb, hc, value?_sign, reduceCtorEq, and_self, if_true, if_false]

theorem groups?_group {rest : List Char} (ha : value? a = some w) (hb : value? b = some x)
    (hc : value? c = some y) (hd : value? d = some z) (hrest : WellFormed rest) :
    groups? (a :: b :: c :: d :: rest) = (groups? rest).map fun octets =>
      UInt8.ofNat ((((w * 64 + x) * 64 + y) * 64 + z) / 65536) ::
        UInt8.ofNat ((((w * 64 + x) * 64 + y) * 64 + z) / 256 % 256) ::
          UInt8.ofNat ((((w * 64 + x) * 64 + y) * 64 + z) % 256) :: octets := by
  simp only [groups?, decodeGroups, ha, hb, hc, hd, hrest.not_all_signs, reduceCtorEq, if_false,
    decide_eq_true_eq]

end

theorem groups?_encodeChars (octets : Bytes) : groups? (encodeChars octets) = some octets := by
  induction octets using encodeChars.induct with
  | case1 => rfl
  | case2 a =>
    have ha := a.toNat_lt
    refine (groups?_two (value?_digit (by omega)) (value?_digit (by omega))).trans ?_
    have hvalue : (a.toNat * 16 / 64 * 64 + a.toNat * 16 % 64) / 16 = a.toNat := by omega
    rw [hvalue, UInt8.ofNat_toNat]
  | case3 a b =>
    have ha := a.toNat_lt
    have hb := b.toNat_lt
    refine (groups?_three (value?_digit (by omega)) (value?_digit (by omega))
      (value?_digit (by omega))).trans ?_
    generalize hn : (a.toNat * 256 + b.toNat) * 4 = n
    have hvalue : ((n / 4096 * 64 + n / 64 % 64) * 64 + n % 64) / 4 = a.toNat * 256 + b.toNat := by
      omega
    have hfirst : (a.toNat * 256 + b.toNat) / 256 = a.toNat := by omega
    have hsecond : (a.toNat * 256 + b.toNat) % 256 = b.toNat := by omega
    rw [hvalue, hfirst, hsecond, UInt8.ofNat_toNat, UInt8.ofNat_toNat]
  | case4 a b c rest ih =>
    have ha := a.toNat_lt
    have hb := b.toNat_lt
    have hc := c.toNat_lt
    refine (groups?_group (value?_digit (by omega)) (value?_digit (by omega))
      (value?_digit (by omega)) (value?_digit (by omega)) (encodeChars_wellFormed rest)).trans ?_
    generalize hn : (a.toNat * 256 + b.toNat) * 256 + c.toNat = n
    have hvalue : ((n / 262144 * 64 + n / 4096 % 64) * 64 + n / 64 % 64) * 64 + n % 64 = n := by
      omega
    have hfirst : n / 65536 = a.toNat := by omega
    have hsecond : n / 256 % 256 = b.toNat := by omega
    have hthird : n % 256 = c.toNat := by omega
    rw [hvalue, hfirst, hsecond, hthird, ih, UInt8.ofNat_toNat, UInt8.ofNat_toNat,
      UInt8.ofNat_toNat]
    rfl

theorem decode_encode (octets : Bytes) : decode (encode octets) = .ok octets := by
  have hwell := encodeChars_wellFormed octets
  have hgroups := groups?_encodeChars octets
  exact decode_eq hwell hgroups

theorem WellFormed.decodes {cs : List Char} (h : WellFormed cs) :
    ∃ octets, decode (String.ofList cs) = .ok octets := by
  suffices hgroups : ∃ octets, groups? cs = some octets by
    obtain ⟨octets, hgroups⟩ := hgroups
    exact ⟨octets, decode_eq h hgroups⟩
  induction h with
  | nil => exact ⟨[], rfl⟩
  | two a b ha hb =>
    obtain ⟨w, hw⟩ := exists_value ha
    obtain ⟨x, hx⟩ := exists_value hb
    exact ⟨_, groups?_two hw hx⟩
  | three a b c ha hb hc =>
    obtain ⟨w, hw⟩ := exists_value ha
    obtain ⟨x, hx⟩ := exists_value hb
    obtain ⟨y, hy⟩ := exists_value hc
    exact ⟨_, groups?_three hw hx hy⟩
  | group a b c d rest ha hb hc hd hrest ih =>
    obtain ⟨w, hw⟩ := exists_value ha
    obtain ⟨x, hx⟩ := exists_value hb
    obtain ⟨y, hy⟩ := exists_value hc
    obtain ⟨z, hz⟩ := exists_value hd
    obtain ⟨octets, hgroups⟩ := ih
    exact ⟨_, (groups?_group hw hx hy hz hrest).trans (by rw [hgroups]; rfl)⟩

/-- The signs of padding at the front, of which at most two count. -/
theorem signs_split (bs : Bytes) : ∃ rest,
    bs = List.replicate ((bs.take 2).takeWhile (· = 0x3D)).length 0x3D ++ rest ∧
      ((bs.take 2).takeWhile (· = 0x3D)).length ≤ 2 ∧
      (((bs.take 2).takeWhile (· = 0x3D)).length < 2 → rest.head? ≠ some 0x3D) := by
  match bs with
  | [] => exact ⟨[], rfl, by decide, fun _ => nofun⟩
  | [b] =>
    by_cases hb : b = 0x3D
    · subst hb
      exact ⟨[], rfl, by decide, fun _ => nofun⟩
    · simp [hb]
  | b :: c :: rest =>
    by_cases hb : b = 0x3D
    · by_cases hc : c = 0x3D <;> simp [List.takeWhile, hb, hc]
    · simp [hb]

/-- A token is a run of the alphabet and the signs behind it; no sign that would count is left. -/
theorem token_split (bs : Bytes) : ∃ padding rest,
    bs = bs.takeWhile Octet.isBase64Char ++ (List.replicate padding 0x3D ++ rest) ∧ padding ≤ 2 ∧
      (padding < 2 → rest.head? ≠ some 0x3D) ∧
      tokenLength bs = (bs.takeWhile Octet.isBase64Char).length + padding := by
  obtain ⟨rest, hrest, hbound, hnext⟩ :=
    signs_split (bs.drop (bs.takeWhile Octet.isBase64Char).length)
  refine ⟨_, rest, ?_, hbound, hnext, rfl⟩
  have hrun : bs.takeWhile Octet.isBase64Char = bs.take (bs.takeWhile Octet.isBase64Char).length :=
    List.prefix_iff_eq_take.mp (List.takeWhile_prefix _)
  calc bs = bs.take (bs.takeWhile Octet.isBase64Char).length ++
        bs.drop (bs.takeWhile Octet.isBase64Char).length := (List.take_append_drop _ bs).symm
    _ = _ := by rw [← hrest, ← hrun]

end Base64

namespace Written.Base64Text

open Base64 (WellFormed)

theorem wellFormed_of_grouped : ∀ {characters : Bytes} {padding : Nat},
    (∀ b ∈ characters, Octet.isBase64Char b = true) → padding ≤ 2 →
      (characters.length + padding) % 4 = 0 →
        WellFormed (characters.map Octet.char ++ List.replicate padding '=')
  | [], padding, _, hbound, hgrouped => by
    have hzero : padding = 0 := by
      rw [List.length_nil] at hgrouped
      omega
    subst hzero
    exact .nil
  | [_], padding, _, hbound, hgrouped => by
    rw [List.length_singleton] at hgrouped
    omega
  | [a, b], padding, members, hbound, hgrouped => by
    have htwo : padding = 2 := by
      simp only [List.length_cons, List.length_nil] at hgrouped
      omega
    subst htwo
    simp only [List.forall_mem_cons] at members
    obtain ⟨ha, hb, -⟩ := members
    exact .two _ _ (Base64.char_mem a ha) (Base64.char_mem b hb)
  | [a, b, c], padding, members, hbound, hgrouped => by
    have hone : padding = 1 := by
      simp only [List.length_cons, List.length_nil] at hgrouped
      omega
    subst hone
    simp only [List.forall_mem_cons] at members
    obtain ⟨ha, hb, hc, -⟩ := members
    exact .three _ _ _ (Base64.char_mem a ha) (Base64.char_mem b hb) (Base64.char_mem c hc)
  | a :: b :: c :: d :: characters, padding, members, hbound, hgrouped => by
    simp only [List.forall_mem_cons] at members
    obtain ⟨ha, hb, hc, hd, hothers⟩ := members
    have hrest : (characters.length + padding) % 4 = 0 := by
      simp only [List.length_cons] at hgrouped
      omega
    exact .group _ _ _ _ _ (Base64.char_mem a ha) (Base64.char_mem b hb) (Base64.char_mem c hc)
      (Base64.char_mem d hd) (wellFormed_of_grouped hothers hbound hrest)

theorem wellFormed (t : Base64Text) : WellFormed t.text.toList := by
  have hsigns : (List.replicate t.padding (0x3D : UInt8)).map Octet.char =
      List.replicate t.padding '=' := List.map_replicate
  rw [text, Bytes.text_toList, octets, List.map_append, hsigns]
  exact wellFormed_of_grouped t.members t.paddingBounded t.grouped

theorem exists_of_wellFormed {cs : List Char} (h : WellFormed cs) :
    ∃ t : Base64Text, t.octets.map Octet.char = cs := by
  induction h with
  | nil => exact ⟨⟨[], 0, List.forall_mem_nil _, by decide, rfl⟩, rfl⟩
  | two a b ha hb =>
    obtain ⟨x, hx, rfl⟩ := Base64.octet_of_mem ha
    obtain ⟨y, hy, rfl⟩ := Base64.octet_of_mem hb
    exact ⟨⟨[x, y], 2, by simp [hx, hy], by decide, by simp⟩, rfl⟩
  | three a b c ha hb hc =>
    obtain ⟨x, hx, rfl⟩ := Base64.octet_of_mem ha
    obtain ⟨y, hy, rfl⟩ := Base64.octet_of_mem hb
    obtain ⟨z, hz, rfl⟩ := Base64.octet_of_mem hc
    exact ⟨⟨[x, y, z], 1, by simp [hx, hy, hz], by decide, by simp⟩, rfl⟩
  | group a b c d rest ha hb hc hd _ ih =>
    obtain ⟨w, hw, rfl⟩ := Base64.octet_of_mem ha
    obtain ⟨x, hx, rfl⟩ := Base64.octet_of_mem hb
    obtain ⟨y, hy, rfl⟩ := Base64.octet_of_mem hc
    obtain ⟨z, hz, rfl⟩ := Base64.octet_of_mem hd
    obtain ⟨t, rfl⟩ := ih
    have hgrouped := t.grouped
    refine ⟨⟨w :: x :: y :: z :: t.characters, t.padding, ?_, t.paddingBounded, ?_⟩, rfl⟩
    · simp only [List.forall_mem_cons]
      exact ⟨hw, hx, hy, hz, t.members⟩
    · simp only [List.length_cons]
      omega

end Written.Base64Text

open Rule Written

namespace Base64

/-- What encodes octets is written in groups. -/
theorem encode_written (octets : Bytes) :
    ∃ t : Base64Text, t.octets = Bytes.ofText (encode octets) ∧ t.text = encode octets := by
  obtain ⟨t, ht⟩ := Base64Text.exists_of_wellFormed (encodeChars_wellFormed octets)
  have htext : t.text = encode octets := congrArg String.ofList ht
  exact ⟨t, by rw [← htext, Base64Text.text, Bytes.ofText_text], htext⟩

theorem rule_takes : Base64.rule.Takes fun found span =>
    ∃ t : Base64Text, found = t.text ∧ span = t.octets := by
  intro ctx bs found used hdone
  obtain ⟨text, htoken, hjudge⟩ := refine_done hdone
  obtain ⟨rfl, rfl⟩ := token_done htoken
  split at hjudge
  · next hgrouped =>
    cases hjudge
    obtain ⟨padding, rest, hbs, hbound, -, hlength⟩ := token_split bs
    let characters := bs.takeWhile Octet.isBase64Char
    let span := characters ++ List.replicate padding 0x3D
    have hsize : span.length = tokenLength bs := by
      rw [hlength, List.length_append, List.length_replicate]
    have hsplit : bs = span ++ rest := by
      rw [List.append_assoc]
      exact hbs
    have htaken : bs.take (tokenLength bs) = span := by
      rw [← hsize]
      nth_rewrite 1 [hsplit]
      exact List.take_left
    have hfour : (characters.length + padding) % 4 = 0 := by
      rw [htaken, ← String.length_toList, Bytes.text_toList, List.length_map, hsize, hlength]
        at hgrouped
      exact hgrouped
    exact ⟨span, rest, hsplit, hsize.symm, ⟨characters, padding,
      List.all_eq_true.mp List.all_takeWhile, hbound, hfour⟩, by rw [htaken]; rfl, rfl⟩
  · cases hjudge

theorem rule_encode (octets : Bytes) (ctx : Context) (e : LineEnd) (ext : Bytes) :
    Base64.rule ctx (Bytes.ofText (encode octets) ++ (e.octets ++ ext)) =
      .done (encode octets) (Bytes.ofText (encode octets)).length := by
  obtain ⟨t, ht, htext⟩ := encode_written octets
  have hrest : ctx.Stops Octet.isInner (e.octets ++ ext) :=
    (e.stops ctx ext).mono Octet.inLine_of_inner
  rw [← ht, ← htext]
  exact (base64_reads t hrest).done

/-- The line of a client that sends octets as its initial response. -/
def authenticateLine (tag : Run Octet.isTagChar) (name : Spelling "AUTHENTICATE") (mechanism : Atom)
    (octets : Bytes) (e : LineEnd) : Bytes :=
  tag.octets ++ 0x20 :: (name.octets ++ 0x20 :: (mechanism.octets ++
    0x20 :: (Bytes.ofText (encode octets) ++ e.octets)))

theorem command_encode (octets : Bytes) (complete : Bool) (tag : Run Octet.isTagChar)
    (name : Spelling "AUTHENTICATE") (mechanism : Atom) (e : LineEnd) (ext : Bytes) :
    Command.rule ⟨complete, .command⟩ (authenticateLine tag name mechanism octets e ++ ext) =
      .done ⟨tag.text, .authenticate mechanism.text.toUpper (some (encode octets))⟩
        (authenticateLine tag name mechanism octets e).length := by
  obtain ⟨t, ht, htext⟩ := encode_written octets
  let request : Request .command := .authenticate name mechanism (.base64 t)
  let line : ClientLine := ⟨tag, request, e⟩
  have hrequest := CommandBody.rule_reads request rfl (e.stops ⟨complete, .command⟩ ext)
  have hline : Command.rule.Reads ⟨complete, .command⟩ (line.octets ++ ext) line.value ext := by
    simp only [ClientLine.octets, List.append_assoc, List.cons_append]
    apply (tag.reads .tagChar (by rfl)).bind
    apply Rule.space_reads.bind
    apply hrequest.bind
    exact (Rule.lineEnd_reads e).bind (.pure _)
  have hoctets : line.octets = authenticateLine tag name mechanism octets e := by
    simp only [line, request, ClientLine.octets, Request.octets, InitialResponse.octets,
      authenticateLine, ht, List.append_assoc, List.cons_append]
  have hvalue : line.value =
      ⟨tag.text, .authenticate mechanism.text.toUpper (some (encode octets))⟩ := by
    rw [← htext]
    rfl
  rw [← hoctets, ← hvalue]
  exact hline.done

/-- Some octets as a text: a token to the rule, an initial response to a command, and data that a
continuation gives back. -/
structure Carried (octets : Bytes) : Prop where
  token : ∀ ctx (e : LineEnd) ext,
    Base64.rule ctx (Bytes.ofText (encode octets) ++ (e.octets ++ ext)) =
      .done (encode octets) (Bytes.ofText (encode octets)).length
  response : ∀ complete tag name mechanism e ext,
    Command.rule ⟨complete, .command⟩ (authenticateLine tag name mechanism octets e ++ ext) =
      .done ⟨tag.text, .authenticate mechanism.text.toUpper (some (encode octets))⟩
        (authenticateLine tag name mechanism octets e).length
  data : ∃ c, Continuation.build none none (some (encode octets)) = .ok c ∧ c.decoded = .ok octets

/-- What octets are encoded as is read as that and decoded to the octets, and whatever is read as
base64, in whichever language and with whatever behind it, is well formed and decoded. -/
theorem tokens_agree_with_decoding :
    (∀ octets, Carried octets) ∧
      ∀ ctx bs token used, Base64.rule ctx bs = .done token used →
        WellFormed token.toList ∧ ∃ c octets,
          Continuation.build none none (some token) = .ok c ∧ c.decoded = .ok octets := by
  refine ⟨fun octets => ⟨rule_encode octets, command_encode octets,
    .base64 (encode octets), rfl, decode_encode octets⟩, fun ctx bs token used hdone => ?_⟩
  obtain ⟨span, rest, -, -, t, rfl, -⟩ := rule_takes hdone
  obtain ⟨octets, hdecoded⟩ := t.wellFormed.decodes
  rw [String.ofList_toList] at hdecoded
  exact ⟨t.wellFormed, .base64 t.text, octets, rfl, hdecoded⟩

/-- The bits that the last group leaves over are not looked at. -/
theorem tokens_agree_with_decoding_left_over :
    ∃ c octets, Continuation.build none none (some "QR==") = .ok c ∧ c.decoded = .ok octets := by
  have hdone : Base64.rule ⟨false, .response⟩ (Bytes.ofText "QR==\r\n") = .done "QR==" 4 := by
    decide +kernel
  exact (tokens_agree_with_decoding.2 _ _ _ _ hdone).2

end Base64

end Imap
