import Imap.Proofs.Written.Spelled
import Imap.Proofs.Written.Text
import Mathlib.Data.Set.Function

namespace Imap

theorem Octet.text_of_astring : ∀ b, isAstringChar b = true → isTextChar b = true := by
  apply forall_of_lt
  decide +kernel

namespace Written

/-- The octets between quotes. -/
def quote (content : Bytes) : Bytes := 0x22 :: (content.flatMap escape ++ [0x22])

end Written

open Written

namespace Rule

variable {ctx : Context} {content rest : Bytes}

/-- If these octets are read up to a quote, they are what was read, escaped. -/
def Escaped (ctx : Context) (bs : Bytes) : Prop :=
  ∀ ⦃content used⦄, quotedTail ctx bs = .done content used →
    (∀ b ∈ content, Octet.isTextChar b = true) ∧ ∃ rest, bs = content.flatMap escape ++ 0x22 :: rest ∧
      used = (content.flatMap escape).length + 1

theorem Escaped.cons {b : UInt8} {bs : Bytes} (h : Escaped ctx bs)
    (hchar : Octet.isTextChar b = true) : Escaped ctx (escape b ++ bs) := by
  intro content used hdone
  rw [quotedTail_escaped hchar] at hdone
  obtain ⟨content, n, hn, rfl, rfl⟩ := map_shift_done hdone
  obtain ⟨htext, rest, rfl, rfl⟩ := h hn
  refine ⟨List.forall_mem_cons.mpr ⟨hchar, htext⟩, rest, ?_, ?_⟩
  · rw [List.flatMap_cons, List.append_assoc]
  · rw [List.flatMap_cons, List.length_append, Nat.add_assoc]

theorem escaped (ctx : Context) (bs : Bytes) : Escaped ctx bs := by
  induction bs using quotedTail.induct with
  | case1 | case3 =>
    intro content used hdone
    cases hdone
  | case2 bs =>
    intro content used hdone
    rw [quotedTail_close] at hdone
    cases hdone
    exact ⟨List.forall_mem_nil _, bs, rfl, rfl⟩
  -- An escape is read in one step, though it is two octets.
  | case4 c bs hc _ ih =>
    have hchar : Octet.isTextChar c = true := by rcases hc with rfl | rfl <;> rfl
    have hescape : 0x5C :: c :: bs = escape c ++ bs := by rw [escape, if_pos hc]; rfl
    rw [hescape]
    exact ih.cons hchar
  | case5 c bs hc =>
    intro content used hdone
    rw [quotedTail_badEscape _ _ hc] at hdone
    cases hdone
  | case6 b bs hquote hslash hchar ih =>
    have hescape : b :: bs = escape b ++ bs := by
      rw [escape, if_neg (not_or.mpr ⟨hquote, hslash⟩)]
      rfl
    rw [hescape]
    exact ih.cons hchar
  | case7 b bs hquote hslash hchar =>
    intro content used hdone
    rw [quotedTail_badChar _ _ hquote hslash hchar] at hdone
    cases hdone

theorem quotedTail_takes : Takes quotedTail fun content span =>
    (∀ b ∈ content, Octet.isTextChar b = true) ∧ span = content.flatMap escape ++ [0x22] := by
  intro ctx bs content used hdone
  obtain ⟨htext, rest, rfl, rfl⟩ := escaped ctx bs hdone
  have hlength : (content.flatMap escape ++ [0x22]).length = (content.flatMap escape).length + 1 :=
    List.length_append
  exact ⟨_, rest, List.append_cons .., hlength.symm, htext, rfl⟩

theorem quoted_takes : quoted.Takes fun content span =>
    (∀ b ∈ content, Octet.isTextChar b = true) ∧ span = quote content := by
  apply (Takes.octet rfl rfl).bind
  intro _ _ hquote
  apply quotedTail_takes.mono
  rintro _ _ ⟨htext, hspan⟩
  exact ⟨htext, by rw [hquote, hspan]; rfl⟩

theorem quote_reads (htext : ∀ b ∈ content, Octet.isTextChar b = true) :
    quoted.Reads ctx (quote content ++ rest) content rest := quoted_reads ⟨content, htext⟩

/-- What stands between quotes and what it means determine each other. -/
theorem quote_bijOn (ctx : Context) : Set.BijOn quote
    {content | ∀ b ∈ content, Octet.isTextChar b = true}
    {octets | ∃ content, quoted ctx octets = .done content octets.length} := by
  have hquoted {content : Bytes} (htext : ∀ b ∈ content, Octet.isTextChar b = true) :
      quoted ctx (quote content) = .done content (quote content).length := by
    have hread : quoted.Reads ctx (quote content ++ []) content [] := quote_reads htext
    have hdone := hread.done
    rwa [List.append_nil] at hdone
  refine ⟨fun content htext => ⟨content, hquoted htext⟩, fun content htext other hother heq => ?_,
    fun octets ⟨content, hdone⟩ => ?_⟩
  · have hdone := hquoted htext
    rw [heq, hquoted hother] at hdone
    cases hdone
    rfl
  · have hread : quoted.Reads ctx (octets ++ []) content [] := by
      refine .of_done ?_
      rw [List.append_nil]
      exact hdone
    obtain ⟨htext, hoctets⟩ := quoted_takes.of_reads hread
    exact ⟨content, htext, hoctets.symm⟩

theorem announce_reads {zeros : Nat} {plus : Bool} {e : LineEnd} (hnul : 0 ∉ content)
    (hlength : content.length ≤ maxNumber) (hplus : plus = true → ctx.dialect.plusLiterals = true) :
    string.Reads ctx (announce zeros content.length plus e ++ content ++ rest) content rest := by
  let announced : Literal ctx.dialect := ⟨content, zeros, plus, e, hlength, hnul, hplus⟩
  exact string_reads (.literal announced)

/-- Where no plus may stand, it is found in place of the brace. -/
theorem announce_plus_missed {zeros : Nat} {e : LineEnd} (hlength : content.length ≤ maxNumber)
    (hplus : ctx.dialect.plusLiterals = false) :
    string ctx (announce zeros content.length true e ++ content ++ rest) =
      .failed (.miss (.expected .literalEnd)
        (1 + (Bytes.numeral zeros content.length).length)) := by
  let numeral := Bytes.numeral zeros content.length
  let more := 0x2B :: 0x7D :: (e.octets ++ (content ++ rest))
  have htotal : announce zeros content.length true e ++ content ++ rest =
      [0x7B] ++ (numeral ++ more) := by
    simp only [announce, numeral, more, List.cons_append, List.nil_append, List.append_assoc, if_true]
  have hsize : (digits maxNumber .literalLength).Reads ctx (numeral ++ more) content.length more :=
    digits_reads hlength rfl
  have hliteral : literal ctx ([0x7B] ++ (numeral ++ more)) =
      .failed (.miss (.expected .literalEnd) (1 + numeral.length)) := by
    rw [literal, (Reads.octet rfl).bind_eq, hsize.bind_eq, dialect_bind, hplus]
    rfl
  rw [htotal]
  exact (peek_bind _ _).trans hliteral

theorem astring_reads_bare (hne : content ≠ [])
    (hmembers : ∀ b ∈ content, Octet.isAstringChar b = true)
    (hrest : ctx.Stops Octet.isAstringChar rest) :
    astring.Reads ctx (content ++ rest) (Bytes.text content) rest := by
  let bare : Astring ctx.dialect := .bare ⟨content, hne, hmembers⟩
  have hvalue : bare.value = Bytes.text content :=
    Text.Utf8.decode_ascii fun b hb => Octet.Ascii.astringChar b (hmembers b hb)
  rw [← hvalue]
  exact bareOrString_reads bare .astringChar rfl rfl hrest

/-- The octets of an astring mean the same in any string. -/
theorem astring_reads_string (s : Str ctx.dialect)
    (hmembers : ∀ b ∈ s.content, Octet.isAstringChar b = true) :
    astring.Reads ctx (s.octets ++ rest) (Bytes.text s.content) rest := by
  rw [← Text.Utf8.decode_ascii fun b hb => Octet.Ascii.astringChar b (hmembers b hb)]
  exact bareOrString_reads_string s rfl rfl

theorem nul_not_mem {isMember : UInt8 → Bool} (hnul : isMember 0 = false)
    (hmembers : ∀ b ∈ content, isMember b = true) : 0 ∉ content := by
  intro h
  rw [hmembers 0 h] at hnul
  cases hnul

/-- Every way to write a string is read back. A literal is, with zeros in front of its size and with
either line end, where only a client may mark it with a plus; what is text is, between quotes; and an
astring has the same value without anything around it as in these two forms. What stood between quotes
was written in the one way that its value has. -/
theorem string_forms_read_back (ctx : Context) :
    (∀ content rest, 0 ∉ content → content.length < 4294967296 → ∀ zeros e,
      string.Reads ctx (announce zeros content.length false e ++ content ++ rest) content rest ∧
      (ctx.dialect = .command →
        string.Reads ctx (announce zeros content.length true e ++ content ++ rest) content rest) ∧
      (ctx.dialect ≠ .command →
        string ctx (announce zeros content.length true e ++ content ++ rest) =
          .failed (.miss (.expected .literalEnd)
            (1 + (Bytes.numeral zeros content.length).length)))) ∧
    (∀ content rest, (∀ b ∈ content, Octet.isTextChar b = true) →
      string.Reads ctx (quote content ++ rest) content rest) ∧
    (∀ content rest, content ≠ [] → (∀ b ∈ content, Octet.isAstringChar b = true) →
      (ctx.Stops Octet.isAstringChar rest →
        astring.Reads ctx (content ++ rest) (Bytes.text content) rest) ∧
      astring.Reads ctx (quote content ++ rest) (Bytes.text content) rest ∧
      (content.length < 4294967296 → ∀ zeros plus e, (plus = true → ctx.dialect = .command) →
        astring.Reads ctx (announce zeros content.length plus e ++ content ++ rest)
          (Bytes.text content) rest)) ∧
    (∀ data value used, quoted ctx data = .done value used →
      (∀ b ∈ value, Octet.isTextChar b = true) ∧
        ∃ rest, data = quote value ++ rest ∧ used = (quote value).length) ∧
    Set.BijOn quote {content | ∀ b ∈ content, Octet.isTextChar b = true}
      {octets | ∃ content, quoted ctx octets = .done content octets.length} := by
  have hplus {plus : Bool} (h : plus = true → ctx.dialect = .command) :
      plus = true → ctx.dialect.plusLiterals = true := fun hp => by rw [h hp]; rfl
  refine ⟨fun content rest hnul hlength zeros e => ⟨?_, fun hclient => ?_, fun hserver => ?_⟩,
    fun content rest htext => ?_, fun content rest hne hmembers =>
      ⟨astring_reads_bare hne hmembers, ?_, fun hlength zeros plus e hclient => ?_⟩,
    fun data value used hdone => ?_, quote_bijOn ctx⟩
  · exact announce_reads hnul (Nat.le_of_lt_succ hlength) nofun
  · exact announce_reads hnul (Nat.le_of_lt_succ hlength) (hplus fun _ => hclient)
  · refine announce_plus_missed (Nat.le_of_lt_succ hlength) ?_
    cases hd : ctx.dialect with
    | command => exact absurd hd hserver
    | _ => rfl
  · exact string_reads (.quoted ⟨content, htext⟩)
  · exact astring_reads_string
      (.quoted ⟨content, fun b hb => Octet.text_of_astring b (hmembers b hb)⟩) hmembers
  · exact astring_reads_string
      (.literal ⟨content, zeros, plus, e, Nat.le_of_lt_succ hlength,
        nul_not_mem rfl hmembers, hplus hclient⟩) hmembers
  · obtain ⟨span, rest, hdata, hused, htext, rfl⟩ := quoted_takes hdone
    exact ⟨htext, rest, hdata, hused⟩

/-- A quote and a backslash, escaped and as a literal; and a literal with a plus for a client. -/
theorem string_forms_read_back_escapes :
    let content := Bytes.ofText "\"\\"
    quote content = Bytes.ofText "\"\\\"\\\\\"" ∧
      string.Reads ⟨false, .response⟩ (quote content ++ [0x20]) content [0x20] ∧
      string.Reads ⟨false, .response⟩ (announce 1 2 false .feed ++ content ++ [0x20]) content [0x20] ∧
      string ⟨false, .response⟩ (announce 1 2 true .feed ++ content ++ [0x20]) =
        .failed (.miss (.expected .literalEnd) 3) ∧
      string.Reads ⟨false, .command⟩ (announce 1 2 true .feed ++ content ++ [0x20]) content [0x20] := by
  intro content
  have hnul : 0 ∉ content := by decide
  obtain ⟨hliteral, hquoted, -⟩ := string_forms_read_back ⟨false, .response⟩
  obtain ⟨hclient, -⟩ := string_forms_read_back ⟨false, .command⟩
  obtain ⟨hplain, -, hmissed⟩ := hliteral content [0x20] hnul (by decide) 1 .feed
  obtain ⟨-, hplus, -⟩ := hclient content [0x20] hnul (by decide) 1 .feed
  have hposition : 1 + (Bytes.numeral 1 content.length).length = 3 := by decide +kernel
  rw [hposition] at hmissed
  exact ⟨by decide, hquoted content [0x20] (by decide +kernel), hplain, hmissed nofun, hplus rfl⟩

end Rule

end Imap
