import Imap.Proofs.Built.Lexical
import Imap.Proofs.Values.Basic
import Imap.Proofs.Values.Text

namespace Imap

namespace Text

/-- One or more characters of ASCII, none of them NUL or part of a line end. -/
structure IsText (s : String) : Prop where
  some : s ≠ ""
  chars : ∀ c ∈ s.toList, c.toNat < 0x80 ∧ c ≠ '\x00' ∧ c ≠ '\r' ∧ c ≠ '\n'

theorem IsText.nulFree {s : String} (h : IsText s) : NulFree s := by
  intro hc
  exact (h.chars _ hc).2.1 rfl

/-- INBOX has one spelling. -/
def IsMailbox (s : String) : Prop := s.toLower = "inbox" → s = "INBOX"

end Text

open Text (IsText IsMailbox)

namespace Rule

theorem token_ensures (length : Bytes → Nat) (mayBeEmpty : Bool) (missing : Shortage)
    (cause : Cause) : (token length mayBeEmpty missing cause).Ensures fun found =>
      ∃ bs : Bytes, found = Bytes.text (bs.take (length bs)) := by
  rintro found ⟨ctx, bs, n, hd⟩
  exact ⟨bs, (token_done hd).1⟩

theorem token_nulFree {length : Bytes → Nat} (hl : ∀ bs : Bytes, 0 ∉ bs.take (length bs))
    (mayBeEmpty : Bool) (missing : Shortage) (cause : Cause) :
    (token length mayBeEmpty missing cause).Ensures fun found => NulFree found := by
  refine (token_ensures length mayBeEmpty missing cause).mono fun found hf => ?_
  obtain ⟨bs, rfl⟩ := hf
  exact Text.nulFree_ofOctets (hl bs)

theorem span_ensures {isMember : UInt8 → Bool} (hp : isMember 0 = false) (wanted : Element) :
    (span isMember wanted).Ensures fun found => found ≠ "" ∧ NulFree found := by
  refine .and (fun _ => token_gives (greedy_takeWhile isMember)) ?_
  exact token_nulFree (not_mem_takeWhile hp) _ _ _

theorem atom_ensures : atom.Ensures fun found => found ≠ "" ∧ NulFree found := span_ensures rfl _

theorem tag_ensures : tag.Ensures fun found => NulFree found := by
  refine (span_ensures rfl _).mono fun _ h => ?_
  exact h.2

theorem text_ensures : text.Ensures IsText := by
  refine fun found hf => ⟨token_gives (greedy_takeWhile _) hf, ?_⟩
  obtain ⟨bs, rfl⟩ := token_ensures _ _ _ _ found hf
  intro c hc
  rw [Bytes.text_toList, List.mem_map] at hc
  obtain ⟨b, hb, rfl⟩ := hc
  have htext := takeWhile_all Octet.isTextChar bs b hb
  have hascii : b < 0x80 := Octet.Ascii.textChar b htext
  have hother (d : UInt8) (hd : Octet.isTextChar d = false) : Octet.char b ≠ Octet.char d := by
    intro hchar
    rw [Octet.char_injective hchar, hd] at htext
    cases htext
  refine ⟨?_, hother 0 rfl, hother 0x0D rfl, hother 0x0A rfl⟩
  rw [Octet.char_toNat]
  exact hascii

theorem digits_ensures (limit : Nat) (wanted : Element) : (digits limit wanted).Ensures (· ≤ limit) := by
  rintro n ⟨ctx, bs, used, hd⟩
  simp only [digits_apply] at hd
  split at hd
  · cases hd
  · next hle =>
    cases hs : span Octet.isDigit wanted ctx bs with
    | failed why => rw [hs] at hd; cases hd
    | done text k =>
      rw [hs] at hd
      cases hd
      exact Nat.le_of_not_lt hle

theorem number_ensures : number.Ensures (· < 0x100000000) := by
  refine (digits_ensures _ _).mono fun _ h => ?_
  exact Nat.lt_succ_of_le h

theorem number64_ensures : number64.Ensures (· < 0x10000000000000000) := by
  refine (digits_ensures _ _).mono fun _ h => ?_
  exact Nat.lt_succ_of_le h

theorem nonZeroNumber_ensures : nonZeroNumber.Ensures fun n => 0 < n ∧ n < 0x100000000 := by
  refine .and (fun _ => nonZeroNumber_gives) (.andThen fun ahead => ?_)
  split
  · split
    · exact (digits_ensures _ _).mono fun _ h => Nat.lt_succ_of_le h
    · exact .fail
  · exact .fail

theorem quotedTail_nulFree {ctx : Context} {bs content : Bytes} {n : Nat}
    (h : quotedTail ctx bs = .done content n) : 0 ∉ content := by
  induction bs using quotedTail.induct generalizing content n with
  | case1 => cases h
  | case2 bs => rw [quotedTail_close] at h; cases h; simp
  | case3 => cases h
  | case4 c bs hc _ ih =>
    rw [quotedTail_escape _ _ hc] at h
    obtain ⟨rest, m, hm, rfl, -⟩ := map_shift_done h
    have hne : c ≠ 0 := by rcases hc with rfl | rfl <;> decide
    rw [List.mem_cons, not_or]
    exact ⟨hne.symm, ih hm⟩
  | case5 c bs hc => rw [quotedTail_badEscape _ _ hc] at h; cases h
  | case6 b bs hq hs ht ih =>
    rw [quotedTail_char _ _ hq hs ht] at h
    obtain ⟨rest, m, hm, rfl, -⟩ := map_shift_done h
    have hne : b ≠ 0 := by rintro rfl; cases ht
    rw [List.mem_cons, not_or]
    exact ⟨hne.symm, ih hm⟩
  | case7 b bs hq hs ht => rw [quotedTail_badChar _ _ hq hs ht] at h; cases h

theorem quoted_ensures : quoted.Ensures fun content => 0 ∉ content := by
  refine .andThen fun _ => ?_
  rintro content ⟨ctx, bs, used, hd⟩
  exact quotedTail_nulFree hd

theorem quotedText_ensures : quotedText.Ensures fun s => NulFree s := by
  refine quoted_ensures.bind fun content hc => ?_
  refine .ofExcept fun s hs => ?_
  rw [Text.Ascii.decode_eq hs]
  exact Text.nulFree_ofOctets hc

theorem literalBody_ensures (size : Nat) : (literalBody size).Ensures fun body => 0 ∉ body := by
  rintro body ⟨ctx, bs, used, hd⟩
  simp only [literalBody] at hd
  split at hd
  · split at hd <;> cases hd
  · split at hd
    · cases hd
    · next hnul =>
      cases hd
      exact fun hm => hnul (List.contains_iff_mem.mpr hm)

theorem literal_ensures : literal.Ensures fun content => 0 ∉ content := by
  have tail (size : Nat) : Ensures (do
      expect "\x7d" .literalEnd
      lineEnd
      literalBody size) fun content => 0 ∉ content :=
    .andThen fun _ => .andThen fun _ => literalBody_ensures size
  refine .andThen fun _ => ?_
  refine .andThen fun size => ?_
  refine .andThen fun d => ?_
  split
  · exact .andThen fun _ => tail size
  · exact tail size

theorem string_ensures : string.Ensures fun content => 0 ∉ content := by
  refine .andThen fun ahead => ?_
  split
  · exact quoted_ensures
  · exact literal_ensures
  · exact .fail

theorem bareOrString_ensures {isMember : UInt8 → Bool} (hp : isMember 0 = false) (pattern : String) :
    (bareOrString isMember pattern).Ensures fun s => NulFree s := by
  refine (token_nulFree (not_mem_takeWhile hp) _ _ _).opt.bind fun found hf => ?_
  split
  · exact .pure (hf _ rfl)
  · exact string_ensures.bind fun _ hc => .pure (Text.Utf8.decode_nulFree hc)

theorem astring_ensures : astring.Ensures fun s => NulFree s := bareOrString_ensures rfl _

theorem mailboxPattern_ensures : mailboxPattern.Ensures fun s => NulFree s :=
  bareOrString_ensures rfl _

theorem nstring_ensures : nstring.Ensures fun s => NulFree s := by
  refine .andThen fun ahead => ?_
  split
  · exact string_ensures.bind fun _ hc => .pure hc
  · exact string_ensures.bind fun _ hc => .pure hc
  · exact .andThen fun _ => .pure trivial

theorem charset_ensures : charset.Ensures fun s => NulFree s := by
  refine .andThen fun ahead => ?_
  split
  · exact quotedText_ensures
  · exact atom_ensures.mono fun _ h => h.2

theorem mailbox_ensures : mailbox.Ensures fun s => NulFree s ∧ IsMailbox s := by
  refine astring_ensures.bind fun name hname => .pure ?_
  split
  · exact ⟨(by decide : Text.NulFree "INBOX"), fun _ => rfl⟩
  · next hne => exact ⟨hname, fun h => absurd h hne⟩

theorem flag_ensures : flag.Ensures fun s => NulFree s := by
  refine .andThen fun found => ?_
  split
  · refine atom_ensures.bind fun name hname => .pure ?_
    exact Text.nulFree_append.mpr ⟨by decide, hname.2⟩
  · exact atom_ensures.mono fun _ h => h.2

theorem permanentFlag_ensures : permanentFlag.Ensures fun s => NulFree s := by
  refine .andThen fun found => ?_
  split
  · exact .pure (by decide : Text.NulFree "\\*")
  · exact flag_ensures

theorem flags_ensures : flags.Ensures fun items => NulFree items := by
  refine flag_ensures.list.mono fun _ h => ?_
  exact NulFree.list.mpr h

end Rule

/-- A number of 32 bits other than zero, or `*`. -/
def SeqNo.WellFormed : SeqNo → Prop
  | star => True
  | number n _ => 0 < n ∧ n < 0x100000000

def SeqElement.WellFormed : SeqElement → Prop
  | single n => n.WellFormed
  | range first last => first.WellFormed ∧ last.WellFormed

/-- At least one element. -/
structure SequenceSet.WellFormed (set : SequenceSet) : Prop where
  some : set ≠ []
  each : ∀ e ∈ set, SeqElement.WellFormed e

theorem SeqNo.rule_ensures : SeqNo.rule.Ensures SeqNo.WellFormed := by
  refine .andThen fun star => ?_
  split
  · exact .pure trivial
  · refine Rule.nonZeroNumber_ensures.bind fun n hn => .ofExcept fun s hs => ?_
    simp only [SeqNo.ofInt] at hs
    split at hs
    · cases hs
      exact hn
    · cases hs

theorem SeqElement.rule_ensures : SeqElement.rule.Ensures SeqElement.WellFormed := by
  refine .alt ?_ (SeqNo.rule_ensures.map fun _ h => h)
  refine SeqNo.rule_ensures.bind fun _ hfirst => ?_
  refine .andThen fun _ => ?_
  refine SeqNo.rule_ensures.bind fun _ hlast => ?_
  exact .pure ⟨hfirst, hlast⟩

theorem SequenceSet.rule_ensures : SequenceSet.rule.Ensures SequenceSet.WellFormed := by
  refine (SeqElement.rule_ensures.separated _).mono fun _ h => ?_
  exact ⟨h.1, h.2⟩

theorem SequenceSet.nulFree (set : SequenceSet) : NulFree set := by
  have number (n : SeqNo) : NulFree n := ⟨NulFree.option.mpr fun _ _ => trivial, trivial⟩
  refine NulFree.list.mpr fun e _ => ?_
  cases e with
  | single n => exact ⟨number n, trivial⟩
  | range first last => exact ⟨number first, number last, trivial⟩

theorem Base64.nulFree (bs : Bytes) : 0 ∉ bs.take (Base64.tokenLength bs) := by
  intro h
  rcases Base64.mem_token h with h | h <;> cases h

theorem Base64.isTextChar_of_token {bs : Bytes} {b : UInt8}
    (h : b ∈ bs.take (Base64.tokenLength bs)) : Octet.isTextChar b = true ∧ b ≠ 0x5B := by
  have hascii := Base64.ascii bs b h
  have hother (c : UInt8) (hc : ¬(Octet.isBase64Char c = true ∨ c = 0x3D)) : b ≠ c := by
    rintro rfl
    exact hc (Base64.mem_token h)
  refine ⟨?_, hother _ (by decide)⟩
  simp [Octet.isTextChar, hother 0 (by decide), hother 0x0A (by decide), hother 0x0D (by decide),
    hascii]

theorem Base64.rule_ensures : Base64.rule.Ensures fun s => NulFree s ∧ s.length % 4 = 0 := by
  refine (Rule.token_nulFree Base64.nulFree _ _ _).refine fun found s hf hj => ?_
  split at hj
  · next hlen =>
    cases hj
    exact ⟨hf, hlen⟩
  · cases hj

end Imap
