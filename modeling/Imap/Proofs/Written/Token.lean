import Imap.Proofs.Caseless.Text
import Imap.Proofs.Caseless.Token
import Imap.Proofs.Written.Basic
import Imap.Keyword

namespace Imap

namespace Octet

/-- A class without the octets that may stand behind a word. -/
theorem inner_of_excluded {isMember : UInt8 → Bool} (hspace : isMember 0x20 = false)
    (hclose : isMember 0x29 = false) (hreturn : isMember 0x0D = false)
    (hfeed : isMember 0x0A = false) (b : UInt8) (h : isMember b = true) : isInner b = true := by
  have other {w : UInt8} (hw : isMember w = false) : b ≠ w := by
    rintro rfl
    rw [hw] at h
    cases h
  simp only [isInner, Bool.and_eq_true, bne_iff_ne]
  exact ⟨⟨⟨other hspace, other hclose⟩, other hreturn⟩, other hfeed⟩

theorem inner_of_pattern : ∀ b, isPatternChar b = true → isInner b = true := by
  apply inner_of_excluded <;> rfl

theorem inner_of_astring (b : UInt8) (h : isAstringChar b = true) : isInner b = true := by
  simp only [isAstringChar, Bool.and_eq_true] at h
  exact inner_of_pattern b h.1.1

theorem inner_of_atom (b : UInt8) (h : isAtomChar b = true) : isInner b = true := by
  simp only [isAtomChar, Bool.and_eq_true] at h
  exact inner_of_astring b h.1

theorem atom_of_letter : ∀ b, isLetter b = true → isAtomChar b = true := by
  apply forall_of_lt
  decide +kernel

theorem atom_of_digit : ∀ b, isDigit b = true → isAtomChar b = true := by
  apply forall_of_lt
  decide +kernel

theorem inner_of_digit : ∀ b, isDigit b = true → isInner b = true := by
  apply inner_of_excluded <;> rfl

theorem inLine_of_inner (b : UInt8) (h : isInner b = true) : isInLine b = true := by
  simp only [isInner, Bool.and_eq_true] at h
  simp only [isInLine, Bool.and_eq_true]
  exact ⟨h.1.2, h.2⟩

theorem inLine_of_text (b : UInt8) (h : isTextChar b = true) : isInLine b = true := by
  simp only [isTextChar, Bool.and_eq_true] at h
  simp only [isInLine, Bool.and_eq_true]
  exact ⟨h.1.2, h.1.1.2⟩

end Octet

namespace Rule

variable {α : Type} {ctx : Context} {octets rest bs : Bytes} {isMember : UInt8 → Bool}

theorem Reads.token {length : Bytes → Nat} {mayBeEmpty : Bool} {missing : Shortage} {cause : Cause}
    (hlength : length (octets ++ rest) = octets.length) (hrest : ctx.complete = true ∨ rest ≠ [])
    (hsome : octets ≠ [] ∨ mayBeEmpty = true) (ascii : ∀ b ∈ octets, b < 0x80) :
    (token length mayBeEmpty missing cause).Reads ctx (octets ++ rest) (Bytes.text octets) rest := by
  refine .of_done ?_
  have hmore : (!ctx.complete && rest.isEmpty) = false := by
    rcases hrest with h | h
    · rw [h]; rfl
    · rw [List.isEmpty_eq_false_iff.mpr h, Bool.and_false]
  have hfound : (decide (octets.length = 0) && !mayBeEmpty) = false := by
    rcases hsome with h | h
    · rw [decide_eq_false (mt List.length_eq_zero_iff.mp h), Bool.false_and]
    · rw [h, Bool.not_true, Bool.and_false]
  simp only [Rule.token, hlength, List.drop_left, List.take_left, hmore, hfound,
    Text.Ascii.decode_ok ascii, Bool.false_eq_true, if_false]
  rfl

theorem Reads.span {wanted : Element} (ascii : Octet.Ascii isMember) (hsome : octets ≠ [])
    (hmembers : ∀ b ∈ octets, isMember b = true) (hrest : ctx.Stops isMember rest) :
    (span isMember wanted).Reads ctx (octets ++ rest) (Bytes.text octets) rest := by
  refine .token (by rw [hrest.takeWhile_append hmembers]) hrest.settled (.inl hsome) fun b hb => ?_
  exact ascii b (hmembers b hb)

theorem Misses.run {missing : Shortage} {cause : Cause} (h : ctx.Stops isMember bs) :
    (Rule.token (fun bs => (bs.takeWhile isMember).length) false missing cause).Misses ctx bs := by
  refine ⟨cause, 0, ?_⟩
  have hmore : (!ctx.complete && bs.isEmpty) = false := by
    rcases h.settled with h | h
    · rw [h]; rfl
    · rw [List.isEmpty_eq_false_iff.mpr h, Bool.and_false]
  simp only [Rule.token, h.takeWhile, List.length_nil, List.drop_zero, hmore]
  rfl

theorem Reads.word {fixed : String} {cause : Cause} (h : octets.Alike (Bytes.ofText fixed)) :
    (word fixed cause).Reads ctx (octets ++ rest) () rest := by
  refine .of_done ?_
  have heq : compareWord ((Bytes.ofText fixed).map Octet.lower) (octets ++ rest) = .equal := by
    refine compareWord_of_prefix ?_
    rw [List.map_append, ← h]
    exact List.prefix_append ..
  simp only [Rule.word, heq, List.length_map, h.length_eq]

theorem Reads.octet {fixed : String} {cause : Cause} {b : UInt8} (h : Bytes.ofText fixed = [b]) :
    (Rule.word fixed cause).Reads ctx (b :: rest) () rest := by
  have halike : Bytes.Alike [b] (Bytes.ofText fixed) := by rw [h]; exact .refl [b]
  exact .word halike

theorem Rejects.octet {fixed : String} {cause bad : Cause} {b : UInt8} {next : Unit → Rule α}
    {position : Nat} (h : Bytes.ofText fixed = [b]) (hn : (next ()).Rejects ctx bs bad position) :
    (Rule.word fixed cause >>= next).Rejects ctx (b :: bs) bad (1 + position) := by
  have hmark : (Rule.word fixed cause).Reads ctx ([b] ++ bs) () bs := .octet h
  exact .behind hmark hn

theorem Misses.octet {fixed : String} {cause : Cause} {w : UInt8} (h : Bytes.ofText fixed = [w])
    (hw : Octet.isLetter w = false) (hstop : ctx.Stops (· == w) bs) :
    (Rule.word fixed cause).Misses ctx bs := by
  have hlower : Octet.lower w = w := (Octet.lower_eq_iff hw).mpr rfl
  refine ⟨cause, 0, ?_⟩
  simp only [Rule.word, h, List.map_cons, List.map_nil, hlower]
  cases bs with
  | nil =>
    have hcomplete : ctx.complete = true := hstop
    simp only [compareWord, hcomplete, if_true]
  | cons b bs =>
    have hne : Octet.lower b ≠ w := mt (Octet.lower_eq_iff hw).mp (ne_of_beq_false hstop)
    simp only [compareWord, hne, if_false]

/-- An octet that is read stands ahead. -/
theorem octet_ahead {fixed : String} {cause : Cause} {w : UInt8} {u : Unit} {n : Nat}
    (h : Bytes.ofText fixed = [w]) (hw : Octet.isLetter w = false)
    (hdone : word fixed cause ctx bs = .done u n) : n = 1 ∧ ∃ rest, bs = w :: rest := by
  cases bs with
  | nil =>
    simp only [word, h, List.map_cons, compareWord] at hdone
    split at hdone <;> cases hdone
  | cons b rest =>
    by_cases hb : b = w
    · subst hb
      have hread : word fixed cause ctx ([b] ++ rest) = .done () 1 := (Reads.octet h).done
      rw [List.singleton_append, hdone] at hread
      exact ⟨(Outcome.done.inj hread).2, rest, rfl⟩
    · have hmiss : (word fixed cause).Misses ctx (b :: rest) := .octet h hw (beq_false_of_ne hb)
      exact absurd hdone hmiss.not_done

theorem Reads.of_octet {fixed : String} {cause : Cause} {w : UInt8} {u : Unit}
    (h : Bytes.ofText fixed = [w]) (hw : Octet.isLetter w = false)
    (hread : (Rule.word fixed cause).Reads ctx bs u rest) : bs = w :: rest := by
  obtain ⟨span, rfl, hdone⟩ := hread
  obtain ⟨hlength, tail, htail⟩ := octet_ahead h hw hdone
  obtain ⟨b, rfl⟩ := List.length_eq_one_iff.mp hlength
  cases htail
  rfl

theorem Reads.skip {fixed : String} {b : UInt8} (h : Bytes.ofText fixed = [b]) :
    (skip? fixed).Reads ctx (b :: rest) true rest := by
  apply (octet h).opt.bind
  exact .pure _

theorem Reads.skip_none {fixed : String} {w : UInt8} (h : Bytes.ofText fixed = [w])
    (hw : Octet.isLetter w = false) (hstop : ctx.Stops (· == w) bs) :
    (skip? fixed).Reads ctx bs false bs := by
  apply (opt_none (.octet h hw hstop)).bind
  exact .pure _

theorem space_reads : space.Reads ctx (0x20 :: rest) () rest := .octet rfl

end Rule

namespace Written

/-- One or more octets of a class. -/
structure Run (isMember : UInt8 → Bool) where
  octets : Bytes
  some : octets ≠ []
  members : ∀ b ∈ octets, isMember b = true

abbrev Atom := Run Octet.isAtomChar

def Run.text {isMember : UInt8 → Bool} (r : Run isMember) : String := Bytes.text r.octets

/-- A word in capitals and small letters as its sender likes. -/
structure Spelling (word : String) where
  octets : Bytes
  alike : octets.Alike (Bytes.ofText word)

/-- A word that octets of a class can spell. -/
def IsWord (isMember : UInt8 → Bool) (word : String) : Prop :=
  Bytes.text (Bytes.ofText word) = word ∧ Bytes.ofText word ≠ [] ∧
    (Bytes.ofText word).all isMember = true

instance (isMember : UInt8 → Bool) (word : String) : Decidable (IsWord isMember word) :=
  inferInstanceAs (Decidable (_ ∧ _ ∧ _))

/-- The octets of a word, as a run. -/
def IsWord.run {isMember : UInt8 → Bool} {word : String} (h : IsWord isMember word) : Run isMember :=
  ⟨Bytes.ofText word, h.2.1, List.all_eq_true.mp h.2.2⟩

theorem IsWord.append {isMember : UInt8 → Bool} {s t : String} (hs : IsWord isMember s)
    (ht : IsWord isMember t) : IsWord isMember (s ++ t) := by
  rw [IsWord, Bytes.ofText_append]
  refine ⟨?_, ?_, ?_⟩
  · rw [← String.toList_inj, Bytes.text_toList, List.map_append, ← Bytes.text_toList,
      ← Bytes.text_toList, hs.1, ht.1, String.toList_append]
  · exact fun h => hs.2.1 (List.append_eq_nil_iff.mp h).1
  · rw [List.all_append, hs.2.2, ht.2.2, Bool.and_self]

/-- An atom that has this name in small letters. -/
def IsKeyword (word name : String) : Prop :=
  IsWord Octet.isAtomChar word ∧ word.toList.map Char.toLower = name.toList

instance (word name : String) : Decidable (IsKeyword word name) :=
  inferInstanceAs (Decidable (_ ∧ _))

namespace Run

variable {isMember : UInt8 → Bool} {ctx : Context} {rest : Bytes}

theorem reads (r : Run isMember) {wanted : Element} (ascii : Octet.Ascii isMember)
    (hrest : ctx.Stops isMember rest) :
    (Rule.span isMember wanted).Reads ctx (r.octets ++ rest) r.text rest :=
  .span ascii r.some r.members hrest

theorem stops (r : Run isMember) {w : UInt8} (hw : isMember w = false) (ctx : Context) (more : Bytes) :
    ctx.Stops (· == w) (r.octets ++ more) := by
  obtain ⟨b, bs, hbs⟩ := List.exists_cons_of_ne_nil r.some
  have hb : isMember b = true := r.members b (by rw [hbs]; exact List.mem_cons_self)
  rw [hbs]
  refine beq_false_of_ne ?_
  rintro rfl
  rw [hb] at hw
  cases hw

end Run

namespace Spelling

variable {word : String} {isMember : UInt8 → Bool}

/-- The spelling as a run of the class. -/
def run (s : Spelling word) (hp : Octet.CaselessClass isMember) (h : IsWord isMember word) :
    Run isMember where
  octets := s.octets
  some := by
    intro hnil
    have hlen := s.alike.length_eq
    rw [hnil] at hlen
    exact h.2.1 (List.length_eq_zero_iff.mp hlen.symm)
  members := by
    intro b hb
    have hmem : Octet.lower b ∈ (Bytes.ofText word).map Octet.lower := by
      rw [← s.alike]
      exact List.mem_map_of_mem hb
    obtain ⟨c, hc, hlower⟩ := List.mem_map.mp hmem
    rw [← hp.eq_of_lower hlower]
    exact List.all_eq_true.mp h.2.2 c hc

theorem akin (s : Spelling word) (h : IsWord isMember word) : Akin (Bytes.text s.octets) word := by
  have := s.alike.text
  rwa [h.1] at this

/-- A word has one spelling in small letters. -/
theorem toLower_eq (s : Spelling word) (h : IsWord isMember word) {name : String}
    (hname : word.toList.map Char.toLower = name.toList) : (Bytes.text s.octets).toLower = name := by
  rw [Akin.text.mp (s.akin h), ← String.toList_inj, toLower_toList, hname]

/-- A word in capitals is the one spelling in capitals. -/
theorem toUpper_eq (s : Spelling word) (h : IsWord isMember word)
    (hword : word.toList.map Char.toUpper = word.toList) : (Bytes.text s.octets).toUpper = word := by
  rw [(s.akin h).toUpper_eq, ← String.toList_inj, String.toUpper, String.toList_map, hword]

end Spelling

end Written

open Written

namespace Rule

variable {α : Type} {ctx : Context} {rest : Bytes} {word : String}

theorem atom_reads (a : Atom) (hrest : ctx.Stops Octet.isAtomChar rest) :
    atom.Reads ctx (a.octets ++ rest) a.text rest := a.reads .atomChar hrest

/-- A word of the protocol is read as an atom, whatever its letters' case. -/
theorem atom_reads_word (s : Spelling word) (hword : IsWord Octet.isAtomChar word)
    (hrest : ctx.Stops Octet.isAtomChar rest) :
    atom.Reads ctx (s.octets ++ rest) (Bytes.text s.octets) rest :=
  atom_reads (s.run .atomChar hword) hrest

theorem keyword_reads {name : String} (s : Spelling word) (hword : IsKeyword word name)
    (hrest : ctx.Stops Octet.isAtomChar rest) :
    (keyword name).Reads ctx (s.octets ++ rest) (Bytes.text s.octets) rest := by
  apply (atom_reads_word s hword.1 hrest).refine
  exact if_pos (s.toLower_eq hword.1 hword.2)

/-- A keyword hands over to its rule. -/
theorem dispatch_eq {table : List (String × Rule α)} {unknown : String → Cause} {rule : Rule α}
    {more : Bytes} (s : Spelling word) (hword : IsWord Octet.isAtomChar word)
    (hfind : Keyword.find? table word = some rule) (hmore : ctx.Stops Octet.isAtomChar more) :
    Keyword.dispatch table unknown ctx (s.octets ++ more) = rule ctx (s.octets ++ more) := by
  have hahead : lookahead atom ctx (s.octets ++ more) = .done (Bytes.text s.octets) 0 := by
    simp only [lookahead, (atom_reads_word s hword hmore).done]
  rw [Keyword.dispatch, bind_of_done hahead, (s.akin hword).find?_eq table, hfind, List.drop_zero,
    Outcome.shift_zero]

theorem dispatch_reads {table : List (String × Rule α)} {unknown : String → Cause} {rule : Rule α}
    {a : α} {more : Bytes} (s : Spelling word) (hword : IsWord Octet.isAtomChar word)
    (hfind : Keyword.find? table word = some rule) (hmore : ctx.Stops Octet.isAtomChar more)
    (hrule : rule.Reads ctx (s.octets ++ more) a rest) :
    (Keyword.dispatch table unknown).Reads ctx (s.octets ++ more) a rest := by
  obtain ⟨span, hspan, hdone⟩ := hrule
  exact ⟨span, hspan, (dispatch_eq s hword hfind hmore).trans hdone⟩

end Rule

namespace Bytes

/-- The decimal digits of a number, with zeros in front of them. -/
def numeral (zeros n : Nat) : Bytes := List.replicate zeros 0x30 ++ ofText (toString n)

theorem numeral_eq_ofText (zeros n : Nat) :
    numeral zeros n = ofText (String.ofList (List.replicate zeros '0' ++ Nat.toDigits 10 n)) := by
  rw [numeral, ofText, ofText, String.toList_ofList, List.map_append, List.map_replicate,
    Nat.toString_eq_ofList_toDigits, String.toList_ofList]
  rfl

end Bytes

namespace Rule

/-- A digit is the same number as an octet and as a character. -/
theorem toNat_digit {c : Char} (h : c.isDigit = true) :
    48 ≤ c.toNat ∧ c.toNat ≤ 57 ∧ (UInt8.ofNat c.toNat).toNat = c.toNat := by
  simp only [Char.isDigit, Bool.and_eq_true, decide_eq_true_eq] at h
  have hhigh : c.toNat ≤ 57 := h.2
  exact ⟨h.1, hhigh, UInt8.toNat_ofNat_of_lt' (Nat.lt_of_le_of_lt hhigh (by decide))⟩

theorem decimal_ofText {cs : List Char} (h : ∀ c ∈ cs, c.isDigit = true) :
    decimal (Bytes.ofText (String.ofList cs)) = Nat.ofDigitChars 10 cs 0 := by
  rw [decimal, Bytes.ofText, String.toList_ofList, List.foldl_map, Nat.ofDigitChars_eq_foldl]
  generalize (0 : Nat) = n
  induction cs generalizing n with
  | nil => rfl
  | cons c cs ih =>
    obtain ⟨-, -, hvalue⟩ := toNat_digit (h c List.mem_cons_self)
    rw [List.foldl_cons, List.foldl_cons, hvalue]
    exact ih (fun c hc => h c (List.mem_cons_of_mem _ hc)) _

theorem isDigit_of_numeral {zeros n : Nat} {c : Char}
    (h : c ∈ List.replicate zeros '0' ++ Nat.toDigits 10 n) : c.isDigit = true := by
  rcases List.mem_append.mp h with h | h
  · rw [List.eq_of_mem_replicate h]
    rfl
  · exact Nat.isDigit_of_mem_toDigits (by decide) (by decide) h

theorem decimal_numeral (zeros n : Nat) : decimal (Bytes.numeral zeros n) = n := by
  rw [Bytes.numeral_eq_ofText, decimal_ofText fun c hc => isDigit_of_numeral hc,
    Nat.ofDigitChars_append, Nat.ofDigitChars_replicate_zero, Nat.mul_zero,
    Nat.ofDigitChars_ten_toDigits]

theorem numeral_digits (zeros n : Nat) : ∀ b ∈ Bytes.numeral zeros n, Octet.isDigit b = true := by
  rw [Bytes.numeral_eq_ofText, Bytes.ofText, String.toList_ofList]
  intro b hb
  obtain ⟨c, hc, rfl⟩ := List.mem_map.mp hb
  obtain ⟨hlow, hhigh, hvalue⟩ := toNat_digit (isDigit_of_numeral hc)
  simp only [Octet.isDigit, Bool.and_eq_true, decide_eq_true_eq, UInt8.le_iff_toNat_le, hvalue]
  exact ⟨hlow, hhigh⟩

theorem numeral_ne_nil (zeros n : Nat) : Bytes.numeral zeros n ≠ [] := by
  rw [Bytes.numeral_eq_ofText, Bytes.ofText, String.toList_ofList, List.map_append]
  intro h
  exact Nat.toDigits_ne_nil (List.map_eq_nil_iff.mp (List.append_eq_nil_iff.mp h).2)

/-- What digits are worth decides on them. -/
theorem digits_eq {ctx : Context} {limit : Nat} {wanted : Element} {rest : Bytes}
    (d : Run Octet.isDigit) (hrest : ctx.Stops Octet.isDigit rest) :
    digits limit wanted ctx (d.octets ++ rest) =
      if limit < decimal d.octets then .failed (.bad (.tooLarge d.text limit) 0)
      else .done (decimal d.octets) d.octets.length := by
  have hrun := hrest.takeWhile_append d.members
  have hspan : (span Octet.isDigit wanted).Reads ctx (d.octets ++ rest) d.text rest :=
    d.reads .digit hrest
  rw [digits_apply, hrun, hspan.done]
  rfl

theorem run_digits_reads {ctx : Context} {limit : Nat} {wanted : Element} {rest : Bytes}
    (d : Run Octet.isDigit) (hd : decimal d.octets ≤ limit) (hrest : ctx.Stops Octet.isDigit rest) :
    (digits limit wanted).Reads ctx (d.octets ++ rest) (decimal d.octets) rest := by
  refine .of_done ?_
  exact (digits_eq d hrest).trans (if_neg (Nat.not_lt.mpr hd))

end Rule

/-- The number that digits stand for. -/
def Written.Run.value (d : Run Octet.isDigit) : Nat := Nat.ofDigits 10 (Rule.places d.octets)

theorem Written.Run.value_eq (d : Run Octet.isDigit) : d.value = Rule.decimal d.octets := by
  symm
  exact Rule.decimal_eq_ofDigits d.octets

/-- The digits of a number as a run. -/
def Written.Run.numeral (zeros n : Nat) : Run Octet.isDigit :=
  ⟨Bytes.numeral zeros n, Rule.numeral_ne_nil zeros n, Rule.numeral_digits zeros n⟩

namespace Rule

theorem digits_reads {ctx : Context} {limit zeros n : Nat} {wanted : Element} {rest : Bytes}
    (hn : n ≤ limit) (hrest : ctx.Stops Octet.isDigit rest) :
    (digits limit wanted).Reads ctx (Bytes.numeral zeros n ++ rest) n rest := by
  have hvalue : decimal (Run.numeral zeros n).octets = n := decimal_numeral zeros n
  exact (run_digits_reads (.numeral zeros n) (Nat.le_trans (Nat.le_of_eq hvalue) hn) hrest).of_eq hvalue

/-- Only the digits of zero begin with a zero. -/
theorem head_toDigits {n : Nat} (h : 0 < n) : ∃ c cs, Nat.toDigits 10 n = c :: cs ∧ c ≠ '0' := by
  induction n using Nat.strongRecOn with
  | ind n ih =>
    by_cases hn : n < 10
    · have hdigit : ∀ n < 10, 0 < n → Nat.digitChar n ≠ '0' := by decide
      exact ⟨_, _, Nat.toDigits_of_lt_base hn, hdigit n hn h⟩
    · obtain ⟨c, cs, hcs, hc⟩ := ih (n / 10) (by omega) (by omega)
      rw [Nat.toDigits_of_base_le (by decide) (by omega), hcs]
      exact ⟨c, _, List.cons_append, hc⟩

/-- A number other than zero does not begin with one. -/
theorem head_numeral {n : Nat} (h : 0 < n) : (Bytes.numeral 0 n).head? ≠ some 0x30 := by
  obtain ⟨c, cs, hcs, hc⟩ := head_toDigits h
  have hmem : c ∈ Nat.toDigits 10 n := hcs ▸ List.mem_cons_self
  obtain ⟨-, -, hvalue⟩ := toNat_digit (Nat.isDigit_of_mem_toDigits (by decide) (by decide) hmem)
  rw [Bytes.numeral_eq_ofText, hcs, Bytes.ofText, String.toList_ofList, List.replicate_zero,
    List.nil_append, List.map_cons, List.head?_cons]
  intro hhead
  rw [Option.some.inj hhead] at hvalue
  have hnat : '0'.toNat = c.toNat := hvalue
  exact hc (Char.toNat_inj.mp hnat.symm)

end Rule

namespace Written

/-- A number, perhaps with zeros in front of it. -/
structure Number (limit : Nat) where
  zeros : Nat
  value : Nat
  bounded : value ≤ limit

def Number.octets {limit : Nat} (n : Number limit) : Bytes := Bytes.numeral n.zeros n.value

/-- A number other than zero, without zeros in front of it. -/
structure NonZero where
  value : Nat
  positive : 0 < value
  bounded : value ≤ Rule.maxNumber

def NonZero.octets (n : NonZero) : Bytes := Bytes.numeral 0 n.value

end Written

namespace Rule

variable {ctx : Context} {rest : Bytes}

theorem number_reads {limit : Nat} {wanted : Element} (n : Number limit)
    (hrest : ctx.Stops Octet.isDigit rest) :
    (digits limit wanted).Reads ctx (n.octets ++ rest) n.value rest := digits_reads n.bounded hrest

/-- A number other than zero has no zero in front. -/
theorem nonZeroNumber_eq (d : Run Octet.isDigit) (rest : Bytes) :
    nonZeroNumber ctx (d.octets ++ rest) =
      if d.octets.head? = some 0x30 then .failed (.miss (.expected .nonZeroNumber) 0)
      else digits maxNumber .nonZeroNumber ctx (d.octets ++ rest) := by
  obtain ⟨b, bs, hbs⟩ := List.exists_cons_of_ne_nil d.some
  have hdigit : Octet.isDigit b = true := d.members b (by rw [hbs]; exact List.mem_cons_self)
  rw [hbs, List.cons_append, nonZeroNumber, peek_bind, List.head?_cons]
  by_cases hzero : b = 0x30
  · subst hzero
    rfl
  · simp only [hdigit, bne_iff_ne.mpr hzero, Bool.and_self, if_true, Option.some.injEq, hzero,
      if_false]

theorem nonZeroNumber_reads (n : NonZero) (hrest : ctx.Stops Octet.isDigit rest) :
    nonZeroNumber.Reads ctx (n.octets ++ rest) n.value rest := by
  have hzero : (Run.numeral 0 n.value).octets.head? ≠ some 0x30 := head_numeral n.positive
  have hnumber : nonZeroNumber ctx ((Run.numeral 0 n.value).octets ++ rest) = _ :=
    nonZeroNumber_eq _ rest
  rw [if_neg hzero] at hnumber
  exact .of_done (hnumber.trans (digits_reads n.bounded hrest).done)

end Rule

end Imap
