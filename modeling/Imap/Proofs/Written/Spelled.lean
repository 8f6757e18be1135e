import Imap.Proofs.Written.Token
import Mathlib.Data.List.Induction

namespace Imap.Rule

variable {α β : Type}

/-- Whenever the rule is done, `P` holds of the value and the octets that it used. -/
def Takes (r : Rule α) (P : α → Bytes → Prop) : Prop :=
  ∀ ⦃ctx bs a used⦄, r ctx bs = .done a used →
    ∃ span rest, bs = span ++ rest ∧ used = span.length ∧ P a span

namespace Takes

variable {r other : Rule α} {next : α → Rule β} {P Q : α → Bytes → Prop} {S : β → Bytes → Prop}

theorem mono (h : r.Takes P) (hq : ∀ a span, P a span → Q a span) : r.Takes Q := by
  intro ctx bs a used hdone
  obtain ⟨span, rest, hbs, hused, hspan⟩ := h hdone
  exact ⟨span, rest, hbs, hused, hq a span hspan⟩

/-- What is left tells what was used. -/
theorem of_reads (h : r.Takes P) {ctx : Context} {octets rest : Bytes} {a : α}
    (hread : r.Reads ctx (octets ++ rest) a rest) : P a octets := by
  obtain ⟨span, left, hsplit, hlength, hspan⟩ := h hread.done
  exact (List.append_inj_left hsplit hlength) ▸ hspan

theorem pure {a : α} (h : P a []) : Takes (Pure.pure a : Rule α) P := by
  intro ctx bs a' used hdone
  cases hdone
  exact ⟨[], bs, rfl, rfl, h⟩

theorem fail {why : Failure} : Takes (Rule.fail why : Rule α) P := nofun

theorem ofExcept {x : Except Refusal α} (h : ∀ a, x = .ok a → P a []) :
    (Rule.ofExcept x).Takes P := by
  cases x with
  | ok a => exact pure (h a rfl)
  | error why => exact fail

/-- What the next rule uses stands behind what the first one did. -/
theorem bind (hr : r.Takes P)
    (hn : ∀ a front, P a front → (next a).Takes fun b back => S b (front ++ back)) :
    (r >>= next).Takes S := by
  intro ctx bs b used hdone
  obtain ⟨a, n, m, ha, hb, rfl⟩ := bind_done hdone
  obtain ⟨front, rest, rfl, rfl, hfront⟩ := hr ha
  rw [List.drop_left] at hb
  obtain ⟨back, rest, rfl, rfl, hback⟩ := hn a front hfront hb
  exact ⟨front ++ back, rest, (List.append_assoc ..).symm, List.length_append.symm, hback⟩

theorem refine {judge : α → Except Failure β} (hr : r.Takes P)
    (hj : ∀ a b span, P a span → judge a = .ok b → S b span) : (r.refine judge).Takes S := by
  intro ctx bs b used hdone
  obtain ⟨a, ha, hjudge⟩ := refine_done hdone
  obtain ⟨span, rest, hbs, hused, hspan⟩ := hr ha
  exact ⟨span, rest, hbs, hused, hj a b span hspan hjudge⟩

theorem orElse (hr : r.Takes P) (ho : other.Takes P) : (r.orElse other).Takes P := by
  intro ctx bs a used hdone
  rcases orElse_done hdone with ha | ⟨-, ha⟩
  · exact hr ha
  · exact ho ha

/-- What holds of every value holds of it whatever octets were used. -/
theorem of_gives {S : α → Prop} (hfits : r.Fits) (h : ∀ a, r.Gives a → S a) :
    r.Takes fun a _ => S a := by
  intro ctx bs a used hdone
  obtain ⟨span, hbs, hspan⟩ := Reads.of_fits hfits hdone
  rw [hdone] at hspan
  cases hspan
  exact ⟨span, _, hbs, rfl, h a ⟨_, _, _, hdone⟩⟩

theorem map {f : α → β} (hr : r.Takes P) (h : ∀ a span, P a span → S (f a) span) :
    (f <$> r).Takes S := by
  apply hr.bind
  intro a front ha
  exact pure (by rw [List.append_nil]; exact h a front ha)

theorem discard (h : r.Takes P) :
    (Functor.discard r).Takes fun _ span => ∃ a, P a span := by
  apply h.map
  intro a _ ha
  exact ⟨a, ha⟩

theorem alt (hr : r.Takes P) (ho : other.Takes P) : (r.alt other).Takes P := by
  intro ctx bs a used hdone
  rcases alt_done hdone with ha | ⟨-, ha⟩
  · exact hr ha
  · exact ho ha

/-- A mark takes itself, if it is no letter. -/
theorem octet {fixed : String} {cause : Cause} {w : UInt8} (h : Bytes.ofText fixed = [w])
    (hw : Octet.isLetter w = false) : (word fixed cause).Takes fun _ span => span = [w] := by
  intro ctx bs u used hdone
  obtain ⟨rfl, rest, rfl⟩ := octet_ahead h hw hdone
  exact ⟨[w], rest, rfl, rfl, rfl⟩

theorem opt (hr : r.Takes P) : r.opt.Takes fun found span =>
    (∃ a, found = some a ∧ P a span) ∨ (found = none ∧ span = []) := by
  intro ctx bs found used hdone
  rcases opt_done hdone with ⟨a, ha, rfl⟩ | ⟨-, rfl, rfl⟩
  · obtain ⟨span, rest, hbs, hused, hspan⟩ := hr ha
    exact ⟨span, rest, hbs, hused, .inl ⟨a, rfl, hspan⟩⟩
  · exact ⟨[], bs, rfl, rfl, .inr ⟨rfl, rfl⟩⟩

theorem skip {fixed : String} {w : UInt8} (h : Bytes.ofText fixed = [w])
    (hw : Octet.isLetter w = false) :
    (skip? fixed).Takes fun found span => span = if found then [w] else [] := by
  refine (octet h hw).opt.map ?_
  rintro found span (⟨u, rfl, rfl⟩ | ⟨rfl, rfl⟩) <;> rfl

theorem span {isMember : UInt8 → Bool} {wanted : Element} :
    (Rule.span isMember wanted).Takes fun found span =>
      ∃ run : Written.Run isMember, found = run.text ∧ span = run.octets := by
  intro ctx bs found used hdone
  obtain ⟨rfl, rfl⟩ := span_done hdone
  obtain ⟨b, rest, rfl, hb⟩ := span_head hdone
  have hne : (b :: rest).takeWhile isMember ≠ [] := by
    rw [List.takeWhile_cons_of_pos hb]
    exact List.cons_ne_nil _ _
  exact ⟨_, _, List.takeWhile_append_dropWhile.symm, rfl,
    ⟨_, hne, List.all_eq_true.mp List.all_takeWhile⟩, rfl, rfl⟩

section Lists

variable {element : Rule α} {octets : α → Bytes}

/-- The separators that were read are those in front of the elements that were. -/
theorem behind (separator : UInt8) (he : element.Takes fun a span => span = octets a) :
    (Rule.behind separator element).Takes fun as span =>
      span = Bytes.behind separator (as.map octets) := by
  intro ctx bs as used hdone
  change behind.go separator element ctx bs = _ at hdone
  induction bs using behind.go.induct separator element ctx generalizing as used with
  | case1 hc | case2 hc =>
    rw [behind.go] at hdone
    split at hdone <;> cases hdone <;> exact ⟨[], [], rfl, rfl, rfl⟩
  | case3 bs a n ha ih =>
    rw [behind_done ha] at hdone
    obtain ⟨as, m, hm, rfl, rfl⟩ := map_shift_done hdone
    obtain ⟨front, mid, rfl, rfl, rfl⟩ := he ha
    rw [List.drop_left] at hm ih
    obtain ⟨back, rest, rfl, rfl, rfl⟩ := ih hm
    refine ⟨Bytes.behind separator ((a :: as).map octets), rest, ?_, ?_, rfl⟩
    · rw [List.map_cons, Bytes.behind_cons, List.cons_append, List.append_assoc]
    · rw [List.map_cons, Bytes.behind_cons, List.length_cons, List.length_append]
      omega
  | case4 bs cause position hm =>
    rw [behind_miss hm] at hdone
    cases hdone
    exact ⟨[], _, rfl, rfl, rfl⟩
  | case5 bs why hm hf =>
    rw [behind_failed (fun _ _ => hm _ _) hf] at hdone
    cases hdone
  | case6 b bs hb =>
    rw [behind_other bs hb] at hdone
    cases hdone
    exact ⟨[], _, rfl, rfl, rfl⟩

theorem separated (separator : UInt8) (he : element.Takes fun a span => span = octets a) :
    (Rule.separated separator element).Takes fun as span =>
      span = Bytes.joined separator (as.map octets) := by
  refine he.bind fun a front hfront => ?_
  refine (he.behind separator).bind fun as back hback => ?_
  refine .pure ?_
  rw [hfront, hback, List.append_nil]
  rfl

end Lists

end Takes

theorem numeral_append {n d : Nat} (hn : 0 < n) (hd : d < 10) :
    Bytes.numeral 0 (10 * n + d) = Bytes.numeral 0 n ++ Bytes.numeral 0 d := by
  simp only [Bytes.numeral_eq_ofText, List.replicate_zero, List.nil_append, Bytes.ofText,
    String.toList_ofList]
  rw [← Nat.toDigits_append_toDigits (by decide) hn hd, List.map_append]

theorem numeral_digit {d : UInt8} (h : Octet.isDigit d = true) :
    Bytes.numeral 0 (d.toNat - 0x30) = [d] := by
  have hdigit : ∀ n < 10, Bytes.numeral 0 n = [UInt8.ofNat (n + 0x30)] := by decide
  obtain ⟨hlow, hhigh⟩ := digit_bounds h
  rw [hdigit _ (by omega), Nat.sub_add_cancel hlow, UInt8.ofNat_toNat]

/-- Digits that do not begin with a zero are those that their number is written with. -/
theorem numeral_decimal {ds : Bytes} (hne : ds ≠ []) (hzero : ds.head? ≠ some 0x30)
    (hdigits : ∀ d ∈ ds, Octet.isDigit d = true) : Bytes.numeral 0 (decimal ds) = ds := by
  induction ds using List.reverseRecOn with
  | nil => exact absurd rfl hne
  | append_singleton ds d ih =>
    obtain ⟨hfront, hlast⟩ := List.forall_mem_append.mp hdigits
    have hdigit : Octet.isDigit d = true := hlast d List.mem_cons_self
    cases ds with
    | nil =>
      rw [List.nil_append, decimal, List.foldl_cons, List.foldl_nil, Nat.mul_zero, Nat.zero_add]
      exact numeral_digit hdigit
    | cons first ds =>
      have hds := ih (List.cons_ne_nil _ _) hzero hfront
      -- The digits before the last are not all zeros: their number would be written as one.
      have hpos : 0 < decimal (first :: ds) := by
        refine Nat.pos_of_ne_zero fun h => hzero ?_
        rw [← hds, h]
        rfl
      have hlt : d.toNat - 0x30 < 10 := by
        have := digit_bounds hdigit
        omega
      rw [decimal_append, numeral_append hpos hlt, hds, numeral_digit hdigit]

/-- Digits are those of their number, behind so many zeros. -/
theorem exists_numeral {ds : Bytes} (hne : ds ≠ []) (hdigits : ∀ d ∈ ds, Octet.isDigit d = true) :
    ∃ zeros, ds = Bytes.numeral zeros (decimal ds) := by
  have hvalue := decimal_dropZeros ds
  have hhead := List.head?_dropWhile_not (fun b : UInt8 => decide (b = 0x30)) ds
  have hmem := List.dropWhile_subset (l := ds) fun b : UInt8 => decide (b = 0x30)
  have hzeros : ds.takeWhile (· = 0x30) = List.replicate (ds.takeWhile (· = 0x30)).length 0x30 :=
    List.eq_replicate_of_mem fun b hb => of_decide_eq_true (List.all_eq_true.mp List.all_takeWhile b hb)
  have hsplit : ds = ds.takeWhile (· = 0x30) ++ ds.dropWhile (· = 0x30) :=
    List.takeWhile_append_dropWhile.symm
  cases hrest : ds.dropWhile (· = 0x30) with
  | nil =>
    -- Of nothing but zeros the last one is the digit.
    rw [hrest] at hvalue hsplit
    rw [List.append_nil] at hsplit
    rw [← hsplit] at hzeros
    obtain ⟨n, hn⟩ := Nat.exists_eq_add_one_of_ne_zero (mt List.length_eq_zero_iff.mp hne)
    refine ⟨n, ?_⟩
    rw [← hvalue, hzeros, hn, List.replicate_succ']
    rfl
  | cons d rest =>
    rw [hrest] at hvalue hhead hmem hsplit
    have hzero : (d :: rest).head? ≠ some 0x30 := fun h =>
      of_decide_eq_false hhead (Option.some.inj h)
    have hnumeral := numeral_decimal (List.cons_ne_nil d rest) hzero fun b hb => hdigits b (hmem hb)
    refine ⟨(ds.takeWhile (· = 0x30)).length, ?_⟩
    calc ds = ds.takeWhile (· = 0x30) ++ d :: rest := hsplit
      _ = List.replicate (ds.takeWhile (· = 0x30)).length 0x30 ++
          Bytes.numeral 0 (decimal (d :: rest)) := by rw [← hzeros, hnumeral]
      _ = Bytes.numeral (ds.takeWhile (· = 0x30)).length (decimal ds) := by rw [hvalue]; rfl

/-- Digits that do not begin with a zero are not worth zero. -/
theorem decimal_pos {ds : Bytes} (hne : ds ≠ []) (hzero : ds.head? ≠ some 0x30)
    (hdigits : ∀ d ∈ ds, Octet.isDigit d = true) : 0 < decimal ds := by
  have hnumeral := numeral_decimal hne hzero hdigits
  refine Nat.pos_of_ne_zero fun h => hzero ?_
  rw [← hnumeral, h]
  rfl

theorem digits_takes (limit : Nat) (wanted : Element) : (digits limit wanted).Takes fun n span =>
    n = decimal span ∧ span ≠ [] ∧ ∀ d ∈ span, Octet.isDigit d = true := by
  intro ctx bs n used hdone
  have hrest : bs = bs.takeWhile Octet.isDigit ++ bs.dropWhile Octet.isDigit :=
    List.takeWhile_append_dropWhile.symm
  simp only [digits_apply] at hdone
  split at hdone
  · cases hdone
  · cases hspan : span Octet.isDigit wanted ctx bs with
    | failed why =>
      rw [hspan] at hdone
      cases hdone
    | done text m =>
      rw [hspan] at hdone
      cases hdone
      obtain ⟨b, tail, hcons, hb⟩ := span_head hspan
      refine ⟨_, _, hrest, (span_done hspan).2, rfl, ?_, List.all_eq_true.mp List.all_takeWhile⟩
      rw [hcons, List.takeWhile_cons_of_pos hb]
      exact List.cons_ne_nil _ _

theorem digits_le {limit : Nat} {wanted : Element} {ctx : Context} {bs : Bytes} {n used : Nat}
    (h : digits limit wanted ctx bs = .done n used) : n ≤ limit := by
  rw [digits_apply] at h
  split at h
  · cases h
  · next hlimit =>
    cases ho : span Octet.isDigit wanted ctx bs with
    | done a used =>
      rw [ho] at h
      cases h
      exact Nat.le_of_not_lt hlimit
    | failed why =>
      rw [ho] at h
      cases h

theorem number_takes (limit : Nat) (wanted : Element) : (digits limit wanted).Takes fun n span =>
    n ≤ limit ∧ ∃ zeros, span = Bytes.numeral zeros n := by
  intro ctx bs n used hdone
  have hlimit := digits_le hdone
  obtain ⟨span, rest, rfl, rfl, rfl, hne, hdigits⟩ := digits_takes limit wanted hdone
  exact ⟨span, rest, rfl, rfl, hlimit, exists_numeral hne hdigits⟩

/-- A number other than zero was written without zeros in front of it. -/
theorem nonZeroNumber_takes : nonZeroNumber.Takes fun n span => span = Bytes.numeral 0 n := by
  intro ctx bs n used hdone
  obtain ⟨ahead, k, m, hpeek, hnext, rfl⟩ := bind_done hdone
  cases bs with
  | nil =>
    simp only [peek] at hpeek
    split at hpeek <;> cases hpeek
    cases hnext
  | cons b bs =>
    cases hpeek
    simp only [List.drop_zero] at hnext
    split at hnext
    · next h =>
      obtain ⟨span, rest, hbs, rfl, rfl, hne, hdigits⟩ := digits_takes _ _ hnext
      -- The octet that was seen ahead is the first of the digits.
      have hzero : span.head? ≠ some 0x30 := by
        obtain ⟨d, ds, rfl⟩ := List.exists_cons_of_ne_nil hne
        cases hbs
        simp only [Bool.and_eq_true, bne_iff_ne] at h
        exact fun hd => h.2 (Option.some.inj hd)
      exact ⟨span, rest, hbs, Nat.zero_add _, (numeral_decimal hne hzero hdigits).symm⟩
    · cases hnext

end Imap.Rule
