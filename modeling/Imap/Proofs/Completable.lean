import Imap.Proofs.Numbers
import Imap.Proofs.Written.Base64
import Imap.Proofs.Written.Strings

namespace Imap

open Written

namespace Rule

/-- While more may come, the octets are not enough to decide. -/
def Short {α : Type} (r : Rule α) (d : Dialect) (bs : Bytes) : Prop :=
  ∃ missing needed position, r ⟨false, d⟩ bs = .failed (.short missing needed position)

/-- Behind these octets some others make the rule succeed. -/
def Completed {α : Type} (r : Rule α) (d : Dialect) (bs : Bytes) : Prop :=
  ∃ ext a used, r ⟨false, d⟩ (bs ++ ext) = .done a used

/-- Whatever the rule is short on can be completed. -/
def Completable {α : Type} (r : Rule α) : Prop := ∀ ⦃d bs⦄, r.Short d bs → r.Completed d bs

section

variable {α β : Type} {r : Rule α} {next : α → Rule β} {P : α → Bytes → Prop} {d : Dialect}
  {bs rest : Bytes}

theorem Completed.of_reads {a : α} (ext : Bytes) (hread : r.Reads ⟨false, d⟩ (bs ++ ext) a rest) :
    r.Completed d bs := by
  obtain ⟨span, -, hdone⟩ := hread
  exact ⟨ext, a, _, hdone⟩

/-- Part of what the rule reads is completed by what is left of it. -/
theorem Completed.of_part {octets : Bytes} {a : α} (hpart : bs <+: octets)
    (hread : r.Reads ⟨false, d⟩ (octets ++ rest) a rest) : r.Completed d bs := by
  obtain ⟨more, rfl⟩ := hpart
  rw [List.append_assoc] at hread
  exact .of_reads _ hread

/-- A rule that looks at other octets is short and completed where the other one is. -/
theorem Completed.of_shift {other : Rule β} (front : Bytes) {f : β → α} {n : Nat}
    (heq : ∀ bs, r ⟨false, d⟩ (front ++ bs) = ((other ⟨false, d⟩ bs).map f).shift n)
    (hother : other.Short d bs → other.Completed d bs) (h : r.Short d (front ++ bs)) :
    r.Completed d (front ++ bs) := by
  obtain ⟨missing, needed, position, hshort⟩ := h
  rw [heq] at hshort
  obtain ⟨why, hwhy, hshift⟩ := map_shift_failed hshort
  have hothershort : other.Short d bs := by
    cases why with
    | short missing needed position => exact ⟨missing, needed, position, hwhy⟩
    | _ => cases hshift
  obtain ⟨ext, a, used, hdone⟩ := hother hothershort
  refine ⟨ext, f a, n + used, ?_⟩
  rw [List.append_assoc, heq, hdone]
  rfl

theorem Short.bind (ht : r.Takes P) (h : (r >>= next).Short d bs) :
    r.Short d bs ∨ ∃ a front back, bs = front ++ back ∧ P a front ∧ (next a).Short d back := by
  obtain ⟨missing, needed, position, hshort⟩ := h
  rcases bind_failed hshort with hfirst | ⟨a, n, why, ha, hnext, hshift⟩
  · exact .inl ⟨missing, needed, position, hfirst⟩
  · obtain ⟨front, back, rfl, rfl, hfront⟩ := ht ha
    rw [List.drop_left] at hnext
    cases why with
    | short missing needed position => exact .inr ⟨a, front, back, rfl, hfront, _, _, _, hnext⟩
    | _ => cases hshift

theorem word_short {fixed : String} {cause : Cause} (h : (word fixed cause).Short d bs) :
    bs.map Octet.lower <+: ((Bytes.ofText fixed).map Octet.lower).dropLast := by
  obtain ⟨missing, needed, position, hshort⟩ := h
  simp only [word] at hshort
  split at hshort
  · cases hshort
  · next hcut => exact compareWord_cut hcut
  · cases hshort

theorem octet_short {fixed : String} {cause : Cause} {w : UInt8} (h : Bytes.ofText fixed = [w])
    (hshort : (word fixed cause).Short d bs) : bs = [] := by
  have hpart := word_short hshort
  rw [h] at hpart
  exact List.map_eq_nil_iff.mp (List.prefix_nil.mp hpart)

theorem Short.of_discard (h : (discard r).Short d bs) : r.Short d bs := by
  obtain ⟨missing, needed, position, hshort⟩ := h
  rcases bind_failed hshort with hfirst | ⟨a, n, why, -, hnext, hshift⟩
  · exact ⟨missing, needed, position, hfirst⟩
  · cases hnext

theorem skip_short {fixed : String} {w : UInt8} (h : Bytes.ofText fixed = [w])
    (hshort : (skip? fixed).Short d bs) : bs = [] := by
  obtain ⟨missing, needed, position, hshort⟩ := hshort
  rcases bind_failed hshort with hfirst | ⟨a, n, why, -, hnext, hshift⟩
  · exact octet_short h ⟨_, _, _, opt_failed hfirst⟩
  · cases hnext

/-- Where this octet stands ahead the two rules are one. -/
def SameBehind (r other : Rule α) (d : Dialect) (b : UInt8) : Prop :=
  ∀ more, r ⟨false, d⟩ (b :: more) = other ⟨false, d⟩ (b :: more)

namespace SameBehind

variable {other : Rule α} {b : UInt8}

theorem short (h : SameBehind r other d b) : r.Short d (b :: bs) ↔ other.Short d (b :: bs) := by
  rw [Short, Short, h]

theorem completed (h : SameBehind r other d b) :
    r.Completed d (b :: bs) ↔ other.Completed d (b :: bs) := by
  simp only [Completed, List.cons_append, h _]

end SameBehind

end

section

variable {d : Dialect} {bs : Bytes} {isMember : UInt8 → Bool} {wanted : Element}

theorem token_short {length : Bytes → Nat} {mayBeEmpty : Bool} {missing : Shortage} {cause : Cause}
    (h : (token length mayBeEmpty missing cause).Short d bs) : bs.drop (length bs) = [] := by
  obtain ⟨missing, needed, position, hshort⟩ := h
  simp only [token, Bool.not_false, Bool.true_and] at hshort
  split at hshort
  · next hnil => exact List.isEmpty_iff.mp hnil
  · split at hshort
    · cases hshort
    · obtain ⟨refusal, -, hwhy⟩ := Outcome.ofExcept_failed hshort
      cases hwhy

theorem span_short (h : (span isMember wanted).Short d bs) : ∀ b ∈ bs, isMember b = true := by
  have hlength : bs.length ≤ (bs.takeWhile isMember).length := List.drop_eq_nil_iff.mp (token_short h)
  have hall : bs.takeWhile isMember = bs := (List.takeWhile_prefix isMember).eq_of_length_le hlength
  exact List.takeWhile_eq_self_iff.mp hall

/-- One more member, and an octet that is none. -/
theorem span_completable {m s : UInt8} (ascii : Octet.Ascii isMember) (hm : isMember m = true)
    (hs : isMember s = false) : (span isMember wanted).Completable := by
  intro d bs hshort
  have hmembers : ∀ b ∈ bs ++ [m], isMember b = true :=
    List.forall_mem_append.mpr ⟨span_short hshort, List.forall_mem_singleton.mpr hm⟩
  have hsome : bs ++ [m] ≠ [] := List.append_ne_nil_of_right_ne_nil bs (List.cons_ne_nil m [])
  have hstop : Context.Stops ⟨false, d⟩ isMember [s] := hs
  exact .of_part (List.prefix_append bs [m]) (.span ascii hsome hmembers hstop)

end

section

variable {d : Dialect} {bs : Bytes} {limit : Nat} {wanted : Element}

theorem digits_short (h : (digits limit wanted).Short d bs) :
    (∀ b ∈ bs, Octet.isDigit b = true) ∧ decimal bs ≤ limit := by
  obtain ⟨missing, needed, position, hshort⟩ := h
  rw [digits_apply] at hshort
  split at hshort
  · cases hshort
  · next hlimit =>
    have hspan : (span Octet.isDigit wanted).Short d bs := by
      cases ho : span Octet.isDigit wanted ⟨false, d⟩ bs with
      | done a used =>
        rw [ho] at hshort
        cases hshort
      | failed why =>
        rw [ho] at hshort
        cases hshort
        exact ⟨missing, needed, position, ho⟩
    have hmembers := span_short hspan
    rw [List.takeWhile_eq_self_iff.mpr hmembers] at hlimit
    exact ⟨hmembers, Nat.le_of_not_lt hlimit⟩

theorem digits_part (h : (digits limit wanted).Short d bs) :
    ∃ zeros n, n ≤ limit ∧ bs <+: Bytes.numeral zeros n := by
  obtain ⟨hdigits, hlimit⟩ := digits_short h
  by_cases hnil : bs = []
  · exact ⟨0, 0, Nat.zero_le limit, hnil ▸ List.nil_prefix⟩
  · obtain ⟨zeros, hbs⟩ := exists_numeral hnil hdigits
    exact ⟨zeros, decimal bs, hlimit, hbs ▸ List.prefix_refl _⟩

theorem digits_completable : (digits limit wanted).Completable := by
  intro d bs hshort
  obtain ⟨zeros, n, hlimit, hpart⟩ := digits_part hshort
  have hstop : Context.Stops ⟨false, d⟩ Octet.isDigit [0x20] := rfl
  exact .of_part hpart (digits_reads hlimit hstop)

theorem nonZeroNumber_completable : nonZeroNumber.Completable := by
  intro d bs hshort
  cases bs with
  | nil =>
    have hstop : Context.Stops ⟨false, d⟩ Octet.isDigit [0x20] := rfl
    exact .of_part List.nil_prefix (nonZeroNumber_reads ⟨1, by decide, by decide⟩ hstop)
  | cons b bs =>
    by_cases hdigit : (Octet.isDigit b && b != 0x30) = true
    · have hsame : SameBehind nonZeroNumber (digits maxNumber .nonZeroNumber) d b := by
        intro more
        rw [nonZeroNumber, peek_bind]
        simp only [hdigit, if_true]
      exact hsame.completed.mpr (digits_completable (hsame.short.mp hshort))
    · obtain ⟨missing, needed, position, hshort⟩ := hshort
      rw [nonZeroNumber, peek_bind] at hshort
      simp only [hdigit] at hshort
      cases hshort

end

theorem quotedTail_completable : Completable quotedTail := by
  intro d bs
  induction bs using quotedTail.induct with
  | case1 => exact fun _ => ⟨[0x22], [], 1, rfl⟩
  | case2 bs => exact fun _ => ⟨[], [], 1, quotedTail_close _ _⟩
  -- Behind a backslash first the octet that it escapes.
  | case3 => exact fun _ => ⟨[0x22, 0x22], [0x22], 3, rfl⟩
  | case4 c bs hc _ ih => exact .of_shift [0x5C, c] (fun bs => quotedTail_escape _ bs hc) ih
  | case5 c bs hc =>
    rintro ⟨missing, needed, position, hshort⟩
    rw [quotedTail_badEscape _ _ hc] at hshort
    cases hshort
  | case6 b bs hquote hslash hchar ih =>
    exact .of_shift [b] (fun bs => quotedTail_char _ bs hquote hslash hchar) ih
  | case7 b bs hquote hslash hchar =>
    rintro ⟨missing, needed, position, hshort⟩
    rw [quotedTail_badChar _ _ hquote hslash hchar] at hshort
    cases hshort

theorem quoted_completable : quoted.Completable := by
  intro d bs hshort
  rcases hshort.bind (Takes.octet rfl rfl) with hfirst | ⟨_, _, back, rfl, rfl, htail⟩
  · rw [octet_short rfl hfirst]
    have hempty : quoted.Reads ⟨false, d⟩ (quote [] ++ []) [] [] := quote_reads (List.forall_mem_nil _)
    exact .of_part List.nil_prefix hempty
  · obtain ⟨ext, content, used, hdone⟩ := quotedTail_completable htail
    exact .of_reads ext ((Reads.octet rfl).bind (.of_fits Steady.quotedTail.fits hdone))

section

variable {ctx : Context} {d : Dialect} {bs rest content : Bytes} {size : Nat}

theorem lineEnd_takes : lineEnd.Takes fun _ span => ∃ e : LineEnd, span = e.octets := by
  intro ctx bs _ used hdone
  obtain ⟨rest, ⟨rfl, rfl⟩ | ⟨rfl, rfl⟩⟩ := lineEnd_done hdone
  · exact ⟨[0x0A], rest, rfl, rfl, .feed, rfl⟩
  · exact ⟨[0x0D, 0x0A], rest, rfl, rfl, .returnFeed, rfl⟩

theorem lineEnd_short (h : lineEnd.Short d bs) : ∃ e : LineEnd, bs <+: e.octets := by
  cases bs with
  | nil => exact ⟨.feed, List.nil_prefix⟩
  | cons b bs =>
    obtain ⟨missing, needed, position, hshort⟩ := h
    by_cases hb : b = 0x0A
    · subst hb
      rw [lineEnd_feed] at hshort
      cases hshort
    · rw [lineEnd_other _ _ hb] at hshort
      have hpart : Octet.lower b :: bs.map Octet.lower <+: [0x0D] := word_short ⟨_, _, _, hshort⟩
      obtain ⟨hreturn, hnil⟩ := List.cons_prefix_cons.mp hpart
      rw [List.map_eq_nil_iff.mp (List.prefix_nil.mp hnil), (Octet.lower_eq_iff (by decide)).mp hreturn]
      exact ⟨.returnFeed, [0x0A], rfl⟩

theorem literalBody_short (h : (literalBody size).Short d bs) : bs.length < size := by
  obtain ⟨missing, needed, position, hshort⟩ := h
  simp only [literalBody, List.length_take, Bool.false_eq_true, if_false] at hshort
  split at hshort
  · omega
  · split at hshort <;> cases hshort

theorem literalBody_read (h : (literalBody size).Reads ctx bs content rest) :
    content = bs.take size ∧ 0 ∉ content := by
  obtain ⟨span, rfl, hdone⟩ := h
  simp only [literalBody] at hdone
  split at hdone
  · split at hdone <;> cases hdone
  · split at hdone
    · cases hdone
    · next hnul =>
      cases hdone
      exact ⟨rfl, fun h => hnul (List.contains_iff_mem.mpr h)⟩

/-- Part of an announcement, or all of it and not all of the body. -/
def Begun (announcement : Bytes) (size : Nat) (bs : Bytes) : Prop :=
  bs <+: announcement ∨ ∃ content, bs = announcement ++ content ∧ content.length < size

theorem Begun.behind {announcement : Bytes} (front : Bytes) (h : Begun announcement size bs) :
    Begun (front ++ announcement) size (front ++ bs) := by
  rcases h with hpart | ⟨content, rfl, hlength⟩
  · exact .inl ((List.prefix_append_right_inj front).mpr hpart)
  · exact .inr ⟨content, (List.append_assoc ..).symm, hlength⟩

theorem Begun.nil {announcement : Bytes} : Begun announcement size [] := .inl List.nil_prefix

theorem braced_short
    (h : Short (do expect "\x7d" .literalEnd; lineEnd; literalBody size) d bs) :
    ∃ e : LineEnd, Begun (0x7D :: e.octets) size bs := by
  rcases h.bind (Takes.octet rfl rfl) with hbrace | ⟨_, _, back, rfl, rfl, hbehind⟩
  · rw [octet_short rfl hbrace]
    exact ⟨.feed, .nil⟩
  rcases hbehind.bind lineEnd_takes with hend | ⟨_, _, body, rfl, ⟨e, rfl⟩, hbody⟩
  · obtain ⟨e, hpart⟩ := lineEnd_short hend
    exact ⟨e, .behind [0x7D] (.inl hpart)⟩
  · exact ⟨e, .behind [0x7D] (.inr ⟨body, rfl, literalBody_short hbody⟩)⟩

theorem marked_short
    (h : Short (do
      if (← dialect).plusLiterals then discard (skip? "+")
      expect "\x7d" .literalEnd
      lineEnd
      literalBody size) d bs) :
    ∃ plus e, (plus = true → d.plusLiterals = true) ∧
      Begun ((if plus then [0x2B] else []) ++ 0x7D :: LineEnd.octets e) size bs := by
  obtain ⟨missing, needed, position, hshort⟩ := h
  rw [dialect_bind] at hshort
  split at hshort
  · next hd =>
    rcases Short.bind (Takes.skip rfl rfl).discard ⟨_, _, _, hshort⟩ with
      hmark | ⟨_, _, back, rfl, ⟨plus, rfl⟩, hback⟩
    · rw [skip_short rfl hmark.of_discard]
      exact ⟨false, .feed, nofun, .nil⟩
    · obtain ⟨e, hbegun⟩ := braced_short hback
      exact ⟨plus, e, fun _ => hd, hbegun.behind _⟩
  · obtain ⟨e, hbegun⟩ := braced_short ⟨_, _, _, hshort⟩
    exact ⟨false, e, nofun, hbegun⟩

theorem literal_short (h : literal.Short d bs) :
    ∃ a : Announcement d, Begun a.octets a.size bs := by
  rcases h.bind (Takes.octet rfl rfl) with hopen | ⟨_, _, back, rfl, rfl, hbehind⟩
  · rw [octet_short rfl hopen]
    exact ⟨⟨0, 0, false, .feed, Nat.zero_le _, nofun⟩, .nil⟩
  rcases hbehind.bind (number_takes _ _) with hrun | ⟨size, _, mark, rfl, ⟨hlimit, zeros, rfl⟩, hmark⟩
  · obtain ⟨zeros, size, hlimit, hpart⟩ := digits_part hrun
    refine ⟨⟨zeros, size, false, .feed, hlimit, nofun⟩, .behind [0x7B] (.inl ?_)⟩
    exact (hpart.trans (List.prefix_append _ _)).trans (List.prefix_append _ _)
  · obtain ⟨plus, e, hplus, hbegun⟩ := marked_short hmark
    refine ⟨⟨zeros, size, plus, e, hlimit, hplus⟩, ?_⟩
    rw [Announcement.octets, announce, List.append_assoc]
    exact (hbegun.behind _).behind [0x7B]

/-- A literal that holds a NUL before all of it is there. -/
def Spoiled (d : Dialect) (bs : Bytes) : Prop :=
  ∃ (a : Announcement d) (content : Bytes),
    bs = a.octets ++ content ∧ content.length < a.size ∧ 0 ∈ content

theorem Spoiled.head (h : Spoiled d bs) : bs.head? = some 0x7B := by
  obtain ⟨a, content, rfl, -⟩ := h
  rfl

/-- Spaces do for what is missing of a body. -/
theorem literal_filled (a : Announcement d) (hnul : 0 ∉ content) (hlength : content.length ≤ a.size)
    (hpart : bs <+: a.octets ++ content) : literal.Completed d bs := by
  let body := content ++ List.replicate (a.size - content.length) 0x20
  have hsize : a.size = body.length := by
    rw [List.length_append, List.length_replicate, Nat.add_sub_cancel' hlength]
  have hbody : 0 ∉ body := by
    intro h
    rcases List.mem_append.mp h with h | h
    · exact hnul h
    · cases List.eq_of_mem_replicate h
  have hread : literal.Reads ⟨false, d⟩ (a.octets ++ (body ++ [])) body [] := by
    have hbehind : (literalBody a.size).Reads ⟨false, d⟩ (body ++ []) body [] := by
      rw [hsize]
      exact literalBody_reads hbody
    exact (@literal_announced ⟨false, d⟩ _ _ _ a).mpr hbehind
  rw [← List.append_assoc] at hread
  have hwhole : a.octets ++ content <+: a.octets ++ body :=
    (List.prefix_append_right_inj _).mpr (List.prefix_append _ _)
  exact .of_part (hpart.trans hwhole) hread

theorem literal_completed_iff (hshort : literal.Short d bs) :
    literal.Completed d bs ↔ ¬Spoiled d bs := by
  constructor
  · rintro ⟨ext, body, used, hdone⟩ ⟨a, content, rfl, hlength, hnul⟩
    have hfits : literal.Fits := (literal_built (m := .wary)).steady.fits
    have hread := Reads.of_fits hfits hdone
    rw [List.append_assoc, literal_announced] at hread
    obtain ⟨rfl, hnone⟩ := literalBody_read hread
    refine hnone ?_
    rw [List.take_append, List.take_of_length_le (Nat.le_of_lt hlength)]
    exact List.mem_append_left _ hnul
  · intro hsound
    obtain ⟨a, hpart | ⟨content, rfl, hlength⟩⟩ := literal_short hshort
    · refine literal_filled a List.not_mem_nil (Nat.zero_le _) ?_
      rw [List.append_nil]
      exact hpart
    · have hnul : 0 ∉ content := fun h => hsound ⟨a, content, rfl, hlength, h⟩
      exact literal_filled a hnul (Nat.le_of_lt hlength) (List.prefix_refl _)

theorem string_other {b : UInt8} (hquote : b ≠ 0x22) (hbrace : b ≠ 0x7B) (more : Bytes) :
    string ctx (b :: more) = .failed (.miss (.expected .string) 0) := by
  have hrule : string ctx (b :: more) = Rule.fail (.miss (.expected .string) 0) ctx (b :: more) := by
    refine (peek_bind b more).trans (congrFun (congrFun ?_ ctx) (b :: more))
    split
    · next h => exact absurd (Option.some.inj h) hquote
    · next h => exact absurd (Option.some.inj h) hbrace
    · rfl
  exact hrule

theorem string_completed_iff (hshort : string.Short d bs) :
    string.Completed d bs ↔ ¬Spoiled d bs := by
  cases bs with
  | nil =>
    have hempty : string.Reads ⟨false, d⟩ (quote [] ++ []) [] [] :=
      string_reads (.quoted ⟨[], List.forall_mem_nil _⟩)
    exact iff_of_true (.of_part List.nil_prefix hempty) fun h => nomatch h.head
  | cons b bs =>
    by_cases hquote : b = 0x22
    · subst hquote
      have hsame : SameBehind string quoted d 0x22 := fun more => peek_bind _ more
      have hcompleted := quoted_completable (hsame.short.mp hshort)
      exact iff_of_true (hsame.completed.mpr hcompleted) fun h => nomatch h.head
    by_cases hbrace : b = 0x7B
    · subst hbrace
      have hsame : SameBehind string literal d 0x7B := fun more => peek_bind _ more
      exact hsame.completed.trans (literal_completed_iff (hsame.short.mp hshort))
    · obtain ⟨missing, needed, position, hshort⟩ := hshort
      rw [string_other hquote hbrace] at hshort
      cases hshort

end

end Rule

namespace Base64

open Rule

variable {d : Dialect} {characters : Bytes} {padding : Nat}

/-- Padding behind fewer than two characters of a group, or more of it than the group has room for. -/
def Mispadded (bs : Bytes) : Prop :=
  ∃ (characters : Bytes) (padding : Nat), (∀ b ∈ characters, Octet.isBase64Char b = true) ∧
    bs = characters ++ List.replicate padding 0x3D ∧ 0 < padding ∧ padding ≤ 2 ∧
      (characters.length % 4 < 2 ∨ 4 < characters.length % 4 + padding)

/-- Behind padding no character counts, and at most two signs do. -/
theorem tokenLength_padded (members : ∀ b ∈ characters, Octet.isBase64Char b = true)
    (hpos : 0 < padding) (hbound : padding ≤ 2) (ext : Bytes) :
    ∃ signs, padding ≤ signs ∧ signs ≤ 2 ∧
      tokenLength (characters ++ List.replicate padding 0x3D ++ ext) = characters.length + signs := by
  let padded := List.replicate padding (0x3D : UInt8) ++ ext
  have hstop : padded.takeWhile Octet.isBase64Char = [] := by
    obtain ⟨n, rfl⟩ := Nat.exists_eq_add_one_of_ne_zero (Nat.ne_of_gt hpos)
    rfl
  have hrun : (characters ++ padded).takeWhile Octet.isBase64Char = characters := by
    rw [List.takeWhile_append_of_pos members, hstop, List.append_nil]
  have hsigns : ∀ b ∈ List.replicate padding (0x3D : UInt8), decide (b = 0x3D) = true :=
    fun b hb => decide_eq_true (List.eq_of_mem_replicate hb)
  refine ⟨((padded.take 2).takeWhile (· = 0x3D)).length, ?_, ?_, ?_⟩
  · rw [List.take_append, List.take_of_length_le (by rw [List.length_replicate]; exact hbound),
      List.takeWhile_append_of_pos hsigns, List.length_append, List.length_replicate]
    exact Nat.le_add_right _ _
  · exact Nat.le_trans (List.takeWhile_prefix _).length_le (List.length_take_le 2 padded)
  · rw [List.append_assoc]
    simp only [tokenLength, padded, hrun, List.drop_left]

/-- Only whole groups are done. -/
theorem rule_grouped {ctx : Context} {bs : Bytes} {found : String} {used : Nat}
    (h : Base64.rule ctx bs = .done found used) : tokenLength bs % 4 = 0 := by
  obtain ⟨span, rest, rfl, rfl, t, rfl, rfl⟩ := rule_takes h
  obtain ⟨text, htoken, hjudge⟩ := refine_done h
  rw [← (token_done htoken).2, Base64Text.octets, List.length_append, List.length_replicate]
  exact t.grouped

theorem rule_short {bs : Bytes} (h : Base64.rule.Short d bs) : ∃ (characters : Bytes) (padding : Nat),
    (∀ b ∈ characters, Octet.isBase64Char b = true) ∧ padding ≤ 2 ∧
      bs = characters ++ List.replicate padding 0x3D := by
  obtain ⟨missing, needed, position, hshort⟩ := h
  have hnone : bs.drop (tokenLength bs) = [] := by
    rcases refine_failed hshort with htoken | ⟨found, used, -, hjudge⟩
    · exact token_short ⟨_, _, _, htoken⟩
    · split at hjudge <;> cases hjudge
  obtain ⟨padding, rest, hsplit, hbound, -, hlength⟩ := token_split bs
  have hrest : rest = [] := by
    have hle := List.drop_eq_nil_iff.mp hnone
    have htotal := congrArg List.length hsplit
    rw [List.length_append, List.length_append, List.length_replicate] at htotal
    exact List.eq_nil_of_length_eq_zero (by omega)
  rw [hrest, List.append_nil] at hsplit
  exact ⟨_, padding, List.all_eq_true.mp List.all_takeWhile, hbound, hsplit⟩

theorem completed_of_part {bs : Bytes} (t : Base64Text) (hpart : bs <+: t.octets) :
    Base64.rule.Completed d bs := by
  have hstop : Context.Stops ⟨false, d⟩ Octet.isInner [0x20] := rfl
  exact .of_part hpart (base64_reads t hstop)

theorem rule_completed_iff {bs : Bytes} (hshort : Base64.rule.Short d bs) :
    Base64.rule.Completed d bs ↔ ¬Mispadded bs := by
  constructor
  · rintro ⟨ext, found, used, hdone⟩ ⟨characters, padding, members, rfl, hpos, hbound, hroom⟩
    obtain ⟨signs, hsigns, htwo, hlength⟩ := tokenLength_padded members hpos hbound ext
    have hgrouped := rule_grouped hdone
    omega
  · intro hsound
    obtain ⟨characters, padding, members, hbound, rfl⟩ := rule_short hshort
    rcases Nat.eq_zero_or_pos padding with rfl | hpos
    · -- Characters fill the last group.
      let missing := List.replicate ((4 - characters.length % 4) % 4) (0x41 : UInt8)
      have hmembers : ∀ b ∈ characters ++ missing, Octet.isBase64Char b = true := by
        refine List.forall_mem_append.mpr ⟨members, fun b hb => ?_⟩
        rw [List.eq_of_mem_replicate hb]
        rfl
      have hgrouped : ((characters ++ missing).length + 0) % 4 = 0 := by
        rw [List.length_append, List.length_replicate]
        omega
      refine completed_of_part ⟨characters ++ missing, 0, hmembers, Nat.zero_le 2, hgrouped⟩ ?_
      exact ⟨missing, by simp only [Base64Text.octets, List.replicate_zero, List.append_nil]⟩
    · -- So many signs as the last group lacks characters.
      have hroom : 2 ≤ characters.length % 4 ∧ characters.length % 4 + padding ≤ 4 := by
        refine Decidable.byContradiction fun h => hsound ?_
        exact ⟨characters, padding, members, rfl, hpos, hbound, by omega⟩
      let lacking := 4 - characters.length % 4
      have hgrouped : (characters.length + lacking) % 4 = 0 := by omega
      refine completed_of_part ⟨characters, lacking, members, by omega, hgrouped⟩ ?_
      refine (List.prefix_append_right_inj characters).mpr ⟨List.replicate (lacking - padding) 0x3D, ?_⟩
      rw [List.replicate_append_replicate, Nat.add_sub_cancel' (by omega)]

end Base64

namespace Rule

/-- Where a rule of words, of numbers or of quoted strings is short of octets, some complete it. Where
that of literals or strings is, some do just if no NUL is in the body already, and where that of base64
is, just if its padding fits the last group. -/
theorem tokens_completable_iff (d : Dialect) (bs : Bytes) :
    ((atom.Short d bs → atom.Completed d bs) ∧ (tag.Short d bs → tag.Completed d bs) ∧
      (text.Short d bs → text.Completed d bs)) ∧
    ((number.Short d bs → number.Completed d bs) ∧
      (nonZeroNumber.Short d bs → nonZeroNumber.Completed d bs) ∧
      (number64.Short d bs → number64.Completed d bs)) ∧
    (quoted.Short d bs → quoted.Completed d bs) ∧
    (literal.Short d bs → (literal.Completed d bs ↔ ¬Spoiled d bs)) ∧
    (string.Short d bs → (string.Completed d bs ↔ ¬Spoiled d bs)) ∧
    (Base64.rule.Short d bs → (Base64.rule.Completed d bs ↔ ¬Base64.Mispadded bs)) := by
  have hatom : atom.Completable := span_completable .atomChar (m := 0x61) (s := 0x20) rfl rfl
  have htag : tag.Completable := span_completable .tagChar (m := 0x61) (s := 0x20) rfl rfl
  have htext : text.Completable := span_completable .textChar (m := 0x61) (s := 0x0A) rfl rfl
  exact ⟨⟨@hatom d bs, @htag d bs, @htext d bs⟩,
    ⟨@digits_completable _ _ d bs, @nonZeroNumber_completable d bs, @digits_completable _ _ d bs⟩,
    @quoted_completable d bs, literal_completed_iff, string_completed_iff, Base64.rule_completed_iff⟩

/-- The first of two octets is a NUL, and the literal waits for the second one; one character and a
sign of padding wait for more. -/
theorem tokens_never_completed :
    (literal.Short .response (Bytes.ofText "\x7b2\x7d\r\n\x00") ∧
      ¬literal.Completed .response (Bytes.ofText "\x7b2\x7d\r\n\x00")) ∧
    (Base64.rule.Short .response (Bytes.ofText "A=") ∧
      ¬Base64.rule.Completed .response (Bytes.ofText "A=")) := by
  have hliteral : literal ⟨false, .response⟩ (Bytes.ofText "\x7b2\x7d\r\n\x00") =
      .failed (.short (.literal 2) (some 1) 5) := by decide +kernel
  have hbase64 : Base64.rule ⟨false, .response⟩ (Bytes.ofText "A=") =
      .failed (.short (.element .base64) none 0) := by decide +kernel
  refine ⟨⟨⟨_, _, _, hliteral⟩, fun h => ?_⟩, ⟨⟨_, _, _, hbase64⟩, fun h => ?_⟩⟩
  · let two : Announcement .response := ⟨0, 2, false, .returnFeed, by decide, nofun⟩
    have hspoiled : Spoiled .response (Bytes.ofText "\x7b2\x7d\r\n\x00") :=
      ⟨two, [0x00], by decide +kernel, by decide, by decide⟩
    exact (literal_completed_iff ⟨_, _, _, hliteral⟩).mp h hspoiled
  · have hmispadded : Base64.Mispadded (Bytes.ofText "A=") :=
      ⟨[0x41], 1, List.forall_mem_singleton.mpr rfl, by decide, by decide, by decide, by decide⟩
    exact (Base64.rule_completed_iff ⟨_, _, _, hbase64⟩).mp h hmispadded

end Rule

end Imap
