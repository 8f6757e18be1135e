import Imap.Proofs.Line.Fence
import Imap.Proofs.Written.Code

namespace Imap

open Rule Written

namespace Code

/-- The closing bracket of a code, and no quote in front of it. -/
def bracket : Fence where
  mark := 0x5D
  Front bs := 0x5D ∉ bs ∧ 0x22 ∉ bs
  drop h _ := ⟨mt List.mem_of_mem_drop h.1, mt List.mem_of_mem_drop h.2⟩
  Behind _ _ := True

section

variable {α : Type} {element : Rule α}

theorem spacedToClose_within (he : Within bracket element) : Within bracket element.spacedToClose :=
  he.spacedToClose (by decide) (by decide)

theorem list_within (he : Within bracket element) : Within bracket (Rule.list element) := by
  refine (Within.word _ _ (by decide)).andThen fun _ =>
    (Within.skip? _ (by decide)).andThen fun closed => ?_
  split
  · exact .pure []
  · exact spacedToClose_within he

theorem nonEmptyList_within (he : Within bracket element) :
    Within bracket (Rule.nonEmptyList element) := by
  refine (Within.word _ _ (by decide)).andThen fun _ =>
    (Within.word _ _ (by decide)).lookahead.opt.andThen fun close => ?_
  split
  · exact .fail (.miss _)
  · exact spacedToClose_within he

end

theorem atom_within : Within bracket Rule.atom := .span rfl _

/-- Without a quote a charset is an atom. -/
theorem charset_eq {ctx : Context} {b : UInt8} (hb : b ≠ 0x22) (bs : Bytes) :
    charset ctx (b :: bs) = Rule.atom ctx (b :: bs) := by
  refine (peek_bind b bs).trans (congrFun (congrFun ?_ ctx) (b :: bs))
  split
  · next h => exact absurd (Option.some.inj h) hb
  · rfl

theorem charset_within : Within bracket charset := by
  intro ctx front rest hfront hbehind
  have heq : charset ctx (front ++ 0x5D :: rest) = Rule.atom ctx (front ++ 0x5D :: rest) := by
    cases front with
    | nil => exact charset_eq (by decide) rest
    | cons b front => exact charset_eq (List.ne_of_not_mem_cons hfront.2).symm _
  exact heq ▸ atom_within hfront hbehind

theorem permanentFlag_within : Within bracket permanentFlag := by
  refine (Within.skip? _ (by decide)).andThen fun any => ?_
  split
  · exact .pure _
  · refine (Within.skip? _ (by decide)).andThen fun backslash => ?_
    split
    · exact atom_within.andThen fun _ => .pure _
    · exact atom_within

theorem nonZeroNumber_within : Within bracket nonZeroNumber := by
  refine Within.peek.andThen fun ahead => ?_
  split
  · split
    · exact .digits rfl _ _
    · exact .fail (.miss _)
  · exact .fail (.miss _)

theorem numberRule_within (kind : CodeKind) : Within bracket (numberRule kind) := by
  refine (Within.word _ _ (by decide)).andThen fun _ => ?_
  refine nonZeroNumber_within.andThen fun _ => ?_
  exact .pure _

theorem badcharsetRule_within : Within bracket badcharsetRule := by
  refine (Within.skip? _ (by decide)).andThen fun found => ?_
  split
  · exact (nonEmptyList_within charset_within).andThen fun _ => .pure _
  · exact .pure _

theorem permanentflagsRule_within : Within bracket permanentflagsRule := by
  refine (Within.word _ _ (by decide)).andThen fun _ => ?_
  refine (list_within permanentFlag_within).andThen fun _ => ?_
  exact .pure _

theorem arguments_within : ∀ p ∈ arguments, p.1 ≠ "capability" → Within bracket p.2 := by
  simp only [arguments, List.forall_mem_cons]
  exact ⟨fun _ => .pure _, fun _ => .pure _, fun _ => .pure _, fun _ => .pure _, fun _ => .pure _,
    fun _ => badcharsetRule_within, (absurd rfl ·), fun _ => permanentflagsRule_within,
    fun _ => numberRule_within _, fun _ => numberRule_within _, fun _ => numberRule_within _,
    List.forall_mem_nil _⟩

/-- The names of the codes that a number follows. -/
def numbered : List String := ["uidnext", "uidvalidity", "unseen"]

/-- The octets begin with digits that come to more than 32 bits, and not with a zero. -/
def Oversized (bs : Bytes) : Prop :=
  bs.head? ≠ some 0x30 ∧ maxNumber < decimal (bs.takeWhile Octet.isDigit)

instance (bs : Bytes) : Decidable (Oversized bs) := inferInstanceAs (Decidable (_ ∧ _))

/-- What is wrong with octets that begin with such digits. -/
def oversize (bs : Bytes) : Cause := .tooLarge (Bytes.text (bs.takeWhile Octet.isDigit)) maxNumber

section

variable {ctx : Context} {front rest : Bytes} {why : Failure}

theorem digits_bad_iff {limit : Nat} {wanted : Element} {bs : Bytes} :
    (digits limit wanted ctx bs = .failed why ∧ why.IsBad) ↔
      limit < decimal (bs.takeWhile Octet.isDigit) ∧
        why = .bad (.tooLarge (Bytes.text (bs.takeWhile Octet.isDigit)) limit) 0 := by
  simp only [digits_apply]
  split
  · next hlarge =>
    simp only [Outcome.failed.injEq, hlarge, true_and]
    exact ⟨fun h => h.1.symm, fun h => ⟨h.symm, _, _, h⟩⟩
  · next hlarge =>
    simp only [hlarge, false_and, iff_false]
    rintro ⟨hfailed, hbad⟩
    cases hspan : span Octet.isDigit wanted ctx bs with
    | done found n =>
      rw [hspan] at hfailed
      cases hfailed
    | failed why' =>
      rw [hspan] at hfailed
      cases hfailed
      exact Spares.span .digit wanted _ _ hspan hbad

/-- A number other than zero is bad just if its digits are oversized. -/
theorem nonZeroNumber_bad_iff {b : UInt8} {bs : Bytes} :
    (nonZeroNumber ctx (b :: bs) = .failed why ∧ why.IsBad) ↔
      Oversized (b :: bs) ∧ why = .bad (oversize (b :: bs)) 0 := by
  rw [nonZeroNumber, peek_bind]
  by_cases hb : Octet.isDigit b = true ∧ b ≠ 0x30
  · simp only [hb.1, bne_iff_ne.mpr hb.2, Bool.and_self, if_true, digits_bad_iff, Oversized, oversize,
      List.head?_cons, ne_eq, Option.some.injEq, hb.2, not_false_eq_true, true_and]
  · have hmiss : (Octet.isDigit b && b != 0x30) = false := by
      simpa only [Bool.eq_false_iff, ne_eq, Bool.and_eq_true, bne_iff_ne] using hb
    have hsmall : ¬Oversized (b :: bs) := by
      intro h
      have hdigit : ¬Octet.isDigit b = true := fun hdigit =>
        hb ⟨hdigit, fun hzero => h.1 (congrArg some hzero)⟩
      have hlarge := h.2
      rw [List.takeWhile_cons_of_neg hdigit] at hlarge
      exact absurd hlarge (by decide)
    simp only [hmiss, Bool.false_eq_true, if_false, hsmall, false_and, iff_false]
    rintro ⟨⟨⟩, ⟨_, _, ⟨⟩⟩⟩

/-- The digits end in front of the bracket. -/
theorem takeWhile_digits (front rest : Bytes) :
    (front ++ 0x5D :: rest).takeWhile Octet.isDigit = front.takeWhile Octet.isDigit := by
  induction front with
  | nil => rfl
  | cons b front ih => simp only [List.cons_append, List.takeWhile_cons, ih]

theorem numberRule_bad_iff {kind : CodeKind} (hsome : front ≠ []) :
    (numberRule kind ctx (0x20 :: (front ++ 0x5D :: rest)) = .failed why ∧ why.IsBad) ↔
      Oversized front ∧ why = .bad (oversize front) 1 := by
  obtain ⟨b, tail, rfl⟩ := List.exists_cons_of_ne_nil hsome
  have hbits := takeWhile_digits (b :: tail) rest
  have hnumber {why : Failure} : (nonZeroNumber ctx (b :: tail ++ 0x5D :: rest) = .failed why ∧
      why.IsBad) ↔ Oversized (b :: tail) ∧ why = .bad (oversize (b :: tail)) 0 := by
    have h := @nonZeroNumber_bad_iff ctx why b (tail ++ 0x5D :: rest)
    rw [Oversized, oversize, ← List.cons_append, hbits] at h
    exact h
  have hspace : space.Reads ctx ([0x20] ++ (b :: tail ++ 0x5D :: rest)) () _ := space_reads
  constructor
  · rintro ⟨hfailed, hbad⟩
    have hbehind : ((do return known kind (.number (← nonZeroNumber)) : Rule Code) ctx
        (b :: tail ++ 0x5D :: rest)).shift 1 = .failed why := hspace.bind_eq.symm.trans hfailed
    obtain ⟨why', hvalue, rfl⟩ := shift_failed hbehind
    obtain hfirst | ⟨n, used, why, -, hpure, -⟩ := bind_failed hvalue
    · obtain ⟨hlarge, rfl⟩ := hnumber.mp ⟨hfirst, Failure.Grave.of_shift hbad⟩
      exact ⟨hlarge, rfl⟩
    · cases hpure
  · rintro ⟨hlarge, rfl⟩
    have hrejects : nonZeroNumber.Rejects ctx (b :: tail ++ 0x5D :: rest) (oversize (b :: tail)) 0 :=
      (hnumber.mpr ⟨hlarge, rfl⟩).1
    have hrule : (numberRule kind).Rejects ctx (0x20 :: (b :: tail ++ 0x5D :: rest))
        (oversize (b :: tail)) (1 + 0) := .octet rfl hrejects.bind
    exact ⟨hrule, _, _, rfl⟩

end

section

variable {ctx : Context} {front rest : Bytes} {known : Rule Code}

/-- Known arguments, and the closing bracket behind them. -/
def closed (known : Rule Code) : Rule Code := do
  let code ← known
  Rule.lookahead (Rule.word "]" (.word "]"))
  return code

theorem behindAtom_known {atom : String} (h : Keyword.find? arguments atom = some known) :
    behindAtom atom = (closed known).orElse (otherRule atom) := by
  rw [behindAtom, h]
  rfl

/-- What is wrong with the arguments beyond a miss is wrong with the code; and else the arguments go up
to the bracket, or are none. -/
theorem closed_cases (ctx : Context) (rest : Bytes) (hwithin : Within bracket known)
    (hfront : bracket.Front front) :
    (∃ c, (closed known).Reads ctx (front ++ 0x5D :: rest) c (0x5D :: rest) ∧ known.Gives c) ∨
      (closed known).Misses ctx (front ++ 0x5D :: rest) ∨
      ∃ why, known ctx (front ++ 0x5D :: rest) = .failed why ∧
        (why.IsBad ∨ ∃ refusal, why = .refused refusal) := by
  have hstays : (known ctx (front ++ bracket.mark :: rest)).Stays front.length :=
    hwithin hfront trivial
  generalize hknown : known ctx (front ++ bracket.mark :: rest) = o at hstays
  cases hstays with
  | failed decided =>
    cases decided with
    | miss position => exact .inr (.inl (.bind ⟨_, _, hknown⟩))
    | bad cause => exact .inr (.inr ⟨_, hknown, .inl ⟨_, _, rfl⟩⟩)
    | refused why => exact .inr (.inr ⟨_, hknown, .inr ⟨why, rfl⟩⟩)
  | @done c used le =>
    have hread : known.Reads ctx (front ++ 0x5D :: rest) c (front.drop used ++ 0x5D :: rest) := by
      refine ⟨front.take used, ?_, ?_⟩
      · rw [← List.append_assoc, List.take_append_drop]
      · rw [List.length_take_of_le le]
        exact hknown
    cases hleft : front.drop used with
    | nil =>
      rw [hleft] at hread
      have hclose : (Rule.word "]" (.word "]")).Reads ctx (0x5D :: rest) () rest := .octet rfl
      exact .inl ⟨c, hread.bind (hclose.lookahead.bind (.pure c)), ⟨_, _, _, hknown⟩⟩
    | cons b more =>
      have hb : b ≠ 0x5D := by
        rintro rfl
        exact hfront.1 (List.mem_of_mem_drop (hleft ▸ List.mem_cons_self))
      have hclose : (Rule.word "]" (.word "]")).Misses ctx (b :: (more ++ 0x5D :: rest)) :=
        .octet rfl rfl (beq_false_of_ne hb)
      rw [hleft] at hread
      exact .inr (.inl (.behind hread hclose.lookahead.bind))

theorem complete_of_kind {c : Code} (h : c.kind ≠ .capability) : complete c = .ok c := by
  unfold complete
  split
  · next hkind _ => exact absurd hkind h
  · rfl

/-- The atom and what stands up to the bracket, as they are. -/
theorem otherRule_reads (a : Atom) (p : Run Octet.isBracketedChar) :
    (otherRule a.text).Reads ctx (0x20 :: (p.octets ++ 0x5D :: rest))
      ⟨.other, .none, some a.text, some p.text⟩ (0x5D :: rest) := by
  have htext : (span Octet.isBracketedChar .codeText).Reads ctx (p.octets ++ 0x5D :: rest) p.text
      (0x5D :: rest) := p.reads .bracketedChar (by rfl)
  have hbuild : build .other .none (some a.text) (some p.text) = .ok _ :=
    if_neg fun h => text_ne_empty a.some h.2
  exact (Reads.skip rfl).bind (htext.bind (.ofExcept hbuild))

end

section

variable {ctx : Context} {front rest : Bytes} {name : String} {known : Rule Code}

theorem arguments_numbered : ∀ q ∈ arguments, q.1 ∈ numbered → ∃ kind, q.2 = numberRule kind := by
  simp only [arguments, List.forall_mem_cons]
  exact ⟨(absurd · (by decide)), (absurd · (by decide)), (absurd · (by decide)),
    (absurd · (by decide)), (absurd · (by decide)), (absurd · (by decide)), (absurd · (by decide)),
    (absurd · (by decide)), fun _ => ⟨_, rfl⟩, fun _ => ⟨_, rfl⟩, fun _ => ⟨_, rfl⟩,
    List.forall_mem_nil _⟩

/-- Hyphens and underscores make no difference to them. -/
theorem hyphened_numbered_iff (hmem : (name, known) ∈ arguments) :
    Keyword.hyphened name ∈ numbered ↔ name ∈ numbered := by
  have names : ∀ name ∈ arguments.map Prod.fst, Keyword.hyphened name ∈ numbered → name ∈ numbered := by
    decide
  refine ⟨names name (List.mem_map_of_mem hmem), fun h => ?_⟩
  rwa [strict_plain name (List.mem_cons_of_mem _ h)]

/-- Of the known arguments other than capabilities only numbers are bad, and they if oversized. -/
theorem arguments_bad_iff {why : Failure} (hmem : (name, known) ∈ arguments)
    (hname : name ≠ "capability") (hsome : front ≠ []) :
    (known ctx (0x20 :: (front ++ 0x5D :: rest)) = .failed why ∧ why.IsBad) ↔
      (name ∈ numbered ∧ Oversized front) ∧ why = .bad (oversize front) 1 := by
  by_cases hnumbered : name ∈ numbered
  · obtain ⟨kind, rfl⟩ := arguments_numbered _ hmem hnumbered
    rw [numberRule_bad_iff hsome, and_iff_right hnumbered]
  · have hlenient : name ∉ strict := fun h => (List.mem_cons.mp h).elim hname hnumbered
    refine ⟨fun h => absurd h.2 ?_, fun h => absurd h.1.1 hnumbered⟩
    exact (arguments_known _ hmem).lenient hlenient ctx _ _ h.1

variable {a : Atom} {p : Run Octet.isBracketedChar}

theorem behindAtom_rejects (hfind : Keyword.find? arguments a.text = some known)
    (hmem : (name, known) ∈ arguments) (hname : name ≠ "capability")
    (hexcess : name ∈ numbered ∧ Oversized p.octets) :
    (behindAtom a.text).Rejects ctx (0x20 :: (p.octets ++ 0x5D :: rest)) (oversize p.octets) 1 := by
  have hknown : known.Rejects ctx (0x20 :: (p.octets ++ 0x5D :: rest)) (oversize p.octets) 1 :=
    ((arguments_bad_iff hmem hname p.some).mpr ⟨hexcess, rfl⟩).1
  rw [behindAtom_known hfind]
  exact hknown.bind.orElse

theorem behindAtom_reads (rest : Bytes) (hd : ctx.dialect.knowsQuota = true)
    (hfind : Keyword.find? arguments a.text = some known) (hmem : (name, known) ∈ arguments)
    (hname : name ≠ "capability") (hquote : 0x22 ∉ p.octets)
    (hfits : ¬(name ∈ numbered ∧ Oversized p.octets)) :
    ∃ c, (behindAtom a.text).Reads ctx (0x20 :: (p.octets ++ 0x5D :: rest)) c (0x5D :: rest) ∧
      (spelling c.kind = Keyword.hyphened name ∨ c = ⟨.other, .none, some a.text, some p.text⟩) := by
  have hfront : bracket.Front (0x20 :: p.octets) := by
    refine ⟨?_, List.not_mem_cons_of_ne_of_not_mem (by decide) hquote⟩
    refine List.not_mem_cons_of_ne_of_not_mem (by decide) fun h => ?_
    exact absurd (p.members _ h) (by decide)
  rw [behindAtom_known hfind]
  obtain ⟨c, hread, hgives⟩ | hmiss | ⟨why, hfailed, hbad | ⟨refusal, rfl⟩⟩ :=
    closed_cases ctx rest (arguments_within _ hmem hname) hfront
  · obtain ⟨kind, -, hspelling, hkind⟩ := (arguments_known _ hmem).own
    exact ⟨c, .orElse_first hread, .inl (by rw [hkind c hgives, hspelling])⟩
  · exact ⟨_, .orElse_second hmiss (otherRule_reads a p), .inr rfl⟩
  · exact absurd ((arguments_bad_iff hmem hname p.some).mp ⟨hfailed, hbad⟩).1 hfits
  · have hbuilt : Built .line .willing known := arguments_built _ hmem
    exact absurd hfailed (hbuilt.willing _ _ _ hd)

end

/-- A known code other than a list of capabilities is read as what its arguments say, or else as it
stands, whatever is between it and its bracket; but a number of more than 32 bits is bad, and neither
the one nor the other. -/
theorem known_or_other_iff (complete : Bool) (a : Atom) (p : Run Octet.isBracketedChar) (rest : Bytes)
    (hknown : (Keyword.find? arguments a.text).isSome = true) (hname : a.text.toLower ≠ "capability")
    (hquote : 0x22 ∉ p.octets) :
    let octets := a.octets ++ 0x20 :: p.octets
    let outcome := Code.rule ⟨complete, .response⟩ (octets ++ 0x5D :: rest)
    let excess := a.text.toLower ∈ numbered ∧ Oversized p.octets
    ((∃ c, outcome = .done c octets.length ∧
      (spelling c.kind = a.text.toLower ∨ c = ⟨.other, .none, some a.text, some p.text⟩)) ↔ ¬excess) ∧
    (excess → outcome = .failed (.bad (oversize p.octets) (a.octets.length + 1))) := by
  intro octets outcome excess
  let ctx : Context := ⟨complete, .response⟩
  obtain ⟨known, hfind⟩ := Option.isSome_iff_exists.mp hknown
  obtain ⟨name, hrule, hmem⟩ := named_of_find? hfind
  have hlower : a.text.toLower = Keyword.hyphened name := Keyword.toLower_of_ruleName? hrule
  have hother : name ≠ "capability" := by
    rintro rfl
    exact hname hlower
  have hexcess : excess ↔ name ∈ numbered ∧ Oversized p.octets :=
    and_congr_left fun _ => hlower ▸ hyphened_numbered_iff hmem
  have hatom : Rule.atom.Reads ctx (a.octets ++ 0x20 :: (p.octets ++ 0x5D :: rest)) a.text _ :=
    atom_reads a (by rfl)
  have hsplit : octets ++ 0x5D :: rest = a.octets ++ 0x20 :: (p.octets ++ 0x5D :: rest) :=
    List.append_assoc ..
  by_cases h : excess
  · have hany : anyRule.Rejects ctx _ _ _ :=
      .behind hatom (behindAtom_rejects hfind hmem hother (hexcess.mp h))
    have hfailed : outcome = .failed (.bad (oversize p.octets) (a.octets.length + 1)) := by
      rw [hsplit.symm] at hany
      exact hany.refine
    refine ⟨⟨?_, fun hn => absurd h hn⟩, fun _ => hfailed⟩
    rintro ⟨c, hdone, -⟩
    rw [hfailed] at hdone
    cases hdone
  · have hd : ctx.dialect.knowsQuota = true := rfl
    obtain ⟨c, hbehind, hc⟩ :=
      behindAtom_reads rest hd hfind hmem hother hquote (mt hexcess.mpr h)
    rw [← hlower] at hc
    have hkind : c.kind ≠ .capability := by
      intro h
      rcases hc with hspelled | rfl
      · exact hname (hspelled.symm.trans (congrArg spelling h))
      · cases h
    have hread : Code.rule.Reads ctx (octets ++ 0x5D :: rest) c (0x5D :: rest) :=
      hsplit ▸ (hatom.bind hbehind).refine (complete_of_kind hkind)
    exact ⟨⟨fun _ => h, fun _ => ⟨c, hread.done, hc⟩⟩, fun hn => absurd hn h⟩

/-- A code that asks for a number other than zero, and has zero. -/
theorem known_or_other_unseen :
    ∃ c, Code.rule ⟨false, .response⟩ (Bytes.ofText "Unseen 0] x") = .done c 8 ∧
      (spelling c.kind = "unseen" ∨ c = ⟨.other, .none, some "Unseen", some "0"⟩) := by
  let a : Atom := ⟨Bytes.ofText "Unseen", by decide, List.all_eq_true.mp rfl⟩
  let p : Run Octet.isBracketedChar := ⟨Bytes.ofText "0", by decide, List.all_eq_true.mp rfl⟩
  have hatom : a.text = "Unseen" := by decide +kernel
  have hlower : a.text.toLower = "unseen" := by decide +kernel
  have htext : p.text = "0" := by decide +kernel
  obtain ⟨c, hdone, hc⟩ := (known_or_other_iff false a p (Bytes.ofText " x") (by decide +kernel)
    (by decide +kernel) (by decide)).1.mpr (by decide +kernel)
  rw [hlower, hatom, htext] at hc
  exact ⟨c, hdone, hc⟩

/-- The number behind UIDNEXT is one above 32 bits. -/
theorem known_or_other_fails : ¬∀ (a : Atom) (p : Run Octet.isBracketedChar) (rest : Bytes),
    (Keyword.find? arguments a.text).isSome = true → a.text.toLower ≠ "capability" →
      0x22 ∉ p.octets → ∃ c, Code.rule ⟨false, .response⟩
        (a.octets ++ 0x20 :: p.octets ++ 0x5D :: rest) = .done c (a.octets ++ 0x20 :: p.octets).length := by
  intro h
  obtain ⟨c, hc⟩ := h ⟨Bytes.ofText "UIDNEXT", by decide, List.all_eq_true.mp rfl⟩
    ⟨Bytes.ofText "4294967296", by decide, List.all_eq_true.mp rfl⟩ (Bytes.ofText " x") (by decide +kernel)
    (by decide +kernel) (by decide)
  have hbad : Code.rule ⟨false, .response⟩ (Bytes.ofText "UIDNEXT 4294967296] x") =
      .failed (.bad (.tooLarge "4294967296" maxNumber) 8) := by decide +kernel
  exact nomatch hbad.symm.trans hc

end Code

end Imap
