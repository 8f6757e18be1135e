import Imap.Proofs.Written.Code

namespace Imap

open Rule Written

/-- Where two splits of the same octets meet. -/
theorem Bytes.split_before {t tail span rest : Bytes} {b : UInt8}
    (h : t ++ tail = span ++ b :: rest) (hb : b ∉ tail) :
    ∃ more, t = span ++ b :: more ∧ rest = more ++ tail := by
  rcases List.append_eq_append_iff.mp h with ⟨more, rfl, htail⟩ | ⟨more, rfl, hrest⟩
  · exact absurd (htail ▸ List.mem_append_right more List.mem_cons_self) hb
  · cases more with
    | nil =>
      rw [List.nil_append] at hrest
      exact absurd (hrest ▸ List.mem_cons_self) hb
    | cons c more =>
      cases hrest
      exact ⟨more, rfl, rfl⟩

namespace StatusText

/-- A text and the end of its line. -/
def line (t : Bytes) : Bytes := t ++ [0x0D, 0x0A]

/-- The text is a code, spelled `s`, in brackets, a space, and `rest` behind them. -/
structure Coded (ctx : Context) (t s : Bytes) (c : Code) (rest : Bytes) : Prop where
  octets : t = 0x5B :: (s ++ 0x5D :: 0x20 :: rest)
  code : Code.rule.Reads ctx (s ++ 0x5D :: 0x20 :: line rest) c (0x5D :: 0x20 :: line rest)

variable {ctx : Context} {t s rest : Bytes} {c : Code}

theorem feed_mem (t : Bytes) : 0x0A ∈ line t := by
  apply List.mem_append_right t
  exact List.mem_cons_of_mem _ List.mem_cons_self

theorem text_reads (hne : t ≠ []) (htext : ∀ b ∈ t, Octet.isTextChar b = true) :
    Rule.text.Reads ctx (line t) (Bytes.text t) (line []) :=
  .span .textChar hne htext rfl

theorem text_nothing : Rule.text ctx (line []) = .failed (.miss (.expected .text) 0) := by
  obtain ⟨complete, d⟩ := ctx
  cases complete <;> rfl

theorem bracketed_reads_iff {left : Bytes} : Code.bracketedRule.Reads ctx (line t) c left ↔
    ∃ s rest, left = line rest ∧ Coded ctx t s c rest := by
  rw [Code.bracketedRule_reads_iff]
  constructor
  · rintro ⟨s, hline, hcode⟩
    have hsplit : t ++ [0x0D, 0x0A] = (0x5B :: (s ++ [0x5D])) ++ 0x20 :: left := by
      rw [List.cons_append, List.append_assoc]
      exact hline
    obtain ⟨rest, rfl, rfl⟩ := Bytes.split_before hsplit (by decide)
    refine ⟨s, rest, rfl, ?_, hcode⟩
    rw [List.cons_append, List.append_assoc]
    rfl
  · rintro ⟨s, rest, rfl, rfl, hcode⟩
    refine ⟨s, ?_, hcode⟩
    rw [line, line, List.cons_append, List.append_assoc]
    rfl

namespace Coded

theorem bracketed (h : Coded ctx t s c rest) :
    (Rule.opt Code.bracketedRule).Reads ctx (line t) (some c) (line rest) := by
  have hcode : Code.bracketedRule.Reads ctx (line t) c (line rest) :=
    bracketed_reads_iff.mpr ⟨s, rest, rfl, h⟩
  exact hcode.opt

theorem isText (h : Coded ctx t s c rest) (htext : ∀ b ∈ t, Octet.isTextChar b = true) :
    ∀ b ∈ rest, Octet.isTextChar b = true := by
  rw [h.octets] at htext
  intro b hb
  refine htext b (List.mem_cons_of_mem _ (List.mem_append_right s ?_))
  exact List.mem_cons_of_mem _ (List.mem_cons_of_mem _ hb)

/-- A code of the other kind is kept octet for octet. -/
theorem verbatim (h : Coded ctx t s c rest) (hkind : c.kind = .other) : c.Verbatim s := by
  have htaken := Code.rule_takes.of_reads h.code
  exact htaken hkind

end Coded

/-- A code is read as one wherever text follows it. -/
theorem rule_coded (h : Coded ctx t s c rest) (hrest : rest ≠ [])
    (htext : ∀ b ∈ t, Octet.isTextChar b = true) :
    rule ctx (line t) = .done (some c, Bytes.text rest) t.length := by
  have hread : rule.Reads ctx (t ++ line []) (some c, Bytes.text rest) (line []) :=
    h.bracketed.bind ((text_reads hrest (h.isText htext)).bind (.pure _))
  exact hread.done

/-- A code with nothing behind it is no status text, and no plain one either. -/
theorem rule_nothing (h : Coded ctx t s c []) :
    rule ctx (line t) = .failed (.miss (.expected .text) t.length) := by
  have hcode : (Rule.opt Code.bracketedRule).Reads ctx (t ++ line []) (some c) (line []) :=
    h.bracketed
  exact hcode.bind_eq.trans (congrArg (Outcome.shift t.length) (bind_of_failed text_nothing))

/-- What does not begin with a code is all text. -/
theorem rule_plain (h : Code.bracketedRule.Misses ctx (line t)) (hne : t ≠ [])
    (htext : ∀ b ∈ t, Octet.isTextChar b = true) :
    rule ctx (line t) = .done (none, Bytes.text t) t.length := by
  have hread : rule.Reads ctx (t ++ line []) (none, Bytes.text t) (line []) :=
    (Reads.opt_none h).bind ((text_reads hne htext).bind (.pure _))
  exact hread.done

/-- A bad code is bad for the text too. -/
theorem rule_bad {cause : Cause} {position : Nat}
    (h : Code.bracketedRule ctx (line t) = .failed (.bad cause position)) :
    rule ctx (line t) = .failed (.bad cause position) := by
  have hopt : Rule.opt Code.bracketedRule ctx (line t) = .failed (.bad cause position) := by
    simp only [Rule.opt, h]
  exact bind_of_failed hopt

/-- It is the atom of a strict code that the text begins with then. -/
theorem bad_strict {cause : Cause} {position : Nat} (hne : t ≠ [])
    (h : Code.bracketedRule ctx (line t) = .failed (.bad cause position)) :
    ∃ more atom rest, t = 0x5B :: more ∧ Rule.atom.Reads ctx (line more) atom rest ∧
      atom.toLower ∈ Code.strict := by
  obtain ⟨more, atom, rest, hline, hatom, hstrict⟩ :=
    Code.bracketedRule_bad h ⟨cause, position, rfl⟩
  cases t with
  | nil => exact absurd rfl hne
  | cons b t =>
    cases hline
    exact ⟨t, atom, rest, rfl, hatom, hstrict⟩

/-- A line is enough to decide whether it begins with a code. -/
theorem bracketed_cases (hd : ctx.dialect.knowsQuota = true) (t : Bytes) :
    (∃ s c rest, Coded ctx t s c rest) ∨ Code.bracketedRule.Misses ctx (line t) ∨
      ∃ cause position, Code.bracketedRule ctx (line t) = .failed (.bad cause position) := by
  have hbuilt : Built .line .willing Code.bracketedRule := Code.bracketedRule_built
  cases hcode : Code.bracketedRule ctx (line t) with
  | done c used =>
    have hread := Reads.of_fits hbuilt.steady.fits hcode
    obtain ⟨s, rest, -, hcoded⟩ := bracketed_reads_iff.mp hread
    exact .inl ⟨s, c, rest, hcoded⟩
  | failed why =>
    have hsettled : (Code.bracketedRule ctx (line t)).Settled := hbuilt.settled (feed_mem t)
    rw [hcode] at hsettled
    cases why with
    | short => cases hsettled with | failed decided => cases decided
    | miss cause position => exact .inr (.inl ⟨cause, position, hcode⟩)
    | bad cause position => exact .inr (.inr ⟨cause, position, rfl⟩)
    | refused refusal => exact absurd hcode (hbuilt.willing ctx _ refusal hd)

/-- Every octet of a text is found again: the text is kept whole, or it is a code as it was written
and the text that is kept. It fails only where nothing follows the code, and where a strict code is
bad. What begins with a code is never kept whole. -/
theorem rule_keeps_octets (complete : Bool) (t : Bytes) (hne : t ≠ [])
    (htext : ∀ b ∈ t, Octet.isTextChar b = true) :
    let ctx : Context := ⟨complete, .response⟩
    (∀ code text used, rule ctx (line t) = .done (code, text) used →
      used = t.length ∧ text ≠ "" ∧ ((code = none ∧ text = Bytes.text t) ∨
        ∃ c s rest, code = some c ∧ text = Bytes.text rest ∧ Coded ctx t s c rest ∧
          (c.kind = .other → c.Verbatim s))) ∧
    (∀ why, rule ctx (line t) = .failed why →
      (why = .miss (.expected .text) t.length ∧ ∃ c s, Coded ctx t s c []) ∨
      ∃ cause position, why = .bad cause position ∧ ∃ more atom rest, t = 0x5B :: more ∧
        Rule.atom.Reads ctx (line more) atom rest ∧ atom.toLower ∈ Code.strict) ∧
    ∀ c s rest, Coded ctx t s c rest → rule ctx (line t) =
      if rest = [] then .failed (.miss (.expected .text) t.length)
      else .done (some c, Bytes.text rest) t.length := by
  intro ctx
  have hquota : ctx.dialect.knowsQuota = true := rfl
  refine ⟨fun code text used hdone => ?_, fun why hfailed => ?_, fun c s rest hcoded => ?_⟩
  · rcases bracketed_cases hquota t with ⟨s, c, rest, hcoded⟩ | hmiss | ⟨cause, position, hbad⟩
    · have hrest : rest ≠ [] := by
        rintro rfl
        rw [rule_nothing hcoded] at hdone
        cases hdone
      rw [rule_coded hcoded hrest htext] at hdone
      cases hdone
      exact ⟨rfl, text_ne_empty hrest, .inr ⟨c, s, rest, rfl, rfl, hcoded, hcoded.verbatim⟩⟩
    · rw [rule_plain hmiss hne htext] at hdone
      cases hdone
      exact ⟨rfl, text_ne_empty hne, .inl ⟨rfl, rfl⟩⟩
    · rw [rule_bad hbad] at hdone
      cases hdone
  · rcases bracketed_cases hquota t with ⟨s, c, rest, hcoded⟩ | hmiss | ⟨cause, position, hbad⟩
    · by_cases hrest : rest = []
      · subst hrest
        rw [rule_nothing hcoded] at hfailed
        cases hfailed
        exact .inl ⟨rfl, c, s, hcoded⟩
      · rw [rule_coded hcoded hrest htext] at hfailed
        cases hfailed
    · rw [rule_plain hmiss hne htext] at hfailed
      cases hfailed
    · rw [rule_bad hbad] at hfailed
      cases hfailed
      exact .inr ⟨cause, position, rfl, bad_strict hne hbad⟩
  · split
    · next hrest => exact rule_nothing (hrest ▸ hcoded)
    · next hrest => exact rule_coded hcoded hrest htext

/-- An unknown code with its text, and what follows it. -/
theorem rule_keeps_octets_other : ∃ c s rest,
    rule ⟨false, .response⟩ (line (Bytes.ofText "[FOO bar] hi")) =
      .done (some c, Bytes.text rest) 12 ∧
    Coded ⟨false, .response⟩ (Bytes.ofText "[FOO bar] hi") s c rest ∧ c.Verbatim s := by
  have hdone : rule ⟨false, .response⟩ (line (Bytes.ofText "[FOO bar] hi")) =
      .done (some ⟨.other, .none, some "FOO", some "bar"⟩, "hi") 12 := by decide +kernel
  obtain ⟨-, -, ⟨hnone, -⟩ | ⟨c, s, rest, hc, hrest, hcoded, hverbatim⟩⟩ :=
    (rule_keeps_octets false (Bytes.ofText "[FOO bar] hi") (by decide) (by decide +kernel)).1 _ _ _
      hdone
  · cases hnone
  · cases hc
    exact ⟨_, s, rest, hrest ▸ hdone, hcoded, hverbatim rfl⟩

end StatusText

end Imap
