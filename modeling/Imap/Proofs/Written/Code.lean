import Imap.Proofs.Keyword
import Imap.Proofs.Values.Status
import Imap.Proofs.Written.Spelled

namespace Imap

open Rule Written

/-- No alternative may be tried. -/
def Failure.IsBad (f : Failure) : Prop := ∃ cause position, f = .bad cause position

namespace Failure.IsBad

instance : Grave IsBad where
  of_shift := by
    rintro (_ | _ | ⟨cause, position⟩ | _) n ⟨cause', position', h⟩ <;> cases h
    exact ⟨_, _, rfl⟩
  not_short := nofun
  not_miss := nofun

theorem not_refused (why : Refusal) : ¬IsBad (.refused why) := nofun

end Failure.IsBad

namespace Keyword

theorem lower_char : ∀ b, lower (Octet.char b) = (Octet.char b).toLower := by
  apply Octet.forall_of_lt
  decide +kernel

/-- The name of its rule is the keyword in small letters, up to hyphens. -/
theorem toLower_of_ruleName? {bs : Bytes} {name : String}
    (h : ruleName? "" (Bytes.text bs) = some name) : (Bytes.text bs).toLower = hyphened name := by
  have hlower : (Bytes.text bs).toList.map lower = (Bytes.text bs).toLower.toList := by
    rw [toLower_toList, Bytes.text_toList, List.map_map, List.map_map]
    exact List.map_congr_left fun b _ => lower_char b
  obtain ⟨hname, rfl⟩ := ruleName?_eq_some_iff.mp h
  rw [String.empty_append, hyphened_underscored hname, hlower, String.ofList_toList]

end Keyword

namespace Code

/-- What may follow the atom of a code. -/
def behindAtom (atom : String) : Rule Code :=
  match Keyword.find? arguments atom with
  | some known =>
    Rule.orElse (do
      let code ← known
      Rule.lookahead (Rule.word "]" (.word "]"))
      return code) (otherRule atom)
  | none => otherRule atom

theorem anyRule_eq : anyRule = (do behindAtom (← Rule.atom)) := rfl

/-- The names of the known codes whose arguments can be bad: numbers and capabilities. -/
def strict : List String := ["capability", "uidnext", "uidvalidity", "unseen"]

/-- The rule of a known code's arguments. It gives codes of the kind that its name spells, which is not
the other one; and unless it is a strict one it is never bad and gives no capabilities. -/
structure Known (name : String) (rule : Rule Code) : Prop where
  own : ∃ kind, kind ≠ .other ∧ spelling kind = Keyword.hyphened name ∧
    rule.Ensures fun c => c.kind = kind
  noCapabilities : name ∉ strict → rule.Ensures fun c => c.kind ≠ .capability
  lenient : name ∉ strict → ∀ ctx, rule.Spares ctx Failure.IsBad

theorem Known.kind {name : String} {rule : Rule Code} (h : Known name rule) :
    rule.Ensures fun c => c.kind ≠ .other := by
  obtain ⟨kind, hother, -, hkind⟩ := h.own
  exact hkind.mono fun c hc => hc ▸ hother

theorem charset_lenient (ctx : Context) : charset.Spares ctx Failure.IsBad := by
  refine Spares.peek.andThen fun ahead => ?_
  split
  · refine Spares.andThen ((Spares.word _ _).andThen fun _ => .quotedTail) fun content => ?_
    exact .ofExcept fun why _ => Failure.IsBad.not_refused why
  · exact .span .atomChar _

theorem permanentFlag_lenient (ctx : Context) : permanentFlag.Spares ctx Failure.IsBad := by
  refine (Spares.skip? _).andThen fun any => ?_
  split
  · exact .pure _
  · refine (Spares.skip? _).andThen fun backslash => ?_
    split
    · exact (Spares.span .atomChar _).andThen fun _ => .pure _
    · exact .span .atomChar _

theorem bareRule_known {name : String} {kind : CodeKind}
    (h : kind ≠ .other ∧ kind ≠ .capability ∧ spelling kind = Keyword.hyphened name) :
    Known name (bareRule kind) := by
  refine ⟨⟨kind, h.1, h.2.2, .pure rfl⟩, ?_, ?_⟩
  · intro _
    exact .pure h.2.1
  · intro _ _
    exact .pure _

theorem numberRule_known {name : String} {kind : CodeKind}
    (h : name ∈ strict ∧ kind ≠ .other ∧ spelling kind = Keyword.hyphened name) :
    Known name (numberRule kind) := by
  refine ⟨?_, (absurd h.1 ·), (absurd h.1 ·)⟩
  exact ⟨kind, h.2.1, h.2.2, .andThen fun _ => .andThen fun _ => .pure rfl⟩

theorem capabilityRule_known : Known "capability" capabilityRule := by
  refine ⟨?_, (absurd (by decide) ·), (absurd (by decide) ·)⟩
  exact ⟨.capability, by decide, by decide, .andThen fun _ => .pure rfl⟩

theorem badcharsetRule_known : Known "badcharset" badcharsetRule := by
  have hkind : badcharsetRule.Ensures fun c => c.kind = .badcharset := by
    refine .andThen fun found => ?_
    split
    · exact .andThen fun items => .pure rfl
    · exact .pure rfl
  refine ⟨⟨.badcharset, by decide, by decide, hkind⟩,
    fun _ => hkind.mono fun c hc => by rw [hc]; decide, fun _ ctx => ?_⟩
  refine (Spares.skip? _).andThen fun found => ?_
  split
  · exact (charset_lenient ctx).nonEmptyList.andThen fun _ => .pure _
  · exact .pure _

theorem permanentflagsRule_known : Known "permanentflags" permanentflagsRule := by
  refine ⟨?_, ?_, ?_⟩
  · exact ⟨.permanentflags, by decide, by decide, .andThen fun _ => .andThen fun _ => .pure rfl⟩
  · intro _
    refine .andThen fun _ => ?_
    refine .andThen fun _ => ?_
    exact .pure nofun
  · intro _ ctx
    refine (Spares.word _ _).andThen fun _ => ?_
    refine (permanentFlag_lenient ctx).list.andThen fun _ => ?_
    exact .pure _

theorem arguments_known : ∀ p ∈ arguments, Known p.1 p.2 := by
  simp only [arguments, List.forall_mem_cons]
  exact ⟨bareRule_known (by decide), bareRule_known (by decide), bareRule_known (by decide),
    bareRule_known (by decide), bareRule_known (by decide), badcharsetRule_known,
    capabilityRule_known, permanentflagsRule_known, numberRule_known (by decide),
    numberRule_known (by decide), numberRule_known (by decide), List.forall_mem_nil _⟩

theorem named_of_find? {atom : String} {rule : Rule Code}
    (h : Keyword.find? arguments atom = some rule) :
    ∃ name, Keyword.ruleName? "" atom = some name ∧ (name, rule) ∈ arguments := by
  obtain ⟨name, hname, hlookup⟩ := Option.bind_eq_some_iff.mp h
  exact ⟨name, hname, mem_of_lookup hlookup⟩

theorem known_of_find? {atom : String} {rule : Rule Code}
    (h : Keyword.find? arguments atom = some rule) :
    ∃ name, Keyword.ruleName? "" atom = some name ∧ Known name rule := by
  obtain ⟨name, hname, hmem⟩ := named_of_find? h
  exact ⟨name, hname, arguments_known _ hmem⟩

theorem build_other {atom : String} {text : Option String} {c : Code}
    (h : build .other .none (some atom) text = .ok c) : c = ⟨.other, .none, some atom, text⟩ := by
  unfold build at h
  split at h <;> cases h
  rfl

theorem otherRule_kind (atom : String) : (otherRule atom).Ensures fun c => c.kind = .other := by
  refine .andThen fun found => ?_
  split
  · exact .andThen fun _ => .ofExcept fun c hc => by rw [build_other hc]
  · exact .ofExcept fun c hc => by rw [build_other hc]

theorem otherRule_lenient (ctx : Context) (atom : String) :
    (otherRule atom).Spares ctx Failure.IsBad := by
  refine (Spares.skip? _).andThen fun found => ?_
  split
  · exact (Spares.span .bracketedChar _).andThen fun _ =>
      .ofExcept fun why _ => Failure.IsBad.not_refused why
  · exact .ofExcept fun why _ => Failure.IsBad.not_refused why

/-- Behind an atom that names no strict code nothing is bad. -/
theorem behindAtom_lenient {atom : String}
    (h : ∀ name, Keyword.ruleName? "" atom = some name → name ∉ strict) (ctx : Context) :
    (behindAtom atom).Spares ctx Failure.IsBad ∧
      (behindAtom atom).Ensures fun c => c.kind ≠ .capability := by
  have hother : (otherRule atom).Ensures fun c => c.kind ≠ .capability :=
    (otherRule_kind atom).mono fun c hc => by rw [hc]; exact nofun
  unfold behindAtom
  split
  · next known hfind =>
    obtain ⟨name, hname, hknown⟩ := known_of_find? hfind
    refine ⟨.orElse ?_ (otherRule_lenient ctx atom), .orElse ?_ hother⟩
    · exact (hknown.lenient (h name hname) ctx).andThen fun _ =>
        (Spares.word _ _).lookahead.andThen fun _ => .pure _
    · exact (hknown.noCapabilities (h name hname)).bind fun _ hc => .andThen fun _ => .pure hc
  · exact ⟨otherRule_lenient ctx atom, hother⟩

theorem strict_plain : ∀ name ∈ strict, Keyword.hyphened name = name := by decide

theorem complete_error {c : Code} {why : Failure} (h : complete c = .error why) :
    c.kind = .capability := by
  unfold complete at h
  split at h
  · next hkind _ => exact hkind
  · cases h

variable {ctx : Context} {bs rest : Bytes} {why : Failure}

theorem behindAtom_strict {found : String} {n : Nat} (hatom : Rule.atom ctx bs = .done found n)
    (h : ¬∀ name, Keyword.ruleName? "" found = some name → name ∉ strict) :
    ∃ rest, Rule.atom.Reads ctx bs found rest ∧ found.toLower ∈ strict := by
  obtain ⟨span, rest, rfl, rfl, run, rfl, rfl⟩ := Takes.span hatom
  simp only [not_forall, not_not] at h
  obtain ⟨name, hname, hmem⟩ := h
  have hlower : run.text.toLower = name :=
    (Keyword.toLower_of_ruleName? hname).trans (strict_plain name hmem)
  exact ⟨rest, .of_done hatom, hlower.symm ▸ hmem⟩

theorem rule_bad (h : Code.rule ctx bs = .failed why) (hbad : why.IsBad) :
    ∃ atom rest, Rule.atom.Reads ctx bs atom rest ∧ atom.toLower ∈ strict := by
  obtain hany | ⟨c, n, hany, hcomplete⟩ := refine_failed h
  · rw [anyRule_eq] at hany
    obtain hatom | ⟨found, n, why', hatom, hbehind, rfl⟩ := bind_failed hany
    · exact absurd hbad (Spares.span .atomChar _ _ _ hatom)
    · refine ⟨found, behindAtom_strict hatom fun hlenient => ?_⟩
      have hbad' : why'.IsBad := Failure.Grave.of_shift hbad
      exact (behindAtom_lenient hlenient ctx).1 _ _ hbehind hbad'
  · rw [anyRule_eq] at hany
    obtain ⟨found, n, m, hatom, hbehind, -⟩ := bind_done hany
    refine ⟨found, behindAtom_strict hatom fun hlenient => ?_⟩
    exact (behindAtom_lenient hlenient ctx).2 c ⟨_, _, _, hbehind⟩ (complete_error hcomplete)

/-- A code of the other kind between its brackets: its atom and, behind a space, its text. -/
inductive Verbatim : Code → Bytes → Prop
  | atom (a : Atom) : Verbatim ⟨.other, .none, some a.text, none⟩ a.octets
  | parameter (a : Atom) (p : Run Octet.isBracketedChar) :
    Verbatim ⟨.other, .none, some a.text, some p.text⟩ (a.octets ++ 0x20 :: p.octets)

theorem otherRule_takes (a : Atom) :
    (otherRule a.text).Takes fun c span => c.Verbatim (a.octets ++ span) := by
  refine (Takes.skip rfl rfl).bind fun found front hfront => ?_
  split
  · next hfound =>
    rw [hfront, if_pos hfound]
    refine Takes.span.bind fun text back hback => .ofExcept fun c hc => ?_
    obtain ⟨p, rfl, rfl⟩ := hback
    rw [build_other hc, List.append_nil]
    exact .parameter a p
  · next hfound =>
    refine .ofExcept fun c hc => ?_
    rw [hfront, if_neg hfound, build_other hc, List.append_nil, List.append_nil]
    exact .atom a

theorem behindAtom_takes (a : Atom) :
    (behindAtom a.text).Takes fun c span => c.kind = .other → c.Verbatim (a.octets ++ span) := by
  have hother := (otherRule_takes a).mono fun c span h (_ : c.kind = .other) => h
  unfold behindAtom
  split
  · next known hfind =>
    obtain ⟨name, hmem⟩ := Keyword.mem_of_find? hfind
    have hsteady : Steady (do
        let code ← known
        Rule.lookahead (Rule.word "]" (.word "]"))
        return code : Rule Code) :=
      (arguments_built (e := .line) (m := .wary) _ hmem).steady.bind fun _ _ =>
        (Steady.word _ _).lookahead.bind fun _ _ => .pure _
    refine .orElse ((Takes.of_gives hsteady.fits ?_).mono fun c span h hkind => absurd hkind h) hother
    exact (arguments_known _ hmem).kind.bind fun _ hc => .andThen fun _ => .pure hc
  · exact hother

theorem rule_takes : Code.rule.Takes fun c span => c.kind = .other → c.Verbatim span := by
  refine Takes.refine (P := fun c span => c.kind = .other → c.Verbatim span) ?_
    fun c c' span h hok => complete_ok hok ▸ h
  rw [anyRule_eq]
  refine Takes.span.bind fun found front hfront => ?_
  obtain ⟨a, rfl, rfl⟩ := hfront
  exact behindAtom_takes a

/-- Brackets around a code, and a space behind them. -/
theorem bracketedRule_reads_iff {c : Code} : bracketedRule.Reads ctx bs c rest ↔
    ∃ s, bs = 0x5B :: (s ++ 0x5D :: 0x20 :: rest) ∧
      Code.rule.Reads ctx (s ++ 0x5D :: 0x20 :: rest) c (0x5D :: 0x20 :: rest) := by
  constructor
  · intro h
    obtain ⟨_, mid, hopen, h⟩ := h.of_bind
    obtain ⟨c', close, hcode, h⟩ := h.of_bind
    obtain ⟨_, space, hclose, h⟩ := h.of_bind
    obtain ⟨_, last, hspace, h⟩ := h.of_bind
    obtain ⟨rfl, rfl⟩ := h.of_pure
    rw [Reads.of_octet rfl rfl hspace] at hclose
    rw [Reads.of_octet rfl rfl hclose] at hcode
    have hspan := hcode
    obtain ⟨s, rfl, -⟩ := hspan
    exact ⟨s, Reads.of_octet rfl rfl hopen, hcode⟩
  · rintro ⟨s, rfl, hcode⟩
    refine (Reads.octet rfl).bind ?_
    refine hcode.bind ?_
    exact (Reads.octet rfl).bind (space_reads.bind (.pure c))

theorem bracketedRule_bad (h : bracketedRule ctx bs = .failed why) (hbad : why.IsBad) :
    ∃ more atom rest, bs = 0x5B :: more ∧ Rule.atom.Reads ctx more atom rest ∧
      atom.toLower ∈ strict := by
  obtain hopen | ⟨_, n, why', hopen, hrest, rfl⟩ := bind_failed h
  · exact absurd hbad (Spares.word _ _ _ _ hopen)
  · obtain ⟨rfl, more, rfl⟩ := octet_ahead rfl rfl hopen
    have hbad' : why'.IsBad := Failure.Grave.of_shift hbad
    obtain hcode | ⟨c, n, why'', -, hclose, rfl⟩ := bind_failed hrest
    · obtain ⟨atom, rest, hatom, hstrict⟩ := rule_bad hcode hbad'
      exact ⟨more, atom, rest, rfl, hatom, hstrict⟩
    · have hend : (do expect "]" .codeEnd; space; return c : Rule Code).Spares ctx Failure.IsBad :=
        (Spares.word _ _).andThen fun _ => (Spares.word _ _).andThen fun _ => .pure _
      exact absurd (Failure.Grave.of_shift hbad') (hend _ _ hclose)

end Code

end Imap
