import Imap.Proofs.Built.Status
import Imap.Proofs.Line.Framed
import Imap.Proofs.Values.Lexical

namespace Imap

open Rule
open Text (IsText)

/-- What every rule of a table ensures, its keyword ensures. -/
theorem Keyword.dispatch_ensures {α : Type} {table : List (String × Rule α)} {P : α → Prop}
    (unknown : String → Cause) (h : ∀ p ∈ table, p.2.Ensures P) :
    (dispatch table unknown).Ensures P := by
  refine .andThen fun keyword => ?_
  split
  · next rule hfind =>
    obtain ⟨name, hm⟩ := mem_of_find? hfind
    exact h _ hm
  · exact .fail

namespace Resource

theorem nulFree_iff {r : Resource} : NulFree r ↔ ∀ name, r.name? = some name → NulFree name := by
  rw [← NulFree.option]
  exact ⟨fun h => h.2.1, fun h => ⟨trivial, h, trivial⟩⟩

theorem nulFree_ofAtom {atom : String} (ha : NulFree atom) {r : Resource}
    (h : ofAtom atom = .ok r) : NulFree r := by
  unfold ofAtom at h
  split at h
  · next hknown =>
    cases h
    have hmem := List.mem_of_find?_eq_some hknown
    simp only [List.mem_cons, List.not_mem_nil, or_false] at hmem
    rcases hmem with rfl | rfl | rfl | rfl <;> exact nulFree_iff.mpr nofun
  · simp only [build] at h
    split at h
    · cases h
    · split at h <;> cases h
      refine nulFree_iff.mpr fun name hname => ?_
      cases hname
      exact ha

theorem rule_ensures : Resource.rule.Ensures fun r => NulFree r := by
  refine atom_ensures.bind fun _ ha => ?_
  refine .ofExcept fun _ hr => ?_
  exact nulFree_ofAtom ha.2 hr

end Resource

namespace Capability

theorem nulFree_auth {mechanism : String} (h : NulFree mechanism) : NulFree (auth mechanism) :=
  ⟨trivial, h, trivial⟩

theorem nulFree_quotaRes {r : Resource} (h : NulFree r) : NulFree (quotaRes r) :=
  ⟨trivial, h, trivial⟩

theorem nulFree_other {token : String} (h : NulFree token) : NulFree (other token) :=
  ⟨trivial, h, trivial⟩

theorem nulFree_word : ∀ c ∈ coreWords ++ quotaWords, NulFree c := by
  simp only [coreWords, quotaWords, List.cons_append, List.nil_append, List.forall_mem_cons]
  exact ⟨⟨trivial, trivial, trivial⟩, ⟨trivial, trivial, trivial⟩, ⟨trivial, trivial, trivial⟩,
    ⟨trivial, trivial, trivial⟩, ⟨trivial, trivial, trivial⟩, ⟨trivial, trivial, trivial⟩,
    ⟨trivial, trivial, trivial⟩, ⟨trivial, trivial, trivial⟩, ⟨trivial, trivial, trivial⟩,
    List.forall_mem_nil _⟩

theorem nulFree_build {token : String} (ht : NulFree token) {c : Capability}
    (h : build .other (.text token) = .ok c) : NulFree c := by
  simp only [build] at h
  split at h
  · cases h
  · split at h <;> cases h
    exact nulFree_other ht

theorem nulFree_classify {d : Dialect} {atom : String} (ha : NulFree atom) {c : Capability}
    (h : classify d atom = .ok c) : NulFree c := by
  simp only [classify] at h
  split at h
  · next hword =>
    cases h
    have hmem := List.mem_of_find?_eq_some hword
    refine nulFree_word _ ?_
    split at hmem
    · exact hmem
    · exact List.mem_append_left _ hmem
  · split at h
    · next name hname =>
      have hn : NulFree name := by
        simp only [parameterOf?] at hname
        split at hname <;> cases hname
        exact Text.nulFree_drop ha _
      split at h
      · cases hr : Resource.ofAtom name with
        | error why => rw [hr] at h; cases h
        | ok r =>
          rw [hr] at h
          cases h
          exact nulFree_quotaRes (Resource.nulFree_ofAtom hn hr)
      · exact nulFree_build ha h
    · exact nulFree_build ha h

theorem rule_ensures : Capability.rule.Ensures fun c => NulFree c := by
  refine .alt (.andThen fun _ => atom_ensures.bind fun atom ha => .ofExcept fun c hc => ?_) ?_
  · simp only [build] at hc
    split at hc <;> cases hc
    exact nulFree_auth (Text.nulFree_toUpper ha.2)
  · exact atom_ensures.bind fun atom ha => .andThen fun d =>
      .ofExcept fun c hc => nulFree_classify ha.2 hc

theorem listRule_ensures : listRule.Ensures fun cs => cs ≠ [] ∧ ∀ c ∈ cs, NulFree c := by
  refine .andThen fun _ => ?_
  exact rule_ensures.separated _

theorem complete_ok {cs cs' : List Capability} (h : complete cs = .ok cs') :
    cs' = cs ∧ imap4rev1 ∈ cs := by
  unfold complete at h
  split at h
  · next hmem =>
    cases h
    exact ⟨rfl, hmem⟩
  · cases h

end Capability

namespace Code

/-- Codes that number carry one of 32 bits other than zero, and capabilities hold IMAP4rev1. -/
def WellFormed (c : Code) : Prop :=
  match c.kind with
  | .capability => ∃ items, c.argument = .capabilities items ∧ Capability.imap4rev1 ∈ items
  | .uidnext | .uidvalidity | .unseen => ∃ n, c.argument = .number n ∧ 0 < n ∧ n < 0x100000000
  | _ => True

/-- A code as long as nobody has looked at its capabilities. -/
def Shaped (c : Code) : Prop :=
  (∃ items, c = known .capability (.capabilities items)) ∨ c.WellFormed

theorem nulFree_iff {c : Code} : NulFree c ↔ NulFree c.argument ∧ NulFree c.atom ∧ NulFree c.text := by
  constructor
  · intro h
    exact ⟨h.2.1, h.2.2.1, h.2.2.2.1⟩
  · intro h
    exact ⟨trivial, h.1, h.2.1, h.2.2, trivial⟩

theorem nulFree_known (kind : CodeKind) {argument : CodeArgument} (h : NulFree argument) :
    NulFree (known kind argument) := by
  rw [nulFree_iff]
  exact ⟨h, trivial, trivial⟩

theorem numberRule_ensures (kind : CodeKind) : (numberRule kind).Ensures fun c =>
    (∃ n : Int, c = known kind (.number n) ∧ 0 < n ∧ n < 0x100000000) ∧ NulFree c := by
  refine .andThen fun _ => nonZeroNumber_ensures.bind fun n hn => .pure ⟨⟨n, rfl, ?_⟩, ?_⟩
  · omega
  · exact nulFree_known kind (trivial : NulFree (CodeArgument.number n))

theorem nulFree_texts {items : List String} (h : ∀ s ∈ items, NulFree s) :
    NulFree (CodeArgument.texts items) :=
  NulFree.list.mpr h

theorem badcharsetRule_ensures : badcharsetRule.Ensures fun c => c.Shaped ∧ NulFree c := by
  refine .andThen fun found => ?_
  split
  · exact charset_ensures.nonEmptyList.bind fun items h =>
      .pure ⟨.inr trivial, nulFree_known _ (nulFree_texts h.2)⟩
  · exact .pure ⟨.inr trivial, nulFree_known _ (nulFree_texts nofun)⟩

theorem permanentflagsRule_ensures : permanentflagsRule.Ensures fun c => c.Shaped ∧ NulFree c := by
  refine .andThen fun _ => ?_
  refine permanentFlag_ensures.list.bind fun _ h => ?_
  exact .pure ⟨.inr trivial, nulFree_known _ (nulFree_texts h)⟩

theorem capabilityRule_ensures : capabilityRule.Ensures fun c => c.Shaped ∧ NulFree c := by
  refine Capability.listRule_ensures.bind fun items h => ?_
  exact .pure ⟨.inl ⟨items, rfl⟩, nulFree_known _ (NulFree.list.mpr h.2)⟩

theorem arguments_ensure : ∀ p ∈ arguments, p.2.Ensures fun c => c.Shaped ∧ NulFree c := by
  have bare {kind : CodeKind} (h : (known kind .none).WellFormed) :
      (bareRule kind).Ensures fun c => c.Shaped ∧ NulFree c :=
    .pure ⟨.inr h, nulFree_known kind trivial⟩
  have number {kind : CodeKind} (h : ∀ n : Int, 0 < n ∧ n < 0x100000000 →
      (known kind (.number n)).WellFormed) :
      (numberRule kind).Ensures fun c => c.Shaped ∧ NulFree c :=
    (numberRule_ensures kind).mono fun c hc => by
      obtain ⟨⟨n, rfl, hn⟩, hfree⟩ := hc
      exact ⟨.inr (h n hn), hfree⟩
  simp only [arguments, List.forall_mem_cons]
  exact ⟨bare trivial, bare trivial, bare trivial, bare trivial, bare trivial,
    badcharsetRule_ensures, capabilityRule_ensures, permanentflagsRule_ensures,
    number fun n hn => ⟨n, rfl, hn⟩, number fun n hn => ⟨n, rfl, hn⟩,
    number fun n hn => ⟨n, rfl, hn⟩, List.forall_mem_nil _⟩

theorem otherRule_ensures {atom : String} (ha : NulFree atom) :
    (otherRule atom).Ensures fun c => c.Shaped ∧ NulFree c := by
  have built {text : Option String} (ht : NulFree text) :
      (Rule.ofExcept (build .other .none (some atom) text)).Ensures fun c =>
        c.Shaped ∧ NulFree c := by
    refine .ofExcept fun c hc => ?_
    simp only [build] at hc
    split at hc <;> cases hc
    exact ⟨.inr trivial, nulFree_iff.mpr ⟨trivial, ha, ht⟩⟩
  refine .andThen fun found => ?_
  split
  · exact (span_ensures rfl _).bind fun text ht => built ht.2
  · exact built trivial

theorem anyRule_ensures : anyRule.Ensures fun c => c.Shaped ∧ NulFree c := by
  refine atom_ensures.bind fun atom ha => ?_
  have other := otherRule_ensures ha.2
  split
  · next known hfind =>
    obtain ⟨name, hm⟩ := Keyword.mem_of_find? hfind
    refine .orElse ?_ other
    exact (arguments_ensure _ hm).bind fun _ hc => .andThen fun _ => .pure hc
  · exact other

theorem rule_ensures : Code.rule.Ensures fun c => c.WellFormed ∧ NulFree c := by
  refine anyRule_ensures.refine fun c c' hc hj => ?_
  obtain ⟨hshape, hfree⟩ := hc
  rcases hshape with ⟨items, rfl⟩ | hwell
  · simp only [complete, known] at hj
    cases hcs : Capability.complete items with
    | error why => rw [hcs] at hj; cases hj
    | ok cs =>
      rw [hcs] at hj
      cases hj
      exact ⟨⟨items, rfl, (Capability.complete_ok hcs).2⟩, hfree⟩
  · rw [complete_ok hj]
    exact ⟨hwell, hfree⟩

theorem bracketedRule_ensures : bracketedRule.Ensures fun c => c.WellFormed ∧ NulFree c := by
  refine .andThen fun _ => ?_
  refine rule_ensures.bind fun _ hc => ?_
  refine .andThen fun _ => ?_
  refine .andThen fun _ => ?_
  exact .pure hc

end Code

/-- A text, and a code behind a status keyword. -/
structure StatusText.WellFormed (c : StatusText) : Prop where
  text : IsText c.2
  code : ∀ code, c.1 = some code → code.WellFormed ∧ NulFree code

theorem StatusText.rule_ensures : StatusText.rule.Ensures StatusText.WellFormed := by
  refine Code.bracketedRule_ensures.opt.bind fun _ hcode => ?_
  refine text_ensures.bind fun _ htext => ?_
  exact .pure ⟨htext, hcode⟩

theorem StatusKind.conditionRule_ensures (allowed : List StatusKind) :
    (conditionRule allowed).Ensures fun c => c.1 ∈ allowed ∧ StatusText.WellFormed c.2 := by
  refine .and (fun _ => conditionRule_gives) ?_
  refine .andThen fun _ => ?_
  refine .andThen fun _ => ?_
  refine StatusText.rule_ensures.bind fun _ h => ?_
  exact .pure h

namespace Status

/-- A status: of one of the kinds allowed, with text, and no NUL in any part of it. -/
structure WellFormed (allowed : List StatusKind) (s : Status) : Prop where
  kind : s.kind ∈ allowed
  text : IsText s.text
  code : ∀ c, s.code = some c → c.WellFormed

/-- What is allowed depends on whether a command is completed. -/
def InResponse (s : Status) : Prop :=
  if s.isTagged then s.WellFormed [.ok, .no, .bad] else s.WellFormed [.ok, .no, .bad, .bye]

def InGreeting (s : Status) : Prop := s.tag = none ∧ s.WellFormed [.ok, .preauth, .bye]

theorem WellFormed.mono {allowed allowed' : List StatusKind} {s : Status}
    (h : s.WellFormed allowed) (hsub : allowed ⊆ allowed') : s.WellFormed allowed' :=
  ⟨hsub h.kind, h.text, h.code⟩

theorem nulFree_iff {s : Status} : NulFree s ↔ NulFree s.text ∧ NulFree s.tag ∧ NulFree s.code := by
  constructor
  · intro h
    exact ⟨h.2.1, h.2.2.1, h.2.2.2.1⟩
  · intro h
    exact ⟨trivial, h.1, h.2.1, h.2.2, trivial⟩

theorem ofCondition_ensures {allowed : List StatusKind} {tag : Option String} (htag : NulFree tag)
    {c : StatusKind × StatusText} (hkind : c.1 ∈ allowed) (hc : StatusText.WellFormed c.2) :
    (ofCondition tag c).Ensures fun s => s.tag = tag ∧ s.WellFormed allowed ∧ NulFree s := by
  refine .ofExcept fun s hs => ?_
  simp only [build] at hs
  split at hs
  · cases hs
  · cases hs
    refine ⟨rfl, ⟨hkind, hc.text, fun code h => (hc.code code h).1⟩, nulFree_iff.mpr ⟨?_, htag, ?_⟩⟩
    · exact hc.text.nulFree
    · exact NulFree.option.mpr fun code h => (hc.code code h).2

theorem noTag : NulFree (none : Option String) := NulFree.none

theorem untagged_ensures (allowed : List StatusKind) :
    Ensures (do ofCondition none (← StatusKind.conditionRule allowed)) fun s =>
      s.tag = none ∧ s.WellFormed allowed ∧ NulFree s := by
  refine (StatusKind.conditionRule_ensures allowed).bind fun _ h => ?_
  exact ofCondition_ensures noTag h.1 h.2

theorem InResponse.of_untagged {s : Status} (ht : s.tag = none)
    (hs : s.WellFormed [.ok, .no, .bad, .bye]) : s.InResponse := by
  rw [InResponse, isTagged, ht]
  exact hs

theorem stateRule_ensures : Status.stateRule.Ensures fun s => s.InResponse ∧ NulFree s := by
  refine (untagged_ensures [.ok, .no, .bad]).mono fun _ h => ?_
  exact ⟨.of_untagged h.1 (h.2.1.mono (by simp)), h.2.2⟩

theorem byeRule_ensures : Status.byeRule.Ensures fun s => s.InResponse ∧ NulFree s := by
  refine (untagged_ensures [.bye]).mono fun _ h => ?_
  exact ⟨.of_untagged h.1 (h.2.1.mono (by simp)), h.2.2⟩

theorem greetingRule_ensures : Status.greetingRule.Ensures fun s => s.InGreeting ∧ NulFree s := by
  have condition : (Rule.oneOf StatusKind.authRule [StatusKind.byeRule]).Ensures fun c =>
      c.1 ∈ [.ok, .preauth, .bye] ∧ StatusText.WellFormed c.2 := by
    refine .alt ?_ ?_
    · exact (StatusKind.conditionRule_ensures [.ok, .preauth]).mono fun _ h =>
        ⟨(by simp : [.ok, .preauth] ⊆ [StatusKind.ok, .preauth, .bye]) h.1, h.2⟩
    · exact (StatusKind.conditionRule_ensures [.bye]).mono fun _ h =>
        ⟨(by simp : [.bye] ⊆ [StatusKind.ok, .preauth, .bye]) h.1, h.2⟩
  refine .andThen fun _ => ?_
  refine .andThen fun _ => ?_
  refine condition.bind fun c hc => ?_
  refine .andThen fun _ => ?_
  refine (ofCondition_ensures noTag hc.1 hc.2).mono fun s h => ?_
  exact ⟨⟨h.1, h.2.1⟩, h.2.2⟩

theorem taggedRule_ensures : taggedRule.Ensures fun s => s.InResponse ∧ NulFree s := by
  refine tag_ensures.bind fun tag htag => ?_
  refine .andThen fun _ => ?_
  refine (StatusKind.conditionRule_ensures [.ok, .no, .bad]).bind fun c hc => ?_
  refine .andThen fun _ => ?_
  refine (ofCondition_ensures htag hc.1 hc.2).mono fun s h => ?_
  refine ⟨?_, h.2.2⟩
  rw [InResponse, isTagged, h.1]
  exact h.2.1

theorem fatalRule_ensures : fatalRule.Ensures fun s => s.InResponse ∧ NulFree s := by
  refine .andThen fun _ => ?_
  refine .andThen fun _ => ?_
  refine (StatusKind.conditionRule_ensures [.bye]).bind fun c hc => ?_
  refine .andThen fun _ => ?_
  refine (ofCondition_ensures noTag hc.1 hc.2).mono fun s h => ?_
  exact ⟨.of_untagged h.1 (h.2.1.mono (by simp)), h.2.2⟩

theorem doneRule_ensures : doneRule.Ensures fun s => s.InResponse ∧ NulFree s := by
  refine .alt ?_ ?_
  · exact taggedRule_ensures
  · exact fatalRule_ensures

end Status

namespace Continuation

/-- There is text, or nothing at all in base64. -/
def WellFormed : Continuation → Prop
  | text s code => IsText s ∧ ∀ c, code = some c → c.WellFormed
  | base64 data => data = ""

theorem nulFree_text {s : String} {code : Option Code} (hs : NulFree s) (hc : NulFree code) :
    NulFree (text s code) := ⟨hs, hc, trivial, trivial⟩

theorem textRule_ensures : textRule.Ensures fun c => c.WellFormed ∧ NulFree c := by
  refine StatusText.rule_ensures.bind fun _ hc => ?_
  have hcode := NulFree.option.mpr fun code h => (hc.code code h).2
  refine .pure ⟨⟨hc.text, ?_⟩, nulFree_text hc.text.nulFree hcode⟩
  intro code h
  exact (hc.code code h).1

/-- What begins like text is text, or wants more octets. -/
theorem textRule_not_miss {ctx : Context} {b : UInt8} (bs : Bytes) (hb : Octet.isTextChar b = true)
    (hbracket : b ≠ 0x5B) (cause : Cause) (position : Nat) :
    textRule ctx (b :: bs) ≠ .failed (.miss cause position) := by
  have hlower : Octet.lower b ≠ 0x5B := mt (Octet.lower_eq_iff (by decide)).mp hbracket
  have hexpect : expect "[" .codeStart ctx (b :: bs) =
      .failed (.miss (.expected .codeStart) 0) := by
    have : compareWord ((Bytes.ofText "[").map Octet.lower) (b :: bs) = .different := if_neg hlower
    simp only [expect, word, this]
  have hcode : Rule.opt Code.bracketedRule ctx (b :: bs) = .done none 0 := by
    have hmiss : Code.bracketedRule ctx (b :: bs) = .failed (.miss (.expected .codeStart) 0) :=
      bind_of_failed hexpect
    simp only [Rule.opt, hmiss]
  have htext (cause : Cause) (position : Nat) :
      StatusText.rule ctx (b :: bs) ≠ .failed (.miss cause position) := by
    intro h
    obtain h | ⟨code, n, place, hd, h⟩ := bind_miss h
    · rw [hcode] at h
      cases h
    · rw [hcode] at hd
      cases hd
      obtain h | ⟨_, _, _, -, h⟩ := bind_miss h
      · exact span_not_miss bs hb _ _ h
      · cases h
  intro h
  obtain h | ⟨_, _, _, -, h⟩ := bind_miss h
  · exact htext _ _ h
  · cases h

/-- Data in base64 with anything in it would have been text. -/
theorem base64Rule_after_text {ctx : Context} {bs : Bytes} {c : Continuation} {used : Nat}
    {cause : Cause} {position : Nat} (htext : textRule ctx bs = .failed (.miss cause position))
    (h : base64Rule ctx bs = .done c used) : c = base64 "" := by
  obtain ⟨data, n, m, hdata, hpure, -⟩ := bind_done h
  cases hpure
  obtain ⟨found, htoken, hj⟩ := refine_done hdata
  have hfound := (token_done htoken).1
  split at hj
  · cases hj
    cases htaken : bs.take (Base64.tokenLength bs) with
    | nil =>
      rw [hfound, htaken]
      rfl
    | cons b rest =>
      have hmem : b ∈ bs.take (Base64.tokenLength bs) := by simp [htaken]
      obtain ⟨hchar, hbracket⟩ := Base64.isTextChar_of_token hmem
      obtain ⟨bs', rfl⟩ : ∃ bs', bs = b :: bs' := by
        obtain ⟨bs', hbs⟩ : b :: rest <+: bs := htaken ▸ List.take_prefix _ _
        exact ⟨rest ++ bs', hbs.symm⟩
      exact absurd htext (textRule_not_miss bs' hchar hbracket _ _)
  · cases hj

theorem content_ensures :
    (Rule.oneOf textRule [base64Rule]).Ensures fun c => c.WellFormed ∧ NulFree c := by
  rintro c ⟨ctx, bs, used, h⟩
  obtain h | ⟨⟨cause, position, htext⟩, h⟩ := alt_done h
  · exact textRule_ensures c ⟨_, _, _, h⟩
  · rw [base64Rule_after_text htext h]
    exact ⟨rfl, trivial, trivial, (by decide : Text.NulFree ""), trivial⟩

theorem rule_ensures : Continuation.rule.Ensures fun c => c.WellFormed ∧ NulFree c := by
  refine .andThen fun _ => ?_
  refine .andThen fun _ => ?_
  refine content_ensures.bind fun _ hc => ?_
  refine .andThen fun _ => ?_
  exact .pure hc

end Continuation

end Imap
