import Imap.Proofs.Built.Lexical
import Imap.Proofs.Built.Willing
import Imap.Proofs.Letters
import Imap.Status

namespace Imap

open Rule

variable {e : Extent} {m : Manner} {α : Type}

theorem mem_of_lookup {table : List (String × α)} {name : String} {a : α}
    (h : table.lookup name = some a) : (name, a) ∈ table := by
  obtain ⟨before, after, rfl, -⟩ := List.lookup_eq_some_iff.mp h
  simp

theorem lookup_of_mem {table : List (String × α)} {name : String} {a : α}
    (hnodup : (table.map Prod.fst).Nodup) (h : (name, a) ∈ table) :
    table.lookup name = some a := by
  induction table with
  | nil => cases h
  | cons e table ih =>
    obtain ⟨hnew, hothers⟩ := List.nodup_cons.mp hnodup
    rcases List.mem_cons.mp h with rfl | htable
    · exact List.lookup_cons_self
    · have hne : name ≠ e.1 := by
        rintro rfl
        exact hnew (List.mem_map.mpr ⟨_, htable, rfl⟩)
      rw [List.lookup_cons, beq_eq_false_iff_ne.mpr hne]
      exact ih hothers htable

/-- Words that all name one entry of a table are found there. -/
theorem Keyword.find?_of_names {table : List (String × α)} {words names : List String} {a : α}
    {word : String} (hnodup : (table.map Prod.fst).Nodup)
    (hnames : words.map (Keyword.ruleName? "") = names.map some)
    (hall : ∀ name ∈ names, (name, a) ∈ table) (h : word ∈ words) :
    Keyword.find? table word = some a := by
  have hword : Keyword.ruleName? "" word ∈ names.map some := by
    rw [← hnames]
    exact List.mem_map_of_mem h
  obtain ⟨name, hname, hrule⟩ := List.mem_map.mp hword
  rw [Keyword.find?, ← hrule]
  exact lookup_of_mem hnodup (hall name hname)

theorem Keyword.mem_of_find? {table : List (String × α)} {keyword : String} {a : α}
    (h : Keyword.find? table keyword = some a) : ∃ name, (name, a) ∈ table := by
  obtain ⟨name, -, hl⟩ := Option.bind_eq_some_iff.mp h
  exact ⟨name, mem_of_lookup hl⟩

theorem Keyword.dispatch_built {table : List (String × Rule α)} (unknown : String → Cause)
    (h : ∀ p ∈ table, Built e m p.2) : Built e m (Keyword.dispatch table unknown) := by
  refine (Built.lookahead atom_built).andThen fun keyword => ?_
  split
  · next rule hfind =>
    obtain ⟨name, hm⟩ := Keyword.mem_of_find? hfind
    exact h _ hm
  · exact .fail (.miss _)

namespace Capability

theorem parameterOf?_ne_empty {kind : CapabilityKind} {s name : String}
    (h : parameterOf? kind s = some name) : name ≠ "" := by
  simp only [parameterOf?] at h
  split at h
  · next hlong =>
    cases h
    intro hempty
    have hlen := congrArg (List.length ∘ String.toList) hempty
    simp only [Function.comp, String.toList_ofList, List.length_drop] at hlen
    have : s.toList.length = s.length := String.length_toList
    simp at hlen
    omega
  · cases h

/-- Only a mechanism is refused as a plain token, where the quota extension is known. -/
theorem classify_refused {d : Dialect} {atom : String} {why : Refusal} (hd : d.knowsQuota = true)
    (ha : atom ≠ "") (h : classify d atom = .error why) : (parameterOf? .auth atom).isSome := by
  simp only [classify, hd, if_true] at h
  split at h
  · cases h
  · next hword =>
    cases hq : parameterOf? .quotaRes atom with
    | some name =>
      obtain ⟨r, hr⟩ := Resource.ofAtom_ok (parameterOf?_ne_empty hq)
      simp only [hq, hr] at h
      cases h
    | none =>
      simp only [hq, build, if_neg ha] at h
      split at h
      · next hknown => simpa [isKnown, hword, hq] using hknown
      · cases h

theorem build_auth_ok {mechanism : String} (h : mechanism ≠ "") :
    ∃ c, build .auth (.text mechanism.toUpper) = .ok c := by
  have hupper : mechanism.toUpper ≠ "" := by
    intro he
    have hl := congrArg String.toList he
    simp only [String.toUpper, String.toList_map, String.toList_empty, List.map_eq_nil_iff] at hl
    exact h (String.toList_eq_nil_iff.mp hl)
  exact ⟨_, if_neg hupper⟩

theorem authRule_built : Built e m authRule := by
  refine (Built.word _ _ (by decide)).andThen fun _ => ?_
  apply atom_built.bind
  intro _ ha
  refine .ofExcept _ fun _ => ?_
  exact build_auth_ok (atom_gives ha)

theorem atomRule_built : Built e .wary atomRule := by
  refine atom_built.andThen fun _ => ?_
  refine Built.dialect.andThen fun _ => ?_
  exact .ofExcept _ nofun

/-- The octets behind which an atom that is a mechanism has its name. -/
theorem auth_iff {bs : Bytes} : (parameterOf? .auth (Bytes.text bs)).isSome ↔
    (Bytes.ofText "auth=").map Octet.lower <+: bs.map Octet.lower ∧ 5 < bs.length := by
  have hspelling : (spelling CapabilityKind.auth).toList =
      ((Bytes.ofText "auth=").map Octet.lower).map Octet.char := by decide
  have hlength : (spelling CapabilityKind.auth).toList.length = 5 := by decide
  have hlen : (Bytes.text bs).length = bs.length := by
    rw [← String.length_toList, Bytes.text_toList, List.length_map]
  simp only [parameterOf?, Option.isSome_ite, List.isPrefixOf_iff_prefix, Bytes.text_toLower, hlen,
    hlength]
  rw [hspelling, List.prefix_map_iff_of_injective Octet.char_injective]

/-- Where an atom is a mechanism with its prefix, it is found as one. -/
theorem authRule_of_atom {ctx : Context} {bs : Bytes} {found : String} {n : Nat}
    (h : Rule.atom ctx bs = .done found n) (hp : (parameterOf? .auth found).isSome)
    (cause : Cause) (position : Nat) : authRule ctx bs ≠ .failed (.miss cause position) := by
  intro hmiss
  obtain ⟨rfl, -⟩ := span_done h
  obtain ⟨hstart, hlen⟩ := auth_iff.mp hp
  have hbs := List.takeWhile_prefix (l := bs) Octet.isAtomChar
  have hword : Rule.word "auth=" (.word "auth=") ctx bs = .done () 5 := by
    have heq := compareWord_of_prefix (hstart.trans (hbs.map Octet.lower))
    simp only [Rule.word, heq]
    rfl
  rcases bind_miss hmiss with hfirst | ⟨_, k, p, hfirst, hrest⟩
  · rw [hword] at hfirst
    cases hfirst
  · rw [hword] at hfirst
    cases hfirst
    rcases bind_miss hrest with hatom | ⟨name, _, _, _, hbuild⟩
    · obtain ⟨c, cs, hc⟩ := List.exists_cons_of_length_pos
        (l := (bs.takeWhile Octet.isAtomChar).drop 5) (by rw [List.length_drop]; omega)
      have hmem : c ∈ bs.takeWhile Octet.isAtomChar := List.mem_of_mem_drop (by rw [hc]; simp)
      have hchar := List.all_eq_true.mp List.all_takeWhile c hmem
      obtain ⟨tail, htail⟩ := hbs
      rw [← htail, List.drop_append_of_le_length (by omega), hc] at hatom
      exact span_not_miss _ hchar _ _ hatom
    · cases hx : build .auth (.text name.toUpper) with
      | ok c => rw [hx] at hbuild; cases hbuild
      | error why => rw [hx] at hbuild; cases hbuild

theorem rule_willing : Willing Capability.rule := by
  refine willing_iff.mpr fun ctx hq bs why h hrefused => ?_
  have auth : Willing authRule := (authRule_built : Built .line .willing _).willing
  have hatom : Willing Rule.atom := (atom_built : Built .line .willing _).willing
  change authRule.alt atomRule ctx bs = _ at h
  obtain hauth | ⟨cause, position, why, hmiss, hany, rfl⟩ := alt_failed h
  · exact willing_iff.mp auth ctx hq _ _ hauth hrefused
  obtain hfirst | ⟨found, n, why', hfound, hrest, -⟩ := bind_failed hany
  · exact willing_iff.mp hatom ctx hq _ _ hfirst (grave_of_furthest hrefused)
  · have hne : found ≠ "" := atom_gives ⟨_, _, _, hfound⟩
    rw [dialect_bind] at hrest
    cases hc : classify ctx.dialect found with
    | ok c => rw [hc] at hrest; cases hrest
    | error refusal => exact authRule_of_atom hfound (classify_refused hq hne hc) _ _ hmiss

theorem rule_built : Built .line m Capability.rule := by
  have both : Built .line .wary Capability.rule := .alt (by decide) authRule_built atomRule_built
  cases m with
  | wary => exact both
  | willing => exact both.willingly rule_willing

theorem listRule_built : Built e m listRule := by
  refine space_built.andThen fun _ => ?_
  exact .separated (by decide) rule_built

theorem complete_here {cs : List Capability} {why : Failure} (h : complete cs = .error why) :
    why.Here := by
  unfold complete at h
  split at h <;> cases h
  exact .bad _

theorem dataRule_built : Built e m dataRule := by
  refine .refine ?_ fun _ _ => complete_here
  refine (keyword_built _).discard.andThen fun _ => ?_
  exact listRule_built

end Capability

namespace Code

theorem numberRule_built (kind : CodeKind) : Built e m (numberRule kind) := by
  refine space_built.andThen fun _ => ?_
  refine nonZeroNumber_built.andThen fun _ => ?_
  exact .pure _

theorem badcharsetRule_built : Built e m badcharsetRule := by
  refine (Built.skip? _ (by decide)).andThen fun found => ?_
  split
  · exact charset_built.nonEmptyList.andThen fun _ => .pure _
  · exact .pure _

theorem capabilityRule_built : Built e m capabilityRule := by
  refine Capability.listRule_built.andThen fun _ => ?_
  exact .pure _

theorem permanentflagsRule_built : Built e m permanentflagsRule := by
  refine space_built.andThen fun _ => ?_
  refine permanentFlag_built.list.andThen fun _ => ?_
  exact .pure _

theorem arguments_built : ∀ p ∈ arguments, Built e m p.2 := by
  simp only [arguments, List.forall_mem_cons]
  exact ⟨.pure _, .pure _, .pure _, .pure _, .pure _, badcharsetRule_built, capabilityRule_built,
    permanentflagsRule_built, numberRule_built _, numberRule_built _, numberRule_built _, nofun⟩

theorem build_ok {kind : CodeKind} {argument : CodeArgument} {atom : String} {text : Option String}
    (h : atom ≠ "") : ∃ c, build kind argument (some atom) text = .ok c := by
  refine ⟨_, if_neg ?_⟩
  intro hc
  exact h hc.2

theorem otherRule_built {atom : String} (h : atom ≠ "") : Built e m (otherRule atom) := by
  refine (Built.skip? _ (by decide)).andThen fun found => ?_
  split
  · exact (Built.span rfl .bracketedChar _).andThen fun _ => .ofExcept _ fun _ => build_ok h
  · exact .ofExcept _ fun _ => build_ok h

theorem anyRule_built : Built .line m anyRule := by
  refine atom_built.bind fun atom ha => ?_
  have other : Built .line m (otherRule atom) := otherRule_built (atom_gives ha)
  split
  · next known hfind =>
    obtain ⟨name, hm⟩ := Keyword.mem_of_find? hfind
    have bracket : Built .line m (Rule.lookahead (Rule.word "]" (.word "]"))) :=
      .lookahead (.word _ _ (by decide))
    refine .orElse (by decide) ?_ other
    exact (arguments_built _ hm).andThen fun _ => bracket.andThen fun _ => .pure _
  · exact other

theorem complete_here {c : Code} {why : Failure} (h : complete c = .error why) : why.Here := by
  unfold complete at h
  split at h
  · next items _ _ =>
    cases hc : Capability.complete items with
    | ok cs => rw [hc] at h; cases h
    | error why' => rw [hc] at h; cases h; exact Capability.complete_here hc
  · cases h

theorem complete_ok {c c' : Code} (h : complete c = .ok c') : c' = c := by
  unfold complete at h
  split at h
  · next items _ _ =>
    cases hc : Capability.complete items with
    | error why => rw [hc] at h; cases h
    | ok cs => rw [hc] at h; cases h; rfl
  · cases h
    rfl

theorem rule_built : Built .line m Code.rule := anyRule_built.refine fun _ _ => complete_here

theorem bracketedRule_built : Built .line m bracketedRule := by
  refine (Built.expect _ _ (by decide)).andThen fun _ => ?_
  refine rule_built.andThen fun _ => ?_
  refine (Built.expect _ _ (by decide)).andThen fun _ => ?_
  refine space_built.andThen fun _ => ?_
  exact .pure _

end Code

theorem StatusText.rule_built : Built .line m StatusText.rule := by
  refine (Built.opt (by decide) Code.bracketedRule_built).andThen fun _ => ?_
  refine text_built.andThen fun _ => ?_
  exact .pure _

namespace StatusKind

theorem rule_built (allowed : List StatusKind) : Built e m (rule allowed) := by
  refine .refine atom_built fun found why h => ?_
  split at h <;> cases h
  exact .miss _

theorem conditionRule_built (allowed : List StatusKind) : Built .line m (conditionRule allowed) := by
  refine (rule_built allowed).andThen fun _ => ?_
  refine space_built.andThen fun _ => ?_
  refine StatusText.rule_built.andThen fun _ => ?_
  exact .pure _

theorem conditionRule_gives {allowed : List StatusKind} {condition : StatusKind × StatusText}
    (h : (conditionRule allowed).Gives condition) : condition.1 ∈ allowed := by
  obtain ⟨kind, hkind, h⟩ := h.of_bind
  obtain ⟨_, -, h⟩ := h.of_bind
  obtain ⟨text, -, h⟩ := h.of_bind
  rw [Gives.of_pure h]
  obtain ⟨ctx, bs, used, hd⟩ := hkind
  obtain ⟨found, -, hj⟩ := refine_done hd
  split at hj
  · next hfind =>
    cases hj
    exact List.mem_of_find?_eq_some hfind
  · cases hj

end StatusKind

namespace Status

theorem build_untagged (kind : StatusKind) (text : String) (code : Option Code) :
    Status.build kind text none code = .ok ⟨kind, text, none, code⟩ := by
  apply if_neg
  intro h
  exact nomatch h.1

theorem ofCondition_built (condition : StatusKind × StatusText) :
    Built e m (ofCondition none condition) := by
  refine .ofExcept _ fun _ => ?_
  exact ⟨_, build_untagged _ _ _⟩

theorem stateRule_built : Built .line m Status.stateRule := by
  apply (StatusKind.conditionRule_built _).andThen
  exact ofCondition_built

theorem byeRule_built : Built .line m Status.byeRule := by
  apply (StatusKind.conditionRule_built _).andThen
  exact ofCondition_built

theorem greeting_built :
    Built .line m (Rule.oneOf StatusKind.authRule [StatusKind.byeRule]) := by
  refine .alt (by decide) ?_ ?_
  · exact StatusKind.conditionRule_built _
  · exact StatusKind.conditionRule_built _

end Status

theorem Continuation.textRule_built : Built .line m Continuation.textRule := by
  refine StatusText.rule_built.andThen fun _ => ?_
  exact .pure _

theorem Continuation.base64Rule_built : Built e m Continuation.base64Rule := Base64.rule_built.map _

end Imap
