import Imap.Proofs.Written.Name

namespace Imap

open Rule Written

namespace Resource

/-- A resource that its constructor makes. -/
def Constructible (r : Resource) : Prop := ∃ kind name, build kind name = .ok r

theorem known?_eq_some_iff {name : String} {r : Resource} :
    known? name = some r ↔ r.name? = none ∧ spelling r.kind = name.toLower := by
  constructor
  · intro h
    have hfind : [storage, message, mailbox, annotationStorage].find?
        (fun r => spelling r.kind = name.toLower) = some r := h
    have hplain : ∀ r ∈ [storage, message, mailbox, annotationStorage], r.name? = none := by decide
    have hname := List.find?_some hfind
    exact ⟨hplain r (List.mem_of_find?_eq_some hfind), of_decide_eq_true hname⟩
  · rintro ⟨hplain, hname⟩
    rw [known?, ← hname]
    cases r with
    | other => cases hplain
    | _ => decide

theorem toLower_named (name : String) : (named name).text.toLower = name.toLower := by
  unfold named
  cases h : known? name with
  | none => rfl
  | some r =>
    obtain ⟨hplain, hname⟩ := known?_eq_some_iff.mp h
    rw [Option.getD_some, ← hname]
    cases r with
    | other => cases hplain
    | _ => decide +kernel

theorem Constructible.other {name : String} (h : (other name).Constructible) : known? name = none := by
  obtain ⟨kind, given, hbuild⟩ := h
  cases kind <;> cases given <;> simp only [build] at hbuild <;> try cases hbuild
  split at hbuild <;> try cases hbuild
  split at hbuild <;> cases hbuild
  next h => exact Option.not_isSome_iff_eq_none.mp h

theorem named_constructible {name : String} (h : name ≠ "") : (named name).Constructible := by
  have hname := ofAtom_named h
  unfold ofAtom at hname
  split at hname
  · next r hknown =>
    obtain ⟨hplain, -⟩ := known?_eq_some_iff.mp hknown
    refine ⟨r.kind, none, ?_⟩
    rw [← hname]
    cases r <;> first | rfl | cases hplain
  · exact ⟨.other, some name, hname⟩

theorem named_text {r : Resource} (h : r.Constructible) : named r.text = r := by
  cases r with
  | other name =>
    change (known? name).getD (.other name) = _
    rw [h.other]
    rfl
  | _ => decide +kernel

end Resource

namespace Capability

/-- The token is the word of the kind, or its front with a parameter, in any case. -/
def Names (kind : CapabilityKind) (token : String) : Prop :=
  match kind with
  | .auth | .quotaRes => ∃ parameter, parameter ≠ "" ∧ token.toLower = spelling kind ++ parameter
  | .other => False
  | word => token.toLower = spelling word

/-- A capability that its constructor makes. -/
def Constructible (c : Capability) : Prop :=
  ∃ kind parameter, build kind parameter = .ok c ∧ ∀ r, parameter = .resource r → r.Constructible

/-- Atoms and capitals can write what the capability carries. -/
def Writable : Capability → Prop
  | auth mechanism => IsWord Octet.isAtomChar mechanism ∧ ∀ c ∈ mechanism.toList, c.isLower = false
  | quotaRes resource => IsWord Octet.isAtomChar resource.text
  | other token => IsWord Octet.isAtomChar token
  | _ => True

variable {kind : CapabilityKind} {token parameter : String} {c : Capability}

theorem find?_eq_some_iff : find? (coreWords ++ quotaWords) token = some c ↔
    c ∈ coreWords ++ quotaWords ∧ spelling c.kind = token.toLower := by
  constructor
  · intro h
    have hfind : (coreWords ++ quotaWords).find? (fun c => spelling c.kind = token.toLower) = some c :=
      h
    have hname := List.find?_some hfind
    exact ⟨List.mem_of_find?_eq_some hfind, of_decide_eq_true hname⟩
  · rintro ⟨hmem, hname⟩
    have hunique : ∀ c ∈ coreWords ++ quotaWords, (coreWords ++ quotaWords).find?
        (fun c' => spelling c'.kind = spelling c.kind) = some c := by decide
    rw [find?, ← hname]
    exact hunique c hmem

theorem parameterOf?_eq_some_iff : parameterOf? kind token = some parameter ↔
    parameter ≠ "" ∧ ∃ front, token = front ++ parameter ∧ front.toLower = spelling kind := by
  constructor
  · intro h
    refine ⟨parameterOf?_ne_empty h, ?_⟩
    simp only [parameterOf?] at h
    split at h <;> cases h
    next hfront =>
      have htake := List.prefix_iff_eq_take.mp (List.isPrefixOf_iff_prefix.mp hfront.1)
      refine ⟨String.ofList (token.toList.take (spelling kind).toList.length), ?_, ?_⟩
      · rw [← String.ofList_append, List.take_append_drop, String.ofList_toList]
      · rw [← String.toList_inj, toLower_toList, String.toList_ofList, List.map_take,
          ← toLower_toList, ← htake]
  · rintro ⟨hne, front, rfl, hfront⟩
    have hlength : (spelling kind).toList.length = front.toList.length := by
      rw [← hfront, toLower_toList, List.length_map]
    have hstarts : (spelling kind).toList.isPrefixOf (front ++ parameter).toLower.toList = true := by
      rw [toLower_append, hfront, String.toList_append, List.isPrefixOf_iff_prefix]
      exact List.prefix_append ..
    have hlong : (spelling kind).toList.length < (front ++ parameter).length := by
      rw [hlength, ← String.length_toList, String.toList_append, List.length_append]
      have : parameter.toList ≠ [] := mt String.toList_eq_nil_iff.mp hne
      have := List.length_pos_iff.mpr this
      omega
    rw [parameterOf?, if_pos ⟨hstarts, hlong⟩, hlength, String.toList_append, List.drop_left,
      String.ofList_toList]

/-- A token with a parameter behind a front names the kind of the front. -/
theorem parameterOf?_isSome_iff : (parameterOf? kind token).isSome ↔
    ∃ parameter, parameter ≠ "" ∧ token.toLower = spelling kind ++ parameter := by
  rw [Option.isSome_iff_exists]
  constructor
  · rintro ⟨parameter, h⟩
    obtain ⟨hne, front, rfl, hfront⟩ := parameterOf?_eq_some_iff.mp h
    exact ⟨parameter.toLower, mt toLower_eq_empty.mp hne, by rw [toLower_append, hfront]⟩
  · rintro ⟨small, hne, h⟩
    obtain ⟨front, parameter, rfl, hfront, hparameter⟩ := toLower_eq_append h
    refine ⟨parameter, parameterOf?_eq_some_iff.mpr ⟨?_, front, rfl, hfront⟩⟩
    exact mt toLower_eq_empty.mpr (hparameter ▸ hne)

theorem parameterOf?_eq_none (h : ¬(spelling kind).toList <+: token.toLower.toList) :
    parameterOf? kind token = none := by
  rw [parameterOf?, if_neg]
  exact fun hfront => h (List.isPrefixOf_iff_prefix.mp hfront.1)

/-- A token without a name of its own stands for itself. -/
theorem named_eq_other (h : isKnown token = false) : named token = .other token := by
  simp only [isKnown, Bool.or_eq_false_iff, Option.isSome_eq_false_iff, Option.isNone_iff_eq_none] at h
  simp only [named, h]

theorem named_auth (h : parameterOf? .auth token = some parameter) :
    named token = .auth parameter.toUpper := by
  simp only [named, h]

/-- A resource is neither a mechanism nor a word. -/
theorem named_quotaRes (h : parameterOf? .quotaRes token = some parameter) :
    named token = .quotaRes (.named parameter) := by
  obtain ⟨-, front, rfl, hfront⟩ := parameterOf?_eq_some_iff.mp h
  have hstart : (spelling CapabilityKind.quotaRes).toList <+: (front ++ parameter).toLower.toList := by
    rw [toLower_append, hfront, String.toList_append]
    exact List.prefix_append ..
  have hauth : parameterOf? .auth (front ++ parameter) = none :=
    parameterOf?_eq_none fun hauth =>
      absurd (List.prefix_of_prefix_length_le hauth hstart (by decide)) (by decide)
  have hword : find? (coreWords ++ quotaWords) (front ++ parameter) = none := by
    refine Option.eq_none_iff_forall_ne_some.mpr fun c hfind => ?_
    obtain ⟨hmem, hname⟩ := find?_eq_some_iff.mp hfind
    have hplain : ∀ c ∈ coreWords ++ quotaWords,
        ¬(spelling CapabilityKind.quotaRes).toList <+: (spelling c.kind).toList := by decide
    exact hplain c hmem (hname ▸ hstart)
  simp only [named, hauth, hword, h]

theorem named_word (hmem : c ∈ coreWords ++ quotaWords) (h : token.toLower = spelling c.kind) :
    named token = c := by
  have hauth : parameterOf? .auth token = none := by
    have hplain : ∀ c ∈ coreWords ++ quotaWords,
        ¬(spelling CapabilityKind.auth).toList <+: (spelling c.kind).toList := by decide
    exact parameterOf?_eq_none (h ▸ hplain c hmem)
  simp only [named, hauth, find?_eq_some_iff.mpr ⟨hmem, h.symm⟩]

/-- The kinds that are a word. -/
theorem word_or_front (kind : CapabilityKind) :
    kind = .auth ∨ kind = .quotaRes ∨ kind = .other ∨ ∃ c ∈ coreWords ++ quotaWords, c.kind = kind := by
  cases kind <;> decide

theorem names_word (hmem : c ∈ coreWords ++ quotaWords) :
    Names c.kind token ↔ token.toLower = spelling c.kind := by
  cases c <;> simp_all [coreWords, quotaWords, Names, Capability.kind]

/-- A token is a mechanism, a word, a resource or unknown. -/
theorem token_cases (token : String) : (∃ parameter, parameterOf? .auth token = some parameter) ∨
    (∃ c ∈ coreWords ++ quotaWords, token.toLower = spelling c.kind) ∨
    (∃ parameter, parameterOf? .quotaRes token = some parameter) ∨ isKnown token = false := by
  cases hauth : parameterOf? .auth token with
  | some parameter => exact .inl ⟨parameter, rfl⟩
  | none =>
    cases hword : find? (coreWords ++ quotaWords) token with
    | some c =>
      obtain ⟨hmem, hname⟩ := find?_eq_some_iff.mp hword
      exact .inr (.inl ⟨c, hmem, hname.symm⟩)
    | none =>
      cases hres : parameterOf? .quotaRes token with
      | some parameter => exact .inr (.inr (.inl ⟨parameter, rfl⟩))
      | none => exact .inr (.inr (.inr (by simp [isKnown, hauth, hword, hres])))

/-- The kind of a token is the one kind that it names, and a token that names none is its own. -/
theorem kind_named : Names kind token ↔ (named token).kind = kind ∧ kind ≠ .other := by
  constructor
  · intro h
    rcases word_or_front kind with rfl | rfl | rfl | ⟨c, hmem, rfl⟩
    · obtain ⟨parameter, hsome⟩ := Option.isSome_iff_exists.mp (parameterOf?_isSome_iff.mpr h)
      rw [named_auth hsome]
      exact ⟨rfl, nofun⟩
    · obtain ⟨parameter, hsome⟩ := Option.isSome_iff_exists.mp (parameterOf?_isSome_iff.mpr h)
      rw [named_quotaRes hsome]
      exact ⟨rfl, nofun⟩
    · exact h.elim
    · have hplain : ∀ c ∈ coreWords ++ quotaWords, c.kind ≠ .other := by decide
      rw [named_word hmem ((names_word hmem).mp h)]
      exact ⟨rfl, hplain c hmem⟩
  · rintro ⟨rfl, hother⟩
    rcases token_cases token with ⟨parameter, h⟩ | ⟨c, hmem, h⟩ | ⟨parameter, h⟩ | h
    · rw [named_auth h]
      exact parameterOf?_isSome_iff.mp (Option.isSome_of_eq_some h)
    · rw [named_word hmem h]
      exact (names_word hmem).mpr h
    · rw [named_quotaRes h]
      exact parameterOf?_isSome_iff.mp (Option.isSome_of_eq_some h)
    · rw [named_eq_other h] at hother
      exact absurd rfl hother

/-- What is unknown to the constructor stands for itself, and nothing else does. -/
theorem isKnown_eq_false_iff : isKnown token = false ↔ (named token).kind = .other := by
  constructor
  · intro h
    rw [named_eq_other h]
    rfl
  · intro h
    have hnames (kind : CapabilityKind) : ¬Names kind token := fun hname => by
      obtain ⟨rfl, hother⟩ := kind_named.mp hname
      exact hother h
    rcases token_cases token with ⟨parameter, h⟩ | ⟨c, hmem, h⟩ | ⟨parameter, h⟩ | h
    · exact absurd (parameterOf?_isSome_iff.mp (Option.isSome_of_eq_some h)) (hnames .auth)
    · exact absurd ((names_word hmem).mpr h) (hnames c.kind)
    · exact absurd (parameterOf?_isSome_iff.mp (Option.isSome_of_eq_some h)) (hnames .quotaRes)
    · exact h

/-- The constructor takes as a plain token what stands for itself. -/
theorem build_other_iff (hne : token ≠ "") :
    build .other (.text token) = .ok c ↔ (named token).kind = .other ∧ named token = c := by
  rw [build, if_neg hne, ← isKnown_eq_false_iff]
  cases hknown : isKnown token with
  | true => simp
  | false => simp [named_eq_other hknown]

/-- The text of what a token stands for is that token but for its capitals. -/
theorem toLower_named (token : String) : (named token).text.toLower = token.toLower := by
  rcases token_cases token with ⟨parameter, h⟩ | ⟨c, hmem, h⟩ | ⟨parameter, h⟩ | h
  · rw [named_auth h]
    obtain ⟨-, front, rfl, hfront⟩ := parameterOf?_eq_some_iff.mp h
    rw [text, toLower_append, toLower_append, hfront, toLower_toUpper]
    exact congrArg (· ++ _) (by decide +kernel)
  · have hspelling : ∀ c ∈ coreWords ++ quotaWords, c.text.toLower = spelling c.kind := by
      decide +kernel
    rw [named_word hmem h, h, hspelling c hmem]
  · rw [named_quotaRes h]
    obtain ⟨-, front, rfl, hfront⟩ := parameterOf?_eq_some_iff.mp h
    rw [text, toLower_append, toLower_append, hfront, Resource.toLower_named]
    exact congrArg (· ++ _) (by decide +kernel)
  · rw [named_eq_other h, text]

/-- What a token stands for can be made by hand. -/
theorem named_constructible (hne : token ≠ "") : (named token).Constructible := by
  rcases token_cases token with ⟨parameter, h⟩ | ⟨c, hmem, h⟩ | ⟨parameter, h⟩ | h
  · rw [named_auth h]
    have hmechanism : parameter.toUpper ≠ "" := by
      rw [Ne, ← toLower_eq_empty, toLower_toUpper, toLower_eq_empty]
      exact parameterOf?_ne_empty h
    exact ⟨.auth, .text _, if_neg hmechanism, nofun⟩
  · have hmade : build c.kind .none = .ok c := by
      cases c <;> first | rfl | simp [coreWords, quotaWords] at hmem
    rw [named_word hmem h]
    exact ⟨c.kind, .none, hmade, nofun⟩
  · rw [named_quotaRes h]
    refine ⟨.quotaRes, .resource _, rfl, fun r hr => ?_⟩
    cases hr
    exact Resource.named_constructible (parameterOf?_ne_empty h)
  · rw [named_eq_other h]
    have hother : (named token).kind = .other := isKnown_eq_false_iff.mp h
    exact ⟨.other, .text token, (build_other_iff hne).mpr ⟨hother, named_eq_other h⟩, nofun⟩

/-- What the constructor asks of what a capability carries. -/
theorem Constructible.carried : c.Constructible →
    match c with
    | auth mechanism => mechanism ≠ ""
    | quotaRes resource => resource.Constructible
    | other token => isKnown token = false
    | _ => True := by
  rintro ⟨kind, parameter, hbuild, hresource⟩
  cases kind
  case auth =>
    cases parameter with
    | text mechanism =>
      rw [build] at hbuild
      split at hbuild <;> cases hbuild
      assumption
    | _ => cases hbuild
  case quotaRes =>
    cases parameter with
    | resource r =>
      cases hbuild
      exact hresource r rfl
    | _ => cases hbuild
  case other =>
    cases parameter with
    | text token =>
      rw [build] at hbuild
      split at hbuild
      · cases hbuild
      · split at hbuild <;> cases hbuild
        next hknown => exact Bool.eq_false_iff.mpr hknown
    | _ => cases hbuild
  all_goals
    cases parameter <;> cases hbuild
    trivial

/-- A token is what its capability is written as. -/
theorem named_text (hc : c.Constructible) (hw : c.Writable) : named c.text = c := by
  cases c with
  | auth mechanism =>
    have hparameter : parameterOf? .auth ("AUTH=" ++ mechanism) = some mechanism :=
      parameterOf?_eq_some_iff.mpr ⟨hc.carried, _, rfl, by decide +kernel⟩
    rw [text, named_auth hparameter, toUpper_eq_self hw.2]
  | quotaRes resource =>
    have hne : resource.text ≠ "" := fun h => hw.2.1 (by rw [h]; rfl)
    have hparameter : parameterOf? .quotaRes ("QUOTA=RES-" ++ resource.text) = some resource.text :=
      parameterOf?_eq_some_iff.mpr ⟨hne, _, rfl, by decide +kernel⟩
    rw [text, named_quotaRes hparameter, Resource.named_text hc.carried]
  | other token => exact named_eq_other hc.carried
  | _ => decide +kernel

theorem isWord_text (hw : c.Writable) : IsWord Octet.isAtomChar c.text := by
  cases c with
  | auth mechanism => exact IsWord.append (by decide) hw.1
  | quotaRes resource => exact IsWord.append (by decide) hw
  | other token => exact hw
  | _ => decide +kernel

/-- The rule, the constructor and the text of a capability agree. An atom is read as a capability of
the one kind that it names, and as a plain token exactly if the constructor takes it as one; and a
capability is read off its own text. -/
theorem rule_agrees {ctx : Context} {rest : Bytes} (hd : ctx.dialect.knowsQuota = true)
    (hrest : ctx.Stops Octet.isAtomChar rest) :
    (∀ a : Atom, ∃ c, rule ctx (a.octets ++ rest) = .done c a.octets.length ∧
      c.text.toLower = a.text.toLower ∧ c.Constructible ∧
      (c.kind = .other ↔ ∃ c', build .other (.text a.text) = .ok c') ∧
      (∀ c', build .other (.text a.text) = .ok c' → c' = c) ∧
      ∀ kind, Names kind a.text ↔ c.kind = kind ∧ kind ≠ .other) ∧
    ∀ c : Capability, c.Constructible → c.Writable →
      rule ctx (Bytes.ofText c.text ++ rest) = .done c (Bytes.ofText c.text).length := by
  constructor
  · intro a
    have hbuild {c : Capability} := build_other_iff (c := c) a.text_ne_empty
    refine ⟨named a.text, (capability_reads a hd hrest).done, toLower_named _,
      named_constructible a.text_ne_empty, ?_, fun c' h => (hbuild.mp h).2.symm, fun kind => kind_named⟩
    exact ⟨fun h => ⟨_, hbuild.mpr ⟨h, rfl⟩⟩, fun ⟨c', h⟩ => (hbuild.mp h).1⟩
  · intro c hc hw
    have hword := isWord_text hw
    have hread := capability_reads hword.run hd hrest
    have htext : hword.run.text = c.text := hword.1
    rw [htext, named_text hc hw] at hread
    exact hread.done

theorem rule_agrees_plain :
    (auth "PLAIN").Constructible ∧ (auth "PLAIN").Writable ∧
      rule ⟨false, .response⟩ (Bytes.ofText "AUTH=PLAIN" ++ [0x20]) = .done (auth "PLAIN") 10 := by
  have hc : (auth "PLAIN").Constructible := ⟨.auth, .text "PLAIN", rfl, nofun⟩
  have hcapitals : ∀ c ∈ "PLAIN".toList, c.isLower = false :=
    List.forall_mem_cons.mpr ⟨rfl, List.forall_mem_cons.mpr ⟨rfl, List.forall_mem_cons.mpr ⟨rfl,
      List.forall_mem_cons.mpr ⟨rfl, List.forall_mem_singleton.mpr rfl⟩⟩⟩⟩
  have hw : (auth "PLAIN").Writable := ⟨by decide, hcapitals⟩
  have htext : (auth "PLAIN").text = "AUTH=PLAIN" := by decide +kernel
  let ctx : Context := ⟨false, .response⟩
  have hd : ctx.dialect.knowsQuota = true := rfl
  have hspace : ctx.Stops Octet.isAtomChar [0x20] := rfl
  have hread := (rule_agrees hd hspace).2 (auth "PLAIN") hc hw
  rw [htext] at hread
  exact ⟨hc, hw, hread⟩

end Capability

end Imap
