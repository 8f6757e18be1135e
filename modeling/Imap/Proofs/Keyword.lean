import Imap.Keyword
import Imap.Text.Lower

namespace Imap.Keyword

theorem lt_of_isNameChar {c : Char} (h : isNameChar c = true) : c.toNat < 0x80 := by
  simp only [isNameChar, isNameStart, Char.isDigit, Bool.or_eq_true, Bool.and_eq_true,
    decide_eq_true_eq] at h
  rcases h with (⟨-, hz⟩ | ⟨-, hnine⟩) | rfl
  · exact Nat.lt_of_le_of_lt hz (by decide)
  · exact Nat.lt_of_le_of_lt hnine (by decide)
  · decide

theorem not_isNameChar_of_le {c : Char} (h : 0x80 ≤ c.toNat) : isNameChar c = false := by
  apply Bool.eq_false_iff.mpr
  intro hname
  exact Nat.not_lt_of_le h (lt_of_isNameChar hname)

theorem not_isNameChar_ofNat {n : Nat} (h : 0x80 ≤ n) : isNameChar (Char.ofNat n) = false := by
  by_cases hvalid : n.isValidChar
  · have hchar : Char.ofNat n = Char.ofNatAux n hvalid := dif_pos hvalid
    rw [hchar]
    exact not_isNameChar_of_le h
  · have hnul : Char.ofNat n = '\x00' := dif_neg hvalid
    rw [hnul]
    rfl

theorem lower_ascii {c : Char} (h : c.toNat < 0x80) : lower c = c.toLower := by
  apply if_neg
  intro hk
  exact absurd h (by rw [hk]; decide)

theorem lower_beyond {c : Char} (h : 0x80 ≤ c.toNat) (hk : c ≠ '\u212A') : lower c = c := by
  have hcapital : ¬(0x41 ≤ c.toNat ∧ c.toNat ≤ 0x5A) := by omega
  rw [lower, if_neg hk]
  exact dif_neg hcapital

variable {ends : List Char → List Char → Bool}

/-- A character is the same in lower case as in the keyword's, or it is in no name. -/
theorem lowerChar_cases (c : Char) : Text.lowerChar c = [lower c] ∨
    isNameChar (lower c) = false ∧ ∃ d ∈ Text.lowerChar c, isNameChar d = false := by
  by_cases hascii : c.toNat < 0x80
  · exact .inl (by rw [Text.lowerChar_ascii hascii, lower_ascii hascii])
  · by_cases hk : c = '\u212A'
    · exact .inl (hk ▸ Text.lowerChar_kelvin)
    · have hbeyond := Nat.le_of_not_lt hascii
      obtain ⟨n, hn, hmem⟩ := Text.lowerChar_beyond hbeyond hk
      rw [lower_beyond hbeyond hk]
      exact .inr ⟨not_isNameChar_of_le hbeyond, _, hmem, not_isNameChar_ofNat hn⟩

/-- So is a sigma, whichever small letter it has: neither is in a name. -/
theorem lowerBetween_cases (before : List Char) (c : Char) (after : List Char) :
    Text.lowerBetween ends before c after = [lower c] ∨ isNameChar (lower c) = false ∧
      ∃ d ∈ Text.lowerBetween ends before c after, isNameChar d = false := by
  rw [Text.lowerBetween]
  split
  · next hsigma =>
    simp only [Bool.and_eq_true, decide_eq_true_eq] at hsigma
    rw [hsigma.1]
    exact .inr ⟨by decide, '\u03C2', List.mem_singleton_self _, by decide⟩
  · exact lowerChar_cases c

theorem lowerBehind_cases (before cs : List Char) :
    Text.lowerBehind ends before cs = cs.map lower ∨ (∃ c ∈ cs.map lower, isNameChar c = false) ∧
      ∃ d ∈ Text.lowerBehind ends before cs, isNameChar d = false := by
  induction cs generalizing before with
  | nil => exact .inl rfl
  | cons c cs ih =>
    rw [Text.lowerBehind, List.map_cons]
    rcases @lowerBetween_cases ends before c cs with hc | ⟨hc, d, hd, hnot⟩
    · rw [hc]
      refine (ih (c :: before)).imp (congrArg (lower c :: ·)) ?_
      rintro ⟨⟨e, he, hout⟩, d, hd, hnot⟩
      exact ⟨⟨e, List.mem_cons_of_mem _ he, hout⟩, d, List.mem_cons_of_mem _ hd, hnot⟩
    · exact .inr ⟨⟨_, List.mem_cons_self, hc⟩, d, List.mem_append_left _ hd, hnot⟩

/-- A small letter, then small letters, digits and hyphens. -/
def IsName (cs : List Char) : Prop :=
  ∃ c rest, cs = c :: rest ∧ isNameStart c = true ∧ ∀ d ∈ rest, isNameChar d = true

theorem IsName.chars {cs : List Char} (h : IsName cs) : ∀ c ∈ cs, isNameChar c = true := by
  obtain ⟨c, rest, rfl, hc, hrest⟩ := h
  exact List.forall_mem_cons.mpr ⟨by rw [isNameChar, hc, Bool.true_or, Bool.true_or], hrest⟩

/-- The keyword's lower case and that of any text are the same, or neither is a name. -/
theorem lower_cases (ends : List Char → List Char → Bool) (keyword : String) :
    (Text.lower ends keyword).toList = keyword.toList.map lower ∨
      ¬IsName (keyword.toList.map lower) ∧ ¬IsName (Text.lower ends keyword).toList := by
  rw [Text.lower, String.toList_ofList]
  refine (lowerBehind_cases [] keyword.toList).imp_right ?_
  rintro ⟨⟨c, hc, hnot⟩, d, hd, hnot'⟩
  exact ⟨fun h => by simp [h.chars c hc] at hnot, fun h => by simp [h.chars d hd] at hnot'⟩

/-- Underscores for hyphens. -/
def underscored (cs : List Char) : List Char := cs.map fun c => if c = '-' then '_' else c

/-- The name of a rule with hyphens for its underscores. -/
def hyphened (name : String) : String :=
  String.ofList (name.toList.map fun c => if c = '_' then '-' else c)

/-- No name has underscores of its own. -/
theorem hyphened_underscored {cs : List Char} (h : IsName cs) :
    hyphened (String.ofList (underscored cs)) = String.ofList cs := by
  rw [hyphened, underscored, String.toList_ofList, List.map_map]
  refine congrArg String.ofList ((List.map_congr_left fun c hc => ?_).trans (List.map_id' cs))
  have hplain : c ≠ '_' := by
    rintro rfl
    exact absurd (h.chars '_' hc) (by decide)
  by_cases hyphen : c = '-'
  · rw [hyphen]
    rfl
  · simp only [Function.comp_apply, if_neg hyphen, if_neg hplain]

theorem underscored_inj {cs cs' : List Char} (h : IsName cs) (h' : IsName cs') :
    underscored cs = underscored cs' ↔ cs = cs' := by
  refine ⟨fun heq => String.ofList_inj.mp ?_, congrArg underscored⟩
  rw [← hyphened_underscored h, ← hyphened_underscored h', heq]

theorem ruleName?_eq_some_iff {lead keyword name : String} : ruleName? lead keyword = some name ↔
    IsName (keyword.toList.map lower) ∧
      name = lead ++ String.ofList (underscored (keyword.toList.map lower)) := by
  rw [ruleName?]
  split
  · next hnil =>
    rw [hnil]
    exact ⟨nofun, fun ⟨⟨_, _, h, _⟩, _⟩ => nomatch h⟩
  · next c cs hcs =>
    rw [hcs]
    split
    · next hchars =>
      simp only [Bool.and_eq_true, List.all_eq_true] at hchars
      have hname : IsName (c :: cs) := ⟨c, cs, rfl, hchars.1, hchars.2⟩
      exact ⟨fun h => ⟨hname, (Option.some.inj h).symm⟩, fun h => congrArg some h.2.symm⟩
    · next hchars =>
      simp only [Bool.and_eq_true, List.all_eq_true] at hchars
      refine ⟨nofun, ?_⟩
      rintro ⟨⟨_, _, hsame, hc, hrest⟩, -⟩
      cases hsame
      exact absurd ⟨hc, hrest⟩ hchars

/-- A keyword names the rule that it spells in lower case. -/
theorem ruleName?_lower_iff (ends : List Char → List Char → Bool) {lead keyword name : String} :
    ruleName? lead keyword = some name ↔ IsName (Text.lower ends keyword).toList ∧
      name = lead ++ String.ofList (underscored (Text.lower ends keyword).toList) := by
  rw [ruleName?_eq_some_iff]
  rcases lower_cases ends keyword with heq | ⟨hnot, hnot'⟩
  · rw [heq]
  · exact ⟨fun h => absurd h.1 hnot, fun h => absurd h.1 hnot'⟩

theorem ruleName?_isSome_iff (ends : List Char → List Char → Bool) {lead keyword : String} :
    (ruleName? lead keyword).isSome ↔ IsName (Text.lower ends keyword).toList := by
  rw [Option.isSome_iff_exists]
  simp only [ruleName?_lower_iff ends, exists_and_left, exists_eq, and_true]

/-- Two names of rules are one where the keywords are. -/
theorem ruleName?_eq_iff (ends : List Char → List Char → Bool) {lead a b : String}
    (ha : IsName (Text.lower ends a).toList) (hb : IsName (Text.lower ends b).toList) :
    ruleName? lead a = ruleName? lead b ↔ Text.lower ends a = Text.lower ends b := by
  rw [(ruleName?_lower_iff ends).mpr ⟨ha, rfl⟩, (ruleName?_lower_iff ends).mpr ⟨hb, rfl⟩,
    Option.some_inj, String.append_right_inj, String.ofList_inj, underscored_inj ha hb,
    String.toList_inj]

/-- The letters, digits and underscores of a name. -/
theorem IsName.underscored_chars {cs : List Char} (h : IsName cs) : ∃ c rest,
    underscored cs = c :: rest ∧ ('a' ≤ c ∧ c ≤ 'z') ∧
      ∀ d ∈ rest, ('a' ≤ d ∧ d ≤ 'z') ∨ ('0' ≤ d ∧ d ≤ '9') ∨ d = '_' := by
  obtain ⟨c, rest, rfl, hc, hrest⟩ := h
  have hletter : c ≠ '-' := by
    rintro rfl
    exact absurd hc (by decide)
  refine ⟨c, underscored rest, ?_, by simpa [isNameStart] using hc, ?_⟩
  · rw [underscored, List.map_cons, if_neg hletter]
    rfl
  · intro d hd
    obtain ⟨e, he, rfl⟩ := List.mem_map.mp hd
    split
    · exact .inr (.inr rfl)
    · next hyphen =>
      have hname := hrest e he
      simp only [isNameChar, isNameStart, Char.isDigit, Bool.or_eq_true, Bool.and_eq_true,
        decide_eq_true_eq, hyphen, or_false] at hname
      exact hname.imp_right .inl

section

variable {α : Type} {table : List (String × α)} {keyword : String}

/-- The keyword introduces the rule that the table has under `name`. -/
def Introduces (table : List (String × α)) (keyword name : String) : Prop :=
  ruleName? "" keyword = some name ∧ (table.lookup name).isSome

theorem find?_isSome_iff : (find? table keyword).isSome ↔ ∃ name, Introduces table keyword name := by
  rw [find?]
  cases h : ruleName? "" keyword with
  | none => exact ⟨nofun, fun ⟨_, hname, _⟩ => by rw [h] at hname; cases hname⟩
  | some name =>
    refine ⟨fun hsome => ⟨name, h, hsome⟩, ?_⟩
    rintro ⟨name', hname, hsome⟩
    rw [h] at hname
    cases hname
    exact hsome

theorem find?_eq_none (h : ¬(ruleName? "" keyword).isSome) : find? table keyword = none := by
  rw [find?, Option.not_isSome_iff_eq_none.mp h, Option.bind_none]

theorem find?_underscore (h : '_' ∈ keyword.toList) : find? table keyword = none := by
  refine find?_eq_none fun hsome => ?_
  obtain ⟨name, hname⟩ := Option.isSome_iff_exists.mp hsome
  have hlower : lower '_' ∈ keyword.toList.map lower := List.mem_map_of_mem h
  exact absurd ((ruleName?_eq_some_iff.mp hname).1.chars _ hlower) (by decide)

theorem find?_other (ends : List Char → List Char → Bool)
    (h : ∃ c ∈ (Text.lower ends keyword).toList, isNameChar c = false) :
    find? table keyword = none := by
  obtain ⟨c, hc, hnot⟩ := h
  refine find?_eq_none fun hsome => ?_
  have hname := ((ruleName?_isSome_iff ends).mp hsome).chars c hc
  rw [hnot] at hname
  cases hname

/-- Keywords introduce one rule where one of them introduces any, and the other is the same. -/
theorem introduces_iff (ends : List Char → List Char → Bool) {a b : String} :
    (∃ name, Introduces table a name ∧ Introduces table b name) ↔
      (find? table a).isSome ∧ Text.lower ends a = Text.lower ends b := by
  rw [find?_isSome_iff]
  constructor
  · rintro ⟨name, ha, hb⟩
    have hname := (ruleName?_lower_iff ends).mp ha.1
    have hname' := (ruleName?_lower_iff ends).mp hb.1
    exact ⟨⟨name, ha⟩, (ruleName?_eq_iff ends hname.1 hname'.1).mp (ha.1.trans hb.1.symm)⟩
  · rintro ⟨⟨name, ha⟩, hsame⟩
    have hb : ruleName? "" b = some name := by
      rw [ruleName?_lower_iff ends, ← hsame]
      exact (ruleName?_lower_iff ends).mp ha.1
    exact ⟨name, ha, hb, ha.2⟩

end

/-- The name of a rule is the prefix, a small letter, and small letters, digits and underscores. The
keywords that name one are those that in lower case are a small letter, and small letters, digits and
hyphens: one with an underscore, or with any other character, finds nothing. Two of them name one rule,
and find one in a table, exactly where they are the same in lower case. A sigma may take either of its
small letters. -/
theorem rule_names_exact (ends : List Char → List Char → Bool) (lead a b : String) {α : Type}
    (table : List (String × α)) :
    (ruleName? lead a = none ∨ ∃ c cs, ruleName? lead a = some (lead ++ String.ofList (c :: cs)) ∧
      ('a' ≤ c ∧ c ≤ 'z') ∧ ∀ d ∈ cs, ('a' ≤ d ∧ d ≤ 'z') ∨ ('0' ≤ d ∧ d ≤ '9') ∨ d = '_') ∧
    ((ruleName? lead a).isSome ↔ IsName (Text.lower ends a).toList) ∧
    ((ruleName? lead a).isSome → (ruleName? lead b).isSome →
      (ruleName? lead a = ruleName? lead b ↔ Text.lower ends a = Text.lower ends b)) ∧
    (('_' ∈ a.toList ∨ ∃ c ∈ (Text.lower ends a).toList, isNameChar c = false) →
      find? table a = none) ∧
    ((∃ name, Introduces table a name ∧ Introduces table b name) ↔
      (find? table a).isSome ∧ Text.lower ends a = Text.lower ends b) := by
  refine ⟨?_, ruleName?_isSome_iff ends, fun ha hb => ?_,
    fun h => h.elim find?_underscore (find?_other ends), introduces_iff ends⟩
  · cases h : ruleName? lead a with
    | none => exact .inl rfl
    | some name =>
      obtain ⟨hname, rfl⟩ := (ruleName?_lower_iff ends).mp h
      obtain ⟨c, cs, hcs, hstart, hrest⟩ := hname.underscored_chars
      exact .inr ⟨c, cs, by rw [hcs], hstart, hrest⟩
  · exact ruleName?_eq_iff ends ((ruleName?_isSome_iff ends).mp ha)
      ((ruleName?_isSome_iff ends).mp hb)

/-- The Kelvin sign is another `K`, and an underscore is no hyphen. -/
theorem rule_names_exact_kelvin :
    let lower := Text.lower fun _ _ => true
    let table := [("x_key", ())]
    ((ruleName? "rule_" "X-\u212AEY").isSome ∧ (ruleName? "rule_" "x-Key").isSome ∧
      lower "X-\u212AEY" = lower "x-Key" ∧
        ruleName? "rule_" "X-\u212AEY" = ruleName? "rule_" "x-Key") ∧
      '_' ∈ "x_Key".toList ∧ find? table "x_Key" = none := by
  intro lower table
  have hkelvin : (ruleName? "rule_" "X-\u212AEY").isSome := by decide +kernel
  have hplain : (ruleName? "rule_" "x-Key").isSome := by decide +kernel
  have hlower : lower "X-\u212AEY" = lower "x-Key" := by decide +kernel
  have hunderscore : '_' ∈ "x_Key".toList := by decide +kernel
  obtain ⟨-, -, hsame, -⟩ := rule_names_exact (fun _ _ => true) "rule_" "X-\u212AEY" "x-Key" table
  obtain ⟨-, -, -, hnone, -⟩ := rule_names_exact (fun _ _ => true) "" "x_Key" "x-Key" table
  exact ⟨⟨hkelvin, hplain, hlower, (hsame hkelvin hplain).mpr hlower⟩, hunderscore,
    hnone (.inl hunderscore)⟩

end Imap.Keyword
