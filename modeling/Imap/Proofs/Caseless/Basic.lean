import Imap.Proofs.Growth.Basic
import Imap.Proofs.Letters
import Imap.Term

namespace Imap

namespace Bytes

/-- Octets that differ in the case of letters alone. -/
def Alike (bs bs' : Bytes) : Prop := bs.map Octet.lower = bs'.map Octet.lower

namespace Alike

variable {bs bs' : Bytes}

theorem refl (bs : Bytes) : Alike bs bs := rfl

theorem cons {b c : UInt8} (hbc : Octet.lower b = Octet.lower c) (h : Alike bs bs') :
    Alike (b :: bs) (c :: bs') := by
  rw [Alike, List.map_cons, List.map_cons, hbc, h]

theorem length_eq (h : Alike bs bs') : bs.length = bs'.length := by
  have hlen := congrArg List.length h
  rwa [List.length_map, List.length_map] at hlen

theorem drop (h : Alike bs bs') (n : Nat) : Alike (bs.drop n) (bs'.drop n) := by
  rw [Alike, List.map_drop, List.map_drop, h]

theorem take (h : Alike bs bs') (n : Nat) : Alike (bs.take n) (bs'.take n) := by
  rw [Alike, List.map_take, List.map_take, h]

theorem nil (h : Alike [] bs) : bs = [] := by
  have hnil : bs.map Octet.lower = [] := h.symm
  exact List.map_eq_nil_iff.mp hnil

theorem uncons {b : UInt8} (h : Alike (b :: bs) bs') :
    ∃ c cs, bs' = c :: cs ∧ Octet.lower b = Octet.lower c ∧ Alike bs cs := by
  cases bs' with
  | nil => cases h
  | cons c cs => exact ⟨c, cs, rfl, List.cons.inj h |>.1, List.cons.inj h |>.2⟩

end Alike

end Bytes

/-- A case that is no letter's is the octet's own. -/
theorem Octet.eq_iff_of_lower {b c w : UInt8} (hw : Octet.isLetter w = false)
    (h : Octet.lower b = Octet.lower c) : b = w ↔ c = w := by
  rw [← Octet.lower_eq_iff hw, h, Octet.lower_eq_iff hw]

/-- What is no letter heads both. -/
theorem Bytes.Alike.uncons_same {b : UInt8} {bs bs' : Bytes} (hb : Octet.isLetter b = false)
    (h : Alike (b :: bs) bs') : ∃ cs, bs' = b :: cs ∧ Alike bs cs := by
  obtain ⟨c, cs, rfl, hc, hrest⟩ := h.uncons
  obtain rfl := (Octet.eq_iff_of_lower hb hc).mp rfl
  exact ⟨cs, rfl, hrest⟩

namespace Term

mutual

/-- Small letters in every text and in all octets of a term; names and numbers stay. -/
def fold : Term → Term
  | text s => text s.toLower
  | octets bs => octets (bs.map Octet.lower)
  | tuple items => tuple (foldAll items)
  | list items => list (foldAll items)
  | table entries => table (foldEntries entries)
  | record name fields => record name (foldFields fields)
  | secret t => secret t.fold
  | t => t

def foldAll : List Term → List Term
  | [] => []
  | t :: ts => t.fold :: foldAll ts

def foldEntries : List (String × Term) → List (String × Term)
  | [] => []
  | (key, t) :: rest => (key.toLower, t.fold) :: foldEntries rest

def foldFields : List (String × Term) → List (String × Term)
  | [] => []
  | (name, t) :: rest => (name, t.fold) :: foldFields rest

end

theorem foldAll_eq_map (ts : List Term) : foldAll ts = ts.map fold := by
  induction ts with
  | nil => rfl
  | cons t ts ih => rw [foldAll, List.map_cons, ih]

theorem fold_secret {t t' : Term} (h : t.fold = t'.fold) : (secret t).fold = (secret t').fold :=
  congrArg secret h

/-- Fields that are the same but for case. -/
def Fields (fields fields' : List (String × Term)) : Prop := foldFields fields = foldFields fields'

theorem Fields.nil : Fields [] [] := rfl

theorem Fields.cons {name : String} {t t' : Term} {rest rest' : List (String × Term)}
    (ht : t.fold = t'.fold) (hrest : Fields rest rest') :
    Fields ((name, t) :: rest) ((name, t') :: rest') := by
  rw [Fields, foldFields, foldFields, ht, hrest]

theorem Fields.record {fields fields' : List (String × Term)} (h : Fields fields fields')
    (name : String) : (Term.record name fields).fold = (Term.record name fields').fold :=
  congrArg (Term.record name) h

end Term

/-- Values that are the same once their texts and octets are in small letters: of the same kind and
structure, with the same numbers, words and dates. -/
def Akin {α : Type} [ToTerm α] (a a' : α) : Prop := (term a).fold = (term a').fold

namespace Akin

variable {α β : Type} [ToTerm α] [ToTerm β]

theorem refl (a : α) : Akin a a := rfl

theorem text {s s' : String} : Akin s s' ↔ s.toLower = s'.toLower := by
  constructor
  · intro h
    exact Term.text.inj h
  · intro h
    exact congrArg Term.text h

theorem octets {bs bs' : Bytes} : Akin bs bs' ↔ bs.Alike bs' := by
  constructor
  · intro h
    exact Term.octets.inj h
  · intro h
    exact congrArg Term.octets h

theorem pair {a a' : α} {b b' : β} (ha : Akin a a') (hb : Akin b b') : Akin (a, b) (a', b') := by
  show Term.tuple [(term a).fold, (term b).fold] = Term.tuple [(term a').fold, (term b').fold]
  rw [ha, hb]

theorem fst {p p' : α × β} (h : Akin p p') : Akin p.1 p'.1 := by
  have hitems := Term.tuple.inj h
  exact (List.cons.inj hitems).1

theorem snd {p p' : α × β} (h : Akin p p') : Akin p.2 p'.2 := by
  have hitems := Term.tuple.inj h
  have hsecond := (List.cons.inj hitems).2
  exact (List.cons.inj hsecond).1

theorem list_iff {as as' : List α} :
    Akin as as' ↔ as.map (fun a => (term a).fold) = as'.map fun a => (term a).fold := by
  have side (as : List α) : (term as).fold = .tuple (as.map fun a => (term a).fold) := by
    show Term.tuple (Term.foldAll (as.map term)) = _
    rw [Term.foldAll_eq_map, List.map_map]
    rfl
  rw [Akin, side, side, Term.tuple.injEq]

theorem cons {a a' : α} {as as' : List α} (ha : Akin a a') (has : Akin as as') :
    Akin (a :: as) (a' :: as') := by
  rw [list_iff, List.map_cons, List.map_cons, ha, list_iff.mp has]

theorem nil_iff {as as' : List α} (h : Akin as as') : as = [] ↔ as' = [] := by
  rw [← List.map_eq_nil_iff (f := fun a => (term a).fold), list_iff.mp h, List.map_eq_nil_iff]

end Akin

/-- Both values are there, and related, or neither is. -/
inductive Both {α β : Type} (R : α → β → Prop) : Option α → Option β → Prop
  | none : Both R none none
  | some {a : α} {b : β} (related : R a b) : Both R (some a) (some b)

/-- Both verdicts accept, with related values, or both turn down, for related reasons. -/
inductive Verdicts {ε α β : Type} (E : ε → ε → Prop) (R : α → β → Prop) :
    Except ε α → Except ε β → Prop
  | ok {a : α} {b : β} (related : R a b) : Verdicts E R (.ok a) (.ok b)
  | error {e e' : ε} (agree : E e e') : Verdicts E R (.error e) (.error e')

/-- Verdicts of values, for whatever reasons they are turned down. -/
def Verdicts.Free {α β : Type} (R : α → β → Prop) : Except Refusal α → Except Refusal β → Prop :=
  Verdicts (fun _ _ => True) R

/-- Failures of the same class at the same place, with as many octets missing. -/
inductive Failure.Agrees : Failure → Failure → Prop
  | short (missing missing' : Shortage) (needed : Option Nat) (position : Nat) :
    Agrees (.short missing needed position) (.short missing' needed position)
  | miss {cause cause' : Cause} (position : Nat) (same : cause.missClass = cause'.missClass) :
    Agrees (.miss cause position) (.miss cause' position)
  | bad (cause cause' : Cause) (position : Nat) :
    Agrees (.bad cause position) (.bad cause' position)
  | refused (why why' : Refusal) : Agrees (.refused why) (.refused why')

namespace Failure.Agrees

theorem class?_eq {f f' : Failure} (h : f.Agrees f') : f.class? = f'.class? := by
  cases h with
  | miss _ same => simp only [class?, same]
  | _ => rfl

theorem position?_eq {f f' : Failure} (h : f.Agrees f') : f.position? = f'.position? := by
  cases h <;> rfl

theorem needed?_eq {f f' : Failure} (h : f.Agrees f') : f.needed? = f'.needed? := by
  cases h <;> rfl

theorem refl (f : Failure) : f.Agrees f := by
  cases f with
  | short missing needed position => exact .short _ _ _ _
  | miss cause position => exact .miss _ rfl
  | bad cause position => exact .bad _ _ _
  | refused why => exact .refused _ _

theorem shift {f f' : Failure} (h : f.Agrees f') (n : Nat) : (f.shift n).Agrees (f'.shift n) := by
  cases h with
  | short missing missing' needed position => exact .short _ _ _ _
  | miss position same => exact .miss _ same
  | bad cause cause' position => exact .bad _ _ _
  | refused why why' => exact .refused _ _

end Failure.Agrees

/-- Outcomes that use equally many octets, with values that `R` relates, or fail in the same way. -/
inductive Outcome.Agrees {α β : Type} (R : α → β → Prop) : Outcome α → Outcome β → Prop
  | done {a : α} {b : β} (related : R a b) (used : Nat) : Agrees R (.done a used) (.done b used)
  | failed {f f' : Failure} (agree : f.Agrees f') : Agrees R (.failed f) (.failed f')

namespace Outcome.Agrees

variable {α β γ δ : Type} {R : α → β → Prop} {S : γ → δ → Prop} {o : Outcome α} {o' : Outcome β}

theorem shift (h : o.Agrees R o') (n : Nat) : (o.shift n).Agrees R (o'.shift n) := by
  cases h with
  | done related used => exact .done related _
  | failed agree => exact .failed (agree.shift n)

theorem refl [ToTerm α] (o : Outcome α) : o.Agrees Akin o := by
  cases o with
  | done a used => exact .done (.refl a) used
  | failed why => exact .failed (.refl why)

theorem mono {R' : α → β → Prop} (h : o.Agrees R o') (hR : ∀ a b, R a b → R' a b) :
    o.Agrees R' o' := by
  cases h with
  | done related used => exact .done (hR _ _ related) used
  | failed agree => exact .failed agree

theorem map {f : α → γ} {g : β → δ} (h : o.Agrees R o') (hfg : ∀ a b, R a b → S (f a) (g b)) :
    (o.map f).Agrees S (o'.map g) := by
  cases h with
  | done related used => exact .done (hfg _ _ related) used
  | failed agree => exact .failed agree

end Outcome.Agrees

namespace Rule

/-- On octets that differ in case alone, two rules come to outcomes that agree. -/
def Agree {α β : Type} (R : α → β → Prop) (r : Rule α) (r' : Rule β) : Prop :=
  ∀ ctx (bs bs' : Bytes), bs.Alike bs' → (r ctx bs).Agrees R (r' ctx bs')

/-- A rule to which case does not matter. -/
def Caseless {α : Type} [ToTerm α] (r : Rule α) : Prop := Agree Akin r r

namespace Agree

variable {α β γ δ : Type} {R : α → β → Prop} {S : γ → δ → Prop} {r other : Rule α}
  {r' other' : Rule β} {next : α → Rule γ} {next' : β → Rule δ}

theorem of_done (hr : Agree R r r') {ctx : Context} {bs bs' : Bytes} (h : bs.Alike bs') {a : α}
    {n : Nat} (hd : r ctx bs = .done a n) : ∃ b, r' ctx bs' = .done b n ∧ R a b := by
  have hagrees := hr ctx bs bs' h
  generalize ho : r' ctx bs' = o' at hagrees ⊢
  rw [hd] at hagrees
  cases hagrees with
  | done related => exact ⟨_, rfl, related⟩

theorem of_failed (hr : Agree R r r') {ctx : Context} {bs bs' : Bytes} (h : bs.Alike bs')
    {why : Failure} (hf : r ctx bs = .failed why) :
    ∃ why', r' ctx bs' = .failed why' ∧ why.Agrees why' := by
  have hagrees := hr ctx bs bs' h
  generalize ho : r' ctx bs' = o' at hagrees ⊢
  rw [hf] at hagrees
  cases hagrees with
  | failed agree => exact ⟨_, rfl, agree⟩

theorem mono {R' : α → β → Prop} (h : Agree R r r') (hR : ∀ a b, R a b → R' a b) :
    Agree R' r r' := by
  intro ctx bs bs' hbs
  exact (h ctx bs bs' hbs).mono hR

theorem pure {a : α} {b : β} (h : R a b) : Agree R (Pure.pure a : Rule α) (Pure.pure b : Rule β) := by
  intro _ _ _ _
  exact .done h 0

theorem fail {why why' : Failure} (h : why.Agrees why') :
    Agree R (Rule.fail why : Rule α) (Rule.fail why' : Rule β) := by
  intro _ _ _ _
  exact .failed h

theorem dialect : Agree Eq Rule.dialect Rule.dialect := by
  intro _ _ _ _
  exact .done rfl 0

theorem bind (hr : Agree R r r') (hn : ∀ a b, R a b → Agree S (next a) (next' b)) :
    Agree S (r >>= next) (r' >>= next') := by
  intro ctx bs bs' hbs
  cases ho : r ctx bs with
  | done a used =>
    obtain ⟨b, hb, related⟩ := hr.of_done hbs ho
    rw [bind_of_done ho, bind_of_done hb]
    exact (hn a b related ctx _ _ (hbs.drop used)).shift used
  | failed why =>
    obtain ⟨why', hw, agree⟩ := hr.of_failed hbs ho
    rw [bind_of_failed ho, bind_of_failed hw]
    exact .failed agree

/-- Where nothing depends on what comes first. -/
theorem andThen {n : Rule γ} {n' : Rule δ} (hr : Agree R r r') (hn : Agree S n n') :
    Agree S (r >>= fun _ => n) (r' >>= fun _ => n') := by
  refine hr.bind fun _ _ _ => ?_
  exact hn

theorem map {f : α → γ} {g : β → δ} (hr : Agree R r r') (h : ∀ a b, R a b → S (f a) (g b)) :
    Agree S (f <$> r) (g <$> r') := by
  apply hr.bind
  intro a b hab
  exact pure (h a b hab)

theorem lookahead (hr : Agree R r r') : Agree R r.lookahead r'.lookahead := by
  intro ctx bs bs' hbs
  have hfirst := hr ctx bs bs' hbs
  simp only [Rule.lookahead]
  generalize r ctx bs = o at hfirst
  generalize r' ctx bs' = o' at hfirst
  cases hfirst with
  | done related used => exact .done related 0
  | failed agree => exact .failed agree

theorem opt (hr : Agree R r r') : Agree (Both R) r.opt r'.opt := by
  intro ctx bs bs' hbs
  have hfirst := hr ctx bs bs' hbs
  simp only [Rule.opt]
  generalize r ctx bs = o at hfirst
  generalize r' ctx bs' = o' at hfirst
  cases hfirst with
  | done related used => exact .done (.some related) used
  | failed agree =>
    cases agree with
    | miss position same => exact .done .none 0
    | short missing missing' needed position => exact .failed (.short _ _ _ _)
    | bad cause cause' position => exact .failed (.bad _ _ _)
    | refused why why' => exact .failed (.refused _ _)

theorem orElse (hr : Agree R r r') (ho : Agree R other other') :
    Agree R (r.orElse other) (r'.orElse other') := by
  intro ctx bs bs' hbs
  have hfirst := hr ctx bs bs' hbs
  simp only [Rule.orElse]
  generalize r ctx bs = o at hfirst
  generalize r' ctx bs' = o' at hfirst
  cases hfirst with
  | done related used => exact .done related used
  | failed agree =>
    cases agree with
    | miss position same => exact ho ctx bs bs' hbs
    | short missing missing' needed position => exact .failed (.short _ _ _ _)
    | bad cause cause' position => exact .failed (.bad _ _ _)
    | refused why why' => exact .failed (.refused _ _)

theorem furthest_agrees {f f' g g' : Failure} (hf : f.Agrees f') (hg : g.Agrees g') :
    (furthest f g).Agrees (furthest f' g') := by
  cases hf with
  | miss position same =>
    cases hg with
    | miss position' same' =>
      simp only [furthest]
      split
      · exact .miss _ same'
      · exact .miss _ same
    | short missing missing' needed position => exact .short _ _ _ _
    | bad cause cause' position => exact .bad _ _ _
    | refused why why' => exact .refused _ _
  | _ => exact hg

theorem alt (hr : Agree R r r') (ho : Agree R other other') :
    Agree R (r.alt other) (r'.alt other') := by
  intro ctx bs bs' hbs
  have hfirst := hr ctx bs bs' hbs
  have hsecond := ho ctx bs bs' hbs
  simp only [Rule.alt]
  generalize r ctx bs = o at hfirst
  generalize r' ctx bs' = o' at hfirst
  cases hfirst with
  | done related used => exact .done related used
  | failed agree =>
    cases agree with
    | miss position same =>
      simp only
      generalize other ctx bs = later at hsecond
      generalize other' ctx bs' = later' at hsecond
      cases hsecond with
      | done related used => exact .done related used
      | failed agree => exact .failed (furthest_agrees (.miss position same) agree)
    | short missing missing' needed position => exact .failed (.short _ _ _ _)
    | bad cause cause' position => exact .failed (.bad _ _ _)
    | refused why why' => exact .failed (.refused _ _)

theorem ofExcept {x : Except Refusal α} {x' : Except Refusal β}
    (h : Verdicts.Free R x x') : Agree R (Rule.ofExcept x) (Rule.ofExcept x') := by
  cases h with
  | ok related => exact pure related
  | error => exact fail (.refused _ _)

theorem refine {judge : α → Except Failure γ} {judge' : β → Except Failure δ} (hr : Agree R r r')
    (h : ∀ a b, R a b → Verdicts Failure.Agrees S (judge a) (judge' b)) :
    Agree S (r.refine judge) (r'.refine judge') := by
  intro ctx bs bs' hbs
  have hfirst := hr ctx bs bs' hbs
  simp only [Rule.refine]
  generalize r ctx bs = o at hfirst
  generalize r' ctx bs' = o' at hfirst
  cases hfirst with
  | failed agree => exact .failed agree
  | @done a b related used =>
    have hverdict := h a b related
    simp only
    generalize judge a = x at hverdict
    generalize judge' b = x' at hverdict
    cases hverdict with
    | ok related => exact .done related used
    | error agree => exact .failed agree

/-- What follows may depend on the next octet, as long as that tells no letter from another. -/
theorem peek {next : Option UInt8 → Rule γ} {next' : Option UInt8 → Rule δ}
    (h : ∀ ahead, Agree S (next ahead) (next' ahead))
    (letters : ∀ b, Octet.isLetter b = true → next' (some b) = next' none) :
    Agree S (Rule.peek >>= next) (Rule.peek >>= next') := by
  intro ctx bs bs' hbs
  cases bs with
  | nil =>
    cases hbs.nil
    cases hc : ctx.complete with
    | false =>
      have hpeek : Rule.peek ctx [] = .failed (.short .anything none 0) := by simp [Rule.peek, hc]
      rw [bind_of_failed hpeek, bind_of_failed hpeek]
      exact .failed (.refl _)
    | true =>
      have hpeek : Rule.peek ctx [] = .done none 0 := by simp [Rule.peek, hc]
      rw [bind_of_done hpeek, bind_of_done hpeek]
      exact (h none ctx [] [] hbs).shift 0
  | cons b bs =>
    have hpeek (b : UInt8) (bs : Bytes) : Rule.peek ctx (b :: bs) = .done (some b) 0 := rfl
    cases hletter : Octet.isLetter b with
    | false =>
      obtain ⟨cs, rfl, -⟩ := hbs.uncons_same hletter
      rw [bind_of_done (hpeek b bs), bind_of_done (hpeek b cs)]
      exact (h (some b) ctx _ _ hbs).shift 0
    | true =>
      obtain ⟨c, cs, rfl, hbc, -⟩ := hbs.uncons
      rw [bind_of_done (hpeek b bs), bind_of_done (hpeek c cs)]
      have hletter' : Octet.isLetter c = true := by rwa [Octet.isLetter, ← hbc]
      have hsame : next' (some c) = next' (some b) :=
        (letters c hletter').trans (letters b hletter).symm
      rw [hsame]
      exact (h (some b) ctx _ _ hbs).shift 0

end Agree

end Rule

end Imap
