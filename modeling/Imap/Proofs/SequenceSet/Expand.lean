import Imap.SequenceSet.Numbers
import Mathlib.Data.List.Sort

namespace Imap

/-- The number meant, where `*` stands for the greatest in use. -/
def SeqNo.among (greatest : Int) : SeqNo → Int
  | star => greatest
  | number n _ => n

namespace SeqElement

/-- The numbers that an element is written with. -/
def ends : SeqElement → List SeqNo
  | single n => [n]
  | range first last => [first, last]

/-- A range covers what lies between its ends, whichever of them is the greater. -/
def Covers (greatest : Int) : SeqElement → Int → Prop
  | single a, n => n = a.among greatest
  | range a b, n =>
    (a.among greatest ≤ n ∧ n ≤ b.among greatest) ∨ (b.among greatest ≤ n ∧ n ≤ a.among greatest)

/-- A range written from its other end. -/
def reversed : SeqElement → SeqElement
  | single n => single n
  | range first last => range last first

/-- The numbers that an element covers, one after the other. -/
def spread (greatest : Int) : SeqElement → List Int
  | single a => [a.among greatest]
  | range a b => Mailbox.interval (min (a.among greatest) (b.among greatest))
      (max (a.among greatest) (b.among greatest))

variable {e : SeqElement} {greatest n : Int}

theorem mem_ends_reversed {a : SeqNo} : a ∈ e.reversed.ends ↔ a ∈ e.ends := by
  cases e with
  | single => rfl
  | range first last =>
    simp only [reversed, ends, List.mem_cons, List.not_mem_nil, or_false]
    exact or_comm

theorem covers_reversed : e.reversed.Covers greatest n ↔ e.Covers greatest n := by
  cases e with
  | single => rfl
  | range first last => exact or_comm

/-- What lies between covered numbers is covered. -/
theorem Covers.between {low high : Int} (hlow : e.Covers greatest low)
    (hhigh : e.Covers greatest high) (hn : low ≤ n) (hn' : n ≤ high) : e.Covers greatest n := by
  cases e <;> simp only [Covers] at * <;> omega

end SeqElement

theorem Mailbox.mem_interval {low high n : Int} :
    n ∈ interval low high ↔ low ≤ n ∧ n ≤ high := by
  rw [interval, List.mem_map]
  constructor
  · rintro ⟨i, hi, rfl⟩
    rw [List.mem_range] at hi
    omega
  · intro h
    exact ⟨(n - low).toNat, List.mem_range.mpr (by omega), by omega⟩

theorem SeqElement.mem_spread {e : SeqElement} {greatest n : Int} :
    n ∈ e.spread greatest ↔ e.Covers greatest n := by
  cases e with
  | single a => exact List.mem_singleton
  | range a b =>
    rw [spread, Mailbox.mem_interval, Covers]
    omega

/-- `a`, unless there is a reason to refuse it. -/
def accept {α : Type} (why? : Option Refusal) (a : α) : Except Refusal α :=
  match why? with
  | some why => .error why
  | none => .ok a

section

variable {α β : Type}

theorem accept_eq_error_iff {why? : Option Refusal} {a : α} {why : Refusal} :
    accept why? a = .error why ↔ why? = some why := by
  cases why? <;> simp [accept]

theorem accept_eq_ok_iff {why? : Option Refusal} {a b : α} :
    accept why? a = .ok b ↔ why? = none ∧ a = b := by
  cases why? <;> simp [accept]

theorem accept_bind (why? : Option Refusal) (a : α) (f : α → β) :
    (accept why? a >>= fun x => pure (f x)) = accept why? (f a) := by
  cases why? <;> rfl

/-- A list is refused for the first of its members that is. -/
theorem mapM_accept (why? : α → Option Refusal) (value : α → β) (as : List α) :
    (as.mapM fun a => accept (why? a) (value a)) = accept (as.findSome? why?) (as.map value) := by
  induction as with
  | nil => rfl
  | cons a as ih =>
    rw [List.mapM_cons, ih, List.findSome?_cons]
    cases why? a with
    | some why => rfl
    | none => exact accept_bind _ _ _

end

namespace Mailbox

/-- Why a number means nothing in the mailbox, if so. -/
def refusal? (m : Mailbox) : SeqNo → Option Refusal
  | .star => if m.uid = false ∧ m.greatest = 0 then some .starInEmptyMailbox else none
  | .number n _ => if m.uid = false ∧ m.greatest < n then some (.beyondMailbox n) else none

variable {m : Mailbox}

theorem number_eq_accept (n : SeqNo) : m.number n = accept (m.refusal? n) (n.among m.greatest) := by
  cases n with
  | star =>
    simp only [number, refusal?, Bool.not_eq_true', and_comm]
    split <;> rfl
  | number n positive =>
    simp only [number, refusal?, Bool.not_eq_true', and_comm]
    split <;> rfl

theorem numbers_eq_accept (e : SeqElement) :
    m.numbers e = accept (e.ends.findSome? m.refusal?) (e.spread m.greatest) := by
  cases e with
  | single a =>
    simp only [numbers, number_eq_accept, SeqElement.ends, List.findSome?_singleton]
    cases m.refusal? a <;> rfl
  | range a b =>
    simp only [numbers, number_eq_accept, SeqElement.ends, List.findSome?_cons, List.findSome?_nil]
    cases m.refusal? a <;> cases m.refusal? b <;> rfl

end Mailbox

namespace SequenceSet

theorem eraseReps_loop (n : Int) (ns before : List Int) :
    List.eraseRepsBy.loop (· == ·) n ns before =
      before.reverse ++ List.eraseRepsBy.loop (· == ·) n ns [] := by
  induction ns generalizing n before with
  | nil => simp [List.eraseRepsBy.loop]
  | cons n' ns ih =>
    simp only [List.eraseRepsBy.loop]
    split
    · exact ih n before
    · rw [ih n' (n :: before), ih n' [n]]
      simp

theorem eraseReps_cons (n n' : Int) (ns : List Int) :
    (n :: n' :: ns).eraseReps =
      if n = n' then (n' :: ns).eraseReps else n :: (n' :: ns).eraseReps := by
  simp only [List.eraseReps, List.eraseRepsBy, List.eraseRepsBy.loop]
  split
  · next h =>
    rw [eq_of_beq h, if_pos rfl]
  · next h =>
    rw [if_neg (ne_of_beq_false h), eraseReps_loop]
    rfl

theorem mem_eraseReps {n : Int} {ns : List Int} : n ∈ ns.eraseReps ↔ n ∈ ns := by
  induction ns with
  | nil => rfl
  | cons a ns ih =>
    cases ns with
    | nil => rfl
    | cons b ns =>
      rw [eraseReps_cons]
      split
      · next h => rw [ih, h, List.mem_cons (a := n) (b := b) (l := b :: ns)]; simp
      · rw [List.mem_cons, ih, List.mem_cons (b := a)]

theorem pairwise_eraseReps {ns : List Int} (h : ns.Pairwise (· ≤ ·)) :
    ns.eraseReps.Pairwise (· < ·) := by
  induction ns with
  | nil => exact .nil
  | cons a ns ih =>
    obtain ⟨hfirst, hothers⟩ := List.pairwise_cons.mp h
    cases ns with
    | nil => exact List.pairwise_singleton _ a
    | cons b ns =>
      rw [eraseReps_cons]
      split
      · exact ih hothers
      · next hne =>
        refine List.pairwise_cons.mpr ⟨fun n hn => ?_, ih hothers⟩
        have hab : a ≤ b := hfirst b List.mem_cons_self
        rcases List.mem_cons.mp (mem_eraseReps.mp hn) with rfl | hn
        · omega
        · have hbn : b ≤ n := (List.pairwise_cons.mp hothers).1 n hn
          omega

theorem mem_ascending {n : Int} {ns : List Int} : n ∈ ascending ns ↔ n ∈ ns := by
  rw [ascending, mem_eraseReps, List.mem_mergeSort]

theorem pairwise_ascending (ns : List Int) : (ascending ns).Pairwise (· < ·) := by
  -- Sorting compares by a Boolean, so the order comes out as one.
  have hsorted : (ns.mergeSort (· ≤ ·)).Pairwise fun a b => decide (a ≤ b) = true := by
    apply List.pairwise_mergeSort
    · simp only [decide_eq_true_eq]
      exact fun _ _ _ => Int.le_trans
    · simp only [Bool.or_eq_true, decide_eq_true_eq]
      exact Int.le_total
  exact pairwise_eraseReps (hsorted.imp of_decide_eq_true)

/-- There is one ascending list of given members. -/
theorem ascending_eq {ns ns' : List Int} (hpairwise : ns'.Pairwise (· < ·))
    (h : ∀ n, n ∈ ns ↔ n ∈ ns') : ascending ns = ns' := by
  apply (pairwise_ascending ns).eq_of_mem_iff hpairwise
  intro n
  rw [mem_ascending, h]

theorem ascending_congr {ns ns' : List Int} (h : ∀ n, n ∈ ns ↔ n ∈ ns') :
    ascending ns = ascending ns' := by
  apply ascending_eq (pairwise_ascending ns')
  intro n
  rw [h, mem_ascending]

/-- The numbers that a set is written with. -/
def ends (set : SequenceSet) : List SeqNo := set.flatMap SeqElement.ends

variable {m : Mailbox} {set : SequenceSet} {n : Int}

theorem findSome?_ends (f : SeqNo → Option Refusal) (set : SequenceSet) :
    set.ends.findSome? f = set.findSome? fun e => e.ends.findSome? f := by
  induction set with
  | nil => rfl
  | cons e set ih =>
    rw [ends, List.flatMap_cons, List.findSome?_append, List.findSome?_cons]
    rw [ends] at ih
    rw [ih]
    cases e.ends.findSome? f <;> rfl

theorem expand_eq_accept (m : Mailbox) (set : SequenceSet) :
    expand m set = accept (set.ends.findSome? m.refusal?)
      (ascending (set.flatMap (SeqElement.spread m.greatest))) := by
  have hmap : (set.map Item.element).mapM (Item.numbers m) =
      accept (set.ends.findSome? m.refusal?) (set.map (SeqElement.spread m.greatest)) := by
    rw [List.mapM_map, findSome?_ends]
    simp only [Function.comp_def, Item.numbers, Mailbox.numbers_eq_accept]
    exact mapM_accept _ _ set
  rw [expand, expandItems, hmap, List.flatMap]
  exact accept_bind _ _ fun spreads : List (List Int) => ascending spreads.flatten

/-- The refusal is that of the first number that means nothing. -/
theorem expand_eq_error_iff {why : Refusal} :
    expand m set = .error why ↔ set.ends.findSome? m.refusal? = some why := by
  rw [expand_eq_accept, accept_eq_error_iff]

theorem expand_eq_ok_iff {numbers : List Int} :
    expand m set = .ok numbers ↔ (∀ a ∈ set.ends, m.refusal? a = none) ∧
      numbers = ascending (set.flatMap (SeqElement.spread m.greatest)) := by
  rw [expand_eq_accept, accept_eq_ok_iff, List.findSome?_eq_none_iff, eq_comm (a := numbers)]

theorem mem_spreads : n ∈ set.flatMap (SeqElement.spread m.greatest) ↔
    ∃ e ∈ set, e.Covers m.greatest n := by
  simp only [List.mem_flatMap, SeqElement.mem_spread]

theorem mem_of_expand {numbers : List Int} (h : expand m set = .ok numbers) :
    n ∈ numbers ↔ ∃ e ∈ set, e.Covers m.greatest n := by
  rw [(expand_eq_ok_iff.mp h).2, mem_ascending, mem_spreads]

theorem pairwise_of_expand {numbers : List Int} (h : expand m set = .ok numbers) :
    numbers.Pairwise (· < ·) := by
  rw [(expand_eq_ok_iff.mp h).2]
  exact pairwise_ascending _

theorem mem_ends {a : SeqNo} : a ∈ set.ends ↔ ∃ e ∈ set, a ∈ e.ends := List.mem_flatMap

/-- In a mailbox of messages, `*` means nothing where there are none, and no number may be greater than
the greatest. -/
theorem refused_iff : (∃ a ∈ set.ends, (m.refusal? a).isSome) ↔
    m.uid = false ∧ ((.star ∈ set.ends ∧ m.greatest = 0) ∨
      ∃ a ∈ set.ends, ∃ n : Nat, a.value? = some n ∧ m.greatest < n) := by
  constructor
  · rintro ⟨a, ha, hrefused⟩
    cases a with
    | star =>
      have hstar : m.uid = false ∧ m.greatest = 0 := by
        simpa [Mailbox.refusal?] using hrefused
      exact ⟨hstar.1, .inl ⟨ha, hstar.2⟩⟩
    | number n positive =>
      have hbeyond : m.uid = false ∧ m.greatest < n := by
        simpa [Mailbox.refusal?] using hrefused
      exact ⟨hbeyond.1, .inr ⟨_, ha, n, rfl, hbeyond.2⟩⟩
  · rintro ⟨huid, ⟨hstar, hempty⟩ | ⟨a, ha, n, hvalue, hbeyond⟩⟩
    · exact ⟨.star, hstar, by simp [Mailbox.refusal?, huid, hempty]⟩
    · cases a with
      | star => cases hvalue
      | number n' positive =>
        cases hvalue
        exact ⟨_, ha, by simp [Mailbox.refusal?, huid, hbeyond]⟩

theorem expand_error_iff : (∃ why, expand m set = .error why) ↔
    ∃ a ∈ set.ends, (m.refusal? a).isSome := by
  simp only [expand_eq_error_iff, ← Option.isSome_iff_exists, List.findSome?_isSome_iff]

/-- A set with every element of another, written from either end. -/
def Within (set other : SequenceSet) : Prop := ∀ e ∈ set, e ∈ other ∨ e.reversed ∈ other

theorem Within.covers {other : SequenceSet} (h : set.Within other) {greatest : Int}
    (hn : ∃ e ∈ set, e.Covers greatest n) : ∃ e ∈ other, e.Covers greatest n := by
  obtain ⟨e, he, hcovers⟩ := hn
  rcases h e he with hmem | hmem
  · exact ⟨e, hmem, hcovers⟩
  · exact ⟨e.reversed, hmem, SeqElement.covers_reversed.mpr hcovers⟩

theorem Within.ends {other : SequenceSet} (h : set.Within other) {a : SeqNo} (ha : a ∈ set.ends) :
    a ∈ other.ends := by
  obtain ⟨e, he, hmem⟩ := mem_ends.mp ha
  rcases h e he with hother | hother
  · exact mem_ends.mpr ⟨e, hother, hmem⟩
  · exact mem_ends.mpr ⟨e.reversed, hother, SeqElement.mem_ends_reversed.mpr hmem⟩

/-- A set that is written with the same numbers and covers the same has the same outcome. -/
theorem expand_congr {other : SequenceSet} (hends : ∀ a, a ∈ set.ends ↔ a ∈ other.ends)
    (hcovers : ∀ n, (∃ e ∈ set, e.Covers m.greatest n) ↔ ∃ e ∈ other, e.Covers m.greatest n) :
    (expand m set).toOption = (expand m other).toOption := by
  have hnumbers : ascending (set.flatMap (SeqElement.spread m.greatest)) =
      ascending (other.flatMap (SeqElement.spread m.greatest)) :=
    ascending_congr fun n => by rw [mem_spreads, mem_spreads, hcovers]
  cases hset : expand m set with
  | ok numbers =>
    obtain ⟨haccepted, rfl⟩ := expand_eq_ok_iff.mp hset
    have hother : expand m other = .ok _ :=
      expand_eq_ok_iff.mpr ⟨fun a ha => haccepted a ((hends a).mpr ha), hnumbers⟩
    rw [hother]
  | error why =>
    obtain ⟨a, ha, hrefused⟩ := expand_error_iff.mp ⟨why, hset⟩
    obtain ⟨why', hother⟩ := expand_error_iff.mpr ⟨a, (hends a).mp ha, hrefused⟩
    rw [hother]
    rfl

/-- A set is refused just where `*` has no number to stand for or a number is beyond the greatest,
unless they are unique identifiers, and then for the first such number. Else it expands, ascending, to
what its elements cover. Their order, their repetition and their direction make no difference. -/
theorem expand_iff_covers (m : Mailbox) (set : SequenceSet) :
    ((∃ why, expand m set = .error why) ↔
      m.uid = false ∧ ((.star ∈ set.ends ∧ m.greatest = 0) ∨
        ∃ a ∈ set.ends, ∃ n : Nat, a.value? = some n ∧ m.greatest < n)) ∧
    (∀ why, expand m set = .error why → set.ends.findSome? m.refusal? = some why) ∧
    (∀ numbers, expand m set = .ok numbers →
      numbers.Pairwise (· < ·) ∧ ∀ n, n ∈ numbers ↔ ∃ e ∈ set, e.Covers m.greatest n) ∧
    ∀ other : SequenceSet, set.Within other → other.Within set →
      (expand m set).toOption = (expand m other).toOption := by
  refine ⟨expand_error_iff.trans refused_iff, fun why => expand_eq_error_iff.mp,
    fun numbers h => ⟨pairwise_of_expand h, fun n => mem_of_expand h⟩, fun other h h' => ?_⟩
  exact expand_congr (fun a => ⟨h.ends, h'.ends⟩) fun n => ⟨h.covers, h'.covers⟩

/-- `3:*` where the greatest is 2 runs backwards for unique identifiers, as `*:3` does, and is refused
for messages. -/
theorem expand_backwards :
    let three := SeqNo.number 3 (by decide)
    expand ⟨2, true⟩ [.range three .star] = .ok [2, 3] ∧
      ([2, 3] : List Int).Pairwise (· < ·) ∧
      (∀ n, n ∈ [2, (3 : Int)] ↔ ∃ e ∈ [SeqElement.range three .star], e.Covers 2 n) ∧
      (expand ⟨2, true⟩ [.range three .star]).toOption =
        (expand ⟨2, true⟩ [.range .star three]).toOption ∧
      expand ⟨2, false⟩ [.range three .star] = .error (.beyondMailbox 3) ∧
      [three, .star].findSome? (Mailbox.refusal? ⟨2, false⟩) = some (.beyondMailbox 3) := by
  intro three
  have hspread : ascending ([.range three .star].flatMap (SeqElement.spread 2)) = [2, 3] :=
    ascending_eq (by decide) fun n => Iff.rfl
  have hok : expand ⟨2, true⟩ [.range three .star] = .ok [2, 3] := by
    rw [expand_eq_accept, hspread]
    rfl
  have herror : expand ⟨2, false⟩ [.range three .star] = .error (.beyondMailbox 3) := rfl
  obtain ⟨-, -, hexpanded, hsame⟩ := expand_iff_covers ⟨2, true⟩ [.range three .star]
  obtain ⟨-, hrefused, -, -⟩ := expand_iff_covers ⟨2, false⟩ [.range three .star]
  obtain ⟨hpairwise, hmem⟩ := hexpanded _ hok
  refine ⟨hok, hpairwise, hmem, hsame _ ?_ ?_, herror, hrefused _ herror⟩
  · exact List.forall_mem_singleton.mpr (.inr List.mem_cons_self)
  · exact List.forall_mem_singleton.mpr (.inr List.mem_cons_self)

end SequenceSet

end Imap
