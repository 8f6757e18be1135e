import Imap.Proofs.SequenceSet.Compact

namespace Imap

namespace SeqElement

variable {e : SeqElement} {a : SeqNo} {greatest n : Int}

theorem covers_end (h : a ∈ e.ends) : e.Covers greatest (a.among greatest) := by
  cases e with
  | single a' =>
    cases List.mem_singleton.mp h
    rfl
  | range first last =>
    rcases List.mem_pair.mp h with rfl | rfl <;> simp only [Covers] <;> omega

/-- A covered number lies between two ends. -/
theorem Covers.between_ends (h : e.Covers greatest n) :
    (∃ a ∈ e.ends, a.among greatest ≤ n) ∧ ∃ a ∈ e.ends, n ≤ a.among greatest := by
  cases e with
  | single a =>
    cases h
    exact ⟨⟨a, List.mem_singleton_self a, Int.le_refl _⟩,
      ⟨a, List.mem_singleton_self a, Int.le_refl _⟩⟩
  | range first last =>
    rcases h with ⟨hlow, hhigh⟩ | ⟨hlow, hhigh⟩
    · exact ⟨⟨first, .head _, hlow⟩, ⟨last, .tail _ (.head _), hhigh⟩⟩
    · exact ⟨⟨last, .tail _ (.head _), hlow⟩, ⟨first, .head _, hhigh⟩⟩

end SeqElement

theorem SeqNo.among_pos {a : SeqNo} {greatest : Int} (h : a = .star → 1 ≤ greatest) :
    1 ≤ a.among greatest := by
  cases a with
  | star => exact h rfl
  | number n positive => exact Int.ofNat_le.mpr positive

theorem Mailbox.among_le {m : Mailbox} {a : SeqNo} (huid : m.uid = false)
    (h : m.refusal? a = none) : a.among m.greatest ≤ m.greatest := by
  cases a with
  | star => exact Int.le_refl _
  | number n positive =>
    by_contra hbeyond
    have hrefused : m.refusal? (.number n positive) = some (.beyondMailbox n) :=
      if_pos ⟨huid, Int.not_le.mp hbeyond⟩
    rw [hrefused] at h
    cases h

namespace SequenceSet

variable {m : Mailbox} {set : SequenceSet} {numbers : List Int}

theorem expand_ne_nil (hne : set ≠ []) (h : expand m set = .ok numbers) : numbers ≠ [] := by
  obtain ⟨e, he⟩ := List.exists_mem_of_ne_nil set hne
  obtain ⟨a, ha⟩ : ∃ a, a ∈ e.ends := by
    cases e with
    | single a => exact ⟨a, .head _⟩
    | range first last => exact ⟨first, .head _⟩
  exact List.ne_nil_of_mem ((mem_of_expand h).mpr ⟨e, he, SeqElement.covers_end ha⟩)

/-- Where messages are numbered, `*` is refused for 0. -/
theorem among_pos_of_expand (hgreatest : 0 ≤ m.greatest) (h : expand m set = .ok numbers)
    (hstar : ¬(m.uid = true ∧ m.greatest = 0 ∧ .star ∈ set.ends)) {a : SeqNo}
    (ha : a ∈ set.ends) : 1 ≤ a.among m.greatest := by
  refine SeqNo.among_pos ?_
  rintro rfl
  have haccepted := (expand_eq_ok_iff.mp h).1 _ ha
  have hnonzero : m.greatest ≠ 0 := by
    intro hempty
    cases huid : m.uid with
    | true => exact hstar ⟨huid, hempty, ha⟩
    | false =>
      have hrefused : m.refusal? .star = some .starInEmptyMailbox := if_pos ⟨huid, hempty⟩
      rw [hrefused] at haccepted
      cases haccepted
  omega

theorem expand_pos (hgreatest : 0 ≤ m.greatest) (h : expand m set = .ok numbers)
    (hstar : ¬(m.uid = true ∧ m.greatest = 0 ∧ .star ∈ set.ends)) : ∀ n ∈ numbers, 1 ≤ n := by
  intro n hn
  obtain ⟨e, he, hcovers⟩ := (mem_of_expand h).mp hn
  obtain ⟨⟨a, ha, hlow⟩, -⟩ := hcovers.between_ends
  have hpos := among_pos_of_expand hgreatest h hstar (mem_ends.mpr ⟨e, he, ha⟩)
  exact Int.le_trans hpos hlow

theorem expand_le (huid : m.uid = false) (h : expand m set = .ok numbers) :
    ∀ n ∈ numbers, n ≤ m.greatest := by
  intro n hn
  obtain ⟨e, he, hcovers⟩ := (mem_of_expand h).mp hn
  obtain ⟨-, a, ha, hhigh⟩ := hcovers.between_ends
  have haccepted := (expand_eq_ok_iff.mp h).1 a (mem_ends.mpr ⟨e, he, ha⟩)
  exact Int.le_trans hhigh (Mailbox.among_le huid haccepted)

theorem ascending_expand (h : expand m set = .ok numbers) : ascending numbers = numbers := by
  refine ascending_eq (pairwise_of_expand h) fun _ => ?_
  exact Iff.rfl

theorem expand_compact (hne : set ≠ []) (h : expand m set = .ok numbers)
    (hpos : ∀ n ∈ numbers, 1 ≤ n) :
    ∃ compacted, compact numbers = .ok compacted ∧ expand m compacted = .ok numbers := by
  obtain ⟨compacted, hcompact, hruns⟩ := compact_ok (expand_ne_nil hne h) hpos
  have hadmitted : ∀ n ∈ numbers, m.uid = true ∨ n ≤ m.greatest := by
    intro n hn
    cases huid : m.uid with
    | true => exact .inl rfl
    | false => exact .inr (expand_le huid h n hn)
  refine ⟨compacted, hcompact, ?_⟩
  rw [hruns.expand_admitted hadmitted, ascending_expand h]

/-- `*` among the unique identifiers of an empty mailbox stands for 0, which no set can hold. -/
theorem expand_star_empty (hempty : m.greatest = 0) (hstar : .star ∈ set.ends)
    (h : expand m set = .ok numbers) :
    0 ∈ numbers ∧ (∀ n ∈ numbers, 0 ≤ n) ∧ compact numbers = .error (.sequenceNumber 0) := by
  have hzero : 0 ∈ numbers := by
    obtain ⟨e, he, hmem⟩ := mem_ends.mp hstar
    have hcovers : e.Covers m.greatest (SeqNo.star.among m.greatest) := SeqElement.covers_end hmem
    rw [SeqNo.among] at hcovers
    exact (mem_of_expand h).mpr ⟨e, he, hempty ▸ hcovers⟩
  have hleast : ∀ n ∈ numbers, 0 ≤ n := by
    intro n hn
    obtain ⟨e, -, hcovers⟩ := (mem_of_expand h).mp hn
    obtain ⟨⟨a, -, hlow⟩, -⟩ := hcovers.between_ends
    cases a with
    | star => exact hempty ▸ hlow
    | number k positive => exact Int.le_trans (Int.natCast_nonneg k) hlow
  obtain ⟨least, hmem, hall, herror⟩ := compact_error hzero Int.zero_lt_one
  have heq : least = 0 := Int.le_antisymm (hall 0 hzero) (hleast least hmem)
  exact ⟨hzero, hleast, heq ▸ herror⟩

/-- `*` for unique identifiers expands in an empty mailbox, though not to what a set can hold. -/
theorem expand_star_not_compacted :
    expand ⟨0, true⟩ [.single .star] = .ok [0] ∧ compact [0] = .error (.sequenceNumber 0) ∧
      ¬∀ (m : Mailbox) (set : SequenceSet) (numbers : List Int), 0 ≤ m.greatest → set ≠ [] →
        expand m set = .ok numbers → (∀ n ∈ numbers, 1 ≤ n) ∧
          ∃ compacted, compact numbers = .ok compacted ∧ expand m compacted = .ok numbers := by
  have hexpand : expand ⟨0, true⟩ [.single .star] = .ok [0] :=
    expand_eq_ok_iff.mpr ⟨by decide, (ascending_eq (by decide) fun n => Iff.rfl).symm⟩
  obtain ⟨-, -, herror⟩ := expand_star_empty rfl (.head _) hexpand
  refine ⟨hexpand, herror, fun hall => ?_⟩
  obtain ⟨hpos, -⟩ := hall _ _ _ (Int.le_refl 0) (List.cons_ne_nil _ _) hexpand
  exact absurd (hpos 0 (.head _)) (by decide)

/-- What a set expands to can be put together again, and the set that this gives expands to the same in
the same mailbox. The one exception is `*` among the unique identifiers of an empty mailbox: it stands
for 0, which is refused in a set. -/
theorem expand_compact_expand (m : Mailbox) (set : SequenceSet) (numbers : List Int)
    (hgreatest : 0 ≤ m.greatest) (hne : set ≠ []) (h : expand m set = .ok numbers) :
    (¬(m.uid = true ∧ m.greatest = 0 ∧ .star ∈ set.ends) → (∀ n ∈ numbers, 1 ≤ n) ∧
      ∃ compacted, compact numbers = .ok compacted ∧ expand m compacted = .ok numbers) ∧
    (m.uid = true ∧ m.greatest = 0 ∧ .star ∈ set.ends → 0 ∈ numbers ∧ (∀ n ∈ numbers, 0 ≤ n) ∧
      compact numbers = .error (.sequenceNumber 0)) := by
  refine ⟨fun hstar => ?_, fun ⟨_, hempty, hstar⟩ => expand_star_empty hempty hstar h⟩
  have hpos := expand_pos hgreatest h hstar
  exact ⟨hpos, expand_compact hne h hpos⟩

/-- `3:*` for unique identifiers, where the greatest is 2 and where there is none. -/
theorem expand_compact_three :
    let set : SequenceSet := [.range (.number 3 (by decide)) .star]
    expand ⟨2, true⟩ set = .ok [2, 3] ∧
      (∃ compacted, compact [2, 3] = .ok compacted ∧ expand ⟨2, true⟩ compacted = .ok [2, 3]) ∧
      expand ⟨0, true⟩ set = .ok [0, 1, 2, 3] ∧
      compact [0, 1, 2, 3] = .error (.sequenceNumber 0) := by
  intro set
  have hsome : expand ⟨2, true⟩ set = .ok [2, 3] :=
    expand_eq_ok_iff.mpr ⟨by decide, (ascending_eq (by decide) fun n => Iff.rfl).symm⟩
  have hnone : expand ⟨0, true⟩ set = .ok [0, 1, 2, 3] :=
    expand_eq_ok_iff.mpr ⟨by decide, (ascending_eq (by decide) fun n => Iff.rfl).symm⟩
  obtain ⟨hcompact, -⟩ := expand_compact_expand ⟨2, true⟩ set [2, 3] (by decide) (by decide) hsome
  obtain ⟨-, hrefused⟩ :=
    expand_compact_expand ⟨0, true⟩ set [0, 1, 2, 3] (by decide) (by decide) hnone
  obtain ⟨-, hset⟩ := hcompact (by decide)
  obtain ⟨-, -, herror⟩ := hrefused (by decide)
  exact ⟨hsome, hset, hnone, herror⟩

end SequenceSet

end Imap
