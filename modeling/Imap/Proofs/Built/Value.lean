import Imap.Proofs.Built.Basic

namespace Imap.Rule

variable {α β : Type}

theorem Gives.of_bind {r : Rule α} {next : α → Rule β} {b : β} (h : (r >>= next).Gives b) :
    ∃ a, r.Gives a ∧ (next a).Gives b := by
  obtain ⟨ctx, bs, used, hd⟩ := h
  obtain ⟨a, n, m, ha, hb, -⟩ := bind_done hd
  exact ⟨a, ⟨_, _, _, ha⟩, ⟨_, _, _, hb⟩⟩

theorem Gives.of_pure {a b : α} (h : Rule.Gives (Pure.pure a : Rule α) b) : b = a := by
  obtain ⟨ctx, bs, used, hd⟩ := h
  cases hd
  rfl

theorem text_ne_empty {bs : Bytes} (h : bs ≠ []) : Bytes.text bs ≠ "" := by
  intro he
  have hl : bs.map (fun b => Char.ofNat b.toNat) = [] := by
    have := congrArg String.toList he
    simpa [Bytes.text] using this
  exact h (List.map_eq_nil_iff.mp hl)

theorem token_gives {length : Bytes → Nat} (hg : Greedy length) {missing : Shortage} {cause : Cause}
    {found : String} (h : (token length false missing cause).Gives found) : found ≠ "" := by
  obtain ⟨ctx, bs, n, hd⟩ := h
  simp only [token] at hd
  split at hd
  · cases hd
  · split at hd
    · cases hd
    · next hn =>
      obtain ⟨hdecode, -⟩ := Outcome.ofExcept_done hd
      rw [Text.Ascii.decode_eq hdecode]
      refine text_ne_empty ?_
      have hle := (hg bs).1
      intro hnil
      have hlen := congrArg List.length hnil
      simp only [List.length_take, List.length_nil] at hlen
      have : length bs ≠ 0 := by simpa using hn
      omega

theorem atom_gives {found : String} (h : atom.Gives found) : found ≠ "" :=
  token_gives (greedy_takeWhile _) h

theorem nonZeroNumber_gives {n : Nat} (h : nonZeroNumber.Gives n) : 0 < n := by
  obtain ⟨ctx, bs, used, hd⟩ := h
  obtain ⟨ahead, k, m, hp, hn, -⟩ := bind_done hd
  cases bs with
  | nil =>
    simp only [peek] at hp
    split at hp <;> cases hp
    cases hn
  | cons b bs =>
    cases hp
    simp only [List.drop_zero] at hn
    split at hn
    · next hb =>
      simp only [Bool.and_eq_true, bne_iff_ne, ne_eq] at hb
      simp only [digits_apply] at hn
      split at hn
      · cases hn
      · have hvalue : decimal ((b :: bs).takeWhile Octet.isDigit) = n := by
          cases hs : span Octet.isDigit .nonZeroNumber ctx (b :: bs) with
          | failed why => rw [hs] at hn; cases hn
          | done text used => rw [hs] at hn; cases hn; rfl
        have hrun : decimal [b] ≤ n := by
          rw [← hvalue, List.takeWhile_cons_of_pos hb.1]
          exact decimal_append_le [b] _
        have hfirst : 0 < decimal [b] := by
          have hd := hb.1
          simp only [Octet.isDigit, Bool.and_eq_true, decide_eq_true_eq] at hd
          have hle : 0x30 ≤ b.toNat := UInt8.le_iff_toNat_le.mp hd.1
          have hne : b.toNat ≠ 0x30 := fun heq => hb.2 (UInt8.toNat_inj.mp heq)
          simp only [decimal, List.foldl_cons, List.foldl_nil]
          omega
        omega
    · cases hn

theorem spacedToClose_gives {element : Rule α} {as : List α} (h : element.spacedToClose.Gives as) :
    as ≠ [] := by
  obtain ⟨ctx, bs, used, hd⟩ := h
  change spacedToClose.go element ctx bs = _ at hd
  rintro rfl
  cases ha : element ctx bs with
  | failed why => rw [spacedToClose_failed ha] at hd; cases hd
  | done a n =>
    cases hb : bs.drop n with
    | nil => rw [spacedToClose_end ha hb] at hd; cases hd
    | cons b rest =>
      by_cases hc : b = 0x29
      · subst hc
        rw [spacedToClose_close ha hb] at hd
        cases hd
      · by_cases hs : b = 0x20
        · subst hs
          rw [spacedToClose_space ha hb] at hd
          obtain ⟨_, _, _, hcons, _⟩ := map_shift_done hd
          cases hcons
        · rw [spacedToClose_other ha hb hc hs] at hd
          cases hd

theorem nonEmptyList_gives {element : Rule α} {as : List α} (h : (nonEmptyList element).Gives as) :
    as ≠ [] := by
  obtain ⟨_, -, h⟩ := h.of_bind
  obtain ⟨close, -, h⟩ := h.of_bind
  split at h
  · obtain ⟨ctx, bs, used, hd⟩ := h
    cases hd
  · exact spacedToClose_gives h

end Imap.Rule
