import Imap.Proofs.Letters
import Imap.Text.Utf8
import Imap.Term

namespace Imap

namespace Text

/-- No character is NUL. -/
def NulFree (s : String) : Prop := '\x00' ∉ s.toList

instance (s : String) : Decidable (NulFree s) := inferInstanceAs (Decidable ('\x00' ∉ s.toList))

theorem nulFree_append {s t : String} : NulFree (s ++ t) ↔ NulFree s ∧ NulFree t := by
  rw [NulFree, String.toList_append, List.mem_append, not_or]
  rfl

theorem nulFree_ofOctets {bs : Bytes} (h : 0 ∉ bs) : NulFree (Bytes.text bs) := by
  rw [NulFree, Bytes.text_toList, List.mem_map]
  rintro ⟨b, hb, hchar⟩
  have hzero : b = 0 := Octet.char_injective hchar
  exact h (hzero ▸ hb)

theorem nulFree_map {s : String} {f : Char → Char} (hf : ∀ c, f c = '\x00' → c = '\x00')
    (h : NulFree s) : NulFree (s.map f) := by
  rw [NulFree, String.toList_map, List.mem_map]
  rintro ⟨c, hc, hzero⟩
  exact h (hf c hzero ▸ hc)

theorem toUpper_eq_nul (c : Char) (h : c.toUpper = '\x00') : c = '\x00' := by
  have small : ∀ n < 128, (Char.ofNat n).toUpper = '\x00' → Char.ofNat n = '\x00' := by
    decide +kernel
  by_cases hc : c.toNat < 128
  · have hzero := small c.toNat hc
    rw [Char.ofNat_toNat] at hzero
    exact hzero h
  · have hletter : ¬('a'.val ≤ c.val ∧ c.val ≤ 'z'.val) := fun hz =>
      hc (Nat.lt_of_le_of_lt (UInt32.le_iff_toNat_le.mp hz.2) (by decide))
    have hsame : c.toUpper = c := dif_neg hletter
    rwa [hsame] at h

theorem nulFree_toUpper {s : String} (h : NulFree s) : NulFree s.toUpper :=
  nulFree_map toUpper_eq_nul h

theorem nulFree_nat (n : Nat) : NulFree (toString n) := by
  intro hc
  have hmem : '\x00' ∈ Nat.toDigits 10 n := by rwa [← Nat.toList_repr]
  have hdigit : Char.isDigit '\x00' = true :=
    Nat.isDigit_of_mem_toDigits (by decide) (by decide) hmem
  cases hdigit

theorem nulFree_drop {s : String} (h : NulFree s) (n : Nat) :
    NulFree (String.ofList (s.toList.drop n)) := by
  rw [NulFree, String.toList_ofList]
  exact fun hc => h (List.mem_of_mem_drop hc)

namespace Utf8

/-- A code point once another octet has contributed to it. -/
def extend (point : Nat) (b : UInt8) : Nat := point * 64 + (b.toNat - 0x80)

theorem extend_mono {n m : Nat} {b c : UInt8} (h : n ≤ m) (hb : b ≤ c) : extend n b ≤ extend m c := by
  have hle : b.toNat - 0x80 ≤ c.toNat - 0x80 := Nat.sub_le_sub_right hb _
  exact Nat.add_le_add (Nat.mul_le_mul_right 64 h) hle

/-- The least code point that bounds lead to. -/
def least : List (UInt8 × UInt8) → Nat → Nat
  | [], point => point
  | bound :: bounds, point => least bounds (extend point bound.1)

/-- The greatest code point that bounds lead to. -/
def greatest : List (UInt8 × UInt8) → Nat → Nat
  | [], point => point
  | bound :: bounds, point => greatest bounds (extend point bound.2)

theorem least_mono {bounds : List (UInt8 × UInt8)} {n m : Nat} (h : n ≤ m) :
    least bounds n ≤ least bounds m := by
  induction bounds generalizing n m with
  | nil => exact h
  | cons bound bounds ih => exact ih (extend_mono h (UInt8.le_refl _))

theorem greatest_mono {bounds : List (UInt8 × UInt8)} {n m : Nat} (h : n ≤ m) :
    greatest bounds n ≤ greatest bounds m := by
  induction bounds generalizing n m with
  | nil => exact h
  | cons bound bounds ih => exact ih (extend_mono h (UInt8.le_refl _))

theorem follow_between {point p : Nat} {bounds : List (UInt8 × UInt8)} {bs : Bytes}
    (h : (follow point bounds bs).1 = some p) :
    least bounds point ≤ p ∧ p ≤ greatest bounds point := by
  induction bounds generalizing point bs with
  | nil =>
    cases h
    exact ⟨Nat.le_refl _, Nat.le_refl _⟩
  | cons bound bounds ih =>
    obtain ⟨low, high⟩ := bound
    cases bs with
    | nil => cases h
    | cons b bs =>
      simp only [follow] at h
      split at h
      · next hb =>
        have hnext : (follow (extend point b) bounds bs).1 = some p := h
        obtain ⟨hleast, hgreatest⟩ := ih hnext
        have hfrom := extend_mono (Nat.le_refl point) hb.1
        have hupto := extend_mono (Nat.le_refl point) hb.2
        have hlow : least bounds (extend point low) ≤ _ := least_mono hfrom
        have hhigh : _ ≤ greatest bounds (extend point high) := greatest_mono hupto
        exact ⟨Nat.le_trans hlow hleast, Nat.le_trans hgreatest hhigh⟩
      · cases h

/-- What a lead octet other than NUL allows are code points of characters other than NUL. -/
theorem lead_range {b : UInt8} (hb : b ≠ 0) {point : Nat} {bounds : List (UInt8 × UInt8)}
    (h : lead b = some (point, bounds)) :
    0 < least bounds point ∧ (greatest bounds point < 0xD800 ∨
      0xDFFF < least bounds point ∧ greatest bounds point < 0x110000) := by
  have all : ∀ b : UInt8, b ≠ 0 → ∀ entry ∈ lead b,
      0 < least entry.2 entry.1 ∧ (greatest entry.2 entry.1 < 0xD800 ∨
        0xDFFF < least entry.2 entry.1 ∧ greatest entry.2 entry.1 < 0x110000) :=
    Octet.forall_of_lt (by decide +kernel)
  exact all b hb (point, bounds) h

theorem chars_nulFree {bs : Bytes} (h : 0 ∉ bs) : '\x00' ∉ chars bs := by
  induction bs using chars.induct with
  | case1 =>
    rw [chars]
    exact List.not_mem_nil
  | case2 b bs hlead ih =>
    rw [List.mem_cons, not_or] at h
    rw [chars, hlead, List.mem_cons, not_or]
    exact ⟨by decide, ih h.2⟩
  | case3 b bs point bounds hlead point' taken hfollow ih =>
    rw [List.mem_cons, not_or] at h
    have hrest : '\x00' ∉ chars (bs.drop taken) := ih fun hm => h.2 (List.mem_of_mem_drop hm)
    rw [chars]
    simp only [hlead, hfollow, List.mem_cons, not_or]
    refine ⟨?_, hrest⟩
    cases point' with
    | none => decide
    | some p =>
      obtain ⟨hpos, hrange⟩ := lead_range (fun hz => h.1 hz.symm) hlead
      obtain ⟨hleast, hgreatest⟩ := follow_between (congrArg Prod.fst hfollow)
      have hvalid : p.isValidChar := by
        rcases hrange with hlow | ⟨hhigh, hmax⟩
        · exact .inl (by omega)
        · exact .inr ⟨by omega, by omega⟩
      intro hnul
      have hp : (Char.ofNat p).toNat = p := by
        rw [Char.ofNat, dif_pos hvalid]
        rfl
      rw [Option.map_some, Option.getD_some] at hnul
      have hzero : (0 : Nat) = p := (congrArg Char.toNat hnul).trans hp
      omega

theorem decode_nulFree {bs : Bytes} (h : 0 ∉ bs) : NulFree (decode bs) := by
  rw [NulFree, decode, String.toList_ofList]
  exact chars_nulFree h

end Utf8

end Text

namespace Term

mutual

/-- No text and no octets in a term hold a NUL. -/
def NulFree : Term → Prop
  | text s => Text.NulFree s
  | octets bs => 0 ∉ bs
  | tuple items => NulFreeAll items
  | list items => NulFreeAll items
  | table entries => NulFreeEntries entries
  | record _ fields => NulFreeFields fields
  | secret t => t.NulFree
  | _ => True

def NulFreeAll : List Term → Prop
  | [] => True
  | t :: ts => t.NulFree ∧ NulFreeAll ts

def NulFreeEntries : List (String × Term) → Prop
  | [] => True
  | (key, t) :: rest => (Text.NulFree key ∧ t.NulFree) ∧ NulFreeEntries rest

/-- The names of fields are fixed; only their values are read. -/
def NulFreeFields : List (String × Term) → Prop
  | [] => True
  | (_, t) :: rest => t.NulFree ∧ NulFreeFields rest

end

theorem nulFreeAll_iff {ts : List Term} : NulFreeAll ts ↔ ∀ t ∈ ts, t.NulFree := by
  induction ts with
  | nil => exact ⟨fun _ => nofun, fun _ => trivial⟩
  | cons t ts ih => rw [NulFreeAll, ih, List.forall_mem_cons]

end Term

/-- No text and no octets in a value hold a NUL. -/
def NulFree {α : Type} [ToTerm α] (a : α) : Prop := (term a).NulFree

namespace NulFree

variable {α β : Type} [ToTerm α] [ToTerm β]

@[simp] theorem text {s : String} : NulFree s ↔ Text.NulFree s := Iff.rfl

@[simp] theorem none : NulFree (none : Option α) := trivial

theorem option {o : Option α} : NulFree o ↔ ∀ a, o = .some a → NulFree a := by
  cases o with
  | none => exact ⟨fun _ => nofun, fun _ => trivial⟩
  | some a => exact ⟨fun h b hb => by cases hb; exact h, fun h => h a rfl⟩

@[simp] theorem pair {p : α × β} : NulFree p ↔ NulFree p.1 ∧ NulFree p.2 := by
  constructor
  · intro h
    exact ⟨h.1, h.2.1⟩
  · intro h
    exact ⟨h.1, h.2, trivial⟩

theorem list {as : List α} : NulFree as ↔ ∀ a ∈ as, NulFree a := by
  show Term.NulFreeAll (as.map term) ↔ _
  rw [Term.nulFreeAll_iff, List.forall_mem_map]
  rfl

end NulFree

end Imap
