import Imap.Proofs.Reader.History

namespace Imap

namespace Bytes

/-- Everything up to the next line feed; all octets, if there is none. -/
def line (bs : Bytes) : Bytes := bs.take ((bs.takeWhile (· != 0x0A)).length + 1)

/-- What is behind the next line feed. -/
def behindLine (bs : Bytes) : Bytes := bs.drop ((bs.takeWhile (· != 0x0A)).length + 1)

variable {bs l : Bytes}

theorem takeWhile_feed (h : 0x0A ∉ l) (rest : Bytes) :
    (l ++ 0x0A :: rest).takeWhile (· != 0x0A) = l := by
  have hall : ∀ b ∈ l, (b != 0x0A) = true := by
    intro b hb
    rw [bne_iff_ne]
    rintro rfl
    exact h hb
  rw [List.takeWhile_append_of_pos hall, List.takeWhile_cons_of_neg (by decide), List.append_nil]

theorem line_feed (h : 0x0A ∉ l) (rest : Bytes) : line (l ++ 0x0A :: rest) = l ++ [0x0A] := by
  rw [line, takeWhile_feed h, List.take_append, List.take_of_length_le (Nat.le_succ _),
    Nat.add_sub_cancel_left]
  rfl

theorem behindLine_feed (h : 0x0A ∉ l) (rest : Bytes) : behindLine (l ++ 0x0A :: rest) = rest := by
  rw [behindLine, takeWhile_feed h, List.drop_append, List.drop_eq_nil_of_le (Nat.le_succ _),
    Nat.add_sub_cancel_left]
  rfl

theorem takeWhile_all (h : 0x0A ∉ bs) : bs.takeWhile (· != 0x0A) = bs := by
  have hfeed := takeWhile_feed h []
  rw [List.takeWhile_append] at hfeed
  split at hfeed
  · next hlen => exact (List.takeWhile_prefix _).eq_of_length hlen
  · exact hfeed

theorem behindLine_all (h : 0x0A ∉ bs) : bs.behindLine = [] := by
  rw [behindLine, takeWhile_all h]
  exact List.drop_eq_nil_of_le (Nat.le_succ _)

theorem behindLine_length (h : bs ≠ []) : bs.behindLine.length < bs.length := by
  have hpos := List.length_pos_iff.mpr h
  simp only [behindLine, List.length_drop]
  omega

/-- A line that is all there stays what it is when more octets follow. -/
theorem line_append (h : 0x0A ∈ bs) (more : Bytes) :
    line (bs ++ more) = bs.line ∧ behindLine (bs ++ more) = bs.behindLine ++ more := by
  obtain ⟨l, rest, rfl, hl⟩ := List.eq_append_cons_of_mem h
  rw [List.append_assoc, List.cons_append, line_feed hl, line_feed hl, behindLine_feed hl,
    behindLine_feed hl]
  exact ⟨rfl, rfl⟩

theorem feed_mem_line (h : 0x0A ∈ bs) : 0x0A ∈ bs.line := by
  obtain ⟨l, rest, rfl, hl⟩ := List.eq_append_cons_of_mem h
  rw [line_feed hl]
  simp

end Bytes

/-- What can be read of octets with bad lines among them: the units, what was thrown away piece by
piece, and the octets left over. -/
structure Salvage where
  units : List WireUnit
  skipped : List Bytes
  rest : Bytes
  deriving DecidableEq, Repr

namespace Salvage

/-- One salvage, and another of what it left over. -/
def before (first second : Salvage) : Salvage :=
  ⟨first.units ++ second.units, first.skipped ++ second.skipped, second.rest⟩

theorem before_assoc (a b c : Salvage) : (a.before b).before c = a.before (b.before c) := by
  simp only [before, List.append_assoc]

/-- Whether only whole lines were thrown away. -/
def Whole (s : Salvage) : Prop := ∀ octets ∈ s.skipped, 0x0A ∈ octets

theorem whole_before {first second : Salvage} :
    (first.before second).Whole ↔ first.Whole ∧ second.Whole := by
  simp only [Whole, before, List.mem_append]
  constructor
  · exact fun h => ⟨fun o ho => h o (.inl ho), fun o ho => h o (.inr ho)⟩
  · rintro ⟨h, h'⟩ o (ho | ho)
    · exact h o ho
    · exact h' o ho

end Salvage

namespace Source

/-- Reads units from the front; where the octets are bad, a line of them is thrown away. -/
def salvage (source : Source) (units : Nat) (bs : Bytes) : Salvage :=
  if bs = [] then ⟨[], [], []⟩
  else match source.decode units bs with
    | .done u used =>
      if used = 0 then ⟨[u], [], bs⟩
      else Salvage.before ⟨[u], [], []⟩ (salvage source (units + 1) (bs.drop used))
    | .failed why =>
      if why.isBadSyntax then
        Salvage.before ⟨[], [bs.line], []⟩ (salvage source units bs.behindLine)
      else ⟨[], [], bs⟩
termination_by bs.length
decreasing_by
  · have : bs.length ≠ 0 := by grind
    simp only [List.length_drop]
    omega
  · exact Bytes.behindLine_length ‹_›

variable {source : Source} {units : Nat} {bs : Bytes}

theorem salvage_nil : source.salvage units [] = ⟨[], [], []⟩ := by
  rw [salvage, if_pos rfl]

theorem salvage_done {u : WireUnit} {used : Nat} (done : source.decode units bs = .done u used) :
    source.salvage units bs =
      Salvage.before ⟨[u], [], []⟩ (source.salvage (units + 1) (bs.drop used)) := by
  obtain ⟨hpos, hle, -⟩ := decode_done_span done
  have hbs : bs ≠ [] := by
    rintro rfl
    simp at hle
    omega
  rw [salvage, if_neg hbs, done]
  simp only [if_neg (Nat.ne_of_gt hpos)]

theorem salvage_bad {why : Failure} (hbs : bs ≠ []) (failed : source.decode units bs = .failed why)
    (bad : why.isBadSyntax = true) : source.salvage units bs =
      Salvage.before ⟨[], [bs.line], []⟩ (source.salvage units bs.behindLine) := by
  rw [salvage, if_neg hbs, failed]
  simp only [bad, if_true]

theorem salvage_stuck {why : Failure} (failed : source.decode units bs = .failed why)
    (good : why.isBadSyntax = false) : source.salvage units bs = ⟨[], [], bs⟩ := by
  by_cases hbs : bs = []
  · rw [hbs, salvage_nil]
  · rw [salvage, if_neg hbs, failed]
    simp [good]

theorem decode_bad_append (named : source ≠ .unnamed) {why : Failure}
    (failed : source.decode units bs = .failed why) (bad : why.isBadSyntax = true) (more : Bytes) :
    ∃ why', source.decode units (bs ++ more) = .failed why' ∧ why'.isBadSyntax = true := by
  have hsteady := decode_steady named units
  obtain ⟨why', failed', alike⟩ :=
    hsteady.failed_append more (Failure.decided_of_isBadSyntax bad) failed
  exact ⟨why', failed', by rw [← alike.isBadSyntax_eq, bad]⟩

/-- The ways of a salvage: the induction that its lemmas are by. -/
theorem salvage_induction (source : Source) {motive : Nat → Bytes → Prop}
    (nil : ∀ units, motive units [])
    (done : ∀ units bs u used, source.decode units bs = .done u used →
      motive (units + 1) (bs.drop used) → motive units bs)
    (bad : ∀ units bs why, bs ≠ [] → source.decode units bs = .failed why →
      why.isBadSyntax = true → motive units (Bytes.behindLine bs) → motive units bs)
    (stuck : ∀ units bs why, bs ≠ [] → source.decode units bs = .failed why →
      why.isBadSyntax = false → motive units bs)
    (units : Nat) (bs : Bytes) : motive units bs := by
  induction hk : bs.length using Nat.strongRecOn generalizing units bs with
  | ind k ih =>
  by_cases hbs : bs = []
  · rw [hbs]
    exact nil units
  · cases hd : source.decode units bs with
    | done u used =>
      obtain ⟨hpos, hle, -⟩ := decode_done_span hd
      exact done units bs u used hd (ih _ (by rw [List.length_drop]; omega) _ _ rfl)
    | failed why =>
      cases hbad : why.isBadSyntax with
      | true =>
        have hlt := Bytes.behindLine_length hbs
        exact bad units bs why hbs hd hbad (ih _ (by omega) _ _ rfl)
      | false => exact stuck units bs why hbs hd hbad

/-- As long as lines are thrown away whole, it is the same whether the octets that follow are there
already. -/
theorem salvage_append (named : source ≠ .unnamed) (units : Nat) (bs more : Bytes)
    (whole : (source.salvage units bs).Whole) :
    source.salvage units (bs ++ more) = (source.salvage units bs).before
      (source.salvage (units + (source.salvage units bs).units.length)
        ((source.salvage units bs).rest ++ more)) := by
  induction units, bs using salvage_induction source with
  | nil units => rw [salvage_nil]; rfl
  | done units bs u used hd ih =>
    obtain ⟨-, hle, -⟩ := decode_done_span hd
    rw [salvage_done hd] at whole ⊢
    rw [salvage_done (decode_append hd more), List.drop_append_of_le_length hle,
      ih (Salvage.whole_before.mp whole).2, ← Salvage.before_assoc]
    simp only [Salvage.before, List.length_append, List.length_singleton, Nat.add_assoc]
  | bad units bs why hbs hd hbad ih =>
    rw [salvage_bad hbs hd hbad] at whole ⊢
    obtain ⟨hline, hrest⟩ := Salvage.whole_before.mp whole
    have hfeed : 0x0A ∈ bs := List.mem_of_mem_take (hline (Bytes.line bs) (List.mem_cons_self ..))
    obtain ⟨why', hd', hbad'⟩ := decode_bad_append named hd hbad more
    have hne : bs ++ more ≠ [] := fun h => hbs (List.append_eq_nil_iff.mp h).1
    obtain ⟨hsame, hbehind⟩ := Bytes.line_append hfeed more
    rw [salvage_bad hne hd' hbad', hsame, hbehind, ih hrest, ← Salvage.before_assoc]
    simp only [Salvage.before, List.nil_append]
  | stuck units bs why hbs hd hgood => rw [salvage_stuck hd hgood]; rfl

theorem whole_nil (us : List WireUnit) (rest : Bytes) : Salvage.Whole ⟨us, [], rest⟩ := nofun

/-- Where a line was thrown away before its line feed was there, nothing is left over; had the
octets up to the line feed been there, they would have been thrown away too. -/
theorem salvage_late (named : source ≠ .unnamed) {l : Bytes} (hl : 0x0A ∉ l) (units : Nat)
    (bs : Bytes) (broken : ¬(source.salvage units bs).Whole) :
    (source.salvage units (bs ++ (l ++ [0x0A]))).units = (source.salvage units bs).units ∧
      (source.salvage units bs).rest = [] := by
  induction units, bs using salvage_induction source with
  | nil units => rw [salvage_nil] at broken; exact absurd (whole_nil _ _) broken
  | done units bs u used hd ih =>
    obtain ⟨-, hle, -⟩ := decode_done_span hd
    rw [salvage_done hd] at broken ⊢
    have hrest : ¬(source.salvage (units + 1) (bs.drop used)).Whole := fun h =>
      broken (Salvage.whole_before.mpr ⟨whole_nil _ _, h⟩)
    obtain ⟨hunits, hnil⟩ := ih hrest
    rw [salvage_done (decode_append hd _), List.drop_append_of_le_length hle]
    simp only [Salvage.before, hunits]
    exact ⟨trivial, hnil⟩
  | bad units bs why hbs hd hbad ih =>
    obtain ⟨why', hd', hbad'⟩ := decode_bad_append named hd hbad (l ++ [0x0A])
    have hne : bs ++ (l ++ [0x0A]) ≠ [] := fun h => hbs (List.append_eq_nil_iff.mp h).1
    rw [salvage_bad hbs hd hbad] at broken ⊢
    rw [salvage_bad hne hd' hbad']
    by_cases hfeed : 0x0A ∈ bs
    · have hline : Salvage.Whole ⟨[], [Bytes.line bs], []⟩ := by
        intro octets ho
        rw [List.mem_singleton.mp ho]
        exact Bytes.feed_mem_line hfeed
      have hrest : ¬(source.salvage units (Bytes.behindLine bs)).Whole := fun h =>
        broken (Salvage.whole_before.mpr ⟨hline, h⟩)
      obtain ⟨hunits, hnil⟩ := ih hrest
      rw [(Bytes.line_append hfeed _).2]
      simp only [Salvage.before, hunits]
      exact ⟨trivial, hnil⟩
    · have hno : 0x0A ∉ bs ++ l := by
        rw [List.mem_append]
        exact fun hm => hm.elim hfeed hl
      have hlate : Bytes.behindLine (bs ++ (l ++ [0x0A])) = [] := by
        rw [← List.append_assoc]
        exact Bytes.behindLine_feed hno []
      rw [hlate, Bytes.behindLine_all hfeed, salvage_nil]
      exact ⟨rfl, rfl⟩
  | stuck units bs why hbs hd hgood =>
    rw [salvage_stuck hd hgood] at broken
    exact absurd (whole_nil _ _) broken

end Source

end Imap
