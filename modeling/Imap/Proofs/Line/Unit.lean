import Imap.Proofs.Built.Command
import Imap.Proofs.Built.Response

namespace Imap

namespace Rule

variable {α β : Type} {r other : Rule α} {next : α → Rule β}

/-- What is done ends in a line feed, and would be done if that were all there is by now. -/
def Ends (r : Rule α) : Prop :=
  ∀ ctx bs a n, r ctx bs = .done a n →
    ∃ pre tail, bs = pre ++ 0x0A :: tail ∧ n = pre.length + 1 ∧
      r ⟨false, ctx.dialect⟩ (pre ++ [0x0A]) = .done a n

/-- Does not look around. -/
def Instant (r : Rule α) : Prop :=
  ∀ ctx bs a n, r ctx bs = .done a n → n = 0 ∧ ∀ ctx' bs', r ctx' bs' = .done a 0

theorem Instant.pure (a : α) : Instant (Pure.pure a : Rule α) := by
  rintro ctx bs _ _ ⟨⟩
  exact ⟨rfl, fun _ _ => rfl⟩

theorem Instant.ofExcept (x : Except Refusal α) : Instant (Rule.ofExcept x) := by
  cases x with
  | ok a => exact .pure a
  | error why => exact nofun

theorem Lined.bind (hr : Inline r) (hn : ∀ a, Lined (next a)) : Lined (r >>= next) := by
  intro d bs h
  apply bind_settled (hr.settled d bs h)
  intro a _ ha
  exact hn a d _ (mem_drop h (hr.inLine _ _ _ _ ha))

theorem Lined.behind (hr : Built .line .wary r) (hn : ∀ a, Lined (next a)) : Lined (r >>= next) :=
  .bind hr.inline hn

theorem ofExcept_settled (x : Except Refusal α) (d : Dialect) (bs : Bytes) :
    (Rule.ofExcept x ⟨false, d⟩ bs).Settled := by
  cases x with
  | ok a => exact .done a 0
  | error why => exact .failed (.refused why)

theorem Lined.bind_settled (hr : Lined r) (hn : ∀ a d bs, (next a ⟨false, d⟩ bs).Settled) :
    Lined (r >>= next) := by
  intro d bs h
  apply Rule.bind_settled (hr d bs h)
  intro a _ _
  exact hn a d _

theorem Lined.map (hr : Lined r) (f : α → β) : Lined (f <$> r) := by
  apply hr.bind_settled
  intro a _ _
  exact .done (f a) 0

namespace Ends

theorem lineEnd : Ends Rule.lineEnd := by
  intro ctx bs _ n h
  obtain ⟨rest, ⟨rfl, rfl⟩ | ⟨rfl, rfl⟩⟩ := lineEnd_done h
  · exact ⟨[], rest, rfl, rfl, lineEnd_feed _ _⟩
  · exact ⟨[0x0D], rest, rfl, rfl, lineEnd_return _ _⟩

theorem bind (hr : Framed r) (hs : Steady r) (hn : ∀ a, Ends (next a)) : Ends (r >>= next) := by
  intro ctx bs b used h
  obtain ⟨a, n, m, ha, hb, rfl⟩ := bind_done h
  obtain ⟨pre, tail, hrest, rfl, hend⟩ := hn a _ _ _ _ hb
  have hle := hs.fits _ _ _ _ ha
  have hbs : bs = (bs.take n ++ pre) ++ 0x0A :: tail := by
    rw [List.append_assoc, ← hrest, List.take_append_drop]
  have htake : (bs.take n).length = n := by rw [List.length_take]; omega
  have hn' : n ≤ (bs.take n ++ pre).length := by rw [List.length_append]; omega
  refine ⟨bs.take n ++ pre, tail, hbs, by rw [List.length_append]; omega, ?_⟩
  rw [hbs] at ha
  have hdrop : (bs.take n ++ pre ++ [0x0A]).drop n = pre ++ [0x0A] := by
    rw [List.append_assoc, List.drop_append_of_le_length (by omega),
      List.drop_eq_nil_of_le (by omega), List.nil_append]
  rw [bind_of_done (hr _ _ _ _ _ ha hn'), hdrop, hend]
  rfl

theorem behind (hr : Built .text .wary r) (hn : ∀ a, Ends (next a)) : Ends (r >>= next) :=
  bind hr.framed hr.steady hn

theorem bind_instant (hr : Ends r) (hn : ∀ a, Instant (next a)) : Ends (r >>= next) := by
  intro ctx bs b used h
  obtain ⟨a, n, m, ha, hb, rfl⟩ := bind_done h
  obtain ⟨rfl, hall⟩ := hn a _ _ _ _ hb
  obtain ⟨pre, tail, hbs, hlen, hend⟩ := hr _ _ _ _ ha
  refine ⟨pre, tail, hbs, hlen, ?_⟩
  rw [bind_of_done hend, hall]
  rfl

theorem map (hr : Ends r) (f : α → β) : Ends (f <$> r) := by
  refine hr.bind_instant fun _ => ?_
  exact .pure _

theorem refine {judge : α → Except Failure β} (hr : Ends r) : Ends (r.refine judge) := by
  intro ctx bs b n h
  obtain ⟨a, ha, hj⟩ := refine_done h
  obtain ⟨pre, tail, hbs, hlen, hend⟩ := hr _ _ _ _ ha
  exact ⟨pre, tail, hbs, hlen, by simp only [Rule.refine, hend, hj]⟩

/-- The first of two alternatives has to miss again when the octets behind the unit are gone. -/
theorem alt_of (hr : Ends r) (ho : Ends other)
    (hm : ∀ ctx pre tail a cause position,
      other ⟨false, ctx.dialect⟩ (pre ++ [0x0A]) = .done a (pre.length + 1) →
      r ctx (pre ++ 0x0A :: tail) = .failed (.miss cause position) →
      ∃ cause' position',
        r ⟨false, ctx.dialect⟩ (pre ++ [0x0A]) = .failed (.miss cause' position')) :
    Ends (r.alt other) := by
  intro ctx bs a n h
  rcases alt_done h with ha | ⟨⟨cause, position, hmiss⟩, ha⟩
  · obtain ⟨pre, tail, hbs, hlen, hend⟩ := hr _ _ _ _ ha
    exact ⟨pre, tail, hbs, hlen, by simp only [Rule.alt, hend]⟩
  · obtain ⟨pre, tail, rfl, rfl, hend⟩ := ho _ _ _ _ ha
    obtain ⟨cause', position', hmiss'⟩ := hm _ _ _ _ _ _ hend hmiss
    exact ⟨pre, tail, rfl, rfl, by simp only [Rule.alt, hmiss', hend]⟩

theorem alt (hr : Ends r) (hl : Lined r) (hb : Built .unit .wary r) (ho : Ends other) :
    Ends (r.alt other) := by
  apply hr.alt_of ho
  intro _ _ _ _ _ _ _ hmiss
  exact Prompt.of_lined hl hb.steady hb.conclusive _ _ _ _ _ hmiss

end Ends

end Rule

end Imap
