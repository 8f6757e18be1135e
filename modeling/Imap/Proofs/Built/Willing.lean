import Imap.Proofs.Built.Sparing

namespace Imap

/-- A value was turned down. -/
def Failure.IsRefused (f : Failure) : Prop := ∃ why, f = .refused why

namespace Failure.IsRefused

instance : Grave IsRefused where
  of_shift := by
    rintro (_ | _ | _ | why) n ⟨why', h⟩ <;> cases h
    exact ⟨why, rfl⟩
  not_short := nofun
  not_miss := nofun

theorem not_bad (cause : Cause) (position : Nat) : ¬IsRefused (.bad cause position) := nofun

theorem not_here {f : Failure} (h : f.Here) : ¬f.IsRefused := by
  cases h <;> exact nofun

end Failure.IsRefused

namespace Rule

variable {α : Type} {r : Rule α}

theorem willing_iff : Willing r ↔
    ∀ ctx, ctx.dialect.knowsQuota = true → r.Spares ctx Failure.IsRefused := by
  constructor
  · rintro h ctx hq bs why hr ⟨refusal, rfl⟩
    exact h ctx bs refusal hq hr
  · intro h ctx bs refusal hq hr
    exact h ctx hq bs _ hr ⟨refusal, rfl⟩

/-- The induction that carries `Willing` to every rule that is built willingly. -/
theorem Built.spares_of {e : Extent} {m : Manner} {r : Rule α} (h : Built e m r) {ctx : Context}
    (hq : ctx.dialect.knowsQuota = true) : m = .willing → r.Spares ctx Failure.IsRefused := by
  induction h with
  | pure a => exact fun _ => .pure a
  | fail here => exact fun _ => .fail (Failure.IsRefused.not_here here)
  | ofExcept x accepted =>
    intro hm
    obtain ⟨a, rfl⟩ := accepted hm
    exact .pure a
  | dialect => exact fun _ => .dialect
  | peek => exact fun _ => .peek
  | token _ _ ascii => exact fun _ => .token ascii _ _ _
  | word => exact fun _ => .word _ _
  | digits => exact fun _ => .digits Failure.IsRefused.not_bad _ _
  | quotedTail => exact fun _ => .quotedTail
  | lineEnd => exact fun _ => .lineEnd
  | literalBody size => exact fun _ => .literalBody Failure.IsRefused.not_bad size
  | literal _ h => exact h
  | bind _ _ first rest => exact fun hm => (first hm).bind fun a ha => rest a ha hm
  | refine _ here first =>
    exact fun hm => (first hm).refine fun a why _ h => Failure.IsRefused.not_here (here a why h)
  | lookahead _ first => exact fun hm => (first hm).lookahead
  | opt _ _ first => exact fun hm => (first hm).opt
  | orElse _ _ _ first second => exact fun hm => (first hm).orElse (second hm)
  | alt _ _ _ first second => exact fun hm => (first hm).alt (second hm)
  | behind _ _ each => exact fun hm => (each hm).behind _
  | behindPrompt _ _ _ each => exact fun hm => (each hm).behind _
  | spacedToClose _ each => exact fun hm => (each hm).spacedToClose
  | parenthesized _ each => exact fun hm => (each hm).parenthesized
  | ofLine _ h => exact h
  | ofRaw _ h => exact h
  | ofText _ h => exact h
  | willingly _ willing => exact fun _ => willing_iff.mp willing ctx hq

theorem Built.willing {e : Extent} {r : Rule α} (h : Built e .willing r) : Willing r := by
  apply willing_iff.mpr
  intro _ hq
  exact h.spares_of hq rfl

end Rule

end Imap
