import Imap.Proofs.Built.Value

namespace Imap.Rule

variable {α β : Type}

/-- Whatever the octets, the value has `P`. -/
def Ensures (r : Rule α) (P : α → Prop) : Prop := ∀ a, r.Gives a → P a

namespace Ensures

variable {r other : Rule α} {next : α → Rule β} {P Q : α → Prop} {S : β → Prop}

theorem mono (h : r.Ensures Q) (hq : ∀ a, Q a → P a) : r.Ensures P := by
  intro a ha
  exact hq a (h a ha)

theorem and (h : r.Ensures P) (h' : r.Ensures Q) : r.Ensures fun a => P a ∧ Q a := by
  intro a ha
  exact ⟨h a ha, h' a ha⟩

theorem pure {a : α} (h : P a) : Ensures (Pure.pure a : Rule α) P := by
  intro b hb
  rw [hb.of_pure]
  exact h

theorem fail {why : Failure} : Ensures (Rule.fail why : Rule α) P := by
  rintro a ⟨ctx, bs, used, h⟩
  cases h

theorem ofExcept {x : Except Refusal α} (h : ∀ a, x = .ok a → P a) : (Rule.ofExcept x).Ensures P := by
  cases x with
  | ok a => exact pure (h a rfl)
  | error why => exact fail

theorem bind (hr : r.Ensures Q) (hn : ∀ a, Q a → (next a).Ensures S) : (r >>= next).Ensures S := by
  intro b hb
  obtain ⟨a, ha, hnext⟩ := hb.of_bind
  exact hn a (hr a ha) b hnext

/-- Where nothing depends on what `r` gives. -/
theorem andThen (hn : ∀ a, (next a).Ensures S) : (r >>= next).Ensures S := by
  intro b hb
  obtain ⟨a, -, hnext⟩ := hb.of_bind
  exact hn a b hnext

theorem map {f : α → β} (hr : r.Ensures Q) (h : ∀ a, Q a → S (f a)) : (f <$> r).Ensures S := by
  refine hr.bind fun a ha => ?_
  exact pure (h a ha)

theorem refine {judge : α → Except Failure β} (hr : r.Ensures Q)
    (h : ∀ a b, Q a → judge a = .ok b → S b) : (r.refine judge).Ensures S := by
  rintro b ⟨ctx, bs, used, hd⟩
  obtain ⟨a, ha, hj⟩ := refine_done hd
  exact h a b (hr a ⟨_, _, _, ha⟩) hj

theorem opt (hr : r.Ensures P) : r.opt.Ensures fun found => ∀ a, found = some a → P a := by
  rintro found ⟨ctx, bs, used, h⟩ a rfl
  obtain ⟨a', ha, hsome⟩ | ⟨-, hnone, -⟩ := opt_done h
  · cases hsome
    exact hr _ ⟨_, _, _, ha⟩
  · cases hnone

theorem orElse (hr : r.Ensures P) (ho : other.Ensures P) : (r.orElse other).Ensures P := by
  rintro a ⟨ctx, bs, used, h⟩
  obtain ha | ⟨-, ha⟩ := orElse_done h
  · exact hr _ ⟨_, _, _, ha⟩
  · exact ho _ ⟨_, _, _, ha⟩

theorem alt (hr : r.Ensures P) (ho : other.Ensures P) : (r.alt other).Ensures P := by
  rintro a ⟨ctx, bs, used, h⟩
  obtain ha | ⟨-, ha⟩ := alt_done h
  · exact hr _ ⟨_, _, _, ha⟩
  · exact ho _ ⟨_, _, _, ha⟩

end Ensures

section Lists

variable {element body : Rule α} {P : α → Prop}

theorem behind_ensures (separator : UInt8) (he : element.Ensures P) :
    (behind separator element).Ensures fun as => ∀ a ∈ as, P a := by
  rintro as ⟨ctx, bs, used, h⟩
  change behind.go separator element ctx bs = _ at h
  induction bs using behind.go.induct separator element ctx generalizing as used with
  | case1 hc | case2 hc => rw [behind.go] at h; split at h <;> cases h <;> exact List.forall_mem_nil _
  | case3 bs a n ha ih =>
    rw [behind_done ha] at h
    obtain ⟨as, m, hm, rfl, -⟩ := map_shift_done h
    exact List.forall_mem_cons.mpr ⟨he a ⟨_, _, _, ha⟩, ih _ _ hm⟩
  | case4 bs cause position hm => rw [behind_miss hm] at h; cases h; exact List.forall_mem_nil _
  | case5 bs why hm hf => rw [behind_failed (fun _ _ => hm _ _) hf] at h; cases h
  | case6 b bs hb => rw [behind_other bs hb] at h; cases h; exact List.forall_mem_nil _

theorem spacedToClose_ensures (he : element.Ensures P) :
    element.spacedToClose.Ensures fun as => as ≠ [] ∧ ∀ a ∈ as, P a := by
  refine .and (fun as => spacedToClose_gives) ?_
  rintro as ⟨ctx, bs, used, h⟩
  change spacedToClose.go element ctx bs = _ at h
  induction bs using spacedToClose.go.induct element ctx generalizing as used with
  | case1 bs why hf => rw [spacedToClose_failed hf] at h; cases h
  | case2 bs a n ha hd hc | case3 bs a n ha hd hc => rw [spacedToClose_end ha hd] at h; cases h
  | case4 bs a n ha rest hd =>
    rw [spacedToClose_close ha hd] at h
    cases h
    exact List.forall_mem_singleton.mpr (he a ⟨_, _, _, ha⟩)
  | case5 bs a n ha rest hd _ ih =>
    rw [spacedToClose_space ha hd] at h
    obtain ⟨as, m, hm, rfl, -⟩ := map_shift_done h
    exact List.forall_mem_cons.mpr ⟨he a ⟨_, _, _, ha⟩, ih _ _ hm⟩
  | case6 bs a n ha b rest hd hc hs => rw [spacedToClose_other ha hd hc hs] at h; cases h

theorem parenthesized_go_ensures (hb : body.Ensures P) :
    Ensures (parenthesized.go body : Rule (List α)) fun as => ∀ a ∈ as, P a := by
  rintro as ⟨ctx, bs, used, h⟩
  induction bs using parenthesized.go.induct body ctx generalizing as used with
  | case1 hc | case2 hc => rw [parenthesized.go] at h; split at h <;> cases h
  | case3 bs => rw [parenthesized_close] at h; cases h; exact List.forall_mem_nil _
  | case4 bs a n ha _ ih =>
    rw [parenthesized_done ha] at h
    obtain ⟨as, m, hm, rfl, -⟩ := map_shift_done h
    exact List.forall_mem_cons.mpr ⟨hb a ⟨_, _, _, ha⟩, ih _ _ hm⟩
  | case5 bs why hf => rw [parenthesized_failed hf] at h; cases h
  | case6 b bs hc ho => rw [parenthesized_other bs hc ho] at h; cases h

end Lists

namespace Ensures

variable {element body : Rule α} {P : α → Prop}

theorem parenthesized (hb : body.Ensures P) :
    (Rule.parenthesized body).Ensures fun as => ∀ a ∈ as, P a := by
  refine andThen fun _ => ?_
  refine hb.bind fun _ ha => ?_
  refine (parenthesized_go_ensures hb).bind fun _ has => ?_
  exact pure (List.forall_mem_cons.mpr ⟨ha, has⟩)

theorem separated (separator : UInt8) (he : element.Ensures P) :
    (Rule.separated separator element).Ensures fun as => as ≠ [] ∧ ∀ a ∈ as, P a := by
  refine he.bind fun _ ha => ?_
  refine (behind_ensures separator he).bind fun _ has => ?_
  exact pure ⟨List.cons_ne_nil _ _, List.forall_mem_cons.mpr ⟨ha, has⟩⟩

theorem list (he : element.Ensures P) : (Rule.list element).Ensures fun as => ∀ a ∈ as, P a := by
  refine andThen fun _ => andThen fun closed => ?_
  split
  · exact pure (List.forall_mem_nil _)
  · exact (spacedToClose_ensures he).mono fun _ h => h.2

theorem nonEmptyList (he : element.Ensures P) :
    (Rule.nonEmptyList element).Ensures fun as => as ≠ [] ∧ ∀ a ∈ as, P a := by
  refine andThen fun _ => andThen fun close => ?_
  split
  · exact fail
  · exact spacedToClose_ensures he

end Ensures

end Imap.Rule
