import Imap.Proofs.Caseless.Basic
import Imap.Proofs.Growth.List

namespace Imap

/-- Octets inside a word, as far as the next space, closing parenthesis or line end. -/
def Octet.isInner (b : UInt8) : Bool := b != 0x20 && b != 0x29 && b != 0x0D && b != 0x0A

def Octet.isInLine (b : UInt8) : Bool := b != 0x0D && b != 0x0A

/-- A class ends before these octets: by an octet that is no member, or at the end of complete octets. -/
def Context.Stops (ctx : Context) (isMember : UInt8 → Bool) : Bytes → Prop
  | [] => ctx.complete = true
  | b :: _ => isMember b = false

namespace Context.Stops

variable {ctx : Context} {p q : UInt8 → Bool} {rest : Bytes}

theorem mono (h : ctx.Stops q rest) (hpq : ∀ b, p b = true → q b = true) : ctx.Stops p rest := by
  cases rest with
  | nil => exact h
  | cons b rest => exact Bool.eq_false_iff.mpr fun hp => Bool.eq_false_iff.mp h (hpq b hp)

theorem octet {w : UInt8} (h : ctx.Stops q rest) (hw : q w = true) : ctx.Stops (· == w) rest := by
  apply h.mono
  intro _ hb
  exact beq_iff_eq.mp hb ▸ hw

theorem takeWhile (h : ctx.Stops p rest) : rest.takeWhile p = [] := by
  cases rest with
  | nil => rfl
  | cons b rest => exact List.takeWhile_cons_of_neg (Bool.eq_false_iff.mp h)

theorem takeWhile_append (h : ctx.Stops p rest) {octets : Bytes} (hp : ∀ b ∈ octets, p b = true) :
    (octets ++ rest).takeWhile p = octets := by
  rw [List.takeWhile_append_of_pos hp, h.takeWhile, List.append_nil]

/-- There is an octet to see behind the class, or there will be none. -/
theorem settled (h : ctx.Stops p rest) : ctx.complete = true ∨ rest ≠ [] := by
  cases rest with
  | nil => exact .inl h
  | cons b rest => exact .inr (List.cons_ne_nil b rest)

end Context.Stops

namespace Bytes

/-- Each item behind `separator`. -/
def behind (separator : UInt8) (items : List Bytes) : Bytes := items.flatMap (separator :: ·)

theorem behind_cons (separator : UInt8) (item : Bytes) (items : List Bytes) :
    behind separator (item :: items) = separator :: (item ++ behind separator items) := rfl

/-- The items with `separator` between them. -/
def joined (separator : UInt8) : List Bytes → Bytes
  | [] => []
  | first :: others => first ++ behind separator others

theorem behind_eq_joined {separator : UInt8} {items : List Bytes} (h : items ≠ []) :
    behind separator items = separator :: joined separator items := by
  obtain ⟨item, items, rfl⟩ := List.exists_cons_of_ne_nil h
  rfl

/-- A parenthesized list. -/
def inParens (items : List Bytes) : Bytes := 0x28 :: joined 0x20 items ++ [0x29]

end Bytes

namespace Rule

variable {α β σ : Type}

/-- The rule reads `a` off the octets and leaves `rest`. -/
def Reads (r : Rule α) (ctx : Context) (bs : Bytes) (a : α) (rest : Bytes) : Prop :=
  ∃ span, bs = span ++ rest ∧ r ctx bs = .done a span.length

/-- The rule does not match, and an alternative may. -/
def Misses (r : Rule α) (ctx : Context) (bs : Bytes) : Prop :=
  ∃ cause position, r ctx bs = .failed (.miss cause position)

/-- The octets are bad at the position, and no alternative is tried. -/
def Rejects (r : Rule α) (ctx : Context) (bs : Bytes) (cause : Cause) (position : Nat) : Prop :=
  r ctx bs = .failed (.bad cause position)

section

variable {r other : Rule α} {next : α → Rule β} {ctx : Context} {bs mid rest : Bytes} {a : α} {b : β}

namespace Reads

theorem done {octets : Bytes} (h : r.Reads ctx (octets ++ rest) a rest) :
    r ctx (octets ++ rest) = .done a octets.length := by
  obtain ⟨span, hspan, hdone⟩ := h
  rw [hdone, List.append_cancel_right hspan]

theorem of_done {octets : Bytes} (h : r ctx (octets ++ rest) = .done a octets.length) :
    r.Reads ctx (octets ++ rest) a rest := ⟨octets, rfl, h⟩

theorem of_eq {a' : α} (h : r.Reads ctx bs a rest) (ha : a = a') : r.Reads ctx bs a' rest := by
  subst ha
  exact h

theorem of_fits (hfits : r.Fits) {used : Nat} (h : r ctx bs = .done a used) :
    r.Reads ctx bs a (bs.drop used) := by
  refine ⟨bs.take used, (List.take_append_drop used bs).symm, ?_⟩
  rw [List.length_take, Nat.min_eq_left (hfits _ _ _ _ h)]
  exact h

theorem pure (a : α) : Reads (Pure.pure a : Rule α) ctx bs a bs := ⟨[], rfl, rfl⟩

theorem of_pure {a' : α} (h : Reads (Pure.pure a : Rule α) ctx bs a' rest) : a = a' ∧ bs = rest := by
  obtain ⟨span, rfl, hdone⟩ := h
  obtain ⟨ha, hlength⟩ := Outcome.done.inj hdone
  exact ⟨ha, by rw [List.eq_nil_of_length_eq_zero hlength.symm, List.nil_append]⟩

theorem dialect : Rule.dialect.Reads ctx bs ctx.dialect bs := ⟨[], rfl, rfl⟩

theorem ofExcept {x : Except Refusal α} (h : x = .ok a) : (Rule.ofExcept x).Reads ctx bs a bs := by
  subst h
  exact pure a

theorem peek {b : UInt8} : Rule.peek.Reads ctx (b :: bs) (some b) (b :: bs) := ⟨[], rfl, rfl⟩

theorem bind (hr : r.Reads ctx bs a mid) (hn : (next a).Reads ctx mid b rest) :
    (r >>= next).Reads ctx bs b rest := by
  obtain ⟨front, rfl, hfront⟩ := hr
  obtain ⟨back, rfl, hback⟩ := hn
  refine ⟨front ++ back, (List.append_assoc ..).symm, ?_⟩
  rw [bind_of_done hfront, List.drop_left, hback, List.length_append]
  rfl

/-- What a sequence reads, its parts read one behind the other. -/
theorem of_bind (h : (r >>= next).Reads ctx bs b rest) :
    ∃ a mid, r.Reads ctx bs a mid ∧ (next a).Reads ctx mid b rest := by
  obtain ⟨span, rfl, hdone⟩ := h
  obtain ⟨a, n, m, ha, hb, hlength⟩ := bind_done hdone
  have hle : n ≤ span.length := by omega
  rw [List.drop_append_of_le_length hle] at hb
  refine ⟨a, span.drop n ++ rest, ⟨span.take n, ?_, ?_⟩, ⟨span.drop n, rfl, ?_⟩⟩
  · rw [← List.append_assoc, List.take_append_drop]
  · rw [List.length_take, Nat.min_eq_left hle]
    exact ha
  · rw [List.length_drop, hlength, Nat.add_sub_cancel_left]
    exact hb

theorem unique {mid' : Bytes} {a' : α} (h : r.Reads ctx bs a mid)
    (h' : r.Reads ctx bs a' mid') : a = a' ∧ mid = mid' := by
  obtain ⟨span, rfl, hdone⟩ := h
  obtain ⟨span', hsplit, hdone'⟩ := h'
  rw [hdone] at hdone'
  obtain ⟨ha, hlength⟩ := Outcome.done.inj hdone'
  exact ⟨ha, (List.append_inj hsplit hlength).2⟩

/-- Behind what the first part reads the sequence is its second part. -/
theorem bind_iff (hr : r.Reads ctx bs a mid) :
    (r >>= next).Reads ctx bs b rest ↔ (next a).Reads ctx mid b rest := by
  refine ⟨fun h => ?_, hr.bind⟩
  obtain ⟨a', mid', hr', hnext⟩ := h.of_bind
  obtain ⟨rfl, rfl⟩ := hr.unique hr'
  exact hnext

theorem bind_eq {octets : Bytes} (hr : r.Reads ctx (octets ++ mid) a mid) :
    (r >>= next) ctx (octets ++ mid) = (next a ctx mid).shift octets.length := by
  rw [bind_of_done hr.done, List.drop_left]

theorem map (f : α → β) (hr : r.Reads ctx bs a rest) : (f <$> r).Reads ctx bs (f a) rest := by
  apply hr.bind
  exact pure (f a)

theorem discard (hr : r.Reads ctx bs a rest) : (discard r).Reads ctx bs () rest :=
  hr.map fun _ => PUnit.unit

theorem refine {judge : α → Except Failure β} (hr : r.Reads ctx bs a rest) (hj : judge a = .ok b) :
    (r.refine judge).Reads ctx bs b rest := by
  obtain ⟨span, hspan, hdone⟩ := hr
  refine ⟨span, hspan, ?_⟩
  simp only [Rule.refine, hdone, hj]

theorem lookahead (hr : r.Reads ctx bs a rest) : r.lookahead.Reads ctx bs a bs := by
  obtain ⟨span, hspan, hdone⟩ := hr
  refine ⟨[], rfl, ?_⟩
  simp only [Rule.lookahead, hdone]
  rfl

theorem opt (hr : r.Reads ctx bs a rest) : r.opt.Reads ctx bs (some a) rest := by
  obtain ⟨span, hspan, hdone⟩ := hr
  refine ⟨span, hspan, ?_⟩
  simp only [Rule.opt, hdone]

theorem opt_none (hr : r.Misses ctx bs) : r.opt.Reads ctx bs none bs := by
  obtain ⟨cause, position, hmiss⟩ := hr
  refine ⟨[], rfl, ?_⟩
  simp only [Rule.opt, hmiss]
  rfl

theorem first (hr : r.Reads ctx bs a rest) : (r.alt other).Reads ctx bs a rest := by
  obtain ⟨span, hspan, hdone⟩ := hr
  refine ⟨span, hspan, ?_⟩
  simp only [Rule.alt, hdone]

theorem second (hr : r.Misses ctx bs) (ho : other.Reads ctx bs a rest) :
    (r.alt other).Reads ctx bs a rest := by
  obtain ⟨cause, position, hmiss⟩ := hr
  obtain ⟨span, hspan, hdone⟩ := ho
  refine ⟨span, hspan, ?_⟩
  simp only [Rule.alt, hmiss, hdone]

theorem orElse_first (hr : r.Reads ctx bs a rest) : (r.orElse other).Reads ctx bs a rest := by
  obtain ⟨span, hspan, hdone⟩ := hr
  refine ⟨span, hspan, ?_⟩
  simp only [Rule.orElse, hdone]

theorem orElse_second (hr : r.Misses ctx bs) (ho : other.Reads ctx bs a rest) :
    (r.orElse other).Reads ctx bs a rest := by
  obtain ⟨cause, position, hmiss⟩ := hr
  obtain ⟨span, hspan, hdone⟩ := ho
  refine ⟨span, hspan, ?_⟩
  simp only [Rule.orElse, hmiss, hdone]

end Reads

namespace Misses

theorem not_done {n : Nat} (h : r.Misses ctx bs) : r ctx bs ≠ .done a n := by
  obtain ⟨cause, position, hmiss⟩ := h
  rw [hmiss]
  exact nofun

/-- What is read and then rejected is missed. -/
theorem rejected {judge : α → Except Failure β} {n : Nat} {cause : Cause} {position : Nat}
    (h : r ctx bs = .done a n) (hj : judge a = .error (.miss cause position)) :
    (r.refine judge).Misses ctx bs := by
  simp only [Misses, Rule.refine, h, hj]
  exact ⟨_, _, rfl⟩

theorem bind (hr : r.Misses ctx bs) : (r >>= next).Misses ctx bs := by
  obtain ⟨cause, position, hmiss⟩ := hr
  exact ⟨cause, position, bind_of_failed hmiss⟩

theorem behind (hr : r.Reads ctx bs a mid) (hn : (next a).Misses ctx mid) :
    (r >>= next).Misses ctx bs := by
  obtain ⟨front, rfl, hfront⟩ := hr
  obtain ⟨cause, position, hmiss⟩ := hn
  refine ⟨cause, front.length + position, ?_⟩
  rw [bind_of_done hfront, List.drop_left, hmiss]
  rfl

theorem map (f : α → β) (hr : r.Misses ctx bs) : (f <$> r).Misses ctx bs := hr.bind

theorem refine {judge : α → Except Failure β} (hr : r.Misses ctx bs) :
    (r.refine judge).Misses ctx bs := by
  obtain ⟨cause, position, hmiss⟩ := hr
  refine ⟨cause, position, ?_⟩
  simp only [Rule.refine, hmiss]

theorem lookahead (hr : r.Misses ctx bs) : r.lookahead.Misses ctx bs := by
  obtain ⟨cause, position, hmiss⟩ := hr
  refine ⟨cause, position, ?_⟩
  simp only [Rule.lookahead, hmiss]

theorem alt (hr : r.Misses ctx bs) (ho : other.Misses ctx bs) : (r.alt other).Misses ctx bs := by
  obtain ⟨cause, position, hmiss⟩ := hr
  obtain ⟨cause', position', hmiss'⟩ := ho
  simp only [Misses, Rule.alt, hmiss, hmiss', furthest]
  split <;> exact ⟨_, _, rfl⟩

end Misses

namespace Rejects

variable {cause : Cause} {position : Nat}

theorem bind (hr : r.Rejects ctx bs cause position) : (r >>= next).Rejects ctx bs cause position :=
  bind_of_failed hr

/-- What is bad behind what was read is bad further on. -/
theorem behind {octets : Bytes} (hr : r.Reads ctx (octets ++ mid) a mid)
    (hn : (next a).Rejects ctx mid cause position) :
    (r >>= next).Rejects ctx (octets ++ mid) cause (octets.length + position) := by
  apply hr.bind_eq.trans
  exact congrArg (Outcome.shift octets.length) hn

theorem map (f : α → β) (hr : r.Rejects ctx bs cause position) :
    (f <$> r).Rejects ctx bs cause position := hr.bind

theorem refine {judge : α → Except Failure β} (hr : r.Rejects ctx bs cause position) :
    (r.refine judge).Rejects ctx bs cause position := by
  rw [Rejects] at hr
  simp only [Rejects, Rule.refine, hr]

/-- What is read and then turned down for good is rejected. -/
theorem judged {judge : α → Except Failure β} (hr : r.Reads ctx bs a rest)
    (hj : judge a = .error (.bad cause position)) :
    (r.refine judge).Rejects ctx bs cause position := by
  obtain ⟨span, -, hdone⟩ := hr
  simp only [Rejects, Rule.refine, hdone, hj]

theorem opt (hr : r.Rejects ctx bs cause position) : r.opt.Rejects ctx bs cause position := by
  rw [Rejects] at hr
  simp only [Rejects, Rule.opt, hr]

theorem orElse (hr : r.Rejects ctx bs cause position) :
    (r.orElse other).Rejects ctx bs cause position := by
  rw [Rejects] at hr
  simp only [Rejects, Rule.orElse, hr]

theorem first (hr : r.Rejects ctx bs cause position) :
    (r.alt other).Rejects ctx bs cause position := by
  rw [Rejects] at hr
  simp only [Rejects, Rule.alt, hr]

theorem second (hr : r.Misses ctx bs) (ho : other.Rejects ctx bs cause position) :
    (r.alt other).Rejects ctx bs cause position := by
  obtain ⟨missed, place, hmiss⟩ := hr
  rw [Rejects] at ho
  simp only [Rejects, Rule.alt, hmiss, ho, furthest]

end Rejects

end

section Step

variable {element : Rule β} {ctx : Context} {bs mid rest : Bytes} {a : β} {as : List β}
  {separator b : UInt8}

namespace Reads

/-- One element of a list and the octet at its side, then the others. -/
theorem step {r others : Rule (List β)} (front : Bytes) (hothers : others.Reads ctx mid as rest)
    (h : r ctx (front ++ mid) = ((others ctx mid).map (a :: ·)).shift front.length) :
    r.Reads ctx (front ++ mid) (a :: as) rest := by
  obtain ⟨span, rfl, hdone⟩ := hothers
  refine ⟨front ++ span, (List.append_assoc ..).symm, ?_⟩
  rw [h, hdone, List.length_append]
  rfl

theorem behind_nil (h : ctx.Stops (· == separator) rest) :
    (behind separator element).Reads ctx rest [] rest := by
  refine ⟨[], rfl, ?_⟩
  change behind.go separator element ctx rest = _
  cases rest with
  | nil =>
    have hcomplete : ctx.complete = true := h
    rw [behind.go, if_pos hcomplete]
    rfl
  | cons b rest => exact behind_other rest (ne_of_beq_false h)

theorem behind_cons (ha : element.Reads ctx bs a mid)
    (hothers : (behind separator element).Reads ctx mid as rest) :
    (behind separator element).Reads ctx (separator :: bs) (a :: as) rest := by
  obtain ⟨span, rfl, hdone⟩ := ha
  refine step (separator :: span) hothers ?_
  change behind.go separator element ctx _ = _
  rw [List.cons_append, behind_done hdone, List.drop_left]
  rfl

theorem spacedToClose_one (ha : element.Reads ctx bs a (0x29 :: rest)) :
    element.spacedToClose.Reads ctx bs [a] rest := by
  obtain ⟨span, rfl, hdone⟩ := ha
  refine ⟨span ++ [0x29], by rw [List.append_assoc]; rfl, ?_⟩
  rw [List.length_append]
  exact spacedToClose_close hdone List.drop_left

theorem spacedToClose_cons (ha : element.Reads ctx bs a (0x20 :: mid))
    (hothers : element.spacedToClose.Reads ctx mid as rest) :
    element.spacedToClose.Reads ctx bs (a :: as) rest := by
  obtain ⟨span, rfl, hdone⟩ := ha
  have hsplit : span ++ 0x20 :: mid = (span ++ [0x20]) ++ mid := by rw [List.append_assoc]; rfl
  rw [hsplit]
  refine step _ hothers ?_
  rw [← hsplit, List.length_append]
  exact spacedToClose_space hdone List.drop_left

theorem parenthesized_nil :
    Reads (parenthesized.go element : Rule (List β)) ctx (0x29 :: rest) [] rest := by
  refine ⟨[0x29], rfl, ?_⟩
  exact parenthesized_close rest

theorem parenthesized_cons (ha : element.Reads ctx bs a mid)
    (hothers : Reads (parenthesized.go element : Rule (List β)) ctx mid as rest) :
    Reads (parenthesized.go element : Rule (List β)) ctx (0x28 :: bs) (a :: as) rest := by
  obtain ⟨span, rfl, hdone⟩ := ha
  refine step (0x28 :: span) hothers ?_
  rw [List.cons_append, parenthesized_done hdone, List.drop_left]
  rfl

end Reads

end Step

section Lists

variable {element : Rule β} {octets : σ → Bytes} {value : σ → β} {ctx : Context}
  {p : UInt8 → Bool} {separator : UInt8} {items : List σ} {rest : Bytes}

namespace Reads

/-- Behind an item stands the next separator, or what is behind them all. -/
theorem stops_behind (hsep : p separator = false) (hrest : ctx.Stops p rest) (items : List Bytes) :
    ctx.Stops p (Bytes.behind separator items ++ rest) := by
  cases items with
  | nil => exact hrest
  | cons => exact hsep

theorem behind
    (each : ∀ i ∈ items, ∀ more, ctx.Stops p more → element.Reads ctx (octets i ++ more) (value i) more)
    (hsep : p separator = false) (hrest : ctx.Stops p rest) (hstop : ctx.Stops (· == separator) rest) :
    (behind separator element).Reads ctx (Bytes.behind separator (items.map octets) ++ rest)
      (items.map value) rest := by
  induction items with
  | nil => exact behind_nil hstop
  | cons i items ih =>
    have hi := each i List.mem_cons_self _ (stops_behind hsep hrest (items.map octets))
    have hothers := ih fun i hi => each i (List.mem_cons_of_mem _ hi)
    rw [List.map_cons, Bytes.behind_cons, List.cons_append, List.append_assoc]
    exact behind_cons hi hothers

theorem separated (hne : items ≠ [])
    (each : ∀ i ∈ items, ∀ more, ctx.Stops p more → element.Reads ctx (octets i ++ more) (value i) more)
    (hsep : p separator = false) (hrest : ctx.Stops p rest) (hstop : ctx.Stops (· == separator) rest) :
    (separated separator element).Reads ctx (Bytes.joined separator (items.map octets) ++ rest)
      (items.map value) rest := by
  obtain ⟨i, items, rfl⟩ := List.exists_cons_of_ne_nil hne
  have hi := each i List.mem_cons_self _ (stops_behind hsep hrest (items.map octets))
  have hothers := behind (fun i hi => each i (List.mem_cons_of_mem _ hi)) hsep hrest hstop
  rw [List.map_cons, Bytes.joined, List.append_assoc]
  exact hi.bind (hothers.bind (pure _))

theorem spacedToClose (hne : items ≠ [])
    (each : ∀ i ∈ items, ∀ more, ctx.Stops p more → element.Reads ctx (octets i ++ more) (value i) more)
    (hspace : p 0x20 = false) (hclose : p 0x29 = false) :
    element.spacedToClose.Reads ctx (Bytes.joined 0x20 (items.map octets) ++ 0x29 :: rest)
      (items.map value) rest := by
  obtain ⟨i, items, rfl⟩ := List.exists_cons_of_ne_nil hne
  clear hne
  have hend : ctx.Stops p (0x29 :: rest) := hclose
  have hi := each i List.mem_cons_self _ (stops_behind hspace hend (items.map octets))
  rw [List.map_cons, Bytes.joined, List.append_assoc]
  induction items generalizing i with
  | nil => exact spacedToClose_one hi
  | cons j items ih =>
    have hothers := (List.forall_mem_cons.mp each).2
    have hj := hothers j List.mem_cons_self _ (stops_behind hspace hend (items.map octets))
    rw [List.map_cons, Bytes.behind_cons, List.cons_append, List.append_assoc] at hi ⊢
    exact spacedToClose_cons hi (ih j hothers hj)

theorem parenthesized_go
    (each : ∀ i ∈ items, ∀ more, element.Reads ctx (octets i ++ more) (value i) more) :
    Reads (parenthesized.go element : Rule (List β)) ctx
      (Bytes.behind 0x28 (items.map octets) ++ 0x29 :: rest) (items.map value) rest := by
  induction items with
  | nil => exact parenthesized_nil
  | cons i items ih =>
    have hothers := ih fun i hi => each i (List.mem_cons_of_mem _ hi)
    rw [List.map_cons, Bytes.behind_cons, List.cons_append, List.append_assoc]
    exact parenthesized_cons (each i List.mem_cons_self _) hothers

end Reads

end Lists

end Rule

end Imap
