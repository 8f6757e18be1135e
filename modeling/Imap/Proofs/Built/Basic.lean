import Imap.Proofs.Ascii
import Imap.Proofs.Growth.List

namespace Imap.Rule

theorem takeWhile_all (p : UInt8 → Bool) (bs : Bytes) :
    ∀ b ∈ bs.take (bs.takeWhile p).length, p b = true := by
  rw [← List.prefix_iff_eq_take.mp (List.takeWhile_prefix p)]
  exact List.all_eq_true.mp List.all_takeWhile

theorem not_mem_takeWhile {p : UInt8 → Bool} {b : UInt8} (hp : p b = false) (bs : Bytes) :
    b ∉ bs.take (bs.takeWhile p).length := by
  intro h
  rw [takeWhile_all p bs _ h] at hp
  cases hp

theorem takeWhile_ascii {p : UInt8 → Bool} (hp : Octet.Ascii p) (bs : Bytes) :
    ∀ b ∈ bs.take (bs.takeWhile p).length, b < 0x80 := by
  intro b hb
  exact hp b (takeWhile_all p bs b hb)

/-- How far a rule may read: inside one line, over line ends as the parts of a literal do, over whole
literals, or to the end of a unit. -/
inductive Extent where
  | line | raw | text | unit
  deriving DecidableEq

/-- Whether a rule may refuse a value that it has read. -/
inductive Manner where
  | willing | wary
  deriving DecidableEq

/-- Refuses nothing where the quota extension is known. -/
def Willing {α : Type} (r : Rule α) : Prop :=
  ∀ ctx bs why, ctx.dialect.knowsQuota = true → r ctx bs ≠ .failed (.refused why)

/-- Whether a rule that misses does so at a line feed at the latest, more to come or not. -/
def Prompt {α : Type} (r : Rule α) : Prop :=
  ∀ ctx pre tail cause position, r ctx (pre ++ 0x0A :: tail) = .failed (.miss cause position) →
    ∃ cause' position',
      r ⟨false, ctx.dialect⟩ (pre ++ [0x0A]) = .failed (.miss cause' position')

/-- Only a rule that stays inside its line may be tried before another one, unless both are units. A
rule that refuses nothing is made of such rules, or shown to be one. -/
inductive Built : Extent → Manner → {α : Type} → Rule α → Prop
  | pure {e : Extent} {m : Manner} {α : Type} (a : α) : Built e m (Pure.pure a : Rule α)
  | fail {e : Extent} {m : Manner} {α : Type} {why : Failure} (here : why.Here) :
    Built e m (Rule.fail why : Rule α)
  | ofExcept {e : Extent} {m : Manner} {α : Type} (x : Except Refusal α)
    (accepted : m = .willing → ∃ a, x = .ok a) : Built e m (Rule.ofExcept x)
  | dialect {e : Extent} {m : Manner} : Built e m Rule.dialect
  | peek {e : Extent} {m : Manner} : Built e m Rule.peek
  | token {e : Extent} {m : Manner} {length : Bytes → Nat} (greedy : Greedy length)
    (inLine : ∀ bs : Bytes, 0x0A ∉ bs.take (length bs))
    (ascii : ∀ bs : Bytes, ∀ b ∈ bs.take (length bs), b < 0x80) (mayBeEmpty : Bool)
    (missing : Shortage) (cause : Cause) : Built e m (Rule.token length mayBeEmpty missing cause)
  | word {e : Extent} {m : Manner} (fixed : String) (cause : Cause)
    (inLine : 0x0A ∉ (Bytes.ofText fixed).map Octet.lower) : Built e m (Rule.word fixed cause)
  | digits {e : Extent} {m : Manner} (limit : Nat) (wanted : Element) :
    Built e m (Rule.digits limit wanted)
  | quotedTail {e : Extent} {m : Manner} : Built e m Rule.quotedTail
  | lineEnd {m : Manner} : Built .raw m Rule.lineEnd
  | literalBody {m : Manner} (size : Nat) : Built .raw m (Rule.literalBody size)
  | literal {m : Manner} (parts : Built .raw m Rule.literal) : Built .text m Rule.literal
  | bind {e : Extent} {m : Manner} {α β : Type} {r : Rule α} {next : α → Rule β}
    (first : Built e m r) (rest : ∀ a, r.Gives a → Built e m (next a)) : Built e m (r >>= next)
  | refine {e : Extent} {m : Manner} {α β : Type} {r : Rule α} {judge : α → Except Failure β}
    (first : Built e m r) (here : ∀ a why, judge a = .error why → why.Here) :
    Built e m (r.refine judge)
  | lookahead {e : Extent} {m : Manner} {α : Type} {r : Rule α} (first : Built .line m r) :
    Built e m r.lookahead
  | opt {e : Extent} {m : Manner} {α : Type} {r : Rule α} (simple : e = .line ∨ e = .unit)
    (first : Built e m r) : Built e m r.opt
  | orElse {e : Extent} {m : Manner} {α : Type} {r other : Rule α}
    (simple : e = .line ∨ e = .unit) (first : Built e m r) (second : Built e m other) : Built e m (r.orElse other)
  | alt {e : Extent} {m : Manner} {α : Type} {r other : Rule α} (simple : e = .line ∨ e = .unit)
    (first : Built e m r) (second : Built e m other) : Built e m (r.alt other)
  | behind {e : Extent} {m : Manner} {α : Type} {separator : UInt8} {element : Rule α}
    (inLine : separator ≠ 0x0A) (each : Built .line m element) :
    Built e m (Rule.behind separator element)
  | behindPrompt {m : Manner} {α : Type} {separator : UInt8} {element : Rule α}
    (inLine : separator ≠ 0x0A) (each : Built .text m element) (prompt : element.Prompt) :
    Built .text m (Rule.behind separator element)
  | spacedToClose {e : Extent} {m : Manner} {α : Type} {element : Rule α}
    (each : Built e m element) : Built e m element.spacedToClose
  | parenthesized {m : Manner} {α : Type} {body : Rule α} (each : Built .text m body) :
    Built .text m (parenthesized.go body : Rule (List α))
  | ofLine {e : Extent} {m : Manner} {α : Type} {r : Rule α} (inLine : Built .line m r) :
    Built e m r
  | ofRaw {m : Manner} {α : Type} {r : Rule α} (raw : Built .raw m r) : Built .unit m r
  | ofText {m : Manner} {α : Type} {r : Rule α} (text : Built .text m r) : Built .unit m r
  | willingly {e : Extent} {α : Type} {r : Rule α} (built : Built e .wary r)
    (willing : r.Willing) : Built e .willing r

namespace Built

variable {e : Extent} {m : Manner} {α β : Type}

theorem steady {r : Rule α} (h : Built e m r) : Steady r := by
  induction h with
  | pure a => exact .pure a
  | fail here => exact .fail here
  | ofExcept x _ => exact .ofExcept x
  | dialect => exact .dialect
  | peek => exact .peek
  | token greedy => exact .token greedy _ _ _
  | word => exact .word _ _
  | digits => exact .digits _ _
  | quotedTail => exact .quotedTail
  | lineEnd => exact .lineEnd
  | literalBody size => exact .literalBody size
  | literal _ h => exact h
  | bind _ _ first rest => exact first.bind rest
  | refine _ here first => exact first.refine here
  | lookahead _ first => exact first.lookahead
  | opt _ _ first => exact first.opt
  | orElse _ _ _ first second => exact first.orElse second
  | alt _ _ _ first second => exact first.alt second
  | behind _ _ each => exact each.behind _
  | behindPrompt _ _ _ each => exact each.behind _
  | spacedToClose _ each => exact each.spacedToClose
  | parenthesized _ each => exact each.parenthesized_go
  | ofLine _ h => exact h
  | ofRaw _ h => exact h
  | ofText _ h => exact h
  | willingly _ _ h => exact h

end Built

end Imap.Rule
