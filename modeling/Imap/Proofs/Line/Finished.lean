import Imap.Proofs.Line.Fence
import Imap.Proofs.Line.Prompt

namespace Imap

namespace Bytes

/-- The line ends in the head of a literal: its size in braces, perhaps with a plus. A carriage
return may stand behind. -/
def AnnouncesLiteral (line : Bytes) : Prop :=
  ∃ before size plus ending : Bytes, line = before ++ 0x7B :: (size ++ plus ++ 0x7D :: ending) ∧
    size ≠ [] ∧ (∀ d ∈ size, Octet.isDigit d = true) ∧ (plus = [] ∨ plus = [0x2B]) ∧
    (ending = [] ∨ ending = [0x0D])

/-- The octets of a line, without its line feed, that no literal follows. -/
structure Finished (line : Bytes) : Prop where
  inLine : 0x0A ∉ line
  plain : ¬line.AnnouncesLiteral

theorem AnnouncesLiteral.behind {line : Bytes} {n : Nat} (h : AnnouncesLiteral (line.drop n)) :
    line.AnnouncesLiteral := by
  obtain ⟨before, size, plus, ending, hline, hrest⟩ := h
  refine ⟨line.take n ++ before, size, plus, ending, ?_, hrest⟩
  rw [List.append_assoc, ← hline, List.take_append_drop]

theorem AnnouncesLiteral.getLast {line : Bytes} (h : line.AnnouncesLiteral) :
    line.getLast? = some 0x7D ∨ line.getLast? = some 0x0D := by
  obtain ⟨before, size, plus, ending, rfl, -, -, -, hending⟩ := h
  have hsplit : before ++ 0x7B :: (size ++ plus ++ 0x7D :: ending) =
      before ++ 0x7B :: (size ++ plus) ++ 0x7D :: ending := by simp
  rw [hsplit]
  rcases hending with rfl | rfl
  · exact .inl List.getLast?_concat
  · rw [List.getLast?_append]
    exact .inr rfl

theorem Finished.drop {line : Bytes} (h : line.Finished) (n : Nat) : Finished (line.drop n) := by
  constructor
  · intro hm
    exact h.inLine (List.mem_of_mem_drop hm)
  · intro ha
    exact h.plain ha.behind

end Bytes

namespace Rule

variable {α β : Type} {r : Rule α}

/-- Stays on a finished line. -/
def Confined (r : Rule α) : Prop :=
  ∀ d line, Bytes.Finished line → (r ⟨false, d⟩ (line ++ [0x0A])).Stays line.length

/-- The line feed of a finished line, when nothing has come behind it. -/
def finishedLine : Fence where
  mark := 0x0A
  Front := Bytes.Finished
  drop := Bytes.Finished.drop
  Behind ctx rest := ctx.complete = false ∧ rest = []

theorem confined_iff_within : Confined r ↔ Within finishedLine r := by
  constructor
  · rintro h ⟨complete, d⟩ front rest hfront ⟨rfl, rfl⟩
    exact h d front hfront
  · exact fun h d line hline => h hline ⟨rfl, rfl⟩

theorem Inline.stays (hr : Inline r) (d : Dialect) (line : Bytes) :
    (r ⟨false, d⟩ (line ++ [0x0A])).Stays line.length := by
  refine .of_settled (hr.settled d _ (by simp)) fun _ _ ha => ?_
  exact hr.le_length ha

theorem Inline.confined (hr : Inline r) : Confined r := by
  intro d line _
  exact hr.stays d line

/-- Stays on a line that is finished together with the octets `head` before it. -/
def ConfinedBehind (head : Bytes) (r : Rule α) : Prop :=
  ∀ d line, 0x0A ∉ line → ¬(head ++ line).AnnouncesLiteral →
    (r ⟨false, d⟩ (line ++ [0x0A])).Stays line.length

/-- A rule that reads on behind `r` may count on what `r` has read. -/
theorem ConfinedBehind.bind {head : Bytes} {next : α → Rule β} (hr : Inline r)
    (hn : ∀ a d span rest, r ⟨false, d⟩ (span ++ rest) = .done a span.length →
      ConfinedBehind (head ++ span) (next a)) : ConfinedBehind head (r >>= next) := by
  intro d line hlf hplain
  have hfirst := hr.stays d line
  generalize ho : r ⟨false, d⟩ (line ++ [0x0A]) = o at hfirst
  cases hfirst with
  | failed decided =>
    rw [bind_of_failed ho]
    exact .failed decided
  | @done a n le =>
    have hlen : (line.take n).length = n := List.length_take_of_le le
    have hspan : r ⟨false, d⟩ (line.take n ++ (line.drop n ++ [0x0A])) =
        .done a (line.take n).length := by
      rw [← List.append_assoc, List.take_append_drop, hlen, ho]
    have hrest : ¬(head ++ line.take n ++ line.drop n).AnnouncesLiteral := by
      rwa [List.append_assoc, List.take_append_drop]
    have htail := hn a d _ _ hspan d (line.drop n) (fun hm => hlf (List.mem_of_mem_drop hm)) hrest
    rw [bind_of_done ho, List.drop_append_of_le_length le]
    exact htail.shift (by rw [List.length_drop]; omega)

/-- A mark reads no more than itself. -/
theorem word_done_span {fixed : String} {cause : Cause} {b : UInt8} {ctx : Context}
    {span rest : Bytes} (hfixed : (Bytes.ofText fixed).map Octet.lower = [b])
    (hb : Octet.isLetter b = false)
    (h : word fixed cause ctx (span ++ rest) = .done () span.length) : span = [b] := by
  simp only [word, hfixed] at h
  split at h
  · next hequal =>
    obtain ⟨-, hmap⟩ := compareWord_equal hequal
    have hlen : [b].length = span.length := (Outcome.done.inj h).2
    rw [hlen, List.take_left] at hmap
    obtain ⟨c, rfl⟩ := List.length_eq_one_iff.mp hlen.symm
    have hc : Octet.lower c = b := List.cons.inj hmap |>.1
    rw [(Octet.lower_eq_iff hb).mp hc]
  · split at h <;> cases h
  · cases h

theorem digits_done_span {limit : Nat} {wanted : Element} {size : Nat} {ctx : Context}
    {span rest : Bytes} (h : digits limit wanted ctx (span ++ rest) = .done size span.length) :
    span ≠ [] ∧ ∀ d ∈ span, Octet.isDigit d = true := by
  simp only [digits_apply] at h
  split at h
  · cases h
  · cases hs : Rule.span Octet.isDigit wanted ctx (span ++ rest) with
    | failed why => rw [hs] at h; cases h
    | done text n =>
      rw [hs] at h
      have hn : n = span.length := (Outcome.done.inj h).2
      have hlen := (span_done hs).2
      obtain ⟨b, tail, hcons, hb⟩ := span_head hs
      have hspan : (span ++ rest).take ((span ++ rest).takeWhile Octet.isDigit).length = span := by
        rw [← hlen, hn, List.take_left]
      constructor
      · rintro rfl
        rw [List.nil_append] at hcons hlen
        rw [hcons, List.takeWhile_cons_of_pos hb] at hlen
        cases hn.symm.trans hlen
      · intro d hd
        rw [← hspan] at hd
        exact takeWhile_all _ _ d hd

/-- What the octets behind `{` and a size, and behind a plus if any, come to. -/
theorem literal_end_confined {head size : Bytes} (before plus : Bytes) (n : Nat)
    (hhead : head = before ++ 0x7B :: (size ++ plus)) (hsize : size ≠ [])
    (hdigits : ∀ d ∈ size, Octet.isDigit d = true) (hplus : plus = [] ∨ plus = [0x2B]) :
    ConfinedBehind head (do
      expect "\x7d" .literalEnd
      lineEnd
      literalBody n) := by
  have brace : Built .line .wary (expect "\x7d" .literalEnd) := .expect _ _ (by decide)
  refine .bind brace.inline fun _ d span rest hspan => ?_
  have hbrace : span = [0x7D] := word_done_span rfl (by decide) hspan
  intro d line hlf hplain
  have hsettled := lineEnd_lined d (line ++ [0x0A]) (by simp)
  generalize ho : lineEnd ⟨false, d⟩ (line ++ [0x0A]) = o at hsettled
  cases hsettled with
  | failed decided =>
    rw [bind_of_failed ho]
    exact .failed decided
  | done _ used =>
    -- Whatever line end it is, the line in front of it announces a literal.
    refine absurd ⟨before, size, plus, line, ?_, hsize, hdigits, hplus, ?_⟩ hplain
    · rw [hhead, hbrace]
      simp
    · obtain ⟨rest', ⟨hbs, -⟩ | ⟨hbs, -⟩⟩ := lineEnd_done ho
      · cases line with
        | nil => exact .inl rfl
        | cons b line =>
          cases hbs
          exact absurd (List.mem_cons_self ..) hlf
      · obtain ⟨line, rfl, hrest⟩ := cons_of_framed (by decide) hbs
        cases line with
        | nil => exact .inr rfl
        | cons b line =>
          cases hrest
          exact absurd (List.mem_cons_of_mem _ (List.mem_cons_self ..)) hlf

theorem skip_done_span {fixed : String} {b : UInt8} {ctx : Context} {span rest : Bytes}
    (hfixed : (Bytes.ofText fixed).map Octet.lower = [b]) (hb : Octet.isLetter b = false)
    (h : (discard (skip? fixed) : Rule Unit) ctx (span ++ rest) = .done () span.length) :
    span = [] ∨ span = [b] := by
  obtain ⟨found, n, m, hskip, hpure, hlen⟩ := bind_done h
  cases hpure
  obtain ⟨word, n, m, hopt, hpure, hn⟩ := bind_done hskip
  cases hpure
  rcases opt_done hopt with ⟨_, hword, -⟩ | ⟨-, -, hnone⟩
  · right
    have hn' : n = span.length := by omega
    rw [hn'] at hword
    exact word_done_span hfixed hb hword
  · left
    exact List.eq_nil_of_length_eq_zero (by omega)

theorem literal_confined : Confined literal := by
  have brace : Built .line .wary (expect "\x7b" .literal) := .expect _ _ (by decide)
  have size : Built .line .wary (digits maxNumber .literalLength) := .digits _ _
  have speaker : Built .line .wary dialect := .dialect
  have plus : Built .line .wary (discard (skip? "+")) := (Built.skip? _ (by decide)).discard
  have h : ConfinedBehind [] literal := by
    refine .bind brace.inline fun _ _ first _ hfirst => ?_
    refine .bind size.inline fun n _ run _ hrun => ?_
    refine .bind speaker.inline fun d _ none _ hnone => ?_
    have hone : first = [0x7B] := word_done_span rfl (by decide) hfirst
    have hnil : none = [] := List.eq_nil_of_length_eq_zero (Outcome.done.inj hnone).2.symm
    obtain ⟨hne, hdigits⟩ := digits_done_span hrun
    subst hone hnil
    split
    · refine .bind plus.inline fun _ _ mark _ hmark => ?_
      have hplus := skip_done_span rfl (by decide) hmark
      exact literal_end_confined [] mark n (by simp) hne hdigits hplus
    · exact literal_end_confined [] [] n (by simp) hne hdigits (.inl rfl)
  intro d line hline
  exact h d line hline.inLine hline.plain

namespace Confined

variable {element body : Rule α}

theorem bind {next : α → Rule β} (hr : Confined r) (hn : ∀ a, r.Gives a → Confined (next a)) :
    Confined (r >>= next) := by
  apply confined_iff_within.mpr
  apply (confined_iff_within.mp hr).bind
  intro a ha
  exact confined_iff_within.mp (hn a ha)

theorem refine {judge : α → Except Failure β} (hr : Confined r)
    (hj : ∀ a why, judge a = .error why → why.Here) : Confined (r.refine judge) := by
  rw [confined_iff_within] at hr ⊢
  exact hr.refine hj

theorem behind {separator : UInt8} (hs : separator ≠ 0x0A) (he : Confined element) :
    Confined (Rule.behind separator element) := by
  rw [confined_iff_within] at he ⊢
  exact he.behind hs

theorem spacedToClose (he : Confined element) : Confined element.spacedToClose := by
  apply confined_iff_within.mpr
  exact (confined_iff_within.mp he).spacedToClose (by decide) (by decide)

theorem parenthesized (hb : Confined body) :
    Confined (parenthesized.go body : Rule (List α)) := by
  apply confined_iff_within.mpr
  exact (confined_iff_within.mp hb).parenthesized (by decide) (by decide)

end Confined

/-- The induction that carries `Confined` to every rule over literals. -/
theorem Built.confined_of {e : Extent} {m : Manner} {r : Rule α} (h : Built e m r) :
    e = .text → Confined r := by
  have leaf {γ : Type} {r : Rule γ} (h : Built .line .wary r) : Confined r := h.inline.confined
  have simple {e : Extent} {γ : Type} {r : Rule γ} (he : e = .line ∨ e = .unit) :
      e = .text → Confined r := by
    rintro rfl
    rcases he with he | he <;> cases he
  induction h with
  | pure a => exact fun _ => leaf (.pure a)
  | fail here => exact fun _ => leaf (.fail here)
  | ofExcept x => exact fun _ => leaf (.ofExcept x nofun)
  | dialect => exact fun _ => leaf .dialect
  | peek => exact fun _ => leaf .peek
  | token greedy inLine ascii => exact fun _ => leaf (.token greedy inLine ascii _ _ _)
  | word _ _ inLine => exact fun _ => leaf (.word _ _ inLine)
  | digits => exact fun _ => leaf (.digits _ _)
  | quotedTail => exact fun _ => leaf .quotedTail
  | lineEnd => nofun
  | literalBody => nofun
  | literal => exact fun _ => literal_confined
  | bind _ _ first rest => exact fun he => (first he).bind fun a ha => rest a ha he
  | refine _ here first => exact fun he => (first he).refine here
  | lookahead first => exact fun _ => first.inline.lookahead.confined
  | opt he => exact simple he
  | orElse he => exact simple he
  | alt he => exact simple he
  | behind inLine each => exact fun _ => (each.inline.behind inLine).confined
  | behindPrompt inLine _ _ each => exact fun _ => (each rfl).behind inLine
  | spacedToClose _ each => exact fun he => (each he).spacedToClose
  | parenthesized _ each => exact fun _ => (each rfl).parenthesized
  | ofLine inLine => exact fun _ => inLine.inline.confined
  | ofRaw => nofun
  | ofText => nofun
  | willingly _ _ h => exact h

theorem Built.confined {m : Manner} {r : Rule α} (h : Built .text m r) : Confined r :=
  h.confined_of rfl

end Rule

end Imap
