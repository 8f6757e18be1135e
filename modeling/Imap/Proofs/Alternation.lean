import Imap.Proofs.Order
import Imap.Proofs.Outcomes

namespace Imap

namespace Outcome

variable {α : Type} {o o' : Outcome α} {os os' : List (Outcome α)} {place : Nat}

/-- A miss, at `place`. -/
def MissesAt (o : Outcome α) (place : Nat) : Prop := ∃ cause, o = .failed (.miss cause place)

/-- The one that prevails among the outcomes of alternatives, in the order they are tried. -/
inductive Prevails : List (Outcome α) → Outcome α → Prop
  /-- The first that is no miss. -/
  | settled {before after : List (Outcome α)} {o : Outcome α}
      (earlier : ∀ o' ∈ before, ∃ place, o'.MissesAt place) (stands : ∀ place, ¬o.MissesAt place) :
      Prevails (before ++ o :: after) o
  /-- Of misses alone the one that got furthest, and the last of those that got equally far. -/
  | furthest {before after : List (Outcome α)} {cause : Cause} {place : Nat}
      (earlier : ∀ o' ∈ before, ∃ p ≤ place, o'.MissesAt p)
      (later : ∀ o' ∈ after, ∃ p < place, o'.MissesAt p) :
      Prevails (before ++ .failed (.miss cause place) :: after) (.failed (.miss cause place))

theorem missesAt_miss {cause : Cause} {p : Nat} :
    (.failed (.miss cause p) : Outcome α).MissesAt place ↔ p = place := by
  constructor
  · rintro ⟨cause', h⟩
    cases h
    rfl
  · rintro rfl
    exact ⟨cause, rfl⟩

theorem done_not_missesAt (a : α) (n : Nat) : ∀ place, ¬(.done a n : Outcome α).MissesAt place := by
  rintro place ⟨cause, h⟩
  cases h

theorem failed_not_missesAt {why : Failure} (h : ∀ cause p, why ≠ .miss cause p) :
    ∀ place, ¬(.failed why : Outcome α).MissesAt place := by
  rintro place ⟨cause, hmiss⟩
  cases hmiss
  exact h cause place rfl

theorem MissesAt.unique {place' : Nat} (h : o.MissesAt place) (h' : o.MissesAt place') :
    place = place' := by
  obtain ⟨cause, rfl⟩ := h
  exact missesAt_miss.mp h'

theorem shift_missesAt_iff {n : Nat} :
    (o.shift n).MissesAt place ↔ ∃ p, o.MissesAt p ∧ n + p = place := by
  constructor
  · rintro ⟨cause, h⟩
    obtain ⟨why, rfl, hwhy⟩ := Rule.shift_failed h
    obtain ⟨p, rfl⟩ := Rule.miss_of_shift hwhy.symm
    cases hwhy
    exact ⟨p, ⟨cause, rfl⟩, rfl⟩
  · rintro ⟨p, ⟨cause, rfl⟩, rfl⟩
    exact ⟨cause, rfl⟩

/-- One list split at two of its elements: at the same, or at one ahead of the other. -/
theorem split_cases {γ : Type} {x y : γ} {before before' after after' : List γ}
    (h : before ++ x :: after = before' ++ y :: after') :
    x = y ∨ (x ∈ before' ∧ y ∈ after) ∨ (y ∈ before ∧ x ∈ after') := by
  obtain ⟨_ | ⟨z, gap⟩, hbefore, hafter⟩ | ⟨_ | ⟨z, gap⟩, hbefore, hafter⟩ :=
    List.append_eq_append_iff.mp h
  · exact .inl (List.cons.inj hafter).1
  · obtain ⟨rfl, rfl⟩ := List.cons.inj hafter
    exact .inr (.inl ⟨by simp [hbefore], by simp⟩)
  · exact .inl (List.cons.inj hafter).1.symm
  · obtain ⟨rfl, rfl⟩ := List.cons.inj hafter
    exact .inr (.inr ⟨by simp [hbefore], by simp⟩)

namespace Prevails

/-- Places counted from elsewhere prevail alike. -/
theorem shift (h : Prevails os o) (n : Nat) : Prevails (os.map (·.shift n)) (o.shift n) := by
  cases h with
  | settled earlier stands =>
    rw [List.map_append, List.map_cons]
    refine .settled (List.forall_mem_map.mpr fun o' ho' => ?_) fun place hmiss => ?_
    · obtain ⟨p, hp⟩ := earlier o' ho'
      exact ⟨n + p, shift_missesAt_iff.mpr ⟨p, hp, rfl⟩⟩
    · obtain ⟨p, hp, -⟩ := shift_missesAt_iff.mp hmiss
      exact stands p hp
  | furthest earlier later =>
    rw [List.map_append, List.map_cons]
    refine .furthest (List.forall_mem_map.mpr fun o' ho' => ?_)
      (List.forall_mem_map.mpr fun o' ho' => ?_)
    · obtain ⟨p, hle, hp⟩ := earlier o' ho'
      exact ⟨n + p, by omega, shift_missesAt_iff.mpr ⟨p, hp, rfl⟩⟩
    · obtain ⟨p, hlt, hp⟩ := later o' ho'
      exact ⟨n + p, by omega, shift_missesAt_iff.mpr ⟨p, hp, rfl⟩⟩

/-- A miss prevails only among misses, and none of them got further. -/
theorem misses_le (h : Prevails os o) (hmiss : o.MissesAt place) :
    ∀ o' ∈ os, ∃ p ≤ place, o'.MissesAt p := by
  cases h with
  | settled earlier stands => exact absurd hmiss (stands place)
  | furthest earlier later =>
    cases missesAt_miss.mp hmiss
    intro o' ho'
    rcases List.mem_append.mp ho' with ho' | ho'
    · exact earlier o' ho'
    · rcases List.mem_cons.mp ho' with rfl | ho'
      · exact ⟨place, Nat.le_refl place, hmiss⟩
      · obtain ⟨p, hlt, hp⟩ := later o' ho'
        exact ⟨p, hlt.le, hp⟩

theorem mem (h : Prevails os o) : o ∈ os := by
  cases h <;> exact List.mem_append_right _ List.mem_cons_self

/-- Only one outcome prevails. -/
theorem unique (h : Prevails os o) (h' : Prevails os o') : o = o' := by
  have hmem := h.mem
  have hmem' := h'.mem
  have hall {place : Nat} (hmiss : o.MissesAt place) := h.misses_le hmiss
  have hall' {place : Nat} (hmiss : o'.MissesAt place) := h'.misses_le hmiss
  generalize hsame : os = os' at h'
  cases h with
  | settled earlier stands =>
    cases h' with
    | settled earlier' stands' =>
      obtain heq | ⟨hbefore, -⟩ | ⟨hbefore, -⟩ := split_cases hsame
      · exact heq
      · obtain ⟨p, hp⟩ := earlier' o hbefore
        exact absurd hp (stands p)
      · obtain ⟨p, hp⟩ := earlier o' hbefore
        exact absurd hp (stands' p)
    | furthest earlier' later' =>
      obtain ⟨p, -, hp⟩ := hall' (missesAt_miss.mpr rfl) o hmem
      exact absurd hp (stands p)
  | furthest earlier later =>
    cases h' with
    | settled earlier' stands' =>
      obtain ⟨p, -, hp⟩ := hall (missesAt_miss.mpr rfl) o' hmem'
      exact absurd hp (stands' p)
    | furthest earlier' later' =>
      -- Of two, the one in front got no further than the other, and yet further than all behind it.
      obtain heq | ⟨hbefore, hafter⟩ | ⟨hbefore, hafter⟩ := split_cases hsame
      · exact heq
      · have hle := earlier' _ hbefore
        have hlt := later _ hafter
        simp only [missesAt_miss, exists_eq_right'] at hle hlt
        omega
      · have hle := earlier _ hbefore
        have hlt := later' _ hafter
        simp only [missesAt_miss, exists_eq_right'] at hle hlt
        omega

/-- What is no miss keeps all behind it from being tried. -/
theorem here (stands : ∀ place, ¬o.MissesAt place) : Prevails (o :: os) o := by
  have hnone : ∀ o' ∈ ([] : List (Outcome α)), ∃ place, o'.MissesAt place := List.forall_mem_nil _
  exact @settled α [] os o hnone stands

/-- A miss is passed over, unless it got further than the miss that prevails behind it. -/
theorem behind {p : Nat} (h : Prevails os o) (hmiss : o'.MissesAt p)
    (hle : ∀ place, o.MissesAt place → p ≤ place) : Prevails (o' :: os) o := by
  cases h with
  | @settled before after _ earlier stands =>
    exact @settled α (o' :: before) after o (List.forall_mem_cons.mpr ⟨⟨p, hmiss⟩, earlier⟩) stands
  | @furthest before after cause place earlier later =>
    have hp := hle place (missesAt_miss.mpr rfl)
    exact @furthest α (o' :: before) after cause place
      (List.forall_mem_cons.mpr ⟨⟨p, hp, hmiss⟩, earlier⟩) later

/-- A miss prevails if it got further than the one that prevails behind it. -/
theorem ahead {cause : Cause} {p : Nat} (h : Prevails os o) (hmiss : o.MissesAt place)
    (hlt : place < p) : Prevails (.failed (.miss cause p) :: os) (.failed (.miss cause p)) := by
  refine @furthest α [] os cause p (List.forall_mem_nil _) fun o' ho' => ?_
  obtain ⟨q, hle, hq⟩ := h.misses_le hmiss o' ho'
  exact ⟨q, by omega, hq⟩

theorem alone (o : Outcome α) : Prevails [o] o := by
  by_cases hmiss : ∃ place, o.MissesAt place
  · obtain ⟨place, cause, rfl⟩ := hmiss
    exact @furthest α [] [] cause place (List.forall_mem_nil _) (List.forall_mem_nil _)
  · exact here (not_exists.mp hmiss)

end Prevails

end Outcome

namespace Rule

open Outcome

variable {α β : Type} {r other : Rule α} {ctx : Context} {bs : Bytes} {os : List (Outcome α)}
  {place : Nat}

/-- What an alternative comes to in front of one that stands for several. -/
theorem alt_prevails (h : Prevails os (other ctx bs)) :
    Prevails (r ctx bs :: os) (r.alt other ctx bs) := by
  cases hr : r ctx bs with
  | done a n =>
    simp only [alt, hr]
    exact .here (done_not_missesAt a n)
  | failed why =>
    cases why with
    | miss cause p =>
      cases ho : other ctx bs with
      | done a n =>
        simp only [alt, hr, ho]
        rw [ho] at h
        exact h.behind ⟨cause, rfl⟩ fun place hmiss => absurd hmiss (done_not_missesAt a n place)
      | failed why' =>
        rw [ho] at h
        cases why' with
        | miss cause' p' =>
          simp only [alt, hr, ho, furthest]
          split
          · next hle => exact h.behind ⟨cause, rfl⟩ fun place hmiss => missesAt_miss.mp hmiss ▸ hle
          · next hlt => exact h.ahead (missesAt_miss.mpr rfl) (Nat.lt_of_not_le hlt)
        | _ =>
          simp only [alt, hr, ho, furthest]
          exact h.behind ⟨cause, rfl⟩ fun place hmiss =>
            absurd hmiss (failed_not_missesAt (fun _ _ heq => by cases heq) place)
    | _ =>
      simp only [alt, hr]
      exact .here (failed_not_missesAt fun _ _ heq => by cases heq)

theorem oneOf_outcome (ctx : Context) (bs : Bytes) (first : Rule α) (others : List (Rule α)) :
    Prevails ((first :: others).map fun r => r ctx bs) (oneOf first others ctx bs) := by
  induction others generalizing first with
  | nil => exact .alone _
  | cons second others ih => exact alt_prevails (ih second)

/-- Two alternatives miss where both do, as far as the one that got further. -/
theorem alt_missesAt_iff : (r.alt other ctx bs).MissesAt place ↔
    ∃ p q, (r ctx bs).MissesAt p ∧ (other ctx bs).MissesAt q ∧ place = max p q := by
  have h : Prevails [r ctx bs, other ctx bs] (r.alt other ctx bs) := alt_prevails (.alone _)
  constructor
  · intro hmiss
    have hle := h.misses_le hmiss
    simp only [List.forall_mem_cons] at hle
    obtain ⟨⟨p, hp, hr⟩, ⟨q, hq, ho⟩, -⟩ := hle
    refine ⟨p, q, hr, ho, ?_⟩
    have hmem := h.mem
    rw [List.mem_pair] at hmem
    rcases hmem with heq | heq
    · have hplace := hr.unique (heq ▸ hmiss)
      omega
    · have hplace := ho.unique (heq ▸ hmiss)
      omega
  · rintro ⟨p, q, ⟨cause, hr⟩, ⟨cause', ho⟩, rfl⟩
    simp only [alt, hr, ho, furthest]
    split
    · next hle => exact missesAt_miss.mpr (by omega)
    · next hlt => exact missesAt_miss.mpr (by omega)

theorem map_missesAt_iff {f : α → β} :
    ((f <$> r) ctx bs).MissesAt place ↔ (r ctx bs).MissesAt place := by
  change ((r >>= fun a => pure (f a)) ctx bs).MissesAt place ↔ _
  cases hr : r ctx bs with
  | done a n =>
    rw [bind_of_done hr]
    exact ⟨nofun, nofun⟩
  | failed why =>
    rw [bind_of_failed hr]
    simp only [MissesAt, Outcome.failed.injEq]

/-- What the rule comes to where it begins at `start`, with all places counted from the front of the
data: the value and the place that reading goes on from, or the failure. -/
def startingAt (r : Rule α) (ctx : Context) (data : Bytes) (start : Nat) : Outcome α :=
  (r ctx (data.drop start)).shift start

/-- Reading goes on from the place that the first rule came to. -/
theorem bind_startingAt {next : α → Rule β} {data : Bytes} {start cursor : Nat} {a : α}
    (h : r.startingAt ctx data start = .done a cursor) :
    (r >>= next).startingAt ctx data start = (next a).startingAt ctx data cursor := by
  cases hr : r ctx (data.drop start) with
  | failed why => rw [startingAt, hr] at h; cases h
  | done a' n =>
    rw [startingAt, hr] at h
    cases h
    rw [startingAt, bind_of_done hr, List.drop_drop, startingAt]
    cases next a ctx (data.drop (start + n)) with
    | done b m => simp only [Outcome.shift, Nat.add_assoc]
    | failed why => cases why <;> simp only [Outcome.shift, Failure.shift, Nat.add_assoc]

/-- What is found, or nothing, and reading goes on from where that came to. -/
theorem opt_bind_startingAt {next : Option α → Rule β} {data : Bytes} {start : Nat} :
    (∀ a cursor, r.startingAt ctx data start = .done a cursor →
      (r.opt >>= next).startingAt ctx data start = (next (some a)).startingAt ctx data cursor) ∧
    ((∃ place, (r.startingAt ctx data start).MissesAt place) →
      (r.opt >>= next).startingAt ctx data start = (next none).startingAt ctx data start) := by
  constructor
  · intro a cursor h
    refine bind_startingAt ?_
    cases hr : r ctx (data.drop start) with
    | failed why => rw [startingAt, hr] at h; cases h
    | done a' n =>
      rw [startingAt, hr] at h
      cases h
      simp only [startingAt, opt, hr, Outcome.shift]
  · rintro ⟨place, h⟩
    obtain ⟨p, ⟨cause, hr⟩, -⟩ := shift_missesAt_iff.mp h
    refine bind_startingAt ?_
    simp only [startingAt, opt, hr, Outcome.shift, Nat.add_zero]

end Rule

namespace Grammar

open Outcome

/-- The rules that a response is read by are found by their names. -/
theorem find_parts :
    find .response (some "continue-req") = .ok (term <$> Continuation.rule) ∧
    find .response (some "response-data") = .ok (term <$> Response.dataRule) ∧
    find .response (some "response-done") = .ok (term <$> Status.doneRule) ∧
    find .response (some "response-tagged") = .ok (term <$> Status.taggedRule) ∧
    find .response (some "response-fatal") = .ok (term <$> Status.fatalRule) := by
  have hcontinuation : entry "continue_req" Continuation.rule ∈ rules .response := by
    simp [rules, response]
  have hdata : entry "response_data" Response.dataRule ∈ rules .response := by simp [rules, response]
  have hdone : entry "response_done" Status.doneRule ∈ rules .response := by simp [rules, response]
  have htagged : entry "response_tagged" Status.taggedRule ∈ rules .response := by
    simp [rules, response]
  have hfatal : entry "response_fatal" Status.fatalRule ∈ rules .response := by
    simp [rules, response]
  exact ⟨find_of_mem hcontinuation (by decide +kernel), find_of_mem hdata (by decide +kernel),
    find_of_mem hdone (by decide +kernel), find_of_mem htagged (by decide +kernel),
    find_of_mem hfatal (by decide +kernel)⟩

/-- A run by name misses where the rule does. -/
theorem run_missesAt_iff {name : String} {α : Type} [ToTerm α] {r : Rule α} {complete : Bool}
    {data : Bytes} {place : Nat} (h : find .response (some name) = .ok (term <$> r)) :
    (run ⟨complete, .response⟩ (some name) data).MissesAt place ↔
      (r ⟨complete, .response⟩ data).MissesAt place := by
  rw [run_of_find h]
  exact Rule.map_missesAt_iff

/-- What completes a command is missed as far as its completion and the farewell are. -/
theorem done_missesAt_iff {complete : Bool} {data : Bytes} {place : Nat} :
    let misses (name : String) := (run ⟨complete, .response⟩ (some name) data).MissesAt
    misses "response-done" place ↔
      ∃ p q, misses "response-tagged" p ∧ misses "response-fatal" q ∧ place = max p q := by
  obtain ⟨-, -, hdone, htagged, hfatal⟩ := find_parts
  simp only [run_missesAt_iff hdone, run_missesAt_iff htagged, run_missesAt_iff hfatal]
  exact Rule.alt_missesAt_iff

/-- A response is missed as far as its alternatives are. -/
theorem response_missesAt_iff {complete : Bool} {data : Bytes} {place : Nat} :
    let misses (name : String) := (run ⟨complete, .response⟩ (some name) data).MissesAt
    misses "response" place ↔ ∃ p q s, misses "continue-req" p ∧ misses "response-data" q ∧
      misses "response-done" s ∧ place = max p (max q s) := by
  obtain ⟨-, hresponse, -⟩ := find_units
  obtain ⟨hcontinuation, hdata, hdone, -, -⟩ := find_parts
  simp only [run_missesAt_iff hresponse, run_missesAt_iff hcontinuation, run_missesAt_iff hdata,
    run_missesAt_iff hdone]
  have hrule : Response.rule = Rule.alt (.continuation <$> Continuation.rule)
    (Response.dataRule.alt (.status <$> Status.doneRule)) := rfl
  rw [hrule, Rule.alt_missesAt_iff]
  simp only [Rule.alt_missesAt_iff, Rule.map_missesAt_iff]
  constructor
  · rintro ⟨p, _, hp, ⟨q, s, hq, hs, rfl⟩, rfl⟩
    exact ⟨p, q, s, hp, hq, hs, rfl⟩
  · rintro ⟨p, q, s, hp, hq, hs, rfl⟩
    exact ⟨p, _, hp, ⟨q, s, hq, hs, rfl⟩, rfl⟩

end Grammar

namespace Rule

open Outcome

variable {α β : Type}

/-- Alternatives come to what the first of them that does not miss comes to from the same place; where
all miss, to the miss that got furthest, the last of these. Behind what is found reading goes on, and
behind a miss it goes on from where the alternatives began. So a response is missed at the furthest of
the places at which its alternatives are, each by itself, and what completes a command as well. -/
theorem oneOf_first_or_furthest (ctx : Context) (data : Bytes) (start : Nat) (first : Rule α)
    (others : List (Rule α)) (next : Option α → Rule β) :
    let outcomes := (first :: others).map fun r => r.startingAt ctx data start
    let whole := (oneOf first others).startingAt ctx data start
    let behind := ((oneOf first others).opt >>= next).startingAt ctx data start
    let misses (name : String) := (Grammar.run ⟨ctx.complete, .response⟩ (some name) data).MissesAt
    (∀ o, whole = o ↔ Prevails outcomes o) ∧
    (∀ a cursor, whole = .done a cursor → behind = (next (some a)).startingAt ctx data cursor) ∧
    ((∃ place, whole.MissesAt place) → behind = (next none).startingAt ctx data start) ∧
    (∀ place, misses "response" place ↔ ∃ p q s, misses "continue-req" p ∧
      misses "response-data" q ∧ misses "response-done" s ∧ place = max p (max q s)) ∧
    ∀ place, misses "response-done" place ↔
      ∃ p q, misses "response-tagged" p ∧ misses "response-fatal" q ∧ place = max p q := by
  intro outcomes whole behind misses
  have hwhole : Prevails outcomes whole := by
    have h := (oneOf_outcome ctx (data.drop start) first others).shift start
    rwa [List.map_map] at h
  refine ⟨fun o => ⟨fun h => h ▸ hwhole, hwhole.unique⟩, opt_bind_startingAt.1,
    opt_bind_startingAt.2, fun place => Grammar.response_missesAt_iff,
    fun place => Grammar.done_missesAt_iff⟩

/-- A word that no untagged response begins with is missed by the data and by the farewell at the same
place, and the farewell is told. -/
theorem oneOf_first_or_furthest_unknown :
    let ctx : Context := ⟨false, .response⟩
    let data := Bytes.ofText "x* FOO bar\r\n"
    let whole := Response.rule.startingAt ctx data 1
    whole = .failed (.miss (.status ["BYE"] "FOO") 3) ∧
      Prevails [.failed (.miss (.expected .plus) 1), .failed (.miss (.unknownResponse "FOO") 3), whole]
        whole ∧
      (Response.rule.opt >>= fun _ => expect "*" .star).startingAt ctx data 1 = .done () 2 := by
  intro ctx data whole
  have hwhole : whole = .failed (.miss (.status ["BYE"] "FOO") 3) := by decide +kernel
  have houtcomes : (Response.alternatives.map fun r => r.startingAt ctx data 1) = [
      .failed (.miss (.expected .plus) 1), .failed (.miss (.unknownResponse "FOO") 3), whole] := by
    decide +kernel
  obtain ⟨hprevails, -, hmiss, -⟩ := oneOf_first_or_furthest ctx data 1
    (Response.continuation <$> Continuation.rule)
    [Response.dataRule, Response.status <$> Status.doneRule] fun _ => expect "*" .star
  refine ⟨hwhole, ?_, (hmiss ⟨3, _, hwhole⟩).trans (by decide +kernel)⟩
  rw [← houtcomes]
  exact (hprevails whole).mp rfl

end Rule

end Imap
