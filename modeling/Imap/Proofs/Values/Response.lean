import Imap.Proofs.Values.Data
import Imap.Response

namespace Imap

open Rule

namespace Response

def WellFormed : Response → Prop
  | status s => s.InResponse
  | continuation c => c.WellFormed
  | data d => d.WellFormed

/-- A response as long as nobody has looked at its capabilities. -/
def Shaped (r : Response) : Prop := (∃ cs, r = data (.capability cs)) ∨ r.WellFormed

theorem byKeyword_ensure : ∀ p ∈ Response.byKeyword, p.2.Ensures fun r => r.Shaped ∧ NulFree r := by
  have state : (status <$> Status.stateRule).Ensures fun r => r.Shaped ∧ NulFree r :=
    Status.stateRule_ensures.map fun _ h => ⟨.inr h.1, h.2⟩
  have bye : (status <$> Status.byeRule).Ensures fun r => r.Shaped ∧ NulFree r :=
    Status.byeRule_ensures.map fun _ h => ⟨.inr h.1, h.2⟩
  intro p hp
  rw [Response.byKeyword, List.mem_append] at hp
  rcases hp with hp | hp
  · revert p
    simp only [List.forall_mem_cons]
    exact ⟨state, state, state, bye, List.forall_mem_nil _⟩
  · obtain ⟨q, hq, rfl⟩ := List.mem_map.mp hp
    refine (Data.byKeyword_ensure q hq).map fun d hd => ⟨?_, hd.2⟩
    exact hd.1.imp (fun ⟨cs, h⟩ => ⟨cs, congrArg data h⟩) id

theorem untaggedRule_ensures : untaggedRule.Ensures fun r => r.Shaped ∧ NulFree r := by
  have keyword := Keyword.dispatch_ensures .unknownResponse byKeyword_ensure
  refine .andThen fun ahead => ?_
  split
  · split
    · refine Data.numberedRule_ensures.map fun d hd => ⟨?_, hd.2⟩
      exact hd.1.imp (fun ⟨cs, h⟩ => ⟨cs, congrArg data h⟩) id
    · exact keyword
  · exact keyword

theorem complete_ok {r r' : Response} (hr : r.Shaped) (h : complete r = .ok r') :
    r' = r ∧ r.WellFormed := by
  unfold complete at h
  split at h
  · next cs =>
    cases hcs : Capability.complete cs with
    | error why => rw [hcs] at h; cases h
    | ok cs' =>
      rw [hcs] at h
      cases h
      obtain ⟨rfl, hmem⟩ := Capability.complete_ok hcs
      exact ⟨rfl, hmem⟩
  · next hother =>
    cases h
    refine ⟨rfl, hr.resolve_left ?_⟩
    rintro ⟨cs, rfl⟩
    exact hother cs rfl

theorem dataRule_ensures : Response.dataRule.Ensures fun r => r.WellFormed ∧ NulFree r := by
  have line : lineRule.Ensures fun r => r.Shaped ∧ NulFree r :=
    untaggedRule_ensures.bind fun _ h => .andThen fun _ => .pure h
  refine .andThen fun _ => .andThen fun _ => line.refine fun r r' hr hj => ?_
  obtain ⟨rfl, hwell⟩ := complete_ok hr.1 hj
  exact ⟨hwell, hr.2⟩

theorem rule_ensures : Response.rule.Ensures fun r => r.WellFormed ∧ NulFree r := by
  refine .alt (Continuation.rule_ensures.map fun _ h => h) ?_
  exact .alt dataRule_ensures (Status.doneRule_ensures.map fun _ h => h)

theorem greetingRule_ensures :
    Response.greetingRule.Ensures fun r => ∃ s, r = status s ∧ s.InGreeting ∧ NulFree r := by
  refine Status.greetingRule_ensures.map fun s h => ?_
  exact ⟨s, rfl, h⟩

end Response

end Imap
