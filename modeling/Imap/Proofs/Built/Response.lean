import Imap.Proofs.Built.Data
import Imap.Response

namespace Imap

open Rule

variable {m : Manner}

theorem Continuation.rule_built : Built .unit m Continuation.rule := by
  refine (Built.expect _ _ (by decide)).andThen fun _ => ?_
  refine space_built.andThen fun _ => ?_
  refine (Built.ofLine (.alt (by decide) textRule_built base64Rule_built)).andThen fun _ => ?_
  refine lineEnd_built.andThen fun _ => ?_
  exact .pure _

namespace Status

theorem greetingRule_built : Built .unit m Status.greetingRule := by
  refine (Built.expect _ _ (by decide)).andThen fun _ => ?_
  refine space_built.andThen fun _ => ?_
  refine greeting_built.ofLine.andThen fun _ => ?_
  refine lineEnd_built.andThen fun _ => ?_
  exact ofCondition_built _

theorem build_tagged {kind : StatusKind} (text tag : String) (code : Option Code)
    (h : kind ∈ [.ok, .no, .bad]) : ∃ s, Status.build kind text (some tag) code = .ok s := by
  refine ⟨_, if_neg ?_⟩
  rintro ⟨-, rfl | rfl⟩ <;> simp at h

theorem taggedRule_built : Built .unit m taggedRule := by
  refine tag_built.andThen fun _ => ?_
  refine space_built.andThen fun _ => ?_
  apply (StatusKind.conditionRule_built _).ofLine.bind
  intro _ hc
  refine lineEnd_built.andThen fun _ => ?_
  refine .ofExcept _ fun _ => ?_
  exact build_tagged _ _ _ (StatusKind.conditionRule_gives hc)

theorem fatalRule_built : Built .unit m fatalRule := by
  refine (Built.expect _ _ (by decide)).andThen fun _ => ?_
  refine space_built.andThen fun _ => ?_
  refine (StatusKind.conditionRule_built _).ofLine.andThen fun _ => ?_
  refine lineEnd_built.andThen fun _ => ?_
  exact ofCondition_built _

theorem doneRule_built : Built .unit m doneRule := by
  refine .alt (by decide) ?_ ?_
  · exact taggedRule_built
  · exact fatalRule_built

end Status

namespace Response

theorem byKeyword_built : ∀ p ∈ Response.byKeyword, Built .text m p.2 := by
  have state : Built .text m (status <$> Status.stateRule) := Status.stateRule_built.ofLine.map _
  have bye : Built .text m (status <$> Status.byeRule) := Status.byeRule_built.ofLine.map _
  intro p hp
  rw [Response.byKeyword, List.mem_append] at hp
  rcases hp with hp | hp
  · revert p
    simp only [List.forall_mem_cons]
    exact ⟨state, state, state, bye, nofun⟩
  · obtain ⟨q, hq, rfl⟩ := List.mem_map.mp hp
    exact (Data.byKeyword_built q hq).map _

theorem untaggedRule_built : Built .text m untaggedRule := by
  refine Built.peek.andThen fun ahead => ?_
  split
  · split
    · exact Data.numberedRule_built.map _
    · exact Keyword.dispatch_built _ byKeyword_built
  · exact Keyword.dispatch_built _ byKeyword_built

theorem complete_here {r : Response} {why : Failure} (h : complete r = .error why) : why.Here := by
  unfold complete at h
  split at h
  · next items =>
    cases hc : Capability.complete items with
    | ok cs => rw [hc] at h; cases h
    | error why' => rw [hc] at h; cases h; exact Capability.complete_here hc
  · cases h

theorem lineRule_built : Built .unit m lineRule := by
  refine untaggedRule_built.ofText.andThen fun _ => ?_
  refine lineEnd_built.andThen fun _ => ?_
  exact .pure _

theorem dataRule_built : Built .unit m Response.dataRule := by
  refine (Built.expect _ _ (by decide)).andThen fun _ => ?_
  refine space_built.andThen fun _ => ?_
  exact lineRule_built.refine fun _ _ => complete_here

theorem rule_built : Built .unit m Response.rule := by
  refine .alt (by decide) (Continuation.rule_built.map _) ?_
  exact .alt (by decide) dataRule_built (Status.doneRule_built.map _)

theorem greetingRule_built : Built .unit m Response.greetingRule := Status.greetingRule_built.map _

end Response

end Imap
