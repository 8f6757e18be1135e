import Imap.Proofs.Values.Command
import Imap.Proofs.Values.Response

namespace Imap.Grammar

/-- Whatever the octets, and whether or not more may come: a greeting is an untagged OK, PREAUTH or
BYE, and responses and commands are well formed. -/
theorem read_wellFormed (ctx : Context) (bs : Bytes) :
    (∀ r used, Response.greetingRule ctx bs = .done r used →
        ∃ s, r = .status s ∧ s.InGreeting ∧ NulFree r) ∧
      (∀ r used, Response.rule ctx bs = .done r used → r.WellFormed ∧ NulFree r) ∧
      ∀ c used, Command.rule ctx bs = .done c used → c.WellFormed ∧ NulFree c := by
  refine ⟨fun r used h => ?_, fun r used h => ?_, fun c used h => ?_⟩
  · obtain ⟨s, rfl, hs⟩ := Response.greetingRule_ensures r ⟨ctx, bs, used, h⟩
    exact ⟨s, rfl, hs⟩
  · exact Response.rule_ensures r ⟨ctx, bs, used, h⟩
  · exact Command.rule_ensures c ⟨ctx, bs, used, h⟩

/-- A greeting, a message's attributes and a command with a mailbox. -/
theorem read_wellFormed_lines :
    let greeting : Response := .status ⟨.preauth, "hi", none, none⟩
    let response : Response := .data (.fetch ⟨2, [("UID", .number 9)]⟩)
    let command : Command := ⟨"a", .onMailbox "SELECT" "INBOX"⟩
    (Response.greetingRule ⟨false, .response⟩ (Bytes.ofText "* PREAUTH hi\n") =
        .done greeting 13 ∧
      Response.rule ⟨false, .response⟩ (Bytes.ofText "* 2 FETCH (UID 9)\n") =
        .done response 18 ∧
      Command.rule ⟨true, .command⟩ (Bytes.ofText "a select Inbox\n") = .done command 15) ∧
      (∃ s, greeting = .status s ∧ s.InGreeting ∧ NulFree greeting) ∧
      (response.WellFormed ∧ NulFree response) ∧ command.WellFormed ∧ NulFree command := by
  intro greeting response command
  have hgreeting : Response.greetingRule ⟨false, .response⟩ (Bytes.ofText "* PREAUTH hi\n") =
      .done greeting 13 := by decide +kernel
  have hresponse : Response.rule ⟨false, .response⟩ (Bytes.ofText "* 2 FETCH (UID 9)\n") =
      .done response 18 := by decide +kernel
  have hcommand : Command.rule ⟨true, .command⟩ (Bytes.ofText "a select Inbox\n") =
      .done command 15 := by decide +kernel
  exact ⟨⟨hgreeting, hresponse, hcommand⟩, (read_wellFormed _ _).1 _ _ hgreeting,
    (read_wellFormed _ _).2.1 _ _ hresponse, (read_wellFormed _ _).2.2 _ _ hcommand⟩

end Imap.Grammar
