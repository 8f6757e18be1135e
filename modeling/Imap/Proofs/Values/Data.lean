import Imap.Data
import Imap.Proofs.Values.Status

namespace Imap

open Rule
open Text (IsMailbox)

namespace Address

theorem bodyRule_ensures : bodyRule.Ensures fun a => NulFree a := by
  refine nstring_ensures.bind fun _ hname => ?_
  refine .andThen fun _ => ?_
  refine nstring_ensures.bind fun _ hroute => ?_
  refine .andThen fun _ => ?_
  refine nstring_ensures.bind fun _ hmailbox => ?_
  refine .andThen fun _ => ?_
  refine nstring_ensures.bind fun _ hhost => ?_
  refine .andThen fun _ => ?_
  exact .pure ⟨hname, hroute, hmailbox, hhost, trivial⟩

theorem listRule_ensures : listRule.Ensures fun as => NulFree as := by
  refine .andThen fun ahead => ?_
  split
  · exact .andThen fun _ => bodyRule_ensures.parenthesized.bind fun _ h =>
      .pure (NulFree.list.mpr h)
  · exact .andThen fun _ => .pure trivial

end Address

theorem Envelope.rule_ensures : Envelope.rule.Ensures fun e => NulFree e := by
  refine .andThen fun _ => ?_
  refine nstring_ensures.bind fun _ hdate => ?_
  refine .andThen fun _ => ?_
  refine nstring_ensures.bind fun _ hsubject => ?_
  refine .andThen fun _ => ?_
  refine Address.listRule_ensures.bind fun _ hauthors => ?_
  refine .andThen fun _ => ?_
  refine Address.listRule_ensures.bind fun _ hsender => ?_
  refine .andThen fun _ => ?_
  refine Address.listRule_ensures.bind fun _ hreplyTo => ?_
  refine .andThen fun _ => ?_
  refine Address.listRule_ensures.bind fun _ hrecipients => ?_
  refine .andThen fun _ => ?_
  refine Address.listRule_ensures.bind fun _ hcc => ?_
  refine .andThen fun _ => ?_
  refine Address.listRule_ensures.bind fun _ hbcc => ?_
  refine .andThen fun _ => ?_
  refine nstring_ensures.bind fun _ hinReplyTo => ?_
  refine .andThen fun _ => ?_
  refine nstring_ensures.bind fun _ hmessageId => ?_
  refine .andThen fun _ => ?_
  exact .pure ⟨hdate, hsubject, hauthors, hsender, hreplyTo, hrecipients, hcc, hbcc, hinReplyTo,
    hmessageId, trivial⟩

namespace FetchValue

/-- Only unique identifiers and sizes are numbers, and no identifier is zero. -/
def Suits (name : String) : FetchValue → Prop
  | number n => name = "UID" ∧ 0 < n ∧ n < 0x100000000 ∨ name = "RFC822.SIZE" ∧ 0 ≤ n ∧ n < 0x100000000
  | _ => name ≠ "UID" ∧ name ≠ "RFC822.SIZE"

/-- An attribute whose value suits its name. -/
def Proper (a : String × FetchValue) : Prop := a.2.Suits a.1

theorem contentRule_ensures {name : String} (hname : name ≠ "UID" ∧ name ≠ "RFC822.SIZE") :
    contentRule.Ensures fun v => v.Suits name ∧ NulFree v := by
  refine nstring_ensures.map fun _ h => ?_
  exact ⟨hname, h⟩

theorem numberRule_ensures {r : Rule Nat} {P : Nat → Prop} (hr : r.Ensures P) {name : String}
    (h : ∀ n : Nat, P n → Suits name (number n)) :
    (numberRule r).Ensures fun v => v.Suits name ∧ NulFree v := by
  have hint : Ensures (do let n ← r; Pure.pure (n : Int)) fun m => ∃ n : Nat, m = n ∧ P n :=
    hr.bind fun n hn => .pure ⟨n, rfl, hn⟩
  refine hint.map ?_
  rintro _ ⟨n, hm, hn⟩
  exact ⟨hm ▸ h n hn, trivial⟩

theorem plainRule_ensures {value : Rule FetchValue} {name : String} (hname : NulFree name)
    (hv : value.Ensures fun v => v.Suits name ∧ NulFree v) :
    (plainRule value).Ensures fun v => Proper (name ++ v.1, v.2) ∧ NulFree (name ++ v.1, v.2) := by
  refine .andThen fun _ => ?_
  refine hv.bind fun v h => ?_
  refine .pure ?_
  rw [String.append_empty]
  exact ⟨h.1, NulFree.pair.mpr ⟨hname, h.2⟩⟩

theorem originRule_ensures : originRule.Ensures fun s => NulFree s := by
  refine .andThen fun found => ?_
  split
  · refine .andThen fun n => .andThen fun _ => .pure ?_
    exact Text.nulFree_append.mpr ⟨Text.nulFree_append.mpr ⟨by decide, Text.nulFree_nat n⟩, by decide⟩
  · exact .pure (by decide : Text.NulFree "")

theorem section_ne {name : String} (h : name.toList.head? ≠ some 'B') (more : String) :
    "BODY" ++ more ≠ name := by
  rintro rfl
  exact h (by rw [String.toList_append]; rfl)

theorem bodyRule_ensures :
    bodyRule.Ensures fun v => Proper ("BODY" ++ v.1, v.2) ∧ NulFree ("BODY" ++ v.1, v.2) := by
  have section_ensures := token_nulFree (not_mem_takeWhile (p := Octet.isBracketedChar) rfl)
    true (.element .section) (.expected .section)
  refine .andThen fun _ => ?_
  refine section_ensures.bind fun name hname => ?_
  refine .andThen fun _ => ?_
  refine originRule_ensures.bind fun origin horigin => ?_
  refine .andThen fun _ => ?_
  have hname' : Text.NulFree name.toUpper := Text.nulFree_toUpper hname
  refine (contentRule_ensures ⟨section_ne (by decide) _, section_ne (by decide) _⟩).bind
    fun v hv => .pure ⟨hv.1, NulFree.pair.mpr ⟨?_, hv.2⟩⟩
  simp only [NulFree.text, Text.nulFree_append]
  exact ⟨by decide, ⟨⟨by decide, hname'⟩, by decide⟩, horigin⟩

theorem values_ensure : ∀ p ∈ values, p.2.Ensures fun v =>
    Proper (p.1 ++ v.1, v.2) ∧ NulFree (p.1 ++ v.1, v.2) := by
  have text (name : String) (h : Text.NulFree name) : NulFree name := h
  have other (name : String) (h : name ≠ "UID" ∧ name ≠ "RFC822.SIZE") := h
  simp only [values, List.forall_mem_cons]
  exact ⟨plainRule_ensures (text _ (by decide)) (flags_ensures.map fun _ h => ⟨other _ (by decide), h⟩),
    plainRule_ensures (text _ (by decide))
      (numberRule_ensures nonZeroNumber_ensures fun n hn => .inl ⟨rfl, by omega, by omega⟩),
    plainRule_ensures (text _ (by decide))
      (numberRule_ensures number_ensures fun n hn => .inr ⟨rfl, by omega, by omega⟩),
    plainRule_ensures (text _ (by decide)) (.andThen fun _ => .pure ⟨other _ (by decide), trivial⟩),
    plainRule_ensures (text _ (by decide))
      (Envelope.rule_ensures.map fun _ h => ⟨other _ (by decide), h⟩),
    plainRule_ensures (text _ (by decide)) (contentRule_ensures (by decide)),
    plainRule_ensures (text _ (by decide)) (contentRule_ensures (by decide)),
    plainRule_ensures (text _ (by decide)) (contentRule_ensures (by decide)),
    bodyRule_ensures, List.forall_mem_nil _⟩

theorem nameRule_ensures : nameRule.Ensures (· ∈ values) := by
  refine Ensures.refine (Q := fun _ => True) (fun _ _ => trivial) fun found p _ hj => ?_
  split at hj
  · next value hl =>
    cases hj
    exact mem_of_lookup hl
  · cases hj

theorem attributeRule_ensures : attributeRule.Ensures fun a => Proper a ∧ NulFree a := by
  refine nameRule_ensures.bind fun _ hp => ?_
  refine (values_ensure _ hp).bind fun _ hv => ?_
  exact .pure hv

end FetchValue

/-- A message has a number, and something is said of it. -/
structure FetchData.WellFormed (f : FetchData) : Prop where
  message : 0 < f.message ∧ f.message < 0x100000000
  some : f.attributes ≠ []
  each : ∀ a ∈ f.attributes, FetchValue.Proper a

/-- Usage and limit have 64 bits. -/
structure QuotaUsage.WellFormed (q : QuotaUsage) : Prop where
  usage : 0 ≤ q.usage ∧ q.usage < 0x10000000000000000
  limit : 0 ≤ q.limit ∧ q.limit < 0x10000000000000000

/-- The limit has 64 bits. -/
def QuotaLimit.WellFormed (q : QuotaLimit) : Prop := 0 ≤ q.limit ∧ q.limit < 0x10000000000000000

theorem QuotaUsage.rule_ensures : QuotaUsage.rule.Ensures fun q => q.WellFormed ∧ NulFree q := by
  refine Resource.rule_ensures.bind fun _ hr => ?_
  refine .andThen fun _ => ?_
  refine number64_ensures.bind fun usage hu => ?_
  refine .andThen fun _ => ?_
  refine number64_ensures.bind fun limit hl => ?_
  exact .pure ⟨⟨by dsimp only; omega, by dsimp only; omega⟩, hr, trivial, trivial, trivial⟩

theorem QuotaLimit.rule_ensures : QuotaLimit.rule.Ensures fun q => q.WellFormed ∧ NulFree q := by
  refine Resource.rule_ensures.bind fun _ hr => ?_
  refine .andThen fun _ => ?_
  refine number64_ensures.bind fun limit hl => ?_
  exact .pure ⟨by rw [QuotaLimit.WellFormed]; dsimp only; omega, hr, trivial, trivial⟩

namespace Data

/-- The numbers are in their ranges, what must not be empty is not, mailboxes are named as such, and
capabilities hold IMAP4rev1. -/
def WellFormed : Data → Prop
  | capability capabilities => Capability.imap4rev1 ∈ capabilities
  | enabled _ | flags _ => True
  | list _ _ delimiter mailbox => (∀ s, delimiter = some s → s.length = 1) ∧ IsMailbox mailbox
  | search ids => ∀ n ∈ ids, 0 < n ∧ n < 0x100000000
  | status mailbox attributes => IsMailbox mailbox ∧ ∀ p ∈ attributes, 0 ≤ p.2 ∧ p.2 < 0x100000000
  | exist n | recent n => 0 ≤ n ∧ n < 0x100000000
  | expunge n => 0 < n ∧ n < 0x100000000
  | fetch f => f.WellFormed
  | quota _ quotas => quotas ≠ [] ∧ ∀ q ∈ quotas, q.WellFormed
  | quotaRoot mailbox _ => IsMailbox mailbox

/-- Data as long as nobody has looked at its capabilities. -/
def Shaped (d : Data) : Prop := (∃ cs, d = capability cs) ∨ d.WellFormed

theorem delimiterRule_ensures :
    delimiterRule.Ensures fun d => (∀ s, d = some s → s.length = 1) ∧ NulFree d := by
  refine .andThen fun ahead => ?_
  split
  · refine quotedText_ensures.refine fun content d hc hj => ?_
    split at hj
    · next hlen =>
      cases hj
      exact ⟨fun s hs => by cases hs; exact hlen, hc⟩
    · cases hj
  · exact .andThen fun _ => .pure ⟨nofun, trivial⟩

theorem mailboxListRule_ensures {command : String} (hcommand : NulFree command) :
    (mailboxListRule command).Ensures fun d => d.Shaped ∧ NulFree d := by
  refine flags_ensures.bind fun _ hflags => ?_
  refine .andThen fun _ => ?_
  refine delimiterRule_ensures.bind fun _ hdelimiter => ?_
  refine .andThen fun _ => ?_
  refine mailbox_ensures.bind fun _ hmailbox => ?_
  exact .pure ⟨.inr ⟨hdelimiter.1, hmailbox.2⟩, hcommand, hflags, hdelimiter.2, hmailbox.1, trivial⟩

theorem statusRule_ensures : Data.statusRule.Ensures fun d => d.Shaped ∧ NulFree d := by
  have value : StatusAttribute.valueRule.Ensures fun p => (0 ≤ p.2 ∧ p.2 < 0x100000000) ∧ NulFree p :=
    .andThen fun item => .andThen fun _ => number_ensures.bind fun n hn =>
      .pure ⟨by dsimp only; omega, trivial, trivial, trivial⟩
  refine .andThen fun _ => ?_
  refine .andThen fun _ => ?_
  refine mailbox_ensures.bind fun _ hmailbox => ?_
  refine .andThen fun _ => ?_
  refine value.list.bind fun items hitems => ?_
  have hnul : NulFree items := NulFree.list.mpr fun p hp => (hitems p hp).2
  exact .pure ⟨.inr ⟨hmailbox.2, fun p hp => (hitems p hp).1⟩, hmailbox.1, hnul, trivial⟩

theorem quotaRule_ensures : quotaRule.Ensures fun d => d.Shaped ∧ NulFree d := by
  refine .andThen fun _ => ?_
  refine .andThen fun _ => ?_
  refine astring_ensures.bind fun _ hroot => ?_
  refine .andThen fun _ => ?_
  refine QuotaUsage.rule_ensures.nonEmptyList.bind fun quotas hq => ?_
  refine .ofExcept fun d hd => ?_
  simp only [buildQuota] at hd
  split at hd
  · cases hd
  · cases hd
    exact ⟨.inr ⟨hq.1, fun q h => (hq.2 q h).1⟩, hroot,
      NulFree.list.mpr fun q h => (hq.2 q h).2, trivial⟩

theorem quotaRootRule_ensures : quotaRootRule.Ensures fun d => d.Shaped ∧ NulFree d := by
  refine .andThen fun _ => ?_
  refine .andThen fun _ => ?_
  refine mailbox_ensures.bind fun _ hmailbox => ?_
  refine (behind_ensures _ astring_ensures).bind fun _ hroots => ?_
  exact .pure ⟨.inr hmailbox.2, hmailbox.1, NulFree.list.mpr hroots, trivial⟩

theorem searchRule_ensures : searchRule.Ensures fun d => d.Shaped ∧ NulFree d := by
  refine .andThen fun _ =>
    (behind_ensures _ nonZeroNumber_ensures).bind fun ids hids => .pure ⟨.inr ?_, ?_⟩
  · intro n hn
    obtain ⟨k, hk, rfl⟩ := List.mem_map.mp hn
    have := hids k hk
    exact ⟨by simp only [Int.ofNat_eq_natCast]; omega, by simp only [Int.ofNat_eq_natCast]; omega⟩
  · exact ⟨NulFree.list.mpr fun _ _ => trivial, trivial⟩

theorem byKeyword_ensure : ∀ p ∈ Data.byKeyword, p.2.Ensures fun d => d.Shaped ∧ NulFree d := by
  have listed : Data.listRule.Ensures fun d => d.Shaped ∧ NulFree d :=
    atom_ensures.bind fun _ h => .andThen fun _ =>
      mailboxListRule_ensures (Text.nulFree_toUpper h.2)
  simp only [Data.byKeyword, List.forall_mem_cons]
  refine ⟨?_, ?_, ?_, listed, listed, searchRule_ensures, statusRule_ensures, quotaRule_ensures,
    quotaRootRule_ensures, List.forall_mem_nil _⟩
  · refine .andThen fun _ => ?_
    refine Capability.listRule_ensures.bind fun cs h => ?_
    exact .pure ⟨.inl ⟨cs, rfl⟩, NulFree.list.mpr h.2, trivial⟩
  · refine .andThen fun _ => ?_
    refine (behind_ensures _ Capability.rule_ensures).bind fun _ h => ?_
    exact .pure ⟨.inr trivial, NulFree.list.mpr h, trivial⟩
  · refine .andThen fun _ => ?_
    refine .andThen fun _ => ?_
    refine flags_ensures.bind fun _ h => ?_
    exact .pure ⟨.inr trivial, h, trivial⟩

theorem messageKeyword_ensures (name : String) {number : Nat} :
    (messageKeyword name number).Ensures fun _ => 0 < number := by
  refine Ensures.refine (Q := fun _ => True) (fun _ _ => trivial) fun _ _ _ hj => ?_
  split at hj
  · cases hj
  · omega

theorem behindNumber_ensure {number : Nat} (h : number < 0x100000000) :
    ∀ p ∈ behindNumber number, p.2.Ensures fun d => d.Shaped ∧ NulFree d := by
  have count : 0 ≤ (number : Int) ∧ (number : Int) < 0x100000000 := ⟨by omega, by omega⟩
  have message (hn : 0 < number) : 0 < (number : Int) ∧ (number : Int) < 0x100000000 :=
    ⟨by omega, by omega⟩
  simp only [behindNumber, List.forall_mem_cons]
  refine ⟨?_, ?_, ?_, ?_, List.forall_mem_nil _⟩
  · refine .andThen fun _ => ?_
    exact .pure ⟨.inr count, trivial, trivial⟩
  · refine .andThen fun _ => ?_
    exact .pure ⟨.inr count, trivial, trivial⟩
  · refine (messageKeyword_ensures _).bind fun _ hn => ?_
    exact .pure ⟨.inr (message hn), trivial, trivial⟩
  · refine (messageKeyword_ensures _).bind fun _ hn => ?_
    refine .andThen fun _ => ?_
    refine FetchValue.attributeRule_ensures.nonEmptyList.bind fun attributes has => ?_
    have hnul : NulFree attributes := NulFree.list.mpr fun a ha => (has.2 a ha).2
    exact .pure ⟨.inr ⟨message hn, has.1, fun a ha => (has.2 a ha).1⟩, trivial, hnul, trivial⟩

theorem numberedRule_ensures : numberedRule.Ensures fun d => d.Shaped ∧ NulFree d := by
  refine number_ensures.bind fun _ hn => ?_
  refine .andThen fun _ => ?_
  exact Keyword.dispatch_ensures _ (behindNumber_ensure hn)

end Data

end Imap
