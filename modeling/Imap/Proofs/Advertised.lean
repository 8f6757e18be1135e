import Imap.Proofs.Modes
import Imap.Proofs.Order
import Imap.Proofs.Stability
import Imap.Proofs.Written.Capability
import Imap.Proofs.Written.Code

namespace Imap

/-- IMAP4rev1 is one word, in any case; no other token stands for it. -/
theorem Capability.named_eq_imap4rev1 {token : String} :
    named token = imap4rev1 ↔ token.toLower = "imap4rev1" := by
  have hkind : (named token).kind = .imap4rev1 ↔ named token = imap4rev1 := by
    cases named token <;> simp [Capability.kind]
  have hnames : Names .imap4rev1 token ↔ token.toLower = "imap4rev1" := Iff.rfl
  rw [← hkind, ← hnames, kind_named]
  exact ⟨fun h => ⟨h, by decide⟩, And.left⟩

namespace Written

/-- A list of capabilities behind its word. -/
structure Advertisement where
  word : Spelling "CAPABILITY"
  atoms : List Atom
  some : atoms ≠ []

namespace Advertisement

def octets (l : Advertisement) : Bytes := l.word.octets ++ Bytes.behind 0x20 (l.atoms.map Run.octets)

/-- What the atoms stand for, each by itself. -/
def capabilities (l : Advertisement) : List Capability := l.atoms.map fun a => .named a.text

/-- One of the atoms is IMAP4rev1, in any case. -/
def HasImap4rev1 (l : Advertisement) : Prop := ∃ a ∈ l.atoms, a.text.toLower = "imap4rev1"

instance (l : Advertisement) : Decidable l.HasImap4rev1 :=
  inferInstanceAs (Decidable (∃ a ∈ l.atoms, _))

/-- The list in a line of its own, up to the line end. -/
def untagged (l : Advertisement) : Bytes := 0x2A :: 0x20 :: l.octets

/-- The list in the code of a status, up to the closing bracket. -/
def coded (l : Advertisement) (ok : Spelling "OK") : Bytes :=
  0x2A :: 0x20 :: (ok.octets ++ 0x20 :: 0x5B :: l.octets)

end Advertisement

end Written

open Rule Written

namespace Written.Advertisement

variable {ctx : Context} {rest : Bytes} (l : Advertisement)

theorem complete_eq : Capability.complete l.capabilities =
    if l.HasImap4rev1 then .ok l.capabilities else .error (.bad .noImap4rev1 0) := by
  have hmem : Capability.imap4rev1 ∈ l.capabilities ↔ l.HasImap4rev1 := by
    simp only [capabilities, HasImap4rev1, List.mem_map, Capability.named_eq_imap4rev1]
  simp only [Capability.complete, hmem]

/-- Behind its word the list goes on with a space. -/
theorem word_stops (ctx : Context) (rest : Bytes) :
    ctx.Stops Octet.isAtomChar (Bytes.behind 0x20 (l.atoms.map Run.octets) ++ rest) := by
  rw [Bytes.behind_eq_joined (mt List.map_eq_nil_iff.mp l.some)]
  rfl

/-- The atoms are read as what they stand for, whether IMAP4rev1 is one of them or not. -/
theorem list_reads (hd : ctx.dialect.knowsQuota = true) (hrest : ctx.Stops Octet.isAtomChar rest)
    (hstop : ctx.Stops (· == 0x20) rest) :
    Capability.listRule.Reads ctx (Bytes.behind 0x20 (l.atoms.map Run.octets) ++ rest)
      l.capabilities rest := by
  rw [Bytes.behind_eq_joined (mt List.map_eq_nil_iff.mp l.some)]
  exact capabilities_reads hd l.some hrest hstop

theorem data_reads (hd : ctx.dialect.knowsQuota = true) (hrest : ctx.Stops Octet.isAtomChar rest)
    (hstop : ctx.Stops (· == 0x20) rest) :
    (do discard (keyword "capability"); Capability.listRule : Rule _).Reads ctx (l.octets ++ rest)
      l.capabilities rest := by
  rw [octets, List.append_assoc]
  exact (keyword_reads l.word (by decide) (l.word_stops ctx rest)).discard.bind
    (l.list_reads hd hrest hstop)

/-- The code that a list is. -/
def code : Code := .known .capability (.capabilities l.capabilities)

theorem code_complete_eq : Code.complete l.code =
    if l.HasImap4rev1 then .ok l.code else .error (.bad .noImap4rev1 0) := by
  change (Capability.complete l.capabilities).map (fun _ => l.code) = _
  rw [complete_eq]
  split <;> rfl

theorem anyRule_reads (hd : ctx.dialect.knowsQuota = true) :
    Code.anyRule.Reads ctx (l.octets ++ 0x5D :: rest) l.code (0x5D :: rest) := by
  have hword : IsKeyword "CAPABILITY" "capability" := by decide
  have hfind : Keyword.find? Code.arguments (Bytes.text l.word.octets) = .some Code.capabilityRule := by
    rw [(l.word.akin hword.1).find?_eq]
    rfl
  have hend : ctx.Stops Octet.isAtomChar (0x5D :: rest) := by rfl
  have harguments : Code.capabilityRule.Reads ctx
      (Bytes.behind 0x20 (l.atoms.map Run.octets) ++ 0x5D :: rest) l.code (0x5D :: rest) :=
    (l.list_reads hd hend (by rfl)).bind (.pure _)
  have hclose : (Rule.word "]" (.word "]")).Reads ctx (0x5D :: rest) () rest := .octet rfl
  rw [octets, List.append_assoc]
  refine (atom_reads_word l.word hword.1 (l.word_stops ctx _)).bind ?_
  simp only [hfind]
  exact .orElse_first (harguments.bind (hclose.lookahead.bind (.pure _)))

end Written.Advertisement

/-- What stands behind the keyword of a status decides on it. -/
theorem StatusKind.rule_reads_ok (ok : Spelling "OK") {ctx : Context} {rest : Bytes}
    {allowed : List StatusKind} (h : allowed.find? (fun kind => spelling kind = "ok") = some .ok) :
    (rule allowed).Reads ctx (ok.octets ++ 0x20 :: rest) .ok (0x20 :: rest) := by
  have hok : IsKeyword "OK" "ok" := by decide
  refine (atom_reads_word ok hok.1 (by rfl)).refine ?_
  rw [ok.toLower_eq hok.1 hok.2, h]

namespace Written.Advertisement

variable {ctx : Context} {rest : Bytes} (l : Advertisement) {allowed : List StatusKind}

/-- A status that begins with the list in a code. -/
theorem condition_reads (hd : ctx.dialect.knowsQuota = true) (h : l.HasImap4rev1) (ok : Spelling "OK")
    (x : Run Octet.isTextChar) (hok : allowed.find? (fun kind => spelling kind = "ok") = .some .ok)
    (hrest : ctx.Stops Octet.isTextChar rest) :
    (StatusKind.conditionRule allowed).Reads ctx
      (ok.octets ++ 0x20 :: 0x5B :: (l.octets ++ 0x5D :: 0x20 :: (x.octets ++ rest)))
      (.ok, .some l.code, x.text) rest := by
  have hcode : Code.bracketedRule.Reads ctx
      (0x5B :: (l.octets ++ 0x5D :: 0x20 :: (x.octets ++ rest))) l.code (x.octets ++ rest) := by
    refine Code.bracketedRule_reads_iff.mpr ⟨l.octets, rfl, (l.anyRule_reads hd).refine ?_⟩
    rw [code_complete_eq, if_pos h]
  have htext : text.Reads ctx (x.octets ++ rest) x.text rest := x.reads .textChar hrest
  have hstatus : StatusText.rule.Reads ctx
      (0x5B :: (l.octets ++ 0x5D :: 0x20 :: (x.octets ++ rest))) (.some l.code, x.text) rest :=
    hcode.opt.bind (htext.bind (.pure _))
  refine (StatusKind.rule_reads_ok ok hok).bind ?_
  exact space_reads.bind (hstatus.bind (.pure _))

theorem condition_rejects (hd : ctx.dialect.knowsQuota = true) (h : ¬l.HasImap4rev1)
    (ok : Spelling "OK") (hok : allowed.find? (fun kind => spelling kind = "ok") = .some .ok)
    (more : Bytes) : (StatusKind.conditionRule allowed).Rejects ctx
      (ok.octets ++ 0x20 :: 0x5B :: (l.octets ++ 0x5D :: more)) .noImap4rev1 4 := by
  have hcode : Code.rule.Rejects ctx (l.octets ++ 0x5D :: more) .noImap4rev1 0 := by
    refine .judged (l.anyRule_reads hd) ?_
    rw [code_complete_eq, if_neg h]
  have hbracketed : Code.bracketedRule.Rejects ctx (0x5B :: (l.octets ++ 0x5D :: more))
      .noImap4rev1 (1 + 0) := Rejects.octet rfl hcode.bind
  have htext : StatusText.rule.Rejects ctx (0x5B :: (l.octets ++ 0x5D :: more)) .noImap4rev1 1 :=
    hbracketed.opt.bind
  have hlength : ok.octets.length = 2 := ok.alike.length_eq
  have hstatus : (StatusKind.conditionRule allowed).Rejects ctx
      (ok.octets ++ 0x20 :: 0x5B :: (l.octets ++ 0x5D :: more)) .noImap4rev1
      (ok.octets.length + (1 + 1)) :=
    .behind (StatusKind.rule_reads_ok ok hok) (.octet rfl htext.bind)
  rwa [hlength] at hstatus

/-- What becomes of a list: the value, if it is whole, or a failure for good where it begins. -/
def verdict {α : Type} (a : α) (used start : Nat) : Outcome α :=
  if l.HasImap4rev1 then .done a used else .failed (.bad .noImap4rev1 start)

theorem dataRule_eq (hd : ctx.dialect.knowsQuota = true) (hrest : ctx.Stops Octet.isAtomChar rest)
    (hstop : ctx.Stops (· == 0x20) rest) :
    Capability.dataRule ctx (l.octets ++ rest) = l.verdict l.capabilities l.octets.length 0 := by
  have hdata := l.data_reads hd hrest hstop
  unfold verdict
  split
  · next h => exact (hdata.refine (l.complete_eq.trans (if_pos h))).done
  · next h => exact Rejects.judged hdata (l.complete_eq.trans (if_neg h))

theorem untaggedRule_reads (hd : ctx.dialect.knowsQuota = true) (e : LineEnd) :
    Response.untaggedRule.Reads ctx (l.octets ++ (e.octets ++ rest))
      (.data (.capability l.capabilities)) (e.octets ++ rest) := by
  have hend := e.stops ctx rest
  have hatom := (hend.mono Octet.inLine_of_inner).mono Octet.inner_of_atom
  have hlist := l.list_reads hd hatom (hend.octet rfl)
  rw [octets, List.append_assoc]
  apply Response.keyword_data_reads l.word (by decide) rfl (l.word_stops ctx _)
  exact (Rule.keyword_reads l.word (by decide) (l.word_stops ctx _)).discard.bind (hlist.bind (.pure
    _))

theorem complete_data_eq : Response.complete (.data (.capability l.capabilities)) =
    if l.HasImap4rev1 then .ok (.data (.capability l.capabilities))
    else .error (.bad .noImap4rev1 0) := by
  rw [Response.complete, complete_eq]
  split <;> rfl

/-- The list in a line of its own. -/
def line (e : LineEnd) : Bytes := l.untagged ++ e.octets

theorem line_eq (hd : ctx.dialect.knowsQuota = true) (e : LineEnd) :
    Response.rule ctx (l.line e ++ rest) =
      l.verdict (.data (.capability l.capabilities)) (l.line e).length 2 := by
  have hdata : Response.untaggedRule.Reads ctx _ _ (e.octets ++ rest) := l.untaggedRule_reads hd e
  have hsplit : l.line e ++ rest = 0x2A :: 0x20 :: (l.octets ++ (e.octets ++ rest)) :=
    List.append_assoc ..
  unfold verdict
  split
  · next h =>
    have hline := Response.data_reads e hdata (l.complete_data_eq.trans (if_pos h))
    rw [← hsplit] at hline
    exact hline.done
  · next h =>
    have hread : Response.lineRule.Reads ctx (l.octets ++ (e.octets ++ rest)) _ rest :=
      hdata.bind ((lineEnd_reads e).bind (.pure _))
    rw [hsplit]
    exact Response.data_rejects (.judged hread (l.complete_data_eq.trans (if_neg h)))

/-- What a status says that begins with the list. -/
def status (x : Run Octet.isTextChar) : Status := ⟨.ok, x.text, none, .some l.code⟩

/-- A status up to and with its line end. -/
def statusLine (ok : Spelling "OK") (x : Run Octet.isTextChar) (e : LineEnd) : Bytes :=
  l.coded ok ++ 0x5D :: 0x20 :: (x.octets ++ e.octets)

theorem coded_split (ok : Spelling "OK") (more : Bytes) : l.coded ok ++ 0x5D :: more =
    0x2A :: 0x20 :: (ok.octets ++ 0x20 :: 0x5B :: (l.octets ++ 0x5D :: more)) := by
  simp only [coded, List.append_assoc, List.cons_append]

/-- The keyword of a status hands over to the rule of its state. -/
theorem untaggedRule_ok (ok : Spelling "OK") (more : Bytes) :
    Response.untaggedRule ctx (ok.octets ++ 0x20 :: more) =
      (Response.status <$> Status.stateRule) ctx (ok.octets ++ 0x20 :: more) :=
  Response.untaggedRule_eq ok (by decide) rfl (by rfl)

theorem state_ok : [StatusKind.ok, .no, .bad].find? (fun kind => spelling kind = "ok") = .some .ok := by
  decide

theorem greeting_ok : [StatusKind.ok, .preauth].find? (fun kind => spelling kind = "ok") = .some .ok := by
  decide

/-- A status with the list in its code is bad where the list begins, untagged or as a greeting. -/
theorem coded_rejects (hd : ctx.dialect.knowsQuota = true) (h : ¬l.HasImap4rev1)
    (ok : Spelling "OK") (more : Bytes) :
    Response.rule.Rejects ctx (l.coded ok ++ 0x5D :: more) .noImap4rev1 6 ∧
      Response.greetingRule.Rejects ctx (l.coded ok ++ 0x5D :: more) .noImap4rev1 6 := by
  rw [coded_split]
  constructor
  · have hstate : Status.stateRule.Rejects ctx _ .noImap4rev1 4 :=
      (l.condition_rejects hd h ok state_ok more).bind
    have hdata : Response.untaggedRule.Rejects ctx _ .noImap4rev1 4 :=
      (untaggedRule_ok ok _).trans (hstate.map Response.status)
    exact Response.data_rejects hdata.bind.refine
  · have hfirst : (oneOf StatusKind.authRule [StatusKind.byeRule]).Rejects ctx _ .noImap4rev1 4 :=
      (l.condition_rejects hd h ok greeting_ok more).first
    have hgreeting : Status.greetingRule.Rejects ctx _ .noImap4rev1 (1 + (1 + 4)) :=
      .octet rfl (.octet rfl hfirst.bind)
    exact hgreeting.map Response.status

theorem statusLine_split (ok : Spelling "OK") (x : Run Octet.isTextChar) (e : LineEnd) (rest : Bytes) :
    l.statusLine ok x e ++ rest = l.coded ok ++ 0x5D :: 0x20 :: (x.octets ++ (e.octets ++ rest)) := by
  simp only [statusLine, List.append_assoc, List.cons_append]

/-- A status with a list that holds IMAP4rev1 in its code is read as that. -/
theorem statusLine_reads (hd : ctx.dialect.knowsQuota = true) (h : l.HasImap4rev1)
    (ok : Spelling "OK") (x : Run Octet.isTextChar) (e : LineEnd) (rest : Bytes) :
    Response.rule.Reads ctx (l.statusLine ok x e ++ rest) (.status (l.status x)) rest ∧
      Response.greetingRule.Reads ctx (l.statusLine ok x e ++ rest) (.status (l.status x)) rest := by
  have hend : ctx.Stops Octet.isTextChar (e.octets ++ rest) :=
    (e.stops ctx rest).mono Octet.inLine_of_text
  rw [statusLine_split, coded_split]
  constructor
  · have hstate : Status.stateRule.Reads ctx _ (l.status x) (e.octets ++ rest) :=
      (l.condition_reads hd h ok x state_ok hend).bind (Status.ofCondition_none _ ▸ .pure _)
    obtain ⟨span, hspan, hdone⟩ := hstate.map Response.status
    exact Response.data_reads e ⟨span, hspan, (untaggedRule_ok ok _).trans hdone⟩ rfl
  · have hfirst : (oneOf StatusKind.authRule [StatusKind.byeRule]).Reads ctx _ _ (e.octets ++ rest) :=
      (l.condition_reads hd h ok x greeting_ok hend).first
    refine Reads.map Response.status ?_
    apply (Reads.octet rfl).bind
    apply space_reads.bind
    apply hfirst.bind
    apply (lineEnd_reads e).bind
    exact Status.ofCondition_none _ ▸ .pure _

theorem statusLine_eq (hd : ctx.dialect.knowsQuota = true) (ok : Spelling "OK")
    (x : Run Octet.isTextChar) (e : LineEnd) (rest : Bytes) :
    Response.rule ctx (l.statusLine ok x e ++ rest) =
        l.verdict (.status (l.status x)) (l.statusLine ok x e).length 6 ∧
      Response.greetingRule ctx (l.statusLine ok x e ++ rest) =
        l.verdict (.status (l.status x)) (l.statusLine ok x e).length 6 := by
  unfold verdict
  split
  · next h =>
    obtain ⟨hresponse, hgreeting⟩ := l.statusLine_reads hd h ok x e rest
    exact ⟨hresponse.done, hgreeting.done⟩
  · next h =>
    rw [statusLine_split]
    exact l.coded_rejects hd h ok _

end Written.Advertisement

namespace Rule

variable {α β : Type} {r other : Rule α} {next : α → Rule β} {ctx : Context} {bs : Bytes}

theorem isShort_behind {octets mid : Bytes} {a : α} (hr : r.Reads ctx (octets ++ mid) a mid)
    (h : (next a ctx mid).IsShort) : ((r >>= next) ctx (octets ++ mid)).IsShort := by
  obtain ⟨missing, needed, position, hn⟩ := Outcome.isShort_iff.mp h
  exact Outcome.isShort_iff.mpr ⟨_, _, _, hr.bind_eq.trans (congrArg (Outcome.shift _) hn)⟩

theorem isShort_refine {judge : α → Except Failure β} (h : (r ctx bs).IsShort) :
    (r.refine judge ctx bs).IsShort := by
  obtain ⟨why, hr, hc⟩ := h
  exact ⟨why, by simp only [refine, hr], hc⟩

theorem isShort_first (h : (r ctx bs).IsShort) : (r.alt other ctx bs).IsShort := by
  obtain ⟨missing, needed, position, hr⟩ := Outcome.isShort_iff.mp h
  exact Outcome.isShort_iff.mpr ⟨missing, needed, position, by simp only [alt, hr]⟩

theorem isShort_second (hr : r.Misses ctx bs) (h : (other ctx bs).IsShort) :
    (r.alt other ctx bs).IsShort := by
  obtain ⟨cause, place, hmiss⟩ := hr
  obtain ⟨missing, needed, position, ho⟩ := Outcome.isShort_iff.mp h
  exact Outcome.isShort_iff.mpr
    ⟨missing, needed, position, by simp only [alt, hmiss, ho, furthest]⟩

/-- Before the end of what a rule reads it has no answer. -/
theorem Reads.isShort_before (hr : Steady r) {d : Dialect} {octets rest start : Bytes} {a : α}
    (h : r.Reads ⟨false, d⟩ (octets ++ rest) a rest) (hstart : start <+: octets)
    (hproper : start.length < octets.length) : (r ⟨false, d⟩ start).IsShort := by
  have hcut := hr.stable.cut d _ a _ start.length h.done hproper
  rwa [← List.prefix_iff_eq_take.mp (hstart.trans (List.prefix_append ..))] at hcut

end Rule

/-- A line of data without its end is no answer. -/
theorem Response.isShort_of_line {d : Dialect} {bs : Bytes} (h : (lineRule ⟨false, d⟩ bs).IsShort) :
    (Response.rule ⟨false, d⟩ (0x2A :: 0x20 :: bs)).IsShort := by
  have hspace : (space >>= fun _ => lineRule.refine complete) ⟨false, d⟩ ([0x20] ++ bs) |>.IsShort :=
    isShort_behind space_reads (isShort_refine h)
  have hdata : (dataRule ⟨false, d⟩ ([0x2A] ++ 0x20 :: bs)).IsShort :=
    isShort_behind (Reads.octet rfl) hspace
  exact isShort_second (continuation_misses (by decide)) (isShort_first hdata)

namespace Written.Advertisement

variable (l : Advertisement)

/-- No start of a line of its own is an answer. -/
theorem isShort_line (e : LineEnd) {start : Bytes} (hstart : start <+: l.line e)
    (hproper : start ≠ l.line e) : (Response.rule ⟨false, .response⟩ start).IsShort := by
  have hsteady : Steady Response.lineRule := (Response.lineRule_built (m := .wary)).steady
  have hline : Response.lineRule.Reads ⟨false, .response⟩ ((l.octets ++ e.octets) ++ [])
      (.data (.capability l.capabilities)) [] := by
    rw [List.append_assoc]
    exact (l.untaggedRule_reads rfl e).bind ((lineEnd_reads e).bind (.pure _))
  match start, hstart with
  | [], _ => exact ⟨_, rfl, rfl⟩
  | [b], hstart =>
    obtain ⟨rfl, -⟩ := List.cons_prefix_cons.mp hstart
    exact ⟨_, rfl, rfl⟩
  | b :: c :: start, hstart =>
    obtain ⟨rfl, hspace⟩ := List.cons_prefix_cons.mp hstart
    obtain ⟨rfl, htail⟩ := List.cons_prefix_cons.mp hspace
    refine Response.isShort_of_line (hline.isShort_before hsteady htail ?_)
    refine Nat.lt_of_le_of_ne htail.length_le fun hlength => hproper ?_
    rw [htail.eq_of_length hlength]
    rfl

/-- IMAP4rev1 as it is mostly written. -/
def imap4rev1 : Atom := ⟨Bytes.ofText "IMAP4rev1", by decide, List.all_eq_true.mp rfl⟩

/-- The list with IMAP4rev1 behind it. -/
def completed : Advertisement :=
  ⟨l.word, l.atoms ++ [imap4rev1], List.append_ne_nil_of_right_ne_nil _ (List.cons_ne_nil _ _)⟩

theorem completed_has : l.completed.HasImap4rev1 := by
  refine ⟨imap4rev1, ?_, by decide +kernel⟩
  exact List.mem_append_right _ List.mem_cons_self

theorem completed_octets : l.completed.octets = l.octets ++ 0x20 :: imap4rev1.octets := by
  simp only [octets, completed, Bytes.behind, List.map_append, List.flatMap_append, List.map_cons,
    List.map_nil, List.flatMap_cons, List.flatMap_nil, List.append_nil, List.append_assoc]

theorem coded_prefix (ok : Spelling "OK") : l.coded ok <+: l.completed.coded ok := by
  refine ⟨0x20 :: imap4rev1.octets, ?_⟩
  simp only [coded, completed_octets, List.cons_append, List.append_assoc]

/-- Up to its closing bracket a code may yet hold IMAP4rev1. -/
theorem isShort_coded (ok : Spelling "OK") {start : Bytes} (hstart : start <+: l.coded ok) :
    (Response.rule ⟨false, .response⟩ start).IsShort ∧
      (Response.greetingRule ⟨false, .response⟩ start).IsShort := by
  let x : Run Octet.isTextChar := ⟨[0x78], by decide, List.all_eq_true.mp rfl⟩
  have hcontext : (⟨false, .response⟩ : Context).dialect.knowsQuota = true := rfl
  obtain ⟨hresponse, hgreeting⟩ :=
    l.completed.statusLine_reads hcontext l.completed_has ok x .feed []
  have hcoded : start <+: l.completed.coded ok := hstart.trans (l.coded_prefix ok)
  have hbefore : start <+: l.completed.statusLine ok x .feed := hcoded.trans (List.prefix_append ..)
  have hproper : start.length < (l.completed.statusLine ok x .feed).length := by
    have hle := hcoded.length_le
    rw [statusLine, List.length_append, List.length_cons]
    omega
  have response : Built .unit .wary Response.rule := Response.rule_built
  have greeting : Built .unit .wary Response.greetingRule := Response.greetingRule_built
  exact ⟨hresponse.isShort_before response.steady hbefore hproper,
    hgreeting.isShort_before greeting.steady hbefore hproper⟩

/-- Wherever a server advertises its capabilities, in a line, in the code of a status or of a greeting,
each of them is read as it is by itself, in their order, if IMAP4rev1 is one of them; and else the list
is bad where it begins, so that nothing else is tried. Before the end of the line, or of the code, there
is no answer yet. -/
theorem read_or_bad (complete : Bool) (ok : Spelling "OK") (x : Run Octet.isTextChar) (e : LineEnd)
    (rest : Bytes) :
    let ctx : Context := ⟨complete, .response⟩
    (∀ a ∈ l.atoms, ∀ more,
      Capability.rule ctx (a.octets ++ 0x20 :: more) = .done (.named a.text) a.octets.length) ∧
    Capability.dataRule ctx (l.octets ++ (e.octets ++ rest)) =
      l.verdict l.capabilities l.octets.length 0 ∧
    Response.rule ctx (l.line e ++ rest) =
      l.verdict (.data (.capability l.capabilities)) (l.line e).length 2 ∧
    (∀ r ∈ [Response.rule, Response.greetingRule], r ctx (l.statusLine ok x e ++ rest) =
      l.verdict (.status (l.status x)) (l.statusLine ok x e).length 6) ∧
    (∀ start, start <+: l.line e → start ≠ l.line e →
      (Response.rule ⟨false, .response⟩ start).IsShort) ∧
    ∀ start, start <+: l.coded ok → ∀ r ∈ [Response.rule, Response.greetingRule],
      (r ⟨false, .response⟩ start).IsShort := by
  intro ctx
  have hd : ctx.dialect.knowsQuota = true := rfl
  have hend := e.stops ctx rest
  have hatom := (hend.mono Octet.inLine_of_inner).mono Octet.inner_of_atom
  obtain ⟨hresponse, hgreeting⟩ := l.statusLine_eq hd ok x e rest
  refine ⟨fun a _ more => (capability_reads a hd (by rfl)).done,
    l.dataRule_eq hd hatom (hend.octet rfl), l.line_eq hd e, ?_,
    fun start => l.isShort_line e, fun start hstart => ?_⟩
  · rw [List.forall_mem_cons, List.forall_mem_singleton]
    exact ⟨hresponse, hgreeting⟩
  · rw [List.forall_mem_cons, List.forall_mem_singleton]
    exact l.isShort_coded ok hstart

/-- A mechanism of that name is not IMAP4rev1. -/
example : ¬HasImap4rev1 ⟨⟨Bytes.ofText "CAPABILITY", rfl⟩,
    [⟨Bytes.ofText "AUTH=IMAP4rev1", by decide, List.all_eq_true.mp rfl⟩], by decide⟩ := by
  decide +kernel

end Written.Advertisement

end Imap
