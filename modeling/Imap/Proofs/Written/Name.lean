import Imap.Command
import Imap.Proofs.Built.Status
import Imap.Proofs.Values.Lexical
import Imap.Proofs.Written.Text

namespace Imap

open Written

namespace Rule

variable {ctx : Context} {octets rest : Bytes} {isMember : UInt8 → Bool}

/-- A word that the octets do not begin with is missed, if what follows them cannot belong to it. -/
theorem Misses.word {fixed : String} {cause : Cause} (hp : Octet.CaselessClass isMember)
    (hword : ((Bytes.ofText fixed).map Octet.lower).all isMember = true)
    (hrest : ctx.Stops isMember rest)
    (hnot : ¬(Bytes.ofText fixed).map Octet.lower <+: octets.map Octet.lower) :
    (word fixed cause).Misses ctx (octets ++ rest) := by
  refine ⟨cause, 0, ?_⟩
  have hcompare : compareWord ((Bytes.ofText fixed).map Octet.lower) (octets ++ rest) = .different ∨
      ctx.complete = true ∧
        ∃ k, compareWord ((Bytes.ofText fixed).map Octet.lower) (octets ++ rest) = .cut k := by
    generalize (Bytes.ofText fixed).map Octet.lower = small at hword hnot
    induction small generalizing octets with
    | nil => exact absurd List.nil_prefix hnot
    | cons w ws ih =>
      rw [List.all_cons, Bool.and_eq_true] at hword
      cases octets with
      | nil =>
        cases rest with
        | nil => exact .inr ⟨hrest, 0, rfl⟩
        | cons c cs =>
          refine .inl (if_neg ?_)
          rintro rfl
          have hc : isMember c = false := hrest
          have hlower := hword.1
          rw [hp c, hc] at hlower
          cases hlower
      | cons b bs =>
        rw [List.cons_append, compareWord]
        split
        · next hb =>
          have hnot' : ¬ws <+: bs.map Octet.lower := fun h =>
            hnot (List.cons_prefix_cons.mpr ⟨hb.symm, h⟩)
          rcases ih hword.2 hnot' with h | ⟨hc, k, h⟩
          · exact .inl (by rw [h]; rfl)
          · exact .inr ⟨hc, k + 1, by rw [h]; rfl⟩
        · exact .inl rfl
  rcases hcompare with h | ⟨hc, k, h⟩
  · simp only [Rule.word, h]
  · simp only [Rule.word, h, hc, if_true]

end Rule

/-- The commands that list mailboxes by a pattern; an answer names the one that was asked. -/
def Written.listCommands : List String := ["LIST", "LSUB"]

/-- The resource that a name stands for: a known one in any case, or else one of that name. -/
def Resource.named (name : String) : Resource := (known? name).getD (.other name)

theorem Resource.ofAtom_named {name : String} (h : name ≠ "") : ofAtom name = .ok (named name) := by
  unfold ofAtom named
  cases hk : known? name with
  | some r => rfl
  | none => simp [build, h, hk]

/-- The capability that a token stands for: a mechanism, a word, a resource, or else the token. -/
def Capability.named (token : String) : Capability :=
  match parameterOf? .auth token with
  | some mechanism => .auth mechanism.toUpper
  | none =>
    match find? (coreWords ++ quotaWords) token with
    | some word => word
    | none =>
      match parameterOf? .quotaRes token with
      | some resource => .quotaRes (.named resource)
      | none => .other token

namespace Capability

theorem classify_named {d : Dialect} {token : String} (hd : d.knowsQuota = true) (hne : token ≠ "")
    (hauth : parameterOf? .auth token = none) : classify d token = .ok (named token) := by
  simp only [classify, named, hd, hauth, if_true]
  cases hword : find? (coreWords ++ quotaWords) token with
  | some word => rfl
  | none =>
    cases hres : parameterOf? .quotaRes token with
    | some resource =>
      simp only [Resource.ofAtom_named (parameterOf?_ne_empty hres)]
      rfl
    | none => simp [build, hne, isKnown, hword, hauth, hres]

end Capability

namespace Written.Run

variable {isMember : UInt8 → Bool}

theorem text_ne_empty (r : Run isMember) : r.text ≠ "" := Rule.text_ne_empty r.some

/-- What is left of a run behind its first octets. -/
def drop (r : Run isMember) (n : Nat) (h : n < r.octets.length) : Run isMember where
  octets := r.octets.drop n
  some := List.ne_nil_of_length_pos (by rw [List.length_drop]; omega)
  members b hb := r.members b (List.mem_of_mem_drop hb)

end Written.Run

namespace Rule

variable {ctx : Context} {rest : Bytes}

theorem resource_reads (a : Atom) (hrest : ctx.Stops Octet.isInner rest) :
    Resource.rule.Reads ctx (a.octets ++ rest) (Resource.named a.text) rest := by
  apply (atom_reads a (hrest.mono Octet.inner_of_atom)).bind
  exact .ofExcept (Resource.ofAtom_named a.text_ne_empty)

theorem parameterOf?_auth {a : Atom} {mechanism : String}
    (h : Capability.parameterOf? .auth a.text = some mechanism) :
    ∃ (hlen : 5 < a.octets.length), Bytes.Alike (a.octets.take 5) (Bytes.ofText "auth=") ∧
      mechanism = (a.drop 5 hlen).text := by
  have hsome : (Capability.parameterOf? .auth (Bytes.text a.octets)).isSome := Option.isSome_of_eq_some h
  obtain ⟨hfront, hlen⟩ := Capability.auth_iff.mp hsome
  refine ⟨hlen, ?_, ?_⟩
  · have htake := List.prefix_iff_eq_take.mp hfront
    rw [← List.map_take] at htake
    exact htake.symm
  · simp only [Capability.parameterOf?] at h
    split at h
    · cases h
      rw [Run.text, Bytes.text_toList, ← List.map_drop]
      rfl
    · cases h

/-- An atom of AUTH= and more is a mechanism. -/
theorem authRule_reads (a : Atom) {mechanism : String}
    (h : Capability.parameterOf? .auth a.text = some mechanism)
    (hrest : ctx.Stops Octet.isAtomChar rest) :
    Capability.authRule.Reads ctx (a.octets ++ rest) (.auth mechanism.toUpper) rest := by
  obtain ⟨hlen, halike, rfl⟩ := parameterOf?_auth h
  have hbuild : Capability.build .auth (.text (a.drop 5 hlen).text.toUpper) =
      .ok (.auth (a.drop 5 hlen).text.toUpper) := by
    obtain ⟨c, hc⟩ := Capability.build_auth_ok (a.drop 5 hlen).text_ne_empty
    simp only [Capability.build] at hc ⊢
    split at hc
    · cases hc
    · next hne => rw [if_neg hne]
  have hsplit : a.octets ++ rest = a.octets.take 5 ++ ((a.drop 5 hlen).octets ++ rest) := by
    rw [← List.append_assoc]
    exact congrArg (· ++ rest) (List.take_append_drop 5 a.octets).symm
  rw [hsplit]
  apply (Reads.word halike).bind
  exact (atom_reads _ hrest).bind (.ofExcept hbuild)

theorem authRule_misses (a : Atom) (h : Capability.parameterOf? .auth a.text = none)
    (hrest : ctx.Stops Octet.isAtomChar rest) :
    Capability.authRule.Misses ctx (a.octets ++ rest) := by
  by_cases hfront : (Bytes.ofText "auth=").map Octet.lower <+: a.octets.map Octet.lower
  · -- Nothing is left behind the equals sign, or there would be a mechanism.
    have hlen : a.octets.length ≤ 5 := by
      refine Nat.le_of_not_lt fun hlong => ?_
      have hsome := Capability.auth_iff.mpr ⟨hfront, hlong⟩
      rw [Run.text] at h
      rw [h] at hsome
      cases hsome
    have halike : a.octets.Alike (Bytes.ofText "auth=") :=
      (hfront.eq_of_length_le (by rw [List.length_map]; exact hlen)).symm
    exact .behind (.word halike) (.bind (.run hrest))
  · exact .bind (.word .atomChar (by decide) hrest hfront)

theorem capability_reads (a : Atom) (hd : ctx.dialect.knowsQuota = true)
    (hrest : ctx.Stops Octet.isAtomChar rest) :
    Capability.rule.Reads ctx (a.octets ++ rest) (Capability.named a.text) rest := by
  cases hauth : Capability.parameterOf? .auth a.text with
  | some mechanism =>
    have hnamed : Capability.named a.text = .auth mechanism.toUpper := by
      simp only [Capability.named, hauth]
    rw [hnamed]
    exact (authRule_reads a hauth hrest).first
  | none =>
    refine .second (authRule_misses a hauth hrest) ?_
    apply (atom_reads a hrest).bind
    apply Reads.dialect.bind
    refine .ofExcept ?_
    exact Capability.classify_named hd a.text_ne_empty hauth

theorem capabilities_reads {capabilities : List Atom} (hd : ctx.dialect.knowsQuota = true)
    (hne : capabilities ≠ []) (hrest : ctx.Stops Octet.isAtomChar rest)
    (hstop : ctx.Stops (· == 0x20) rest) :
    Capability.listRule.Reads ctx
      (0x20 :: (Bytes.joined 0x20 (capabilities.map Run.octets) ++ rest))
      (capabilities.map fun c => .named c.text) rest := by
  apply space_reads.bind
  exact .separated hne (fun c _ _ hmore => capability_reads c hd hmore) rfl hrest hstop

end Rule

namespace Written

/-- What a quota root uses of a resource, and how much it may. -/
structure Usage where
  resource : Atom
  usage : Number Rule.maxNumber64
  limit : Number Rule.maxNumber64

namespace Usage

def octets (u : Usage) : Bytes :=
  u.resource.octets ++ 0x20 :: (u.usage.octets ++ 0x20 :: u.limit.octets)

def value (u : Usage) : QuotaUsage := ⟨.named u.resource.text, u.usage.value, u.limit.value⟩

end Usage

/-- How much of a resource may be used. -/
structure Limit where
  resource : Atom
  limit : Number Rule.maxNumber64

namespace Limit

def octets (l : Limit) : Bytes := l.resource.octets ++ 0x20 :: l.limit.octets

def value (l : Limit) : QuotaLimit := ⟨.named l.resource.text, l.limit.value⟩

end Limit

structure StatusItem where
  item : StatusAttribute
  spelled : Spelling (spelling item)

namespace StatusItem

def octets (s : StatusItem) : Bytes := s.spelled.octets

theorem isWord (s : StatusItem) : IsWord Octet.isAtomChar (spelling s.item) := by
  cases s.item <;> decide

def name (s : StatusItem) : Atom := s.spelled.run .atomChar s.isWord

end StatusItem

/-- A status item and its number. -/
structure StatusCount where
  name : StatusItem
  count : Number Rule.maxNumber

namespace StatusCount

def octets (s : StatusCount) : Bytes := s.name.octets ++ 0x20 :: s.count.octets

def value (s : StatusCount) : StatusAttribute × Int := (s.name.item, s.count.value)

end StatusCount

end Written

namespace Rule

variable {ctx : Context} {rest : Bytes}

theorem limit_reads (l : Limit) (hrest : ctx.Stops Octet.isInner rest) :
    QuotaLimit.rule.Reads ctx (l.octets ++ rest) l.value rest := by
  simp only [Limit.octets, List.append_assoc, List.cons_append]
  apply (resource_reads l.resource (by rfl)).bind
  apply space_reads.bind
  exact (number_reads l.limit (hrest.mono Octet.inner_of_digit)).bind (.pure _)

theorem statusItem_reads (s : StatusItem) (hrest : ctx.Stops Octet.isInner rest) :
    StatusAttribute.rule.Reads ctx (s.octets ++ rest) s.item rest := by
  have hsmall : (spelling s.item).toList.map Char.toLower = (spelling s.item).toList := by
    cases s.item <;> decide
  have hfind : Vocabulary.find? (spelling s.item) = some s.item := by cases s.item <;> decide
  refine (atom_reads_word s.spelled s.isWord (hrest.mono Octet.inner_of_atom)).refine ?_
  rw [s.spelled.toLower_eq s.isWord hsmall, hfind]

theorem statusCount_reads (s : StatusCount) (hrest : ctx.Stops Octet.isInner rest) :
    StatusAttribute.valueRule.Reads ctx (s.octets ++ rest) s.value rest := by
  simp only [StatusCount.octets, List.append_assoc, List.cons_append]
  apply (statusItem_reads s.name (by rfl)).bind
  apply space_reads.bind
  exact (number_reads s.count (hrest.mono Octet.inner_of_digit)).bind (.pure _)

theorem limits_read (ls : List Limit) : ReadsItems QuotaLimit.rule ctx Limit.octets Limit.value ls where
  each l _ _ hmore := limit_reads l hmore
  opens l _ more := by
    rw [Limit.octets, List.append_assoc]
    exact l.resource.stops rfl ctx _

theorem statusItems_read (ss : List StatusItem) :
    ReadsItems StatusAttribute.rule ctx StatusItem.octets StatusItem.item ss where
  each s _ _ hmore := statusItem_reads s hmore
  opens s _ more := s.name.stops rfl ctx more

theorem statusCounts_read (ss : List StatusCount) :
    ReadsItems StatusAttribute.valueRule ctx StatusCount.octets StatusCount.value ss where
  each s _ _ hmore := statusCount_reads s hmore
  opens s _ more := by
    rw [StatusCount.octets, List.append_assoc]
    exact s.name.name.stops rfl ctx _

end Rule

/-- What can go on with an element of a sequence set: a digit or a colon. -/
def Octet.isSequenceChar (b : UInt8) : Bool := isDigit b || b == 0x3A

theorem Octet.isSequenceChar_of_digit (b : UInt8) (h : isDigit b = true) :
    isSequenceChar b = true := by
  rw [isSequenceChar, h, Bool.true_or]

theorem Octet.inner_of_base64 : ∀ b, isBase64Char b = true → isInner b = true := by
  apply inner_of_excluded <;> rfl

theorem Octet.inner_of_sequence : ∀ b, isSequenceChar b = true → isInner b = true := by
  apply inner_of_excluded <;> rfl

/-- The texts with a separator between them. -/
theorem Bytes.ofText_intercalate {separator : String} {b : UInt8} (hb : ofText separator = [b])
    (texts : List String) : ofText (separator.intercalate texts) = joined b (texts.map ofText) := by
  cases texts with
  | nil => rfl
  | cons first others =>
    induction others generalizing first with
    | nil => rw [String.intercalate_singleton]; simp [joined, behind]
    | cons second others ih =>
      rw [String.intercalate_cons_cons, ofText_append, ofText_append, ih, hb]
      simp [joined, behind]

namespace SequenceSet

variable {ctx : Context} {rest : Bytes}

theorem seqNo_reads {n : SeqNo} (h : n.WellFormed) (hrest : ctx.Stops Octet.isDigit rest) :
    SeqNo.rule.Reads ctx (Bytes.ofText n.text ++ rest) n rest := by
  cases n with
  | star => exact (Rule.Reads.skip rfl).bind (.pure _)
  | number n positive =>
    let digits : NonZero := ⟨n, positive, Nat.le_of_lt_succ h.2⟩
    let run : Run Octet.isDigit := ⟨_, Rule.numeral_ne_nil 0 n, Rule.numeral_digits 0 n⟩
    have hstar : (Rule.skip? "*").Reads ctx (digits.octets ++ rest) false (digits.octets ++ rest) :=
      .skip_none rfl rfl (run.stops rfl ctx rest)
    have hn : (1 : Int) ≤ n := by omega
    apply hstar.bind
    apply (Rule.nonZeroNumber_reads digits hrest).bind
    exact .ofExcept (dif_pos hn)

theorem element_reads {e : SeqElement} (h : e.WellFormed)
    (hrest : ctx.Stops Octet.isSequenceChar rest) :
    SeqElement.rule.Reads ctx (Bytes.ofText e.text ++ rest) e rest := by
  have hdigit := hrest.mono Octet.isSequenceChar_of_digit
  cases e with
  | single n =>
    have hcolon : ctx.Stops (· == 0x3A) rest := hrest.octet rfl
    exact .second (.behind (seqNo_reads h hdigit) (.bind (.octet rfl rfl hcolon)))
      ((seqNo_reads h hdigit).map _)
  | range first last =>
    have htext : Bytes.ofText (SeqElement.range first last).text ++ rest =
        Bytes.ofText first.text ++ 0x3A :: (Bytes.ofText last.text ++ rest) := by
      rw [SeqElement.text, Bytes.ofText_append, Bytes.ofText_append, List.append_assoc,
        List.append_assoc]
      rfl
    rw [htext]
    refine .first ?_
    apply (seqNo_reads h.1 (by rfl)).bind
    apply (Rule.Reads.octet rfl).bind
    exact (seqNo_reads h.2 hdigit).bind (.pure _)

/-- A sequence set is read as it is written. -/
theorem reads {set : SequenceSet} (h : set.WellFormed) (hrest : ctx.Stops Octet.isSequenceChar rest)
    (hcomma : ctx.Stops (· == 0x2C) rest) :
    SequenceSet.rule.Reads ctx (Bytes.ofText set.text ++ rest) set rest := by
  have helements : SequenceSet.rule.Reads ctx
      (Bytes.joined 0x2C (set.map fun e => Bytes.ofText e.text) ++ rest) (set.map id) rest :=
    .separated h.some (fun e he _ hmore => element_reads (h.each e he) hmore) rfl hrest hcomma
  rw [List.map_id] at helements
  rw [SequenceSet.text, Bytes.ofText_intercalate rfl, List.map_map]
  exact helements

theorem reads_inner {set : SequenceSet} (h : set.WellFormed) (hrest : ctx.Stops Octet.isInner rest) :
    SequenceSet.rule.Reads ctx (Bytes.ofText set.text ++ rest) set rest := by
  have hsequence := hrest.mono Octet.inner_of_sequence
  exact reads h hsequence (hrest.octet rfl)

end SequenceSet

namespace Written

/-- A data item of STORE, whose reply may be left out. -/
structure StoreItem where
  action : StoreAction
  silent : Bool
  spelled : Spelling (spelling action ++ if silent then ".silent" else "")

/-- Groups of four characters, the last one padded. -/
structure Base64Text where
  characters : Bytes
  padding : Nat
  members : ∀ b ∈ characters, Octet.isBase64Char b = true
  paddingBounded : padding ≤ 2
  grouped : (characters.length + padding) % 4 = 0

namespace Base64Text

def octets (t : Base64Text) : Bytes := t.characters ++ List.replicate t.padding 0x3D

def text (t : Base64Text) : String := Bytes.text t.octets

/-- No padding stands in front of the characters. -/
theorem opens (t : Base64Text) {ctx : Context} {rest : Bytes} (hrest : ctx.Stops (· == 0x3D) rest) :
    ctx.Stops (· == 0x3D) (t.octets ++ rest) := by
  obtain ⟨characters, padding, members, hbound, hgrouped⟩ := t
  cases characters with
  | nil =>
    have hzero : padding = 0 := by
      rw [List.length_nil] at hgrouped
      omega
    subst hzero
    exact hrest
  | cons b bs =>
    refine beq_false_of_ne ?_
    rintro rfl
    cases members _ List.mem_cons_self

end Base64Text

end Written

namespace Rule

variable {ctx : Context} {rest : Bytes}

theorem storeAction_reads (s : StoreItem) (hrest : ctx.Stops Octet.isInner rest) :
    StoreAction.rule.Reads ctx (s.spelled.octets ++ rest) (s.action, s.silent) rest := by
  obtain ⟨action, silent, spelled⟩ := s
  let word := spelling action ++ if silent then ".silent" else ""
  have hword : IsWord Octet.isAtomChar word := by cases action <;> cases silent <;> decide
  have hsmall : word.toList.map Char.toLower = word.toList := by
    cases action <;> cases silent <;> decide
  have hname : (StoreAction.loud? word).getD word = spelling action := by
    cases action <;> cases silent <;> decide
  have hsilent : (StoreAction.loud? word).isSome = silent := by
    cases action <;> cases silent <;> decide
  have hfind : Vocabulary.find? (spelling action) = some action := by cases action <;> decide
  refine (atom_reads_word spelled hword (hrest.mono Octet.inner_of_atom)).refine ?_
  rw [spelled.toLower_eq hword hsmall]
  simp only [hname, hsilent, hfind]

/-- No sign behind the padding is taken for a part of it. -/
theorem padding_length {n : Nat} (hn : n ≤ 2) (hrest : ctx.Stops (· == 0x3D) rest) :
    (((List.replicate n 0x3D ++ rest).take 2).takeWhile (· = 0x3D)).length = n := by
  have hstop (k : Nat) : (rest.take k).takeWhile (· = 0x3D) = [] := by
    cases rest with
    | nil => rw [List.take_nil]; rfl
    | cons c rest =>
      have hc : c ≠ 0x3D := ne_of_beq_false hrest
      cases k with
      | zero => rfl
      | succ k => exact List.takeWhile_cons_of_neg (by simpa using hc)
  have hsigns : ∀ b ∈ List.replicate n (0x3D : UInt8), decide (b = 0x3D) = true :=
    fun b hb => decide_eq_true (List.eq_of_mem_replicate hb)
  rw [List.take_append, List.take_of_length_le (by rw [List.length_replicate]; exact hn),
    List.takeWhile_append_of_pos hsigns, hstop, List.append_nil, List.length_replicate]

theorem base64_reads (t : Base64Text) (hrest : ctx.Stops Octet.isInner rest) :
    Base64.rule.Reads ctx (t.octets ++ rest) t.text rest := by
  have hsign : ctx.Stops (· == 0x3D) rest := hrest.octet rfl
  have hnot : ctx.Stops Octet.isBase64Char (List.replicate t.padding 0x3D ++ rest) := by
    cases t.padding with
    | zero => exact hrest.mono Octet.inner_of_base64
    | succ => rfl
  have hlength : Base64.tokenLength (t.octets ++ rest) = t.octets.length := by
    have hrun := hnot.takeWhile_append t.members
    have hpad := padding_length t.paddingBounded hsign
    rw [Base64Text.octets, List.append_assoc]
    simp only [Base64.tokenLength, hrun, List.drop_left, hpad, List.length_append,
      List.length_replicate]
  have hascii : ∀ b ∈ t.octets, b < 0x80 := by
    intro b hb
    rcases List.mem_append.mp hb with hb | hb
    · exact Octet.Ascii.base64Char b (t.members b hb)
    · rw [List.eq_of_mem_replicate hb]
      decide
  have hgroups : t.text.length % 4 = 0 := by
    rw [Base64Text.text, ← String.length_toList, Bytes.text_toList, List.length_map,
      Base64Text.octets, List.length_append, List.length_replicate]
    exact t.grouped
  exact (Reads.token hlength hrest.settled (.inr rfl) hascii).refine (if_pos hgroups)

end Rule

end Imap
