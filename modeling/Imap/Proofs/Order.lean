import Imap.Proofs.Unit
import Imap.Proofs.Written.Response

namespace Imap

open Rule Written

variable {ctx : Context} {bs : Bytes}

namespace Rule

variable {α β : Type} {r : Rule α} {next : α → Rule β}

/-- A rule tried behind one that misses. -/
theorem alt_done_iff {other : Rule α} {a : α} {n : Nat} (h : r.Misses ctx bs) :
    r.alt other ctx bs = .done a n ↔ other ctx bs = .done a n := by
  constructor
  · intro halt
    exact (alt_done halt).elim (fun hr => absurd hr h.not_done) And.right
  · intro ho
    obtain ⟨cause, position, hmiss⟩ := h
    simp only [alt, hmiss, ho]

theorem bind_done_iff {a : α} {b : β} {k n : Nat} (h : r ctx bs = .done a k) :
    (r >>= next) ctx bs = .done b n ↔ ∃ m, next a ctx (bs.drop k) = .done b m ∧ n = k + m := by
  constructor
  · intro hbind
    obtain ⟨a', k', m, hr, hnext, hn⟩ := bind_done hbind
    rw [h] at hr
    cases hr
    exact ⟨m, hnext, hn⟩
  · rintro ⟨m, hnext, rfl⟩
    exact bind_done_of h hnext

theorem Reads.bind_done_iff {front rest : Bytes} {a : α} {b : β} {n : Nat}
    (h : r.Reads ctx (front ++ rest) a rest) :
    (r >>= next) ctx (front ++ rest) = .done b n ↔
      ∃ m, next a ctx rest = .done b m ∧ n = front.length + m := by
  have hbind : (r >>= next) ctx (front ++ rest) = .done b n ↔ _ := Rule.bind_done_iff h.done
  rwa [List.drop_left] at hbind

theorem map_done_iff {f : α → β} {b : β} {n : Nat} :
    (f <$> r) ctx bs = .done b n ↔ ∃ a, r ctx bs = .done a n ∧ b = f a := by
  constructor
  · intro h
    obtain ⟨a, k, m, hr, hpure, rfl⟩ := bind_done h
    cases hpure
    exact ⟨a, hr, rfl⟩
  · rintro ⟨a, hr, rfl⟩
    change (r >>= fun a => pure (f a)) ctx bs = .done (f a) n
    rw [bind_of_done hr]
    rfl

theorem ended_done_iff {a b : α} {n : Nat} :
    (do lineEnd; return a : Rule α) ctx bs = .done b n ↔ lineEnd ctx bs = .done () n ∧ b = a := by
  have hmap : ((fun _ => a) <$> lineEnd : Rule α) ctx bs = .done b n ↔ _ := map_done_iff
  exact hmap.trans ⟨fun ⟨_, hend, hb⟩ => ⟨hend, hb⟩, fun ⟨hend, hb⟩ => ⟨(), hend, hb⟩⟩

/-- Where one of the rules is done, each of them is done with the same or misses. -/
def Compatible (rules : List (Rule α)) (ctx : Context) (bs : Bytes) : Prop :=
  ∀ r ∈ rules, ∀ a n, r ctx bs = .done a n →
    ∀ r' ∈ rules, r' ctx bs = .done a n ∨ r'.Misses ctx bs

/-- The first of compatible rules that does not miss finds what any of them finds. -/
theorem oneOf_done_iff {first : Rule α} {others : List (Rule α)} {a : α} {n : Nat}
    (h : Compatible (first :: others) ctx bs) :
    oneOf first others ctx bs = .done a n ↔ ∃ r ∈ first :: others, r ctx bs = .done a n := by
  induction others generalizing first with
  | nil => exact ⟨fun hone => ⟨first, List.mem_cons_self, hone⟩, by simp [oneOf]⟩
  | cons second others ih =>
    have htail : Compatible (second :: others) ctx bs := fun r hr a n hdone r' hr' =>
      h r (List.mem_cons_of_mem _ hr) a n hdone r' (List.mem_cons_of_mem _ hr')
    constructor
    · intro hone
      rcases alt_done hone with hfirst | ⟨-, hothers⟩
      · exact ⟨first, List.mem_cons_self, hfirst⟩
      · obtain ⟨r, hr, hdone⟩ := (ih htail).mp hothers
        exact ⟨r, List.mem_cons_of_mem _ hr, hdone⟩
    · rintro ⟨r, hr, hdone⟩
      rcases h r hr a n hdone first List.mem_cons_self with hfirst | hmiss
      · rw [oneOf, alt]
        simp only [hfirst]
      · rcases List.mem_cons.mp hr with rfl | hr
        · exact absurd hdone hmiss.not_done
        · exact (alt_done_iff hmiss).mpr ((ih htail).mpr ⟨r, hr, hdone⟩)

/-- Compatible rules may be tried in any order. -/
theorem oneOf_perm {first first' : Rule α} {others others' : List (Rule α)} {a : α} {n : Nat}
    (h : Compatible (first :: others) ctx bs) (hperm : (first' :: others').Perm (first :: others)) :
    oneOf first' others' ctx bs = .done a n ↔ oneOf first others ctx bs = .done a n := by
  have h' : Compatible (first' :: others') ctx bs := fun r hr a n hdone r' hr' =>
    h r (hperm.mem_iff.mp hr) a n hdone r' (hperm.mem_iff.mp hr')
  rw [oneOf_done_iff h, oneOf_done_iff h']
  simp only [hperm.mem_iff]

/-- A run in front of a line feed is read, or there is none. -/
theorem span_decided {isMember : UInt8 → Bool} {wanted : Element} (ascii : Octet.Ascii isMember)
    (hfeed : isMember 0x0A = false) (h : 0x0A ∈ bs) :
    (∃ found n, span isMember wanted ctx bs = .done found n) ∨
      (span isMember wanted).Misses ctx bs := by
  have hfound : (bs.find? fun b => !isMember b).isSome := by
    rw [List.find?_isSome]
    exact ⟨0x0A, h, by rw [hfeed]; rfl⟩
  obtain ⟨b, hb⟩ := Option.isSome_iff_exists.mp hfound
  obtain ⟨hnot, front, rest, rfl, hfront⟩ := List.find?_eq_some_iff_append.mp hb
  have hstop : ctx.Stops isMember (b :: rest) := (Bool.not_eq_true' _).mp hnot
  by_cases hnil : front = []
  · subst hnil
    exact .inr (.run hstop)
  · have hmembers : ∀ c ∈ front, isMember c = true := fun c hc => by simpa using hfront c hc
    have hread : (span isMember wanted).Reads ctx (front ++ b :: rest) _ (b :: rest) :=
      .span ascii hnil hmembers hstop
    exact .inl ⟨_, _, hread.done⟩

theorem starred_ahead {wanted : Element} {r : Rule α} {a : α} {n : Nat}
    (h : (do expect "*" wanted; space; r : Rule α) ctx bs = .done a n) :
    ∃ tail, bs = 0x2A :: 0x20 :: tail := by
  obtain ⟨_, k, _, hstar, h₁, -⟩ := bind_done h
  obtain ⟨rfl, bs, rfl⟩ := octet_ahead rfl rfl hstar
  obtain ⟨_, _, _, hspace, -, -⟩ := bind_done h₁
  obtain ⟨-, tail, htail⟩ := octet_ahead rfl rfl hspace
  exact ⟨tail, congrArg (0x2A :: ·) htail⟩

theorem starred_done_iff {wanted : Element} {r : Rule α} {tail : Bytes} {a : α} {n : Nat} :
    (do expect "*" wanted; space; r : Rule α) ctx (0x2A :: 0x20 :: tail) = .done a n ↔
      ∃ m, r ctx tail = .done a m ∧ n = 2 + m := by
  have hstar : expect "*" wanted ctx ([0x2A] ++ 0x20 :: tail) = .done () 1 := (Reads.octet rfl).done
  have hspace : space ctx ([0x20] ++ tail) = .done () 1 := space_reads.done
  constructor
  · intro h
    obtain ⟨m₁, h₁, rfl⟩ := (bind_done_iff hstar).mp h
    obtain ⟨m, hr, rfl⟩ := (bind_done_iff hspace).mp h₁
    exact ⟨m, hr, by omega⟩
  · rintro ⟨m, hr, rfl⟩
    exact (bind_done_iff hstar).mpr ⟨1 + m, (bind_done_iff hspace).mpr ⟨m, hr, rfl⟩, by omega⟩

end Rule

namespace Status

variable {tail : Bytes} {s : Status} {n : Nat}

/-- What a condition says of no command in particular. -/
def untagged (c : StatusKind × StatusText) : Status := ⟨c.1, c.2.2, none, c.2.1⟩

theorem ofCondition_none (c : StatusKind × StatusText) :
    ofCondition none c = Pure.pure (untagged c) := by
  rw [ofCondition, build_untagged]
  rfl

theorem fatalRule_done_iff : fatalRule ctx (0x2A :: 0x20 :: tail) = .done s n ↔
    ∃ c k m, StatusKind.byeRule ctx tail = .done c k ∧ lineEnd ctx (tail.drop k) = .done () m ∧
      s = untagged c ∧ n = 2 + (k + m) := by
  refine starred_done_iff.trans ⟨?_, ?_⟩
  · rintro ⟨_, hrest, rfl⟩
    obtain ⟨c, k, m, hbye, hended, rfl⟩ := bind_done hrest
    rw [ofCondition_none] at hended
    obtain ⟨hend, rfl⟩ := ended_done_iff.mp hended
    exact ⟨c, k, m, hbye, hend, rfl, rfl⟩
  · rintro ⟨c, k, m, hbye, hend, rfl, rfl⟩
    refine ⟨k + m, bind_done_of hbye ?_, rfl⟩
    rw [ofCondition_none]
    exact ended_done_iff.mpr ⟨hend, rfl⟩

end Status

namespace Response

variable {tail : Bytes} {r : Response} {n : Nat}

theorem dataRule_done_iff : dataRule ctx (0x2A :: 0x20 :: tail) = .done r n ↔
    ∃ found k m, untaggedRule ctx tail = .done found k ∧ lineEnd ctx (tail.drop k) = .done () m ∧
      complete found = .ok r ∧ n = 2 + (k + m) := by
  refine starred_done_iff.trans ⟨?_, ?_⟩
  · rintro ⟨_, hrest, rfl⟩
    obtain ⟨found, hline, hcomplete⟩ := refine_done hrest
    obtain ⟨_, k, m, hfound, hended, rfl⟩ := bind_done hline
    obtain ⟨hend, rfl⟩ := ended_done_iff.mp hended
    exact ⟨_, k, m, hfound, hend, hcomplete, rfl⟩
  · rintro ⟨found, k, m, hfound, hend, hcomplete, rfl⟩
    have hline : lineRule ctx tail = .done found (k + m) :=
      bind_done_of hfound (ended_done_iff.mpr ⟨hend, rfl⟩)
    refine ⟨k + m, ?_, rfl⟩
    simp only [refine, hline, hcomplete]

end Response

/-- Begins as a farewell does, whatever follows. -/
def Bytes.IsFarewell (bs : Bytes) : Prop :=
  ∃ (name : Spelling "BYE") (more : Bytes), bs = 0x2A :: 0x20 :: (name.octets ++ 0x20 :: more)

namespace StatusKind

variable {tail : Bytes} {found : String} {k : Nat}

theorem byeRule_misses (h : atom ctx tail = .done found k) (hfound : found.toLower ≠ "bye") :
    byeRule.Misses ctx tail := by
  have hother : ([bye].find? fun kind => spelling kind = found.toLower) = none := by
    rw [List.find?_singleton, if_neg]
    exact fun h => hfound (of_decide_eq_true h).symm
  exact .bind (.rejected h (by rw [hother]))

/-- The keyword of a farewell, as it is read. -/
theorem bye_atom (ctx : Context) (name : Spelling "BYE") (more : Bytes) :
    ∃ found, atom.Reads ctx (name.octets ++ 0x20 :: more) found (0x20 :: more) ∧
      found.toLower = "bye" := by
  have hword : IsKeyword "BYE" "bye" := by decide
  exact ⟨_, atom_reads_word name hword.1 (by rfl), name.toLower_eq hword.1 hword.2⟩

theorem byeRule_done_iff (name : Spelling "BYE") {more : Bytes} {c : StatusKind × StatusText} :
    byeRule ctx (name.octets ++ 0x20 :: more) = .done c k ↔
      ∃ t n, StatusText.rule ctx more = .done t n ∧ c = (.bye, t) ∧ k = 4 + n := by
  have hlength : name.octets.length = 3 := name.alike.length_eq
  obtain ⟨found, hatom, hsmall⟩ := bye_atom ctx name more
  have hkind : (rule [.bye]).Reads ctx (name.octets ++ 0x20 :: more) .bye (0x20 :: more) := by
    refine hatom.refine ?_
    rw [hsmall]
    rfl
  have hspace : space.Reads ctx ([0x20] ++ more) () more := space_reads
  constructor
  · intro h
    obtain ⟨_, hrest, rfl⟩ := hkind.bind_done_iff.mp h
    obtain ⟨_, htext, rfl⟩ := hspace.bind_done_iff.mp hrest
    obtain ⟨t, ht, rfl⟩ := map_done_iff.mp htext
    exact ⟨t, _, ht, rfl, by rw [hlength, List.length_singleton]; omega⟩
  · rintro ⟨t, n, ht, rfl, rfl⟩
    refine hkind.bind_done_iff.mpr ⟨1 + n, hspace.bind_done_iff.mpr ⟨n, ?_, rfl⟩, by omega⟩
    exact map_done_iff.mpr ⟨t, ht, rfl⟩

/-- A farewell's keyword is read off its spelling and a space. -/
theorem bye_written {c : StatusKind × StatusText} (h : byeRule ctx tail = .done c k) :
    ∃ (name : Spelling "BYE") (more : Bytes), tail = name.octets ++ 0x20 :: more := by
  obtain ⟨kind, _, _, hkind, hrest, -⟩ := bind_done h
  obtain ⟨found, hatom, -⟩ := refine_done hkind
  obtain ⟨found', _, hatom', hsmall⟩ := bye_found h
  rw [hatom] at hatom'
  cases hatom'
  obtain ⟨rfl, rfl⟩ := span_done hatom
  obtain ⟨_, _, _, hspace, -, -⟩ := bind_done hrest
  obtain ⟨-, more, hmore⟩ := octet_ahead (w := 0x20) rfl rfl hspace
  have hletters : (tail.takeWhile Octet.isAtomChar).map Octet.lower = [0x62, 0x79, 0x65] := by
    have hchars : _ = [0x62, 0x79, 0x65].map Octet.char := congrArg String.toList hsmall
    rw [Bytes.text_toLower] at hchars
    exact (List.map_inj_right fun _ _ h => Octet.char_injective h).mp hchars
  have hrun := List.prefix_iff_eq_take.mp (List.takeWhile_prefix (l := tail) Octet.isAtomChar)
  refine ⟨⟨tail.takeWhile Octet.isAtomChar, hletters⟩, more, ?_⟩
  calc tail = _ := (List.take_append_drop (tail.takeWhile Octet.isAtomChar).length tail).symm
    _ = _ := by rw [hmore, ← hrun]

end StatusKind

namespace Response

variable {tail : Bytes} {r : Response} {n : Nat}

/-- Where the keyword of a farewell is ahead, untagged data are a farewell. -/
theorem bye_of_untagged {found : String} {k : Nat} (hatom : atom ctx tail = .done found k)
    (hsmall : found.toLower = "bye") (h : untaggedRule ctx tail = .done r n) :
    ∃ c, StatusKind.byeRule ctx tail = .done c n ∧ r = .status (.untagged c) := by
  obtain ⟨b, rest, rfl, hdigit⟩ := bye_ahead hatom hsmall
  have hpeek : peek ctx (b :: rest) = .done (some b) 0 := rfl
  have hlook : lookahead atom ctx (b :: rest) = .done found 0 := by simp only [lookahead, hatom]
  obtain ⟨n, hkeyword, rfl⟩ := (bind_done_iff hpeek).mp h
  simp only [hdigit, Bool.false_eq_true, if_false] at hkeyword
  obtain ⟨n, hstatus, rfl⟩ := (bind_done_iff hlook).mp hkeyword
  simp only [find_bye hsmall] at hstatus
  obtain ⟨s, hs, rfl⟩ := map_done_iff.mp hstatus
  obtain ⟨c, k, m, hbye, hbuild, rfl⟩ := bind_done hs
  rw [Status.ofCondition_none] at hbuild
  cases hbuild
  refine ⟨c, ?_, rfl⟩
  simpa using hbye

/-- Data that begin as a farewell does are that farewell. -/
theorem fatal_of_data {found : String} {k : Nat} (hatom : atom ctx tail = .done found k)
    (hsmall : found.toLower = "bye") (h : dataRule ctx (0x2A :: 0x20 :: tail) = .done r n) :
    (status <$> Status.fatalRule) ctx (0x2A :: 0x20 :: tail) = .done r n := by
  obtain ⟨r, k, m, hdata, hend, hcomplete, rfl⟩ := dataRule_done_iff.mp h
  obtain ⟨c, hbye, rfl⟩ := bye_of_untagged hatom hsmall hdata
  cases hcomplete
  exact map_done_iff.mpr ⟨_, Status.fatalRule_done_iff.mpr ⟨c, k, m, hbye, hend, rfl, rfl⟩, rfl⟩

/-- A farewell is data. -/
theorem data_of_fatal (h : (status <$> Status.fatalRule) ctx bs = .done r n) :
    dataRule ctx bs = .done r n := by
  obtain ⟨s, hs, rfl⟩ := map_done_iff.mp h
  exact dataRule_of_fatal hs

/-- Where there are data, there is a farewell only if they are one. -/
theorem fatal_or_misses (h : dataRule ctx bs = .done r n) :
    (status <$> Status.fatalRule) ctx bs = .done r n ∨ Status.fatalRule.Misses ctx bs := by
  obtain ⟨tail, rfl⟩ := starred_ahead h
  have hfeed : 0x0A ∈ tail := by
    obtain ⟨pre, rest, hline, -, -⟩ := dataRule_ends _ _ _ _ h
    have hmem : 0x0A ∈ (0x2A : UInt8) :: 0x20 :: tail := by
      rw [hline]
      exact List.mem_append_right _ List.mem_cons_self
    simpa using hmem
  have hmiss (hbye : StatusKind.byeRule.Misses ctx tail) :
      Status.fatalRule.Misses ctx (0x2A :: 0x20 :: tail) :=
    .behind (Reads.octet rfl) (.behind space_reads hbye.bind)
  rcases span_decided .atomChar rfl hfeed with ⟨found, k, hatom⟩ | hatom
  · by_cases hsmall : found.toLower = "bye"
    · exact .inl (fatal_of_data hatom hsmall h)
    · exact .inr (hmiss (StatusKind.byeRule_misses hatom hsmall))
  · exact .inr (hmiss (.bind (Misses.refine hatom)))

/-- The rules of a response, in the order they are tried. -/
def alternatives : List (Rule Response) :=
  [continuation <$> Continuation.rule, dataRule, status <$> Status.doneRule]

theorem taggedRule_misses {b : UInt8} (h : Octet.isTagChar b = false) :
    Status.taggedRule.Misses ctx (b :: bs) := .bind (.run h)

/-- Behind a star, what completes a command is a farewell. -/
theorem done_iff_fatal : (status <$> Status.doneRule) ctx (0x2A :: tail) = .done r n ↔
    (status <$> Status.fatalRule) ctx (0x2A :: tail) = .done r n := by
  have halt (s : Status) : Status.doneRule ctx (0x2A :: tail) = .done s n ↔
      Status.fatalRule ctx (0x2A :: tail) = .done s n := alt_done_iff (taggedRule_misses rfl)
  simp only [map_done_iff, halt]

theorem continuation_ahead (h : (continuation <$> Continuation.rule) ctx bs = .done r n) :
    ∃ rest, bs = 0x2B :: rest := by
  obtain ⟨c, hc, -⟩ := map_done_iff.mp h
  obtain ⟨_, _, _, hplus, -, -⟩ := bind_done hc
  exact (octet_ahead rfl rfl hplus).2

/-- What completes a command is a farewell or begins with a tag. -/
theorem done_cases (h : (status <$> Status.doneRule) ctx bs = .done r n) :
    (status <$> Status.fatalRule) ctx bs = .done r n ∨
      ∃ b rest, bs = b :: rest ∧ Octet.isTagChar b = true := by
  obtain ⟨s, hs, rfl⟩ := map_done_iff.mp h
  rcases alt_done hs with htagged | ⟨-, hfatal⟩
  · obtain ⟨_, _, _, htag, -, -⟩ := bind_done htagged
    exact .inr (span_head htag)
  · exact .inl (map_done_iff.mpr ⟨s, hfatal, rfl⟩)

theorem star_of_fatal (h : (status <$> Status.fatalRule) ctx bs = .done r n) :
    ∃ tail, bs = 0x2A :: 0x20 :: tail := by
  obtain ⟨s, hs, -⟩ := map_done_iff.mp h
  exact starred_ahead hs

/-- Where there are data, there is a farewell, or nothing else. -/
theorem compatible_of_data (h : dataRule ctx bs = .done r n) :
    ∀ rule ∈ (status <$> Status.fatalRule) :: alternatives,
      rule ctx bs = .done r n ∨ rule.Misses ctx bs := by
  obtain ⟨tail, rfl⟩ := starred_ahead h
  have hfatal := fatal_or_misses h
  have hdone : (status <$> Status.doneRule) ctx (0x2A :: 0x20 :: tail) = .done r n ∨
      (status <$> Status.doneRule).Misses ctx (0x2A :: 0x20 :: tail) :=
    hfatal.imp done_iff_fatal.mpr fun hmiss => .map _ (.alt (taggedRule_misses rfl) hmiss)
  simp only [alternatives, List.forall_mem_cons]
  exact ⟨hfatal.imp_right (.map _), .inr (continuation_misses (by decide)), .inl h, hdone,
    List.forall_mem_nil _⟩

/-- Where one of the rules for a response is done, the others are done with the same or miss. -/
theorem alternatives_compatible :
    Compatible ((status <$> Status.fatalRule) :: alternatives) ctx bs := by
  have hmisses {b : UInt8} (rest : Bytes) (h : b ≠ 0x2A) :
      Status.fatalRule.Misses ctx (b :: rest) ∧ dataRule.Misses ctx (b :: rest) :=
    ⟨.bind (.octet rfl rfl (beq_false_of_ne h)), _, _, dataRule_miss rest h⟩
  rintro rule hrule r n hdone
  simp only [alternatives, List.mem_cons, List.not_mem_nil, or_false] at hrule
  -- By the rule that is done. A plus and a tag keep the others from beginning; behind a star there
  -- are data in any case.
  rcases hrule with rfl | rfl | rfl | rfl
  · exact compatible_of_data (data_of_fatal hdone)
  · obtain ⟨rest, rfl⟩ := continuation_ahead hdone
    obtain ⟨hfatal, hdata⟩ := hmisses rest (by decide : (0x2B : UInt8) ≠ 0x2A)
    simp only [alternatives, List.forall_mem_cons]
    exact ⟨.inr (hfatal.map _), .inl hdone, .inr hdata,
      .inr (.map _ (.alt (taggedRule_misses rfl) hfatal)), List.forall_mem_nil _⟩
  · exact compatible_of_data hdone
  · rcases done_cases hdone with hfatal | ⟨b, rest, rfl, hb⟩
    · exact compatible_of_data (data_of_fatal hfatal)
    · have hstar : b ≠ 0x2A := by rintro rfl; cases hb
      have hplus : b ≠ 0x2B := by rintro rfl; cases hb
      obtain ⟨hfatal, hdata⟩ := hmisses rest hstar
      simp only [alternatives, List.forall_mem_cons]
      exact ⟨.inr (hfatal.map _), .inr (continuation_misses hplus), .inr hdata, .inl hdone,
        List.forall_mem_nil _⟩

/-- A farewell says what its text does, and the line ends behind that. -/
theorem fatal_farewell_iff (name : Spelling "BYE") {more : Bytes} :
    (status <$> Status.fatalRule) ctx (0x2A :: 0x20 :: (name.octets ++ 0x20 :: more)) = .done r n ↔
      ∃ t k m, StatusText.rule ctx more = .done t k ∧ lineEnd ctx (more.drop k) = .done () m ∧
        r = .status ⟨.bye, t.2, none, t.1⟩ ∧ n = 6 + (k + m) := by
  have hdrop (k : Nat) : (name.octets ++ 0x20 :: more).drop (4 + k) = more.drop k := by
    have hlength : name.octets.length = 3 := name.alike.length_eq
    rw [List.drop_append, List.drop_eq_nil_of_le (by omega), hlength,
      (by omega : 4 + k - 3 = k + 1)]
    rfl
  rw [map_done_iff]
  constructor
  · rintro ⟨s, hs, rfl⟩
    obtain ⟨c, k, m, hbye, hend, rfl, rfl⟩ := Status.fatalRule_done_iff.mp hs
    obtain ⟨t, k, ht, rfl, rfl⟩ := (StatusKind.byeRule_done_iff name).mp hbye
    rw [hdrop] at hend
    exact ⟨t, k, m, ht, hend, rfl, by omega⟩
  · rintro ⟨t, k, m, ht, hend, rfl, rfl⟩
    rw [← hdrop] at hend
    have hbye := (StatusKind.byeRule_done_iff name).mpr ⟨t, k, ht, rfl, rfl⟩
    exact ⟨_, Status.fatalRule_done_iff.mpr ⟨_, _, m, hbye, hend, rfl, by omega⟩, rfl⟩

/-- Three rules read a farewell, and all of them read the same. -/
theorem farewell_done_iff (name : Spelling "BYE") {more : Bytes} :
    ∀ rule ∈ [dataRule, status <$> Status.doneRule, status <$> Status.fatalRule],
      rule ctx (0x2A :: 0x20 :: (name.octets ++ 0x20 :: more)) = .done r n ↔
        ∃ t k m, StatusText.rule ctx more = .done t k ∧ lineEnd ctx (more.drop k) = .done () m ∧
          r = .status ⟨.bye, t.2, none, t.1⟩ ∧ n = 6 + (k + m) := by
  obtain ⟨found, hatom, hsmall⟩ := StatusKind.bye_atom ctx name more
  simp only [List.forall_mem_cons, ← fatal_farewell_iff name]
  exact ⟨⟨fatal_of_data hatom.done hsmall, data_of_fatal⟩, done_iff_fatal, trivial,
    List.forall_mem_nil _⟩

/-- At most one alternative finds a response, unless the line is a farewell. -/
theorem alternatives_exclusive : alternatives.Pairwise fun rule rule' =>
    (∃ r n, rule ctx bs = .done r n) → (∃ r n, rule' ctx bs = .done r n) → bs.IsFarewell := by
  have hplus {rest : Bytes} {r : Response} {n : Nat}
      (h : (status <$> Status.doneRule) ctx (0x2B :: rest) = .done r n) : False := by
    rcases done_cases h with hfatal | ⟨b, bs, hbs, hb⟩
    · obtain ⟨_, hstar⟩ := star_of_fatal hfatal
      cases hstar
    · cases hbs
      cases hb
  simp only [alternatives, List.pairwise_cons, List.forall_mem_cons]
  refine ⟨⟨?_, ?_, List.forall_mem_nil _⟩, ⟨?_, List.forall_mem_nil _⟩, List.forall_mem_nil _, .nil⟩
  · rintro ⟨r, n, hcontinuation⟩ ⟨r', n', hdata⟩
    obtain ⟨rest, rfl⟩ := continuation_ahead hcontinuation
    obtain ⟨_, hstar⟩ := starred_ahead hdata
    cases hstar
  · rintro ⟨r, n, hcontinuation⟩ ⟨r', n', hdone⟩
    obtain ⟨rest, rfl⟩ := continuation_ahead hcontinuation
    exact (hplus hdone).elim
  · rintro ⟨r, n, hdata⟩ ⟨r', n', hdone⟩
    obtain ⟨tail, rfl⟩ := starred_ahead hdata
    obtain ⟨s, hs, -⟩ := map_done_iff.mp (done_iff_fatal.mp hdone)
    obtain ⟨c, k, m, hbye, -⟩ := Status.fatalRule_done_iff.mp hs
    obtain ⟨name, more, rfl⟩ := StatusKind.bye_written hbye
    exact ⟨name, more, rfl⟩

/-- The alternatives of a response may be tried in any order. At most one of them finds a response,
unless the line is a farewell, and that all of them read alike; and where one of them is done, the
others are done with the same or miss. -/
theorem alternatives_in_any_order (ctx : Context) (bs : Bytes) :
    (alternatives.Pairwise fun rule rule' => (∃ r n, rule ctx bs = .done r n) →
        (∃ r n, rule' ctx bs = .done r n) → bs.IsFarewell) ∧
      (∀ (name : Spelling "BYE") (more : Bytes),
        bs = 0x2A :: 0x20 :: (name.octets ++ 0x20 :: more) →
        ∀ rule ∈ [dataRule, status <$> Status.doneRule, status <$> Status.fatalRule], ∀ r n,
          rule ctx bs = .done r n ↔ ∃ t k m, StatusText.rule ctx more = .done t k ∧
            lineEnd ctx (more.drop k) = .done () m ∧
              r = .status ⟨.bye, t.2, none, t.1⟩ ∧ n = 6 + (k + m)) ∧
      Compatible ((status <$> Status.fatalRule) :: alternatives) ctx bs ∧
      ∀ first others, (first :: others).Perm alternatives → ∀ r n,
        oneOf first others ctx bs = .done r n ↔ Response.rule ctx bs = .done r n := by
  refine ⟨alternatives_exclusive, ?_, alternatives_compatible, fun first others hperm r n => ?_⟩
  · rintro name more rfl rule hrule r n
    exact farewell_done_iff name rule hrule
  · have hcompatible : Compatible alternatives ctx bs := fun rule hrule r n hdone rule' hrule' =>
      alternatives_compatible rule (List.mem_cons_of_mem _ hrule) r n hdone rule'
        (List.mem_cons_of_mem _ hrule')
    exact oneOf_perm hcompatible hperm

end Response

end Imap
