import Imap.Proofs.Reader.Drain

namespace Imap

namespace Source

variable {source : Source} {units : Nat} {bs : Bytes}

/-- What is decoded behind units that are known already. -/
def Decoded.behind (before : List WireUnit) (d : Decoded) : Decoded :=
  { d with units := before ++ d.units }

theorem Decoded.behind_behind (us us' : List WireUnit) (d : Decoded) :
    (d.behind us').behind us = d.behind (us ++ us') := by
  simp only [behind, List.append_assoc]

theorem decodeAll_nil : source.decodeAll units [] = ⟨[], [], none⟩ := by
  rw [decodeAll, if_pos rfl]

theorem decodeAll_failed {why : Failure} (hbs : bs ≠ [])
    (failed : source.decode units bs = .failed why) :
    source.decodeAll units bs = ⟨[], bs, some why⟩ := by
  rw [decodeAll, if_neg hbs, failed]

theorem decodeAll_done {u : WireUnit} {used : Nat} (done : source.decode units bs = .done u used) :
    source.decodeAll units bs = (source.decodeAll (units + 1) (bs.drop used)).behind [u] := by
  obtain ⟨hpos, hle, -⟩ := decode_done_span done
  have hbs : bs ≠ [] := by
    rintro rfl
    simp at hle
    omega
  rw [decodeAll, if_neg hbs, done]
  simp only [if_neg (Nat.ne_of_gt hpos)]
  rfl

/-- Units do not change when more octets follow. -/
theorem decodeAll_append (units : Nat) (bs more : Bytes) :
    source.decodeAll units (bs ++ more) =
      (source.decodeAll (units + (source.decodeAll units bs).units.length)
        ((source.decodeAll units bs).rest ++ more)).behind (source.decodeAll units bs).units := by
  induction hk : bs.length using Nat.strongRecOn generalizing bs units with
  | ind k ih =>
  by_cases hbs : bs = []
  · subst hbs
    rw [decodeAll_nil]
    rfl
  · cases hd : source.decode units bs with
    | failed why =>
      rw [decodeAll_failed hbs hd]
      rfl
    | done u used =>
      obtain ⟨hpos, hle, -⟩ := decode_done_span hd
      have hmore : source.decode units (bs ++ more) = .done u used := decode_append hd more
      have hrest := ih _ (by rw [List.length_drop]; omega) (units + 1) (bs.drop used) rfl
      rw [decodeAll_done hd, decodeAll_done hmore, List.drop_append_of_le_length hle, hrest]
      simp only [Decoded.behind, List.length_append, List.length_singleton, List.append_assoc,
        Nat.add_assoc, Nat.add_comm 1]

end Source

/-- The units that a chunk is answered with; one that is answered with a failure gives none. -/
def Feed.returned (f : Feed) : List WireUnit := if f.raised.isSome then [] else f.units

namespace Reader

variable {r : Reader} {decoded : Bool} {f : Feed}

/-- The reader with more octets in its buffer. -/
def extend (r : Reader) (chunk : Bytes) : Reader := { r with buffer := r.buffer ++ chunk }

/-- What reading the buffer to its end would give. -/
def remaining (r : Reader) : Source.Decoded := r.source.decodeAll r.units r.buffer

theorem Ready.extend (hr : r.Ready) (named : r.source ≠ .unnamed) (chunk : Bytes) :
    (r.extend chunk).Ready where
  empty h := hr.empty (List.append_eq_nil_iff.mp h).1
  waits h := by
    simp only [Reader.extend, List.length_append] at h ⊢
    obtain ⟨missing, needed, position, failed, hwait⟩ := hr.waits (by omega)
    cases needed with
    | none =>
      rw [hwait] at h
      simp only [Option.getD_none] at h hwait
      have hnil : chunk = [] := List.eq_nil_of_length_eq_zero (by omega)
      subst hnil
      refine ⟨missing, none, position, ?_, by simpa using hwait⟩
      simpa [next] using failed
    | some n =>
      have hsteady := Source.decode_steady named r.units
      obtain ⟨hpos, hlater⟩ := hsteady.short_append chunk failed
      simp only [Option.getD_some] at hwait
      refine ⟨missing, some (n - chunk.length), position, hlater (by omega), ?_⟩
      simp only [Option.getD_some]
      omega

theorem Drains.remaining_eq (h : Drains decoded r f) :
    r.remaining = f.reader.remaining.behind f.units := by
  induction h with
  | wait => rfl
  | short tries failed => rw [units_of_failed failed]; rfl
  | bad tries failed => rw [units_of_failed failed]; rfl
  | @unit decoded r u used more tries done rest ih =>
    have hdone : r.remaining = (r.past used).remaining.behind [u] := Source.decodeAll_done done
    rw [hdone, ih, units_of_done done]
    exact Source.Decoded.behind_behind _ _ _

theorem remaining_of_empty (h : r.buffer = []) : r.remaining = ⟨[], [], none⟩ := by
  rw [remaining, h, Source.decodeAll_nil]

theorem remaining_of_failed {why : Failure} (h : r.buffer ≠ []) (failed : r.next = .failed why) :
    r.remaining = ⟨[], r.buffer, some why⟩ := Source.decodeAll_failed h failed

theorem Rests.remaining_eq (h : r.Rests) :
    r.remaining.units = [] ∧ r.remaining.rest = r.buffer := by
  cases h with
  | empty nothing => rw [remaining_of_empty nothing, nothing]; exact ⟨rfl, rfl⟩
  | short something failed => rw [remaining_of_failed something failed]; exact ⟨rfl, rfl⟩
  | bad tries failed => rw [remaining_of_failed tries.1 failed]; exact ⟨rfl, rfl⟩

/-- How a reader stands to what it was before `more` arrived and `given` was read. -/
structure Fed (r : Reader) (more : Bytes) (given : List WireUnit) (last : Reader) : Prop where
  rests : last.Rests
  source_eq : last.source = r.source
  units_eq : last.units = r.units + given.length
  remaining_eq : (r.extend more).remaining = last.remaining.behind given

theorem Drains.returned_eq (h : Drains false r f) : f.returned = f.units := by
  unfold Feed.returned
  split
  · next hsome =>
    obtain ⟨why, hwhy⟩ := Option.isSome_iff_exists.mp hsome
    obtain ⟨-, hf, -, failed, -⟩ := h.raised_eq hwhy
    rw [hf, units_of_failed failed]
  · rfl

theorem feed_drains (named : r.source ≠ .unnamed) (chunk : Bytes) :
    Drains false (r.extend chunk) (r.feed chunk) :=
  drain_drains (r.extend chunk) named false

theorem feed_fed (named : r.source ≠ .unnamed) (hr : r.Ready) (chunk : Bytes) :
    Fed r chunk (r.feed chunk).returned (r.feed chunk).reader := by
  have h := feed_drains named chunk
  rw [h.returned_eq]
  exact ⟨h.rests (hr.extend named chunk), h.source_eq, h.units_eq, h.remaining_eq⟩

/-- Octets that arrive later are read on from where the reader stands. -/
theorem Fed.remaining_append {r' : Reader} {c : Bytes} {us : List WireUnit} (h : Fed r c us r')
    (c' : Bytes) : (r.extend (c ++ c')).remaining = (r'.extend c').remaining.behind us := by
  obtain ⟨hnone, hrest⟩ := h.rests.remaining_eq
  have hfirst : r.source.decodeAll r.units (r.buffer ++ c) = r'.remaining.behind us :=
    h.remaining_eq
  have hsplit : (r.extend (c ++ c')).remaining =
      r.source.decodeAll r.units (r.buffer ++ c ++ c') := by
    rw [List.append_assoc]
    rfl
  rw [hsplit, Source.decodeAll_append, hfirst]
  simp only [Source.Decoded.behind, hnone, hrest, List.append_nil]
  rw [← h.units_eq, ← h.source_eq]
  rfl

theorem Fed.trans {r' r'' : Reader} {c c' : Bytes} {us us' : List WireUnit} (h : Fed r c us r')
    (h' : Fed r' c' us' r'') : Fed r (c ++ c') (us ++ us') r'' where
  rests := h'.rests
  source_eq := h'.source_eq.trans h.source_eq
  units_eq := by rw [h'.units_eq, h.units_eq, List.length_append, Nat.add_assoc]
  remaining_eq := by
    rw [h.remaining_append c', h'.remaining_eq]
    exact Source.Decoded.behind_behind _ _ _

/-- The answers to the chunks in turn, and the reader behind them. A failure ends nothing. -/
def feedAll (r : Reader) : List Bytes → List Feed × Reader
  | [] => ([], r)
  | chunk :: chunks =>
    let fed := r.feed chunk
    let more := fed.reader.feedAll chunks
    (fed :: more.1, more.2)

theorem feedAll_fed (named : r.source ≠ .unnamed) (hr : r.Rests) (chunks : List Bytes) :
    Fed r chunks.flatten ((r.feedAll chunks).1.flatMap Feed.returned) (r.feedAll chunks).2 := by
  induction chunks generalizing r with
  | nil =>
    have hsame : r.extend [] = r := by simp [extend]
    exact ⟨hr, rfl, rfl, by rw [List.flatten_nil, hsame]; rfl⟩
  | cons chunk chunks ih =>
    have hfirst := feed_fed named hr.ready chunk
    have hrest := ih (by rw [hfirst.source_eq]; exact named) hfirst.rests
    exact hfirst.trans hrest

/-- Octets that are bad stay bad. -/
theorem feed_bad (named : r.source ≠ .unnamed) {why : Failure} (tries : r.Tries)
    (failed : r.next = .failed why) (bad : why.isBadSyntax = true) (chunk : Bytes) :
    ∃ why', (r.feed chunk).raised = some why' ∧ (r.feed chunk).reader = r.extend chunk ∧
      (r.extend chunk).Tries ∧ (r.extend chunk).next = .failed why' ∧ why.Alike why' := by
  have hsteady := Source.decode_steady named r.units
  obtain ⟨why', failed', alike⟩ :=
    hsteady.failed_append chunk (Failure.decided_of_isBadSyntax bad) failed
  have bad' : why'.isBadSyntax = true := by rw [← alike.isBadSyntax_eq, bad]
  have tries' : (r.extend chunk).Tries := by
    refine ⟨fun hnil => tries.1 (List.append_eq_nil_iff.mp hnil).1, ?_⟩
    simp only [extend, List.length_append]
    have := tries.2
    omega
  have hnext : (r.extend chunk).next = .failed why' := failed'
  have hfeed : r.feed chunk =
      ⟨[⟨r.extend chunk, (r.extend chunk).next⟩], r.extend chunk, some why'⟩ := by
    change (r.extend chunk).drain false = _
    rw [drain_failed tries' hnext, stop_bad bad']
    rfl
  rw [hfeed]
  exact ⟨why', rfl, rfl, tries', hnext, alike⟩

theorem feedAll_bad (named : r.source ≠ .unnamed) {why : Failure} (tries : r.Tries)
    (failed : r.next = .failed why) (bad : why.isBadSyntax = true) (chunks : List Bytes) :
    ∃ why', (r.feedAll chunks).2.Tries ∧ (r.feedAll chunks).2.next = .failed why' ∧
      why.Alike why' := by
  induction chunks generalizing r why with
  | nil => exact ⟨why, tries, failed, Failure.decided_of_isBadSyntax bad⟩
  | cons chunk chunks ih =>
    obtain ⟨why', -, hreader, tries', failed', alike⟩ := feed_bad named tries failed bad chunk
    have bad' : why'.isBadSyntax = true := by rw [← alike.isBadSyntax_eq, bad]
    obtain ⟨why'', tries'', failed'', alike'⟩ :=
      ih (r := (r.feed chunk).reader) (by rw [hreader]; exact named) (by rw [hreader]; exact tries')
        (by rw [hreader]; exact failed') bad'
    exact ⟨why'', tries'', failed'', alike.trans alike'⟩

/-- Whatever is raised on the way is what stops the reader in the end. -/
theorem feedAll_raised (named : r.source ≠ .unnamed) (chunks : List Bytes) :
    ∀ f ∈ (r.feedAll chunks).1, ∀ why, f.raised = some why →
      ∃ why', (r.feedAll chunks).2.Tries ∧ (r.feedAll chunks).2.next = .failed why' ∧
        why'.isBadSyntax = true ∧ why.Alike why' := by
  induction chunks generalizing r with
  | nil => intro f hf; cases hf
  | cons chunk chunks ih =>
    intro f hf why hwhy
    have h := feed_drains named chunk
    have named' : (r.feed chunk).reader.source ≠ .unnamed := by rw [h.source_eq]; exact named
    rcases List.mem_cons.mp hf with rfl | hf
    · obtain ⟨-, hfeed, tries, failed, bad⟩ := h.raised_eq hwhy
      have hreader : (r.feed chunk).reader = r.extend chunk := by rw [hfeed]
      rw [← hreader] at tries failed
      obtain ⟨why', tries', failed', alike⟩ := feedAll_bad named' tries failed bad chunks
      exact ⟨why', tries', failed', by rw [← alike.isBadSyntax_eq, bad], alike⟩
    · exact ih named' f hf why hwhy

/-- What a reader waits for that has read everything. -/
def waitOf (whole : Source.Decoded) : Nat :=
  match whole.stop with
  | some (.short _ needed _) => whole.rest.length + max 1 (needed.getD 1)
  | _ => 0

theorem Rests.waitFor_eq (h : r.Rests)
    (good : ∀ why, r.remaining.stop = some why → why.isBadSyntax = false) :
    r.waitFor = waitOf r.remaining := by
  cases h with
  | empty nothing ready => rw [remaining_of_empty nothing, ready]; rfl
  | short something failed waits => rw [remaining_of_failed something failed, waits]; rfl
  | @bad why tries failed bad =>
    have hstop : r.remaining.stop = some why := by rw [remaining_of_failed tries.1 failed]
    rw [good why hstop] at bad
    cases bad

theorem Rests.next_of_stop (h : r.Rests) {why : Failure} (hstop : r.remaining.stop = some why)
    (hbad : why.isBadSyntax = true) : r.Tries ∧ r.next = .failed why := by
  cases h with
  | empty nothing => rw [remaining_of_empty nothing] at hstop; cases hstop
  | short something failed =>
    rw [remaining_of_failed something failed] at hstop
    cases hstop
    cases hbad
  | bad tries failed =>
    rw [remaining_of_failed tries.1 failed] at hstop
    cases hstop
    exact ⟨tries, failed⟩

/-- A new reader that is fed in chunks does as the reference, which reads all octets from the front.
It gives the same units and keeps the same rest. If the reference stops at bad octets, every failure
raised on the way has that class and position, and so has the one that the next chunk raises, even
an empty one; if not, nothing is raised, and the wait depends on the octets alone. -/
theorem feedAll_eq_decodeAll (source : Source) (named : source ≠ .unnamed) (chunks : List Bytes) :
    let whole := source.decodeAll 0 chunks.flatten
    let fed := ((new source).feedAll chunks).1
    let last := ((new source).feedAll chunks).2
    fed.flatMap Feed.returned = whole.units ∧ last.buffer = whole.rest ∧
      last.units = whole.units.length ∧
      (∀ why, whole.stop = some why → why.isBadSyntax = true →
        (∀ f ∈ fed, ∀ raised, f.raised = some raised →
          raised.class? = why.class? ∧ raised.position? = why.position?) ∧
        ∃ raised, (last.feed []).raised = some raised ∧
          raised.class? = why.class? ∧ raised.position? = why.position?) ∧
      ((∀ why, whole.stop = some why → why.isBadSyntax = false) →
        (∀ f ∈ fed, f.raised = none) ∧ last.waitFor = waitOf whole) := by
  intro whole fed last
  have hfed : Fed (new source) chunks.flatten (fed.flatMap Feed.returned) last :=
    feedAll_fed named (.empty rfl rfl) chunks
  have hraised := feedAll_raised (r := new source) named chunks
  have hwhole : whole = last.remaining.behind (fed.flatMap Feed.returned) := hfed.remaining_eq
  obtain ⟨hnone, hrest⟩ := hfed.rests.remaining_eq
  have hunits : whole.units = fed.flatMap Feed.returned := by
    rw [hwhole]
    simp [Source.Decoded.behind, hnone]
  have hbuffer : whole.rest = last.buffer := by rw [hwhole]; exact hrest
  have hstop : whole.stop = last.remaining.stop := by rw [hwhole]; rfl
  refine ⟨hunits.symm, hbuffer.symm, ?_, ?_, ?_⟩
  · rw [hfed.units_eq, hunits]
    exact Nat.zero_add _
  · intro why hwhy bad
    rw [hstop] at hwhy
    obtain ⟨tries, failed⟩ := hfed.rests.next_of_stop hwhy bad
    constructor
    · intro f hf raised hr
      obtain ⟨why', -, failed', -, alike⟩ := hraised f hf raised hr
      have hsame : last.next = .failed why' := failed'
      rw [failed] at hsame
      cases hsame
      exact ⟨alike.class?_eq, alike.position?_eq⟩
    · have named' : last.source ≠ .unnamed := by rw [hfed.source_eq]; exact named
      obtain ⟨raised, hr, -, -, -, alike⟩ := feed_bad named' tries failed bad []
      exact ⟨raised, hr, alike.class?_eq.symm, alike.position?_eq.symm⟩
  · intro hgood
    rw [hstop] at hgood
    constructor
    · intro f hf
      cases hr : f.raised with
      | none => rfl
      | some raised =>
        obtain ⟨why', tries, failed, bad, -⟩ := hraised f hf raised hr
        have hlast : last.remaining.stop = some why' := by rw [remaining_of_failed tries.1 failed]
        rw [hgood why' hlast] at bad
        cases bad
    · rw [hwhole]
      exact hfed.rests.waitFor_eq hgood

/-- A command that is cut in two, with bad octets behind it. -/
theorem feedAll_command_cut :
    Source.client ≠ .unnamed ∧
      ((new .client).feedAll [Bytes.ofText "a NO", Bytes.ofText "OP\r\n("]).1.flatMap
        Feed.returned = [.command ⟨"a", .simple "NOOP"⟩] := by
  refine ⟨by decide, ?_⟩
  have h := feedAll_eq_decodeAll .client (by decide) [Bytes.ofText "a NO", Bytes.ofText "OP\r\n("]
  rw [h.1]
  decide +kernel

end Reader

end Imap
