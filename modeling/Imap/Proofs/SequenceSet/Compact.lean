import Imap.Proofs.SequenceSet.Expand
import Mathlib.Data.List.SplitBy

namespace Imap

namespace SequenceSet

/-- Runs that hold the numbers and nothing else, each as long as it can be. -/
structure RunsOf (numbers : List Int) (rs : List (Int × Int)) : Prop where
  upward : ∀ r ∈ rs, r.1 ≤ r.2
  apart : rs.Pairwise fun r r' => r.2 + 1 < r'.1
  mem_iff : ∀ n, n ∈ numbers ↔ ∃ r ∈ rs, r.1 ≤ n ∧ n ≤ r.2
  ended : ∀ r ∈ rs, r.2 + 1 ∉ numbers

namespace RunsOf

variable {numbers : List Int} {r : Int × Int} {more : List (Int × Int)}

theorem first_mem {rs : List (Int × Int)} (h : RunsOf numbers rs) (hr : r ∈ rs) :
    r.1 ∈ numbers := by
  rw [h.mem_iff]
  exact ⟨r, hr, Int.le_refl _, h.upward r hr⟩

/-- No number comes before the first run. -/
theorem first_le (h : RunsOf numbers (r :: more)) {n : Int} (hn : n ∈ numbers) : r.1 ≤ n := by
  obtain ⟨r', hr', hlow, -⟩ := (h.mem_iff n).mp hn
  rcases List.mem_cons.mp hr' with rfl | hmore
  · exact hlow
  · have hupward := h.upward r List.mem_cons_self
    have hgap := (List.pairwise_cons.mp h.apart).1 r' hmore
    omega

theorem nil : RunsOf [] [] := by
  constructor
  all_goals simp

/-- A number just below the first run makes it longer. -/
theorem lengthen {n last : Int} (h : RunsOf numbers ((n + 1, last) :: more)) :
    RunsOf (n :: numbers) ((n, last) :: more) := by
  have hupward := h.upward _ List.mem_cons_self
  obtain ⟨hgap, hapart⟩ := List.pairwise_cons.mp h.apart
  refine ⟨?_, List.pairwise_cons.mpr ⟨hgap, hapart⟩, fun k => ?_, ?_⟩
  · rw [List.forall_mem_cons]
    exact ⟨by omega, fun r hr => h.upward r (List.mem_cons_of_mem _ hr)⟩
  · rw [List.mem_cons, h.mem_iff]
    simp only [List.mem_cons, exists_eq_or_imp]
    constructor
    · rintro (rfl | hfirst | hmore)
      · exact .inl ⟨by omega, by omega⟩
      · exact .inl ⟨by omega, by omega⟩
      · exact .inr hmore
    · rintro (hfirst | hmore)
      · by_cases hk : k = n
        · exact .inl hk
        · exact .inr (.inl ⟨by omega, hfirst.2⟩)
      · exact .inr (.inr hmore)
  · have hended := List.forall_mem_cons.mp h.ended
    refine List.forall_mem_cons.mpr ⟨?_, fun r hr => ?_⟩
    · rw [List.mem_cons, not_or]
      exact ⟨by omega, hended.1⟩
    · have := hgap r hr
      have := h.upward r (List.mem_cons_of_mem _ hr)
      rw [List.mem_cons, not_or]
      exact ⟨by omega, hended.2 r hr⟩

/-- A number further below is a run of its own. -/
theorem separate {n : Int} {rs : List (Int × Int)} (h : RunsOf numbers rs)
    (hbelow : ∀ k ∈ numbers, n + 1 < k) : RunsOf (n :: numbers) ((n, n) :: rs) := by
  refine ⟨?_, List.pairwise_cons.mpr ⟨fun r hr => hbelow _ (h.first_mem hr), h.apart⟩,
    fun k => ?_, ?_⟩
  · exact List.forall_mem_cons.mpr ⟨Int.le_refl n, h.upward⟩
  · rw [List.mem_cons, h.mem_iff]
    simp only [List.mem_cons, exists_eq_or_imp]
    exact or_congr_left ⟨fun hk => by omega, fun hk => by omega⟩
  · refine List.forall_mem_cons.mpr ⟨?_, fun r hr => ?_⟩
    · rw [List.mem_cons, not_or]
      exact ⟨by omega, fun hmem => by have := hbelow _ hmem; omega⟩
    · have := hbelow _ (h.first_mem hr)
      have := h.upward r hr
      rw [List.mem_cons, not_or]
      exact ⟨by omega, h.ended r hr⟩

end RunsOf

theorem runsOf_runs {numbers : List Int} (h : numbers.Pairwise (· < ·)) :
    RunsOf numbers (runs numbers) := by
  induction numbers with
  | nil => exact .nil
  | cons n numbers ih =>
    obtain ⟨hbelow, hothers⟩ := List.pairwise_cons.mp h
    have hruns := ih hothers
    rw [runs]
    split
    · next first last more heq =>
      rw [heq] at hruns
      split
      · next hnext =>
        subst hnext
        exact hruns.lengthen
      · next hne =>
        refine hruns.separate fun k hk => ?_
        have hfirst := hbelow _ (hruns.first_mem List.mem_cons_self)
        have hle : first ≤ k := hruns.first_le hk
        have hlt : n < first := hfirst
        omega
    · next heq =>
      rw [heq] at hruns
      refine hruns.separate fun k hk => ?_
      obtain ⟨r, hr, -⟩ := (hruns.mem_iff k).mp hk
      cases hr

theorem runsOf_ascending (numbers : List Int) : RunsOf numbers (runs (ascending numbers)) := by
  have h := runsOf_runs (pairwise_ascending numbers)
  exact ⟨h.upward, h.apart, fun n => mem_ascending.symm.trans (h.mem_iff n),
    fun r hr hmem => h.ended r hr (mem_ascending.mpr hmem)⟩

/-- Numbers with their places in a list, cut where a number less its place is not what it was before. -/
def groups (placed : List (Int × Nat)) : List (List (Int × Nat)) :=
  placed.splitBy fun a b => a.1 - a.2 = b.1 - b.2

/-- The first and the last number of a group. -/
def groupEnds (group : List (Int × Nat)) : Option Int × Option Int :=
  (group.head?.map Prod.fst, group.getLast?.map Prod.fst)

theorem groups_cons {n : Int} {k : Nat} {placed group : List (Int × Nat)}
    {more : List (List (Int × Nat))} (h : groups ((n + 1, k + 1) :: placed) = group :: more) :
    groups ((n, k) :: (n + 1, k + 1) :: placed) = ((n, k) :: group) :: more := by
  obtain ⟨hflatten, hsome, hchain, happart⟩ := List.splitBy_eq_iff.mp h
  rw [List.mem_cons, not_or] at hsome
  obtain ⟨hgroup, hmore⟩ := List.isChain_cons.mp happart
  obtain ⟨hfirst, hchains⟩ := List.forall_mem_cons.mp hchain
  cases group with
  | nil => exact absurd rfl hsome.1
  | cons first group =>
    obtain ⟨rfl, hplaced⟩ := List.cons.inj hflatten
    refine List.splitBy_eq_iff.mpr ⟨?_, ?_, ?_, ?_⟩
    · rw [List.flatten_cons, List.cons_append, List.flatten_cons.symm, ← hflatten]
    · exact List.not_mem_cons_of_ne_of_not_mem (List.cons_ne_nil _ _).symm hsome.2
    · refine List.forall_mem_cons.mpr ⟨List.isChain_cons_cons.mpr ⟨?_, hfirst⟩, hchains⟩
      rw [decide_eq_true_eq]
      push_cast
      omega
    · refine List.isChain_cons.mpr ⟨fun next hnext => ?_, hmore⟩
      obtain ⟨_, hne, hcut⟩ := hgroup next hnext
      exact ⟨List.cons_ne_nil _ _, hne, by rwa [List.getLast_cons]⟩

theorem groups_cons_of_ne {n m : Int} {k : Nat} {placed : List (Int × Nat)} (h : m ≠ n + 1) :
    groups ((n, k) :: (m, k + 1) :: placed) = [(n, k)] :: groups ((m, k + 1) :: placed) := by
  apply List.splitBy_append_cons (l := [(n, k)]) placed
  intro a ha
  obtain rfl : (n, k) = a := Option.some.inj ha
  rw [decide_eq_false_iff_not]
  push_cast
  omega

theorem runs_cons (n : Int) (ns : List Int) : ∃ last more, runs (n :: ns) = (n, last) :: more := by
  rw [runs]
  split
  · split
    · exact ⟨_, _, rfl⟩
    · exact ⟨_, _, rfl⟩
  · exact ⟨_, _, rfl⟩

/-- The runs are the groups of the numbers that are equally far from their places in the list. -/
theorem runs_eq_groups (numbers : List Int) (k : Nat) :
    (runs numbers).map (fun run => (some run.1, some run.2)) =
      (groups (numbers.zipIdx k)).map groupEnds := by
  induction numbers generalizing k with
  | nil => rfl
  | cons n ns ih =>
    cases ns with
    | nil => rfl
    | cons m ns =>
      obtain ⟨last, more, hruns⟩ := runs_cons m ns
      have hstep : runs (n :: m :: ns) =
          if m = n + 1 then (n, last) :: more else (n, n) :: (m, last) :: more := by
        rw [runs, hruns]
      have hgroups := ih (k + 1)
      rw [hruns] at hgroups
      rw [hstep, List.zipIdx_cons, List.zipIdx_cons]
      by_cases hnext : m = n + 1
      · subst hnext
        obtain ⟨group, others, hsplit, hends, hothers⟩ := List.map_eq_cons_iff.mp hgroups.symm
        have hlast : group.getLast?.map Prod.fst = some last := congrArg Prod.snd hends
        obtain ⟨final, hfinal, -⟩ := Option.map_eq_some_iff.mp hlast
        have hlonger : groupEnds ((n, k) :: group) = (some n, some last) := by
          rw [← hlast, groupEnds, List.getLast?_cons, hfinal]
          rfl
        rw [if_pos rfl, groups_cons hsplit, List.map_cons, List.map_cons, hothers, hlonger]
      · rw [if_neg hnext, groups_cons_of_ne hnext, List.map_cons, List.map_cons]
        exact congrArg _ hgroups

end SequenceSet

namespace SeqElement

/-- The ends of an element as numbers; `*` counts for nothing. -/
def bounds : SeqElement → Int × Int
  | single a => (a.among 0, a.among 0)
  | range a b => (a.among 0, b.among 0)

/-- A number, or a range upwards from one number to another. -/
inductive IsRun : SeqElement → Prop
  | single {n : Nat} (positive : 0 < n) : IsRun (single (.number n positive))
  | range {n n' : Nat} (positive : 0 < n) (positive' : 0 < n') (upward : n < n') :
    IsRun (range (.number n positive) (.number n' positive'))

namespace IsRun

variable {e : SeqElement} {greatest n : Int}

theorem covers_iff (h : e.IsRun) :
    e.Covers greatest n ↔ e.bounds.1 ≤ n ∧ n ≤ e.bounds.2 := by
  cases h <;> simp only [Covers, bounds, SeqNo.among] <;> omega

/-- The ends of a run are among the numbers that it covers. -/
theorem end_covered (h : e.IsRun) {a : SeqNo} (ha : a ∈ e.ends) :
    ∃ (n : Nat) (positive : 0 < n), a = .number n positive ∧ ∀ greatest, e.Covers greatest n := by
  cases h with
  | single positive => exact ⟨_, positive, List.mem_singleton.mp ha, fun _ => rfl⟩
  | range positive positive' upward =>
    have hupward := Int.ofNat_le.mpr (Nat.le_of_lt upward)
    rcases List.mem_cons.mp ha with rfl | ha
    · exact ⟨_, positive, rfl, fun _ => .inl ⟨Int.le_refl _, hupward⟩⟩
    · exact ⟨_, positive', List.mem_singleton.mp ha, fun _ => .inl ⟨hupward, Int.le_refl _⟩⟩

end IsRun

end SeqElement

namespace SequenceSet

theorem ofInt_ofNat {n : Nat} (positive : 0 < n) : SeqNo.ofInt n = .ok (.number n positive) := by
  have hle : (1 : Int) ≤ n := Int.ofNat_le.mpr positive
  exact dif_pos hle

theorem ofRun_ok {r : Int × Int} (hpositive : 1 ≤ r.1) (hupward : r.1 ≤ r.2) :
    ∃ e, ofRun r = .ok e ∧ e.IsRun ∧ e.bounds = r := by
  obtain ⟨first, last⟩ := r
  obtain ⟨first, rfl⟩ := Int.eq_ofNat_of_zero_le (a := first) (by omega)
  obtain ⟨last, rfl⟩ := Int.eq_ofNat_of_zero_le (a := last) (by omega)
  have hfirst : 0 < first := Int.ofNat_le.mp hpositive
  have hlast : 0 < last := Nat.lt_of_lt_of_le hfirst (Int.ofNat_le.mp hupward)
  by_cases hlt : first < last
  · refine ⟨_, ?_, .range hfirst hlast hlt, rfl⟩
    simp only [ofRun, ofInt_ofNat hfirst, ofInt_ofNat hlast, if_pos (Int.ofNat_lt.mpr hlt)]
    rfl
  · have heq : last = first := Nat.le_antisymm (Nat.not_lt.mp hlt) (Int.ofNat_le.mp hupward)
    subst heq
    refine ⟨_, ?_, .single hfirst, rfl⟩
    simp only [ofRun, ofInt_ofNat hfirst, Int.lt_irrefl, if_false]
    rfl

theorem ofRun_error {r : Int × Int} (h : r.1 < 1) : ofRun r = .error (.sequenceNumber r.1) := by
  have hfirst : SeqNo.ofInt r.1 = .error (.sequenceNumber r.1) := dif_neg (by omega)
  rw [ofRun, hfirst]
  rfl

theorem mapM_ofRun {rs : List (Int × Int)} (h : ∀ r ∈ rs, 1 ≤ r.1 ∧ r.1 ≤ r.2) :
    ∃ set, rs.mapM ofRun = .ok set ∧ (∀ e ∈ set, e.IsRun) ∧ set.map SeqElement.bounds = rs := by
  induction rs with
  | nil => exact ⟨[], rfl, List.forall_mem_nil _, rfl⟩
  | cons r rs ih =>
    obtain ⟨hr, hothers⟩ := List.forall_mem_cons.mp h
    obtain ⟨e, he, hrun, hbounds⟩ := ofRun_ok hr.1 hr.2
    obtain ⟨set, hset, hruns, hall⟩ := ih hothers
    refine ⟨e :: set, ?_, List.forall_mem_cons.mpr ⟨hrun, hruns⟩, ?_⟩
    · rw [List.mapM_cons, he, hset]
      rfl
    · rw [List.map_cons, hbounds, hall]

variable {numbers : List Int} {set : SequenceSet}

theorem compact_nil : compact [] = .error .noNumbers := by
  rw [compact, ascending, List.mergeSort_nil]
  rfl

theorem compact_eq_mapM (h : numbers ≠ []) :
    ∃ r more, runs (ascending numbers) = r :: more ∧ compact numbers = (r :: more).mapM ofRun := by
  obtain ⟨n, hn⟩ := List.exists_mem_of_ne_nil numbers h
  obtain ⟨r, hr, -⟩ := ((runsOf_ascending numbers).mem_iff n).mp hn
  obtain ⟨r, more, heq⟩ := List.exists_cons_of_ne_nil (List.ne_nil_of_mem hr)
  exact ⟨r, more, heq, by rw [compact, heq]⟩

/-- Among numbers that are too small, the least is the one that is refused. -/
theorem compact_error {n : Int} (hn : n ∈ numbers) (hsmall : n < 1) :
    ∃ least ∈ numbers, (∀ k ∈ numbers, least ≤ k) ∧
      compact numbers = .error (.sequenceNumber least) := by
  obtain ⟨r, more, heq, hcompact⟩ := compact_eq_mapM (List.ne_nil_of_mem hn)
  have hruns := runsOf_ascending numbers
  rw [heq] at hruns
  have hfirst : r.1 < 1 := Int.lt_of_le_of_lt (hruns.first_le hn) hsmall
  refine ⟨r.1, hruns.first_mem List.mem_cons_self, fun k hk => hruns.first_le hk, ?_⟩
  rw [hcompact, List.mapM_cons, ofRun_error hfirst]
  rfl

/-- The elements are the runs of the numbers. -/
structure Compacted (numbers : List Int) (set : SequenceSet) : Prop where
  each : ∀ e ∈ set, e.IsRun
  runs : RunsOf numbers (set.map SeqElement.bounds)

theorem compact_ok (hne : numbers ≠ []) (hpositive : ∀ n ∈ numbers, 1 ≤ n) :
    ∃ set, compact numbers = .ok set ∧ Compacted numbers set := by
  obtain ⟨r, more, heq, hcompact⟩ := compact_eq_mapM hne
  have hruns := runsOf_ascending numbers
  rw [heq] at hruns
  obtain ⟨set, hset, heach, hbounds⟩ := mapM_ofRun fun r hr =>
    ⟨hpositive _ (hruns.first_mem hr), hruns.upward r hr⟩
  rw [← hbounds] at hruns
  exact ⟨set, hcompact.trans hset, heach, hruns⟩

/-- Compaction fails for no numbers at all, and for the least one if that is too small. -/
theorem compact_cases (numbers : List Int) :
    (numbers = [] ∧ compact numbers = .error .noNumbers) ∨
      (∃ least ∈ numbers, least < 1 ∧ (∀ k ∈ numbers, least ≤ k) ∧
        compact numbers = .error (.sequenceNumber least)) ∨
      (numbers ≠ [] ∧ (∀ n ∈ numbers, 1 ≤ n) ∧
        ∃ set, compact numbers = .ok set ∧ Compacted numbers set) := by
  by_cases hne : numbers = []
  · subst hne
    exact .inl ⟨rfl, compact_nil⟩
  by_cases hsmall : ∃ n ∈ numbers, n < 1
  · obtain ⟨n, hn, hlt⟩ := hsmall
    obtain ⟨least, hmem, hleast, herror⟩ := compact_error hn hlt
    exact .inr (.inl ⟨least, hmem, Int.lt_of_le_of_lt (hleast n hn) hlt, hleast, herror⟩)
  · have hpositive : ∀ n ∈ numbers, 1 ≤ n := fun n hn =>
      Int.not_lt.mp fun hlt => hsmall ⟨n, hn, hlt⟩
    exact .inr (.inr ⟨hne, hpositive, compact_ok hne hpositive⟩)

theorem compact_refused_iff :
    (∃ why, compact numbers = .error why) ↔ numbers = [] ∨ ∃ n ∈ numbers, n < 1 := by
  rcases compact_cases numbers with ⟨hnil, herror⟩ | ⟨least, hleast, hsmall, -, herror⟩ |
    ⟨hne, hpositive, set, hok, -⟩
  · exact ⟨fun _ => .inl hnil, fun _ => ⟨_, herror⟩⟩
  · exact ⟨fun _ => .inr ⟨least, hleast, hsmall⟩, fun _ => ⟨_, herror⟩⟩
  · constructor
    · rintro ⟨why, herror⟩
      rw [hok] at herror
      cases herror
    · rintro (hnil | ⟨n, hn, hsmall⟩)
      · exact absurd hnil hne
      · exact absurd hsmall (Int.not_lt.mpr (hpositive n hn))

theorem refusal_of_compact {why : Refusal} (h : compact numbers = .error why) :
    (numbers = [] ∧ why = .noNumbers) ∨
      ∃ least ∈ numbers, (∀ n ∈ numbers, least ≤ n) ∧ why = .sequenceNumber least := by
  rcases compact_cases numbers with ⟨hnil, herror⟩ | ⟨least, hleast, -, hall, herror⟩ |
    ⟨-, -, set, hok, -⟩
  · rw [herror] at h
    cases h
    exact .inl ⟨hnil, rfl⟩
  · rw [herror] at h
    cases h
    exact .inr ⟨least, hleast, hall, rfl⟩
  · rw [hok] at h
    cases h

theorem compacted_of_ok (h : compact numbers = .ok set) : Compacted numbers set := by
  rcases compact_cases numbers with ⟨-, herror⟩ | ⟨_, -, -, -, herror⟩ | ⟨-, -, set', hok, hset⟩
  · rw [herror] at h
    cases h
  · rw [herror] at h
    cases h
  · rw [hok] at h
    cases h
    exact hset

namespace Compacted

theorem mem_iff (h : Compacted numbers set) {greatest n : Int} :
    (∃ e ∈ set, e.Covers greatest n) ↔ n ∈ numbers := by
  rw [h.runs.mem_iff]
  constructor
  · rintro ⟨e, he, hcovers⟩
    exact ⟨e.bounds, List.mem_map_of_mem he, (h.each e he).covers_iff.mp hcovers⟩
  · rintro ⟨r, hr, hbounds⟩
    obtain ⟨e, he, rfl⟩ := List.mem_map.mp hr
    exact ⟨e, he, (h.each e he).covers_iff.mpr hbounds⟩

/-- Every element ends more than one below the next. -/
theorem apart (h : Compacted numbers set) : set.Pairwise fun e e' =>
    ∀ greatest n n', e.Covers greatest n → e'.Covers greatest n' → n + 1 < n' := by
  refine (List.pairwise_map.mp h.runs.apart).imp_of_mem fun {e e'} he he' hgap => ?_
  intro greatest n n' hn hn'
  have hlast := ((h.each e he).covers_iff.mp hn).2
  have hfirst := ((h.each e' he').covers_iff.mp hn').1
  omega

/-- Unique identifiers may be greater than the greatest in use. -/
theorem expand_admitted (h : Compacted numbers set) {m : Mailbox}
    (hadmitted : ∀ n ∈ numbers, m.uid = true ∨ n ≤ m.greatest) :
    expand m set = .ok (ascending numbers) := by
  refine expand_eq_ok_iff.mpr ⟨fun a ha => ?_, ?_⟩
  · obtain ⟨e, he, hend⟩ := mem_ends.mp ha
    obtain ⟨n, positive, rfl, hcovers⟩ := (h.each e he).end_covered hend
    have hadmits := hadmitted n (h.mem_iff.mp ⟨e, he, hcovers 0⟩)
    refine if_neg fun ⟨huid, hbeyond⟩ => ?_
    rcases hadmits with huid' | hle
    · rw [huid] at huid'
      cases huid'
    · exact Int.not_lt.mpr hle hbeyond
  · exact ascending_congr fun n => by rw [mem_spreads, h.mem_iff]

theorem expand_eq (h : Compacted numbers set) {m : Mailbox}
    (hgreatest : ∀ n ∈ numbers, n ≤ m.greatest) : expand m set = .ok (ascending numbers) := by
  apply h.expand_admitted
  intro n hn
  exact .inr (hgreatest n hn)

end Compacted

/-- Where each of some things has a place and no two of them share one, there are as many places. -/
theorem length_le_of_places {α β : Type} [DecidableEq β] {R : α → β → Prop} {as : List α}
    {bs : List β} (each : ∀ a ∈ as, ∃ b ∈ bs, R a b)
    (apart : as.Pairwise fun a a' => ∀ b ∈ bs, R a b → ¬R a' b) : as.length ≤ bs.length := by
  induction as generalizing bs with
  | nil => exact Nat.zero_le _
  | cons a as ih =>
    obtain ⟨hfirst, hothers⟩ := List.pairwise_cons.mp apart
    obtain ⟨b, hb, hab⟩ := each a List.mem_cons_self
    -- The others find their places without `b`, which they do not share.
    have hrest : as.length ≤ (bs.erase b).length := by
      refine ih (fun a' ha' => ?_) ?_
      · obtain ⟨b', hb', hab'⟩ := each a' (List.mem_cons_of_mem _ ha')
        have hne : b' ≠ b := by
          rintro rfl
          exact hfirst a' ha' b' hb hab hab'
        exact ⟨b', (List.mem_erase_of_ne hne).mpr hb', hab'⟩
      · exact hothers.imp fun h b' hb' => h b' (List.mem_of_mem_erase hb')
    have hpos : 0 < bs.length := List.length_pos_of_mem hb
    rw [List.length_erase_of_mem hb] at hrest
    rw [List.length_cons]
    omega

/-- No element covers the beginnings of two runs, for it would cover the gap between them. -/
theorem RunsOf.length_le {rs : List (Int × Int)} (h : RunsOf numbers rs) {greatest : Int}
    (hset : ∀ n, (∃ e ∈ set, e.Covers greatest n) ↔ n ∈ numbers) : rs.length ≤ set.length := by
  -- A run has its place at an element that covers its first number.
  refine length_le_of_places (R := fun r e => e.Covers greatest r.1) (fun r hr => ?_) ?_
  · exact (hset r.1).mpr (h.first_mem hr)
  · refine h.apart.imp_of_mem fun {r r'} hr _ hgap e he hfirst hnext => ?_
    have hupward := h.upward r hr
    have hbetween : e.Covers greatest (r.2 + 1) := hfirst.between hnext (by omega) (by omega)
    exact h.ended r hr ((hset _).mp ⟨e, he, hbetween⟩)

/-- Numbers can be put together in a set unless there are none or one is too small. The set ascends with
gaps between its elements, expands to the numbers alone, depends on nothing else than which numbers
there are, and no set that expands to the same has fewer elements. -/
theorem compact_shortest (numbers : List Int) :
    ((∃ why, compact numbers = .error why) ↔ numbers = [] ∨ ∃ n ∈ numbers, n < 1) ∧
    (∀ why, compact numbers = .error why → (numbers = [] ∧ why = .noNumbers) ∨
      ∃ least ∈ numbers, (∀ n ∈ numbers, least ≤ n) ∧ why = .sequenceNumber least) ∧
    (∀ set, compact numbers = .ok set →
      (∀ e ∈ set, e.IsRun) ∧
      (set.Pairwise fun e e' =>
        ∀ greatest n n', e.Covers greatest n → e'.Covers greatest n' → n + 1 < n') ∧
      ∀ greatest ∈ numbers, (∀ n ∈ numbers, n ≤ greatest) → ∀ uid,
        (∃ expanded, expand ⟨greatest, uid⟩ set = .ok expanded ∧ expanded.Pairwise (· < ·) ∧
          ∀ n, n ∈ expanded ↔ n ∈ numbers) ∧
        ∀ other, expand ⟨greatest, uid⟩ other = expand ⟨greatest, uid⟩ set →
          set.length ≤ other.length) ∧
    ∀ same : List Int, (∀ n, n ∈ same ↔ n ∈ numbers) → compact same = compact numbers := by
  refine ⟨compact_refused_iff, fun why => refusal_of_compact, fun set hset => ?_,
    fun same hsame => ?_⟩
  · have h := compacted_of_ok hset
    refine ⟨h.each, h.apart, fun greatest _ hgreatest uid => ?_⟩
    have hexpand : expand ⟨greatest, uid⟩ set = .ok (ascending numbers) := h.expand_eq hgreatest
    refine ⟨⟨_, hexpand, pairwise_ascending _, fun n => mem_ascending⟩, fun other hother => ?_⟩
    rw [hexpand] at hother
    have hcovers : ∀ n, (∃ e ∈ other, e.Covers greatest n) ↔ n ∈ numbers := fun n => by
      rw [← mem_ascending, mem_of_expand hother]
    have hlength := h.runs.length_le hcovers
    rwa [List.length_map] at hlength
  · have hsorted : ascending same = ascending numbers := ascending_congr hsame
    rw [compact, hsorted, compact]

/-- Five numbers in two runs. -/
theorem compact_two_runs :
    let set : SequenceSet := [.range (.number 1 (by decide)) (.number 2 (by decide)),
      .range (.number 8 (by decide)) (.number 9 (by decide))]
    compact [9, 1, 2, 2, 8] = .ok set ∧ (9 : Int) ∈ [9, 1, 2, 2, (8 : Int)] ∧
      (∀ n ∈ [9, 1, 2, 2, (8 : Int)], n ≤ 9) ∧
      (∃ expanded, expand ⟨9, false⟩ set = .ok expanded ∧ ∀ n, n ∈ expanded ↔ n ∈ [9, 1, 2, 2, 8]) ∧
      ∀ other, expand ⟨9, false⟩ other = expand ⟨9, false⟩ set → 2 ≤ other.length := by
  intro set
  have hsorted : ascending [9, 1, 2, 2, 8] = [1, 2, 8, 9] := by
    refine ascending_eq (by decide) fun n => ?_
    simp only [List.mem_cons, List.not_mem_nil, or_false]
    omega
  have hset : compact [9, 1, 2, 2, 8] = .ok set := by
    rw [compact, hsorted]
    rfl
  obtain ⟨-, -, hok, -⟩ := compact_shortest [9, 1, 2, 2, 8]
  obtain ⟨-, -, hgreatest⟩ := hok set hset
  have hall : ∀ n ∈ [9, 1, 2, 2, (8 : Int)], n ≤ 9 := by decide
  obtain ⟨⟨expanded, hexpand, -, hmem⟩, hshortest⟩ := hgreatest 9 (by decide) hall false
  exact ⟨hset, by decide, hall, ⟨expanded, hexpand, hmem⟩, hshortest⟩

end SequenceSet

end Imap
