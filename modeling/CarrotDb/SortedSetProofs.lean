import CarrotDb.SortedSet
import CarrotDb.Lib.FloatOrder
import Mathlib

/-! The two indexes of a sorted set and its counter agree after any calls, as
long as every score is a number. -/
namespace CarrotDb
open FloatOrder

/-- The place of an entry in the order of the set. -/
def entryRank (entry : Float × Bytes) : (ℤ ×ₗ ℤ ×ₗ ℤ) ×ₗ Bytes := toLex (rank entry.1, entry.2)

/-- Every score is a number. -/
def Numbers (sets : List (Float × Bytes)) : Prop := ∀ entry ∈ sets, entry.1.isNaN = false

theorem scoreLess_iff {a b : Float × Bytes} (left : a.1.isNaN = false) (right : b.1.isNaN = false) :
    scoreLess a b = true ↔ entryRank a < entryRank b := by
  rw [scoreLess, Bool.or_eq_true, decide_eq_true_iff, Bool.and_eq_true, decide_eq_true_iff,
    lt_iff_rank left right, beq_iff_rank left right, entryRank, entryRank, Prod.Lex.toLex_lt_toLex]

/-- Only numbers are less than one another. -/
theorem numbers_of_scoreLess {a b : Float × Bytes} (less : scoreLess a b = true) :
    a.1.isNaN = false ∧ b.1.isNaN = false := by
  rw [scoreLess, Bool.or_eq_true, Bool.and_eq_true] at less
  rcases less with less | ⟨same, -⟩
  · exact numbers_of_lt (of_decide_eq_true less)
  · exact numbers_of_beq same

theorem scoreLess_irrefl (a : Float × Bytes) : scoreLess a a = false := by
  refine Bool.eq_false_iff.mpr fun less => ?_
  obtain ⟨number, -⟩ := numbers_of_scoreLess less
  exact lt_irrefl _ ((scoreLess_iff number number).mp less)

theorem scoreLess_trans {a b c : Float × Bytes} (first : scoreLess a b = true)
    (second : scoreLess b c = true) : scoreLess a c = true := by
  obtain ⟨left, middle⟩ := numbers_of_scoreLess first
  obtain ⟨-, right⟩ := numbers_of_scoreLess second
  rw [scoreLess_iff left middle] at first
  rw [scoreLess_iff middle right] at second
  exact (scoreLess_iff left right).mpr (first.trans second)

theorem scoreTied_iff {a b : Float × Bytes} :
    scoreTied a b = true ↔ scoreLess a b = false ∧ scoreLess b a = false := by
  rw [scoreTied, Bool.and_eq_true, Bool.not_eq_true', Bool.not_eq_true']

/-- Numbers are tied where they have one place. -/
theorem scoreTied_iff_rank {a b : Float × Bytes} (left : a.1.isNaN = false)
    (right : b.1.isNaN = false) : scoreTied a b = true ↔ entryRank a = entryRank b := by
  rw [scoreTied_iff, ← Bool.not_eq_true, ← Bool.not_eq_true, scoreLess_iff left right,
    scoreLess_iff right left, not_lt, not_lt]
  exact ⟨fun both => le_antisymm both.2 both.1, fun same => ⟨same.ge, same.le⟩⟩

/-- A not-a-number is tied with everything. -/
theorem scoreTied_nan {a b : Float × Bytes} (nan : a.1.isNaN = true) :
    scoreTied a b = true ∧ scoreTied b a = true := by
  have before : scoreLess a b = false := Bool.eq_false_iff.mpr fun less => by
    rw [(numbers_of_scoreLess less).1] at nan
    cases nan
  have behind : scoreLess b a = false := Bool.eq_false_iff.mpr fun less => by
    rw [(numbers_of_scoreLess less).2] at nan
    cases nan
  exact ⟨scoreTied_iff.mpr ⟨before, behind⟩, scoreTied_iff.mpr ⟨behind, before⟩⟩

namespace SortedSet

/-- What is left to ask of an order that is strict: ties are transitive. -/
theorem comparable_iff {entries : List (Float × Bytes)} : comparable entries = true ↔
    ∀ a ∈ entries, ∀ b ∈ entries, ∀ c ∈ entries, scoreTied a b = true → scoreTied b c = true →
      scoreTied a c = true := by
  rw [comparable, List.all_eq_true]
  constructor
  · intro all a first b second c third before behind
    have one := all a first
    rw [Bool.and_eq_true, List.all_eq_true] at one
    have two := List.all_eq_true.mp (one.2 b second) c third
    rw [Bool.and_eq_true, before, behind] at two
    exact two.2
  · intro ties a first
    rw [Bool.and_eq_true, scoreLess_irrefl]
    refine ⟨rfl, List.all_eq_true.mpr fun b second => List.all_eq_true.mpr fun c third => ?_⟩
    rw [Bool.and_eq_true, Bool.or_eq_true, Bool.or_eq_true, Bool.not_eq_true', Bool.not_eq_true']
    refine ⟨?_, ?_⟩
    · cases both : scoreLess a b && scoreLess b c with
      | false => exact .inl rfl
      | true =>
        rw [Bool.and_eq_true] at both
        exact .inr (scoreLess_trans both.1 both.2)
    · cases both : scoreTied a b && scoreTied b c with
      | false => exact .inl rfl
      | true =>
        rw [Bool.and_eq_true] at both
        exact .inr (ties a first b second c third both.1 both.2)

theorem comparable_numbers {entries : List (Float × Bytes)} (numbers : Numbers entries) :
    comparable entries = true := by
  refine comparable_iff.mpr fun a first b second c third before behind => ?_
  rw [scoreTied_iff_rank (numbers a first) (numbers b second)] at before
  rw [scoreTied_iff_rank (numbers b second) (numbers c third)] at behind
  exact (scoreTied_iff_rank (numbers a first) (numbers c third)).mpr (before.trans behind)

/-- Among two entries, ties cannot go wrong. -/
theorem comparable_pair {entry : Float × Bytes} {sets : List (Float × Bytes)}
    (few : sets.length ≤ 1) : comparable (entry :: sets) = true := by
  have tied (one : Float × Bytes) : scoreTied one one = true :=
    scoreTied_iff.mpr ⟨scoreLess_irrefl one, scoreLess_irrefl one⟩
  refine comparable_iff.mpr fun a first b second c third before behind => ?_
  cases sets with
  | nil =>
    rw [List.mem_singleton.mp first, List.mem_singleton.mp third]
    exact tied entry
  | cons other rest =>
    obtain rfl := List.eq_nil_of_length_eq_zero (Nat.le_zero.mp (Nat.le_of_succ_le_succ few))
    -- of three entries, two are the same
    rcases List.mem_pair.mp first with rfl | rfl <;> rcases List.mem_pair.mp third with rfl | rfl
    · exact tied _
    · rcases List.mem_pair.mp second with rfl | rfl
      · exact behind
      · exact before
    · rcases List.mem_pair.mp second with rfl | rfl
      · exact before
      · exact behind
    · exact tied _

theorem insertEntry_place {entry : Float × Bytes} {sets : List (Float × Bytes)}
    (number : entry.1.isNaN = false) (numbers : Numbers sets)
    (ordered : sets.Pairwise fun a b => entryRank a < entryRank b)
    (absent : ∀ other ∈ sets, entryRank other ≠ entryRank entry) :
    ∃ front back, sets = front ++ back ∧ insertEntry entry sets = front ++ entry :: back ∧
      (∀ other ∈ front, entryRank other < entryRank entry) ∧
      (∀ other ∈ back, entryRank entry < entryRank other) := by
  induction sets with
  | nil => exact ⟨[], [], rfl, rfl, by simp, by simp⟩
  | cons head rest ih =>
    have headNumber := numbers head List.mem_cons_self
    obtain ⟨above, ordered⟩ := List.pairwise_cons.mp ordered
    rcases lt_trichotomy (entryRank entry) (entryRank head) with less | same | greater
    · refine ⟨[], head :: rest, rfl, ?_, by simp, ?_⟩
      · rw [insertEntry, if_pos ((scoreLess_iff number headNumber).mpr less)]
        rfl
      · intro other member
        rcases List.mem_cons.mp member with rfl | member
        · exact less
        · exact less.trans (above other member)
    · exact absurd same.symm (absent head List.mem_cons_self)
    · obtain ⟨front, back, split, placed, below, beyond⟩ :=
        ih (fun other member => numbers other (List.mem_cons_of_mem _ member)) ordered
          (fun other member => absent other (List.mem_cons_of_mem _ member))
      refine ⟨head :: front, back, by rw [split]; rfl, ?_, ?_, beyond⟩
      · have notLess : ¬ scoreLess entry head = true := by
          rw [scoreLess_iff number headNumber]
          exact not_lt_of_gt greater
        rw [insertEntry, if_neg notLess, if_pos ((scoreLess_iff headNumber number).mpr greater),
          placed]
        rfl
      · intro other member
        rcases List.mem_cons.mp member with rfl | member
        · exact greater
        · exact below other member

theorem eraseEntry_middle {entry : Float × Bytes} {front back : List (Float × Bytes)}
    (numbers : Numbers (front ++ entry :: back))
    (ordered : (front ++ entry :: back).Pairwise fun a b => entryRank a < entryRank b) :
    eraseEntry entry (front ++ entry :: back) = front ++ back := by
  induction front with
  | nil =>
    have number := numbers entry List.mem_cons_self
    have notLess : ¬ scoreLess entry entry = true := by
      rw [scoreLess_iff number number]
      exact lt_irrefl _
    rw [List.nil_append, eraseEntry, if_neg notLess, if_neg notLess]
    rfl
  | cons head front ih =>
    have member : entry ∈ front ++ entry :: back := by simp
    have number := numbers entry (List.mem_cons_of_mem _ member)
    have headNumber := numbers head List.mem_cons_self
    obtain ⟨above, ordered⟩ := List.pairwise_cons.mp ordered
    have notLess : ¬ scoreLess entry head = true := by
      rw [scoreLess_iff number headNumber]
      exact not_lt_of_gt (above entry member)
    rw [List.cons_append, eraseEntry, if_neg notLess,
      if_pos ((scoreLess_iff headNumber number).mpr (above entry member)),
      ih (fun other member => numbers other (List.mem_cons_of_mem _ member)) ordered]
    rfl

/-- The indexes hold the same pairs, ordered in one of them, and are counted. -/
structure Consistent (set : SortedSet) : Prop where
  numbers : Numbers set.sets
  ordered : set.sets.Pairwise fun a b => entryRank a < entryRank b
  agree : ∀ score member, (score, member) ∈ set.sets ↔ set.hashMap.lookup member = some score
  counted : set.length = u64 set.sets.length

theorem new_consistent (isGeo : Bool) : Consistent { new with isGeo := isGeo } where
  numbers := by simp [Numbers, new]
  ordered := .nil
  agree score member := by simp [new]
  counted := rfl

/-- The flag is in neither index. -/
theorem Consistent.flagged {set : SortedSet} (consistent : set.Consistent) (isGeo : Bool) :
    Consistent { set with isGeo := isGeo } :=
  ⟨consistent.numbers, consistent.ordered, consistent.agree, consistent.counted⟩

/-- A pair held about a member is the only one about it. -/
theorem Consistent.unique {set : SortedSet} (consistent : set.Consistent)
    {a b : Float × Bytes} (left : a ∈ set.sets) (right : b ∈ set.sets) (same : a.2 = b.2) :
    a = b := by
  have first := (consistent.agree a.1 a.2).mp left
  have second := (consistent.agree b.1 b.2).mp right
  rw [same, second] at first
  exact Prod.ext (Option.some.inj first).symm same

/-- No two pairs are about one member. -/
theorem Consistent.members_nodup {set : SortedSet} (consistent : set.Consistent) :
    (set.sets.map Prod.snd).Nodup := by
  rw [List.Nodup, List.pairwise_map]
  refine consistent.ordered.imp_of_mem fun {a b} left right less same => ?_
  rw [consistent.unique left right same] at less
  exact lt_irrefl _ less

/-- As many members are in the one index as in the other. -/
theorem Consistent.keys_card {set : SortedSet} (consistent : set.Consistent) :
    set.hashMap.keys.card = set.sets.length := by
  have members : set.hashMap.keys = (set.sets.map Prod.snd).toFinset := by
    ext member
    rw [Finmap.mem_keys, ← Finmap.lookup_isSome, Option.isSome_iff_exists, List.mem_toFinset,
      List.mem_map]
    constructor
    · rintro ⟨score, lookup⟩
      exact ⟨(score, member), (consistent.agree score member).mpr lookup, rfl⟩
    · rintro ⟨entry, held, rfl⟩
      exact ⟨entry.1, (consistent.agree entry.1 entry.2).mp held⟩
  rw [members, List.toFinset_card_of_nodup consistent.members_nodup, List.length_map]

/-- Among numbers, a number can be looked up. -/
theorem Consistent.guarded {set : SortedSet} (consistent : set.Consistent) {score : Float}
    (number : score.isNaN = false) (member : Bytes) (result : α) :
    SortedSet.guarded set.sets (score, member) result = .ok result := by
  have numbers : Numbers ((score, member) :: set.sets) := fun other held => by
    rcases List.mem_cons.mp held with rfl | held
    · exact number
    · exact consistent.numbers other held
  rw [SortedSet.guarded, if_pos (comparable_numbers numbers)]

/-- The set without one of its members. -/
private def without (set : SortedSet) (member : Bytes) (score : Float) : SortedSet :=
  { set with
    hashMap := set.hashMap.erase member, sets := eraseEntry (score, member) set.sets,
    length := sub64 set.length 1 }

private theorem Consistent.without {set : SortedSet} (consistent : set.Consistent)
    {member : Bytes} {score : Float} (lookup : set.hashMap.lookup member = some score) :
    (set.without member score).Consistent ∧
      (set.without member score).sets.length + 1 = set.sets.length := by
  have held := (consistent.agree score member).mpr lookup
  obtain ⟨front, back, split⟩ := List.append_of_mem held
  have numbers := consistent.numbers
  have ordered := consistent.ordered
  have nodup := consistent.members_nodup
  have agree := consistent.agree
  rw [split] at numbers ordered nodup agree
  have erased : (set.without member score).sets = front ++ back := by
    have middle := eraseEntry_middle numbers ordered
    rwa [← split] at middle
  have keeps : (front ++ back).Sublist (front ++ (score, member) :: back) :=
    (List.sublist_cons_self _ back).append_left front
  have gone : member ∉ (front ++ back).map Prod.snd := by
    rw [List.map_append, List.map_cons, List.nodup_middle, List.nodup_cons] at nodup
    rw [List.map_append]
    exact nodup.1
  constructor
  · constructor
    · intro entry held
      rw [erased] at held
      exact numbers entry (keeps.subset held)
    · rw [erased]
      exact ordered.sublist keeps
    · intro s m
      rw [erased]
      by_cases same : m = member
      · subst same
        have missing : (set.without m score).hashMap.lookup m = none := Finmap.lookup_erase m _
        rw [missing]
        constructor
        · intro held
          exact absurd (List.mem_map.mpr ⟨(s, m), held, rfl⟩) gone
        · intro impossible
          cases impossible
      · have kept : (set.without member score).hashMap.lookup m = set.hashMap.lookup m :=
          Finmap.lookup_erase_ne same
        rw [kept, ← agree s m, List.mem_append, List.mem_append, List.mem_cons]
        have other : (s, m) ≠ (score, member) := fun pair => same (congrArg Prod.snd pair)
        simp only [other, false_or]
    · have before := consistent.counted
      rw [split] at before
      rw [erased]
      show sub64 set.length 1 = _
      rw [before]
      simp only [List.length_append, List.length_cons, sub64, u64]
      omega
  · rw [erased, split]
    simp only [List.length_append, List.length_cons]
    omega

/-- The set with one member more. -/
private def including (set : SortedSet) (member : Bytes) (score : Float) : SortedSet :=
  { set with
    hashMap := set.hashMap.insert member score, sets := insertEntry (score, member) set.sets,
    length := u64 (set.length + 1) }

private theorem Consistent.including {set : SortedSet} (consistent : set.Consistent)
    {member : Bytes} {score : Float} (missing : set.hashMap.lookup member = none)
    (number : score.isNaN = false) :
    (set.including member score).Consistent ∧
      (set.including member score).sets.length = set.sets.length + 1 := by
  have absent : ∀ other ∈ set.sets, other.2 ≠ member := by
    rintro ⟨s, m⟩ held rfl
    rw [(consistent.agree s m).mp held] at missing
    cases missing
  obtain ⟨front, back, split, placed, below, beyond⟩ :=
    @insertEntry_place (score, member) _ number consistent.numbers consistent.ordered
      fun other held same => absent other held (congrArg (fun place => (ofLex place).2) same)
  have placed : (set.including member score).sets = front ++ (score, member) :: back := placed
  have agree := consistent.agree
  have ordered := consistent.ordered
  have numbers := consistent.numbers
  rw [split] at agree ordered numbers absent
  constructor
  · constructor
    · intro entry held
      rw [placed, List.mem_append, List.mem_cons] at held
      rcases held with held | rfl | held
      · exact numbers entry (List.mem_append_left _ held)
      · exact number
      · exact numbers entry (List.mem_append_right _ held)
    · obtain ⟨first, second, across⟩ := List.pairwise_append.mp ordered
      rw [placed]
      refine List.pairwise_append.mpr ⟨first, List.pairwise_cons.mpr ⟨beyond, second⟩, ?_⟩
      intro a left b right
      rcases List.mem_cons.mp right with rfl | right
      · exact below a left
      · exact across a left b right
    · intro s m
      rw [placed, List.mem_append, List.mem_cons]
      by_cases same : m = member
      · subst same
        have found : (set.including m score).hashMap.lookup m = some score :=
          Finmap.lookup_insert _
        rw [found, Option.some.injEq]
        constructor
        · rintro (held | pair | held)
          · exact absurd rfl (absent _ (List.mem_append_left _ held))
          · exact (congrArg Prod.fst pair).symm
          · exact absurd rfl (absent _ (List.mem_append_right _ held))
        · rintro rfl
          exact .inr (.inl rfl)
      · have kept : (set.including member score).hashMap.lookup m = set.hashMap.lookup m :=
          Finmap.lookup_insert_of_ne _ same
        have other : (s, m) ≠ (score, member) := fun pair => same (congrArg Prod.snd pair)
        rw [kept, ← agree s m, List.mem_append]
        simp only [other, false_or]
    · have before := consistent.counted
      rw [split] at before
      rw [placed]
      show u64 (set.length + 1) = _
      rw [before]
      simp only [List.length_append, List.length_cons, u64]
      omega
  · rw [placed, split]
    simp only [List.length_append, List.length_cons]
    omega

/-- `remove` takes the member out of both indexes, when it is there. -/
theorem Consistent.remove {set : SortedSet} (consistent : set.Consistent) (member : Bytes) :
    ∃ set' : SortedSet, set.remove member = .ok (set', (set.score member).isSome) ∧
      set'.Consistent ∧ set'.hashMap = set.hashMap.erase member ∧ set'.isGeo = set.isGeo ∧
      set'.sets.length + (if (set.score member).isSome then 1 else 0) = set.sets.length := by
  rw [score, SortedSet.remove]
  cases lookup : set.hashMap.lookup member with
  | none =>
    have same : set.hashMap.erase member = set.hashMap := by
      refine Finmap.ext_lookup fun other => ?_
      by_cases equal : other = member
      · subst equal
        rw [Finmap.lookup_erase, lookup]
      · rw [Finmap.lookup_erase_ne equal]
    exact ⟨set, rfl, consistent, same.symm, rfl, rfl⟩
  | some old =>
    have number := consistent.numbers _ ((consistent.agree old member).mpr lookup)
    obtain ⟨after, size⟩ := consistent.without lookup
    refine ⟨set.without member old, ?_, after, rfl, rfl, size⟩
    simp only [consistent.guarded number]
    rfl

/-- `insert` binds the member in both indexes and tells whether it was there. -/
theorem Consistent.insert {set : SortedSet} (consistent : set.Consistent) (member : Bytes)
    {score : Float} (number : score.isNaN = false) :
    ∃ set' : SortedSet, set.insert member score = .ok (set', (set.score member).isSome) ∧
      set'.Consistent ∧ (∀ other, set'.score other =
        if other = member then some score else set.score other) ∧ set'.isGeo = set.isGeo ∧
      set'.sets.length = set.sets.length + if (set.score member).isSome then 0 else 1 := by
  rw [SortedSet.score, SortedSet.insert]
  cases lookup : set.hashMap.lookup member with
  | none =>
    obtain ⟨after, size⟩ := consistent.including lookup number
    refine ⟨set.including member score, ?_, after, ?_, rfl, size⟩
    · simp only [pure_bind, consistent.guarded number]
      rfl
    · intro other
      split
      · subst other
        exact Finmap.lookup_insert _
      · exact Finmap.lookup_insert_of_ne _ ‹_›
  | some old =>
    have oldNumber := consistent.numbers _ ((consistent.agree old member).mpr lookup)
    obtain ⟨between, shorter⟩ := consistent.without lookup
    obtain ⟨after, size⟩ := between.including (Finmap.lookup_erase member _) number
    refine ⟨(set.without member old).including member score, ?_, after, ?_, rfl, ?_⟩
    · simp only [consistent.guarded oldNumber, exec_ok_bind]
      show (SortedSet.guarded (set.without member old).sets (score, member) _ >>= _ : Exec _) = _
      rw [between.guarded number]
      rfl
    · intro other
      split
      · subst other
        exact Finmap.lookup_insert _
      · rw [SortedSet.score, SortedSet.score]
        exact (Finmap.lookup_insert_of_ne _ ‹_›).trans (Finmap.lookup_erase_ne ‹_›)
    · rw [size, shorter]
      rfl

/-! ## Any calls -/

/-- A call that changes a sorted set. -/
inductive Call
  | insert (member : Bytes) (score : Float)
  | remove (member : Bytes)

/-- The member a call is about. -/
def Call.member : Call → Bytes
  | .insert member _ | .remove member => member

/-- The score a call binds its member to. -/
def Call.score : Call → Option Float
  | .insert _ score => some score
  | .remove _ => none

/-- A call that brings no score other than a number. -/
def Call.isNumber (call : Call) : Bool := call.score.all fun score => !score.isNaN

def call (set : SortedSet) : Call → Exec (SortedSet × Bool)
  | .insert member score => set.insert member score
  | .remove member => set.remove member

/-- The set after calls in order. -/
def run (set : SortedSet) : List Call → Exec SortedSet
  | [] => pure set
  | next :: rest => do
    let (set, _) ← set.call next
    set.run rest

/-- What the last call about a member left it at: the score of an `insert`
that no `remove` follows. -/
def lastScore (calls : List Call) (member : Bytes) : Option Float :=
  (calls.reverse.find? fun call => call.member == member).bind Call.score

theorem Consistent.call {set : SortedSet} (consistent : set.Consistent) {next : Call}
    (number : next.isNumber) :
    ∃ set' : SortedSet, set.call next = .ok (set', (set.score next.member).isSome) ∧
      set'.Consistent ∧ set'.isGeo = set.isGeo ∧
      ∀ other, set'.score other = if other = next.member then next.score else set.score other := by
  cases next with
  | insert member score =>
    obtain ⟨set', ran, after, scores, flag, _⟩ := consistent.insert member ((Bool.not_eq_true' _).mp number)
    exact ⟨set', ran, after, flag, scores⟩
  | remove member =>
    obtain ⟨set', ran, after, map, flag, _⟩ := consistent.remove member
    refine ⟨set', ran, after, flag, fun other => ?_⟩
    rw [SortedSet.score, map]
    split
    · subst other
      exact Finmap.lookup_erase member _
    · exact Finmap.lookup_erase_ne ‹_›

theorem run_append (set : SortedSet) (first second : List Call) :
    set.run (first ++ second) = set.run first >>= fun set => set.run second := by
  induction first generalizing set with
  | nil => rfl
  | cons next rest ih =>
    simp only [List.cons_append, run, bind_assoc, ih]

/-- Calls that bring only numbers all complete, and what they leave is
consistent and holds the last score of every member. -/
theorem run_consistent (calls : List Call) (numbers : ∀ call ∈ calls, call.isNumber) :
    ∃ set, new.run calls = .ok set ∧ set.Consistent ∧
      ∀ member, set.score member = lastScore calls member := by
  induction calls using List.reverseRecOn with
  | nil => exact ⟨new, rfl, new_consistent false, fun member => by rfl⟩
  | append_singleton front next ih =>
    obtain ⟨set, ran, consistent, scores⟩ :=
      ih fun call member => numbers call (List.mem_append_left _ member)
    obtain ⟨set', called, after, _, changed⟩ :=
      consistent.call (numbers next (by simp))
    refine ⟨set', ?_, after, fun member => ?_⟩
    · rw [run_append, ran]
      show (set.call next >>= fun result => result.1.run []) = _
      rw [called]
      rfl
    · rw [changed, lastScore, List.reverse_append, List.reverse_singleton, List.singleton_append]
      by_cases same : member = next.member
      · rw [if_pos same, List.find?_cons_of_pos (by rw [same]; exact BEq.rfl)]
        rfl
      · rw [if_neg same, List.find?_cons_of_neg (by rw [beq_iff_eq]; exact Ne.symm same)]
        exact scores member

/-- The flag takes no part in a call. -/
theorem call_flagged (set : SortedSet) (isGeo : Bool) (next : Call) :
    ({ set with isGeo := isGeo } : SortedSet).call next =
      set.call next >>= fun result => pure ({ result.1 with isGeo := isGeo }, result.2) := by
  cases next with
  | insert member score =>
    simp only [call, SortedSet.insert]
    cases set.hashMap.lookup member with
    | none => simp only [pure_bind, bind_assoc]
    | some old => simp only [pure_bind, bind_assoc]
  | remove member =>
    simp only [call, SortedSet.remove]
    cases set.hashMap.lookup member with
    | none => simp only [pure_bind]
    | some old => simp only [pure_bind, bind_assoc]

theorem run_flagged (set : SortedSet) (isGeo : Bool) (calls : List Call) :
    ({ set with isGeo := isGeo } : SortedSet).run calls =
      set.run calls >>= fun set => pure { set with isGeo := isGeo } := by
  induction calls generalizing set with
  | nil => rfl
  | cons next rest ih => simp only [run, call_flagged, bind_assoc, pure_bind, ih]

end SortedSet

end CarrotDb
