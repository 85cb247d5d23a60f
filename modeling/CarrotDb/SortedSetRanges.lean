import CarrotDb.SortedSetProofs
import CarrotDb.ListRanges

/-! Positions in a sorted set. A range names the members by position in the
order of score and member, and a rank is the position at which the range of
one finds the member. -/
namespace CarrotDb
open FloatOrder

/-- The range of one position. -/
theorem rangeOf_single (xs : List Bytes) (i : Nat) : rangeOf xs i i = xs[i]?.toList := by
  have whole : fromEnd xs.length (i : Int) = i := if_neg (by omega)
  rw [rangeOf_eq, whole]
  by_cases inside : i < xs.length
  · have width : (min ((xs.length : Int) - 1) i + 1).toNat - (max 0 (i : Int)).toNat = 1 := by omega
    have start : (max 0 (i : Int)).toNat = i := by omega
    rw [width, start, List.take_one, List.head?_drop]
  · rw [List.getElem?_eq_none (by omega), List.drop_eq_nil_of_le (by omega), List.take_nil]
    rfl

namespace SortedSet

/-- The rewriting of the bounds finds the interval of positions. -/
theorem range_eq (set : SortedSet) (start stop : Int) :
    set.range start stop = rangeOf (set.sets.map Prod.snd) start stop := by
  rw [rangeOf_eq, List.length_map, range]
  by_cases empty : set.sets.length = 0
  · rw [if_pos (by omega), List.eq_nil_of_length_eq_zero empty]
    simp
  · rw [if_neg (by omega)]
    generalize size : set.sets.length = n at empty ⊢
    -- The two bounds as the rewriting leaves them.
    show (let first := if fromEnd n start < 0 then 0 else fromEnd n start
      let last := if fromEnd n stop ≥ n then (n : Int) - 1 else fromEnd n stop
      if first > last then []
      else ((set.sets.drop first.toNat).take (last - first + 1).toNat).map Prod.snd) = _
    have first : (if fromEnd n start < 0 then 0 else fromEnd n start) = max 0 (fromEnd n start) := by
      split <;> omega
    have last : (if fromEnd n stop ≥ n then (n : Int) - 1 else fromEnd n stop) =
        min ((n : Int) - 1) (fromEnd n stop) := by
      split <;> omega
    rw [first, last]
    have positive : 0 ≤ max 0 (fromEnd n start) := le_max_left _ _
    generalize max 0 (fromEnd n start) = a at positive
    generalize min ((n : Int) - 1) (fromEnd n stop) = b
    dsimp only
    split
    · have none : (b + 1).toNat - a.toNat = 0 := by omega
      rw [none, List.take_zero]
    · have width : (b - a + 1).toNat = (b + 1).toNat - a.toNat := by omega
      rw [width, List.map_take, List.map_drop]

variable {set : SortedSet}

/-- Two entries of an ordered index are equivalent only at one place. -/
private theorem Consistent.same_place (consistent : set.Consistent) {i j : Nat}
    (left : i < set.sets.length) (right : j < set.sets.length)
    (same : entryRank set.sets[i] = entryRank set.sets[j]) : i = j := by
  have ordered := List.pairwise_iff_getElem.mp consistent.ordered
  rcases lt_trichotomy i j with before | here | behind
  · exact absurd same (ordered i j left right before).ne
  · exact here
  · exact absurd same (ordered j i right left behind).ne'

/-- In an ordered index, an entry is found where it stands. -/
theorem Consistent.findEntry_iff (consistent : set.Consistent) {entry : Float × Bytes}
    (held : entry ∈ set.sets) (i : Nat) :
    findEntry entry set.sets = some i ↔ set.sets[i]? = some entry := by
  have number := consistent.numbers entry held
  obtain ⟨j, inside, rfl⟩ := List.getElem_of_mem held
  -- The search stops at the first entry that neither precedes nor follows.
  have stops : ∀ k (below : k < set.sets.length),
      scoreTied set.sets[j] set.sets[k] = true ↔ k = j := by
    intro k below
    rw [scoreTied_iff_rank number (consistent.numbers _ (List.getElem_mem below))]
    constructor
    · exact fun same => consistent.same_place below inside same.symm
    · rintro rfl
      rfl
  have found : findEntry set.sets[j] set.sets = some j := by
    rw [findEntry, List.findIdx?_eq_some_iff_getElem]
    refine ⟨inside, (stops j inside).mpr rfl, fun k below => ?_⟩
    rw [stops k (below.trans inside)]
    exact below.ne
  rw [found, List.getElem?_eq_some_iff]
  constructor
  · rintro ⟨⟩
    exact ⟨inside, rfl⟩
  · rintro ⟨below, same⟩
    rw [consistent.same_place below inside (congrArg entryRank same)]

/-- The rank of a member is the position of its pair. -/
theorem Consistent.rank_iff (consistent : set.Consistent) (member : Bytes) (i : Nat) :
    set.rank member = .ok (some i) ↔ (set.sets.map Prod.snd)[i]? = some member := by
  rw [rank, List.getElem?_map, Option.map_eq_some_iff]
  cases lookup : set.hashMap.lookup member with
  | none =>
    simp only [exec_pure, Except.ok.injEq, reduceCtorEq, false_iff]
    rintro ⟨entry, place, rfl⟩
    have held := (consistent.agree entry.1 entry.2).mp (List.mem_of_getElem? place)
    rw [lookup] at held
    cases held
  | some score =>
    have held := (consistent.agree score member).mpr lookup
    have number : score.isNaN = false := consistent.numbers (score, member) held
    dsimp only
    rw [consistent.guarded number, Except.ok.injEq]
    rw [consistent.findEntry_iff held]
    constructor
    · intro place
      exact ⟨_, place, rfl⟩
    · rintro ⟨entry, place, rfl⟩
      have found : entry ∈ set.sets := List.mem_of_getElem? place
      have same : entry = (score, entry.2) := consistent.unique found held rfl
      exact place.trans (congrArg some same)

/-- After any calls with numbers as scores there is one order of the members
left, by score and then by member, that ranges and ranks both count in. -/
theorem run_ranges (calls : List Call) (numbers : ∀ call ∈ calls, call.isNumber) :
    ∃ (set : SortedSet) (entries : List (Float × Bytes)), new.run calls = .ok set ∧
      entries.Pairwise (fun a b => scoreLess a b = true) ∧
      (∀ score member, (score, member) ∈ entries ↔ lastScore calls member = some score) ∧
      (∀ start stop, set.range start stop = rangeOf (entries.map Prod.snd) start stop) ∧
      ∀ member (i : Nat), set.rank member = .ok (some i) ↔ set.range i i = [member] := by
  obtain ⟨set, ran, consistent, scores⟩ := run_consistent calls numbers
  refine ⟨set, set.sets, ran, ?_, ?_, range_eq set, ?_⟩
  · refine consistent.ordered.imp_of_mem fun {a b} left right less => ?_
    exact (scoreLess_iff (consistent.numbers a left) (consistent.numbers b right)).mpr less
  · intro score member
    rw [consistent.agree, ← scores]
    rfl
  · intro member i
    rw [consistent.rank_iff, range_eq, rangeOf_single]
    cases (set.sets.map Prod.snd)[i]? <;> simp

/-- Two members with one score, and a third that is gone. -/
def tiedCalls : List Call :=
  [.insert (ascii "b") 1, .insert (ascii "c") 0, .insert (ascii "a") 1, .remove (ascii "c")]

theorem run_ranges_tied :
    ∃ set : SortedSet, new.run tiedCalls = .ok set ∧
      ∀ member (i : Nat), set.rank member = .ok (some i) ↔ set.range i i = [member] := by
  have numbers : ∀ call ∈ tiedCalls, call.isNumber := by decide +kernel
  obtain ⟨set, _, ran, _, _, _, ranks⟩ := run_ranges tiedCalls numbers
  exact ⟨set, ran, ranks⟩

end SortedSet

end CarrotDb
