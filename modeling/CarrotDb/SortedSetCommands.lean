import CarrotDb.DbSortedSets
import CarrotDb.SortedSetProofs
import Mathlib

/-! What ZADD and ZREM report is what ZCARD grows and shrinks by. -/
namespace CarrotDb
open Resp SortedSet

/-- The calls of the loop of `handle_zadd`. -/
def insertions (scoreMembers : List (Float × Bytes)) : List Call :=
  scoreMembers.map fun entry => .insert entry.2 entry.1

/-- The calls of the loop of `handle_zrem`. -/
def removals (members : List Bytes) : List Call := members.map .remove

theorem insertions_number {scoreMembers : List (Float × Bytes)} (numbers : Numbers scoreMembers) :
    ∀ call ∈ insertions scoreMembers, call.isNumber := by
  intro call held
  obtain ⟨entry, entered, rfl⟩ := List.mem_map.mp held
  exact (Bool.not_eq_true' _).mpr (numbers entry entered)

theorem removals_number (members : List Bytes) : ∀ call ∈ removals members, call.isNumber := by
  intro call held
  obtain ⟨member, _, rfl⟩ := List.mem_map.mp held
  rfl

/-- Every member that is counted is one more pair. -/
theorem zaddMembers_counts {set : SortedSet} (consistent : set.Consistent)
    {scoreMembers : List (Float × Bytes)} (numbers : Numbers scoreMembers) (counted : Nat) :
    ∃ (set' : SortedSet) (added : Nat),
      zaddMembers set scoreMembers counted = .ok (set', counted + added) ∧
      set.run (insertions scoreMembers) = .ok set' ∧
      set'.sets.length = set.sets.length + added := by
  induction scoreMembers generalizing set counted with
  | nil => exact ⟨set, 0, rfl, rfl, rfl⟩
  | cons entry rest ih =>
    obtain ⟨score, member⟩ := entry
    have number : score.isNaN = false := numbers (score, member) List.mem_cons_self
    obtain ⟨next, inserted, after, _, _, size⟩ := consistent.insert member number
    obtain ⟨set', added, looped, ran, grown⟩ := ih after
      (fun other held => numbers other (List.mem_cons_of_mem _ held))
      (if (set.score member).isSome then counted else counted + 1)
    refine ⟨set', added + (if (set.score member).isSome then 0 else 1), ?_, ?_, ?_⟩
    · rw [zaddMembers, inserted, exec_ok_bind]
      refine looped.trans ?_
      split <;> simp only [Nat.add_comm, Nat.add_left_comm, Nat.add_zero]
    · show (set.insert member score >>= fun result => result.1.run (insertions rest)) = _
      rw [inserted]
      exact ran
    · rw [grown, size, Nat.add_assoc, Nat.add_comm added]

/-- Every member that is counted is one pair less. -/
theorem zremMembers_counts {set : SortedSet} (consistent : set.Consistent) (members : List Bytes)
    (counted : Nat) :
    ∃ (set' : SortedSet) (removed : Nat),
      zremMembers set members counted = .ok (set', counted + removed) ∧
      set.run (removals members) = .ok set' ∧
      set.sets.length = set'.sets.length + removed := by
  induction members generalizing set counted with
  | nil => exact ⟨set, 0, rfl, rfl, rfl⟩
  | cons member rest ih =>
    obtain ⟨next, taken, after, _, _, size⟩ := consistent.remove member
    obtain ⟨set', removed, looped, ran, shrunk⟩ := ih after
      (if (set.score member).isSome then counted + 1 else counted)
    refine ⟨set', removed + (if (set.score member).isSome then 1 else 0), ?_, ?_, ?_⟩
    · rw [zremMembers, taken, exec_ok_bind]
      refine looped.trans ?_
      split <;> simp only [Nat.add_comm, Nat.add_left_comm, Nat.add_zero]
    · show (set.remove member >>= fun result => result.1.run (removals rest)) = _
      rw [taken]
      exact ran
    · rw [← size, shrunk, Nat.add_assoc]

/-- Nothing is removed from a new set. -/
theorem run_removals_new (members : List Bytes) : SortedSet.new.run (removals members) = .ok .new := by
  induction members with
  | nil => rfl
  | cons member rest ih =>
    have taken : SortedSet.new.remove member = .ok (.new, false) := by
      rw [SortedSet.remove, show SortedSet.new.hashMap.lookup member = none from
        Finmap.lookup_empty member]
      rfl
    show (SortedSet.new.remove member >>= fun result => result.1.run (removals rest)) = _
    rw [taken]
    exact ih

/-! ## The commands -/

/-- The sorted set that the commands find under a key, a new one if nothing is
bound to it. -/
def DB.HasSortedSet (db : DB) (key : Bytes) (set : SortedSet) : Prop :=
  (db.store.lookup key = none ∧ set = .new) ∨
    ∃ redisObject, db.store.lookup key = some redisObject ∧ redisObject.type = .sortedSet ∧
      redisObject.sortedSetPtr = some set

/-- What ZCARD replies for a key. -/
def ZcardIs (db : DB) (c : Context) (key : Bytes) (size : Nat) : Prop :=
  handleZcard db { c with command := .zcard key } = replying db (encodeInteger size)

theorem DB.HasSortedSet.zcard {db : DB} {key : Bytes} {set : SortedSet}
    (holds : db.HasSortedSet key set) (c : Context) : ZcardIs db c key set.length := by
  rw [ZcardIs]
  rcases holds with ⟨missing, rfl⟩ | ⟨redisObject, found, type, pointer⟩
  · simp only [handleZcard, withSortedSet, missing]
    rfl
  · simp only [handleZcard, withSortedSet, found, type, pointer, ne_eq, not_true_eq_false, if_false,
      deref, pure_bind]
    rfl

theorem storeSortedSet_holds (db : DB) (key : Bytes) {redisObject : RedisObject}
    (type : redisObject.type = .sortedSet) (set : SortedSet) :
    (storeSortedSet db key redisObject set).HasSortedSet key set :=
  .inr ⟨_, Finmap.lookup_insert _, type, rfl⟩

/-- What is opened under the key: an object with the tag and the set. -/
theorem DB.HasSortedSet.opened {db : DB} {key : Bytes} {set : SortedSet}
    (holds : db.HasSortedSet key set) : ∃ fresh redisObject,
      openSortedSet db key = (fresh, redisObject) ∧ redisObject.type = .sortedSet ∧
        redisObject.sortedSetPtr = some set := by
  rw [openSortedSet]
  rcases holds with ⟨missing, rfl⟩ | ⟨redisObject, found, type, pointer⟩
  · rw [missing]
    exact ⟨_, _, rfl, rfl, rfl⟩
  · rw [found]
    exact ⟨db, redisObject, rfl, type, pointer⟩

/-- Only one set is found under a key. -/
theorem DB.HasSortedSet.unique {db : DB} {key : Bytes} {set set' : SortedSet}
    (holds : db.HasSortedSet key set) (other : db.HasSortedSet key set') : set = set' := by
  rcases holds with ⟨missing, rfl⟩ | ⟨redisObject, found, -, pointer⟩
  · rcases other with ⟨-, rfl⟩ | ⟨redisObject, found, -⟩
    · rfl
    · rw [missing] at found
      cases found
  · rcases other with ⟨missing, -⟩ | ⟨_, found', -, pointer'⟩
    · rw [missing] at found
      cases found
    · rw [found] at found'
      cases found'
      rw [pointer] at pointer'
      exact Option.some.inj pointer'

/-- ZADD runs its insertions and replies the number of pairs it added. -/
theorem handleZadd_counts {db : DB} {c : Context} {key : Bytes} {set : SortedSet}
    {scoreMembers : List (Float × Bytes)} (holds : db.HasSortedSet key set)
    (consistent : set.Consistent) (numbers : Numbers scoreMembers)
    (command : c.command = .zadd key scoreMembers) :
    ∃ (db' : DB) (set' : SortedSet) (added : Nat),
      handleZadd db c = replying db' (encodeInteger added) ∧ db'.HasSortedSet key set' ∧
      set.run (insertions scoreMembers) = .ok set' ∧
      set'.sets.length = set.sets.length + added := by
  obtain ⟨set', added, looped, ran, grown⟩ := zaddMembers_counts consistent numbers 0
  rw [Nat.zero_add] at looped
  obtain ⟨fresh, redisObject, opened, type, pointer⟩ := holds.opened
  refine ⟨_, set', added, ?_, storeSortedSet_holds fresh key type set', ran, grown⟩
  rw [handleZadd, command]
  simp only [opened, type, pointer, ne_eq, not_true_eq_false, if_false, deref, pure_bind,
    looped, exec_ok_bind]

/-- ZREM runs its removals and replies the number of pairs it took out. -/
theorem handleZrem_counts {db : DB} {c : Context} {key : Bytes} {set : SortedSet}
    {members : List Bytes} (holds : db.HasSortedSet key set) (consistent : set.Consistent)
    (command : c.command = .zrem key members) :
    ∃ (db' : DB) (set' : SortedSet) (removed : Nat),
      handleZrem db c = replying db' (encodeInteger removed) ∧ db'.HasSortedSet key set' ∧
      set.run (removals members) = .ok set' ∧
      set.sets.length = set'.sets.length + removed := by
  rw [handleZrem, command]
  rcases holds with ⟨missing, rfl⟩ | ⟨redisObject, found, type, pointer⟩
  · refine ⟨db, .new, 0, ?_, .inl ⟨missing, rfl⟩, run_removals_new members, rfl⟩
    simp only [missing]
    rfl
  · obtain ⟨set', removed, looped, ran, shrunk⟩ := zremMembers_counts consistent members 0
    rw [Nat.zero_add] at looped
    refine ⟨_, set', removed, ?_, storeSortedSet_holds db key type set', ran, shrunk⟩
    simp only [found, type, pointer, ne_eq, not_true_eq_false, if_false, deref, pure_bind, looped,
      exec_ok_bind]

/-- Calls from a new set on and their effect on the replies. -/
private theorem run_onto {calls more : List Call} {set set' : SortedSet} {isGeo : Bool}
    (ran : SortedSet.new.run calls = .ok set)
    (onwards : SortedSet.run { set with isGeo := isGeo } more = .ok set') :
    ∃ set'' : SortedSet, SortedSet.new.run (calls ++ more) = .ok set'' ∧
      set' = { set'' with isGeo := isGeo } := by
  rw [run_flagged, exec_bind_ok] at onwards
  obtain ⟨set'', after, flagged⟩ := onwards
  cases flagged
  refine ⟨set'', ?_, rfl⟩
  rw [run_append, ran]
  exact after

/-- After any calls whose scores are numbers the two indexes of the set hold
the same pairs, each member once, the counter is their number as a `size_t`,
and the score of a member is that of its last insertion not followed by a
removal. On such a set ZADD and ZREM reply what ZCARD grows and shrinks by. -/
theorem sorted_set_calls (calls : List Call) (numbers : ∀ call ∈ calls, call.isNumber) :
    ∃ set, SortedSet.new.run calls = .ok set ∧
      (∀ score member, (score, member) ∈ set.sets ↔ set.hashMap.lookup member = some score) ∧
      (set.sets.map Prod.snd).Nodup ∧ set.hashMap.keys.card = set.sets.length ∧
      set.length = u64 set.sets.length ∧
      (∀ member, set.score member = lastScore calls member) ∧
      ∀ (isGeo : Bool) (db : DB) (c : Context) (key : Bytes),
        db.HasSortedSet key { set with isGeo := isGeo } →
        (∀ scoreMembers, Numbers scoreMembers → c.command = .zadd key scoreMembers →
          ∃ (db' : DB) (set' : SortedSet) (added before after : Nat),
            handleZadd db c = replying db' (encodeInteger added) ∧
            SortedSet.new.run (calls ++ insertions scoreMembers) = .ok set' ∧
            db'.HasSortedSet key { set' with isGeo := isGeo } ∧
            ZcardIs db c key before ∧ ZcardIs db' c key after ∧ after = u64 (before + added)) ∧
        ∀ members, c.command = .zrem key members →
          ∃ (db' : DB) (set' : SortedSet) (removed before after : Nat),
            handleZrem db c = replying db' (encodeInteger removed) ∧
            SortedSet.new.run (calls ++ removals members) = .ok set' ∧
            db'.HasSortedSet key { set' with isGeo := isGeo } ∧
            ZcardIs db c key before ∧ ZcardIs db' c key after ∧ before = u64 (after + removed) := by
  obtain ⟨set, ran, consistent, scores⟩ := run_consistent calls numbers
  refine ⟨set, ran, consistent.agree, consistent.members_nodup, consistent.keys_card,
    consistent.counted, scores, fun isGeo db c key holds => ⟨?_, ?_⟩⟩
  · intro scoreMembers entries command
    obtain ⟨db', set', added, handled, held, onwards, grown⟩ :=
      handleZadd_counts holds (consistent.flagged isGeo) entries command
    obtain ⟨set'', whole, rfl⟩ := run_onto ran onwards
    have after : set''.Consistent := by
      obtain ⟨other, same, sound, _⟩ := run_consistent (calls ++ insertions scoreMembers)
        (fun call held => (List.mem_append.mp held).elim (numbers call)
          (insertions_number entries call))
      rw [whole] at same
      cases same
      exact sound
    refine ⟨db', set'', added, _, _, handled, whole, held, holds.zcard c, held.zcard c, ?_⟩
    rw [(after.flagged isGeo).counted, (consistent.flagged isGeo).counted, grown]
    exact (Nat.mod_add_mod _ _ _).symm
  · intro members command
    obtain ⟨db', set', removed, handled, held, onwards, shrunk⟩ :=
      handleZrem_counts holds (consistent.flagged isGeo) command
    obtain ⟨set'', whole, rfl⟩ := run_onto ran onwards
    have after : set''.Consistent := by
      obtain ⟨other, same, sound, _⟩ := run_consistent (calls ++ removals members)
        (fun call held => (List.mem_append.mp held).elim (numbers call)
          (removals_number members call))
      rw [whole] at same
      cases same
      exact sound
    refine ⟨db', set'', removed, _, _, handled, whole, held, holds.zcard c, held.zcard c, ?_⟩
    rw [(after.flagged isGeo).counted, (consistent.flagged isGeo).counted, shrunk]
    exact (Nat.mod_add_mod _ _ _).symm

/-- A member inserted twice, and another one inserted and removed. -/
theorem sorted_set_calls_sample :
    let a := ascii "a"
    let b := ascii "b"
    ∃ set, SortedSet.new.run [.insert a 1, .insert b 2, .insert a 3, .remove b] = .ok set ∧
      set.hashMap.keys.card = set.sets.length ∧ set.score a = some 3 ∧ set.score b = none := by
  obtain ⟨set, ran, _, _, card, _, scores, _⟩ :=
    sorted_set_calls [.insert (ascii "a") 1, .insert (ascii "b") 2, .insert (ascii "a") 3,
      .remove (ascii "b")] (by decide +kernel)
  exact ⟨set, ran, card, scores _, scores _⟩

end CarrotDb
