import CarrotDb.WrongTypes
import CarrotDb.PushOverflow

/-! What commands need they must have: a command that runs to an end on a
reachable database has passed every check, order and conversion that is named
for it. -/
namespace CarrotDb
open Decimal Resp FloatText Listpack

variable {db db' : DB} {c : Context} {key : Bytes} {isPrepend ndebug : Bool} {xs values : List Bytes}

theorem handleIncr_needs (runs : Runs (handleIncr db c key)) : db.Countable key := by
  intro object text value lookup tag held converted
  obtain ⟨result, ran⟩ := runs
  rw [handleIncr, lookup] at ran
  dsimp only at ran
  rw [if_pos tag, held, deref, exec_pure, exec_ok_bind, converted] at ran
  dsimp only at ran
  rw [increment] at ran
  split at ran
  · assumption
  · cases ran

/-- Pushes to a list that is there all go through. -/
theorem pushValues_pushes {start : Nat} (held : db.HoldsList key xs)
    (runs : Runs (pushValues db ndebug key isPrepend values start)) :
    Pushes ndebug isPrepend xs (values.map stored) := by
  induction values generalizing db xs start with
  | nil => trivial
  | cons value rest ih =>
    obtain ⟨result, ran⟩ := runs
    obtain ⟨⟨db₁, len₁⟩, first, ran⟩ := exec_bind_ok.mp ran
    obtain ⟨object, lp, lookup, tag, pointer, formed⟩ := held
    have listed : db.ListAt key xs := .inr ⟨object, lp, lookup, tag, pointer, formed⟩
    rcases pushValueToList_inv listed first with ⟨pushable, fits, held₁⟩ | ⟨⟨beyond, -⟩, -⟩
    · refine ⟨pushable, fits, ?_⟩
      rcases @pushValueToList_fits db key value isPrepend ndebug xs
          ⟨object, lp, lookup, tag, pointer, formed⟩ fits with ⟨db₂, len₂, again, held₂⟩ | ⟨fault, stopped, -⟩
      · rw [first] at again
        cases again
        exact ih held₂ ⟨result, ran⟩
      · rw [first] at stopped
        cases stopped
    · obtain ⟨fault, stopped, -⟩ := @pushValueToList_beyond db key value isPrepend ndebug xs
        ⟨object, lp, lookup, tag, pointer, formed⟩ beyond
      rw [first] at stopped
      cases stopped

theorem pushValues_needs {start : Nat} (sound : db.Sound) (tagged : db.Objects RedisObject.ListTagged)
    (runs : Runs (pushValues db ndebug key isPrepend values start)) :
    db.Takes ndebug isPrepend key values := by
  cases values with
  | nil => exact .inl rfl
  | cons value rest =>
    obtain ⟨result, ran⟩ := runs
    have whole := ran
    obtain ⟨⟨db₁, len₁⟩, first, ran⟩ := exec_bind_ok.mp ran
    cases lookup : db.store.lookup key with
    | none =>
      cases rest with
      | nil => exact .inr (.inl ⟨lookup, rfl⟩)
      | cons next rest =>
        have listed : db.ListAt key [] := .inl ⟨lookup, rfl⟩
        rcases pushValueToList_inv listed first with ⟨pushable, fits, held₁⟩ | ⟨-, object, bound, -, broken⟩
        · have held₂ : db₁.HoldsList key (pushed isPrepend [] (stored value)) := by
            rcases held₁ with ⟨-, empty⟩ | held
            · cases isPrepend <;> cases empty
            · exact held
          exact .inr (.inr ⟨[], listed, pushable, fits, pushValues_pushes held₂ ⟨result, ran⟩⟩)
        · obtain ⟨⟨db₂, len₂⟩, second, -⟩ := exec_bind_ok.mp ran
          rw [pushValueToList, bound] at second
          dsimp only at second
          rw [appendToExistingList, broken] at second
          obtain ⟨-, -, second⟩ := exec_bind_ok.mp second
          cases second
    | some object =>
      have pointer : ∃ lp, object.listPack = some lp := by
        cases held : object.listPack with
        | some lp => exact ⟨lp, rfl⟩
        | none =>
          rw [pushValueToList, lookup] at first
          dsimp only at first
          rw [appendToExistingList, held] at first
          obtain ⟨-, -, first⟩ := exec_bind_ok.mp first
          cases first
      obtain ⟨lp, held⟩ := pointer
      have tag := tagged key object lookup (by rw [held]; exact Option.some_ne_none _)
      obtain ⟨xs, formed, listed⟩ := listAt_of_sound sound lookup tag held
      exact .inr (.inr ⟨xs, listed, pushValues_pushes ⟨object, lp, lookup, tag, held, formed⟩
        ⟨result, whole⟩⟩)

theorem handlePush_needs (sound : db.Sound) (tagged : db.Objects RedisObject.ListTagged)
    (runs : Runs (handlePush db c isPrepend key values)) :
    db.Takes c.env.ndebug isPrepend key (keptValues (queueOf db.blockedKeys key) values) := by
  obtain ⟨result, ran⟩ := runs
  rw [keptValues]
  by_cases plain : queueOf db.blockedKeys key = [] ∨ values = []
  · rw [handlePush_plain plain] at ran
    obtain ⟨pushed, through, -⟩ := exec_bind_ok.mp ran
    have takes := pushValues_needs sound tagged ⟨pushed, through⟩
    rcases plain with idle | rfl
    · rwa [if_pos idle]
    · exact .inl (ite_self _)
  · obtain ⟨held, nonempty⟩ := not_or.mp plain
    obtain ⟨blocked, queue, waiting⟩ := List.exists_cons_of_ne_nil held
    obtain ⟨first, rest, rfl⟩ := List.exists_cons_of_ne_nil nonempty
    rw [handlePush_waiter waiting] at ran
    obtain ⟨pushed, through, -⟩ := exec_bind_ok.mp ran
    rw [if_neg held]
    exact @pushValues_needs { db with blockedKeys := popFront db.blockedKeys key queue } key
      isPrepend c.env.ndebug rest 0 ⟨sound.objects, sound.waiting⟩ tagged ⟨pushed, through⟩

/-- The object of a list that is not empty. -/
theorem object_of_listAt {x : Bytes} (listed : db.ListAt key (x :: xs)) :
    ∃ object lp, db.store.lookup key = some object ∧ object.type = .listPack ∧
      object.listPack = some lp ∧ Layout lp (x :: xs) := by
  rcases listed with ⟨-, empty⟩ | held
  · cases empty
  · exact held

theorem handleLpop_needs {count : Option Nat} (runs : Runs (handleLpop db c key count)) :
    ∀ xs, db.ListAt key xs → ∀ x ∈ xs.take (count.getD 1), Checked c.env.ndebug x := by
  intro xs listed
  by_contra unchecked
  cases xs with
  | nil => exact unchecked fun x absent => by simp at absent
  | cons x rest =>
    obtain ⟨object, lp, lookup, tag, held, formed⟩ := object_of_listAt listed
    obtain ⟨result, ran⟩ := runs
    rw [handleLpop, lookup] at ran
    dsimp only at ran
    rw [tag, held] at ran
    dsimp only at ran
    rw [popElements_unchecked formed _ unchecked] at ran
    cases ran

theorem handleBlpop_needs {names : List Bytes} {timeout : Float}
    (runs : Runs (handleBlpop db c names timeout)) :
    ∀ xs, db.ListAt (names.headD []) xs → ∀ x ∈ xs.head?, Checked c.env.ndebug x := by
  intro xs listed x first
  cases xs with
  | nil => cases first
  | cons head rest =>
    cases first
    by_contra unchecked
    obtain ⟨object, lp, lookup, tag, held, formed⟩ := object_of_listAt listed
    obtain ⟨result, ran⟩ := runs
    rw [handleBlpop, lookup] at ran
    dsimp only at ran
    rw [tag, held] at ran
    dsimp only at ran
    rw [lpFirst_unchecked formed unchecked] at ran
    cases ran

/-- A list that is counted can be. -/
theorem counted_of_runs (counts : ∀ object lp, db.store.lookup key = some object →
      object.type = .listPack → object.listPack = some lp → Runs (lpLength ndebug lp)) :
    db.Counted ndebug key := by
  rintro xs (⟨-, rfl⟩ | ⟨object, lp, lookup, tag, held, formed⟩) full
  · exact List.forall_mem_nil _
  · obtain ⟨result, ran⟩ := counts object lp lookup tag held
    exact lpLength_checks formed ((headerCount_bound lookup held).symm.trans full) ran

theorem handleLlen_needs (runs : Runs (handleLlen db c key)) : db.Counted c.env.ndebug key := by
  refine counted_of_runs fun object lp lookup tag held => ?_
  obtain ⟨result, ran⟩ := runs
  rw [handleLlen, lookup] at ran
  dsimp only at ran
  rw [tag, held] at ran
  dsimp only at ran
  obtain ⟨counted, ran, -⟩ := exec_bind_ok.mp ran
  exact ⟨counted, ran⟩

/-- The positions that were sought one after another have all been found. -/
theorem rangeElements_needs {lp : Bytes} (formed : Layout lp xs)
    (counted : lpGetTotalNumElements lp = .ok xs.length) (known : xs.length ≠ lpHdrNumeleUnknown)
    {rounds i : Nat} (inside : i + rounds ≤ xs.length)
    (runs : Runs (rangeElements ndebug lp rounds i)) :
    ∀ k, i ≤ k → k < i + rounds → ∀ j, Seeks xs.length k j → ∀ x ∈ xs[j]?, Checked ndebug x := by
  induction rounds generalizing i with
  | zero => exact fun k above below => absurd below (by omega)
  | succ rounds ih =>
    have here : i < xs.length := by omega
    obtain ⟨result, ran⟩ := runs
    rw [rangeElements] at ran
    obtain ⟨found, sought, ran⟩ := exec_bind_ok.mp ran
    have first := lpSeek_checks formed counted known here sought
    rw [lpSeek_checked formed counted known here first] at sought
    cases sought
    dsimp only at ran
    rw [elementAt_layout formed here, exec_ok_bind, ← Int.natCast_succ] at ran
    obtain ⟨later, ran, -⟩ := exec_bind_ok.mp ran
    intro k above below
    by_cases same : k = i
    · rw [same]
      exact first
    · exact ih (by omega) ⟨later, ran⟩ k (by omega) (by omega)

theorem handleLrange_needs {start stop : Int} (runs : Runs (handleLrange db c key start stop)) :
    db.Ranges c.env.ndebug key start stop := by
  obtain ⟨result, ran⟩ := runs
  have counts : db.Counted c.env.ndebug key := by
    refine counted_of_runs fun object lp lookup tag held => ?_
    rw [handleLrange_list lookup tag held] at ran
    obtain ⟨counted, ran, -⟩ := exec_bind_ok.mp ran
    exact ⟨counted, ran⟩
  refine ⟨counts, ?_⟩
  rintro xs (⟨-, rfl⟩ | ⟨object, lp, lookup, tag, held, formed⟩) k inside
  · exact absurd inside.2.2 (Nat.not_lt_zero k)
  · obtain ⟨lp', counted, formed', walks⟩ := lpLength_counted formed fun unknown =>
      counts xs (.inr ⟨object, lp, lookup, tag, held, formed⟩)
        ((headerCount_bound lookup held).trans unknown)
    rw [handleLrange_list lookup tag held, counted, exec_ok_bind] at ran
    rcases walks with checked | ⟨header, known⟩
    · exact fun j _ x here => checked x (List.mem_of_getElem? here)
    · dsimp only at ran
      split at ran
      · rename_i none_
        unfold AsksFor at inside
        omega
      · rename_i some_
        obtain ⟨i, rounds, first, count, within, positions⟩ := range_rounds some_
        rw [first, count] at ran
        obtain ⟨elements, ran, -⟩ := exec_bind_ok.mp ran
        obtain ⟨above, below⟩ := (positions k).mpr inside
        exact rangeElements_needs formed' header known within ⟨elements, ran⟩ k above below

theorem zaddMembers_needs {set : SortedSet} (stands : set.Stands)
    {scoreMembers : List (Float × Bytes)} {added : Nat}
    (runs : Runs (zaddMembers set scoreMembers added)) : set.TakesAll scoreMembers := by
  induction scoreMembers generalizing set added with
  | nil => trivial
  | cons entry rest ih =>
    obtain ⟨score, member⟩ := entry
    obtain ⟨result, ran⟩ := runs
    rw [zaddMembers, stands.insert_eq] at ran
    split at ran
    · rename_i takes
      exact ⟨takes, ih (stands.placed member score) ⟨result, ran⟩⟩
    · cases ran

theorem zremMembers_needs {set : SortedSet} (stands : set.Stands) {members : List Bytes}
    {removed : Nat} (runs : Runs (zremMembers set members removed)) : set.FindsAll members := by
  induction members generalizing set removed with
  | nil => trivial
  | cons member rest ih =>
    obtain ⟨result, ran⟩ := runs
    rw [zremMembers, stands.remove_eq] at ran
    split at ran
    · rename_i finds
      exact ⟨finds, ih (stands.taken member) ⟨result, ran⟩⟩
    · cases ran

/-- What is asked of a set is asked of one that is bound. -/
theorem withSortedSet_needs {missing : Bytes} {reply : SortedSet → Exec Bytes} {set : SortedSet}
    (runs : Runs (withSortedSet db key missing reply)) (holds : db.HasSortedSet key set) :
    (db.store.lookup key = none ∧ set = .new) ∨ Runs (reply set) := by
  rcases holds with missing | ⟨object, lookup, tag, held⟩
  · exact .inl missing
  · obtain ⟨result, ran⟩ := runs
    rw [withSortedSet, lookup] at ran
    dsimp only at ran
    rw [if_neg (not_not.mpr tag), held, deref, exec_pure, exec_ok_bind] at ran
    obtain ⟨bytes, ran, -⟩ := exec_bind_ok.mp ran
    exact .inr ⟨bytes, ran⟩

theorem new_score (member : Bytes) : SortedSet.new.score member = none := rfl

theorem new_findsAll (members : List Bytes) : SortedSet.new.FindsAll members := by
  induction members with
  | nil => trivial
  | cons member rest ih => exact ⟨SortedSet.finds_none (new_score member), ih⟩

theorem castable_of_area {score : Float} {area : GeoHashArea} (decoded : areaOfScore score = .ok area) :
    Castable score := by
  obtain ⟨bits, cast, -⟩ := exec_bind_ok.mp decoded
  exact ⟨bits, cast⟩

theorem geoPositions_needs {set : SortedSet} {members : List Bytes}
    (runs : Runs (geoPositions set members)) :
    ∀ score, ∀ member ∈ members, set.score member = some score → Castable score := by
  induction members with
  | nil => exact fun _ _ absent => absurd absent List.not_mem_nil
  | cons first rest ih =>
    obtain ⟨result, ran⟩ := runs
    rw [geoPositions] at ran
    intro score member held scored
    cases found : set.score first with
    | none =>
      rw [found] at ran
      obtain ⟨position, -, ran⟩ := exec_bind_ok.mp ran
      obtain ⟨later, ran, -⟩ := exec_bind_ok.mp ran
      rcases List.mem_cons.mp held with rfl | held
      · rw [scored] at found
        cases found
      · exact ih ⟨later, ran⟩ score member held scored
    | some own =>
      rw [found] at ran
      obtain ⟨area, decoded, ran⟩ := exec_bind_ok.mp ran
      obtain ⟨position, -, ran⟩ := exec_bind_ok.mp ran
      obtain ⟨later, ran, -⟩ := exec_bind_ok.mp ran
      rcases List.mem_cons.mp held with rfl | held
      · rw [scored] at found
        cases found
        exact castable_of_area decoded
      · exact ih ⟨later, ran⟩ score member held scored

theorem geoMatches_needs {set : SortedSet} {center : GeoHashArea} {radius : Float}
    {members : List Bytes} (runs : Runs (geoMatches set center radius members)) :
    ∀ member ∈ members, ∀ score, set.score member = some score → Castable score := by
  induction members with
  | nil => exact fun _ absent => absurd absent List.not_mem_nil
  | cons first rest ih =>
    obtain ⟨result, ran⟩ := runs
    rw [geoMatches] at ran
    intro member held score scored
    cases found : set.score first with
    | none =>
      rw [found] at ran
      obtain ⟨inside, -, ran⟩ := exec_bind_ok.mp ran
      obtain ⟨later, ran, -⟩ := exec_bind_ok.mp ran
      rcases List.mem_cons.mp held with rfl | held
      · rw [scored] at found
        cases found
      · exact ih ⟨later, ran⟩ member held score scored
    | some own =>
      rw [found] at ran
      obtain ⟨area, decoded, ran⟩ := exec_bind_ok.mp ran
      obtain ⟨inside, -, ran⟩ := exec_bind_ok.mp ran
      obtain ⟨later, ran, -⟩ := exec_bind_ok.mp ran
      rcases List.mem_cons.mp held with rfl | held
      · rw [scored] at found
        cases found
        exact castable_of_area decoded
      · exact ih ⟨later, ran⟩ member held score scored

/-! ## Every command -/

theorem defined_of_runs {command : Command} (sound : db.Sound)
    (tagged : db.Objects RedisObject.ListTagged)
    (stands : ∀ key set, db.HasSortedSet key set → set.Stands) (asked : c.command = command)
    (runs : Runs (callSimple db c command)) : command.Defined db c := by
  cases command <;> first | exact trivial | skip
  case incr => exact handleIncr_needs runs
  case rpush => exact handlePush_needs sound tagged runs
  case lpush => exact handlePush_needs sound tagged runs
  case lpop => exact handleLpop_needs runs
  case blpop => exact handleBlpop_needs runs
  case llen => exact handleLlen_needs runs
  case lrange => exact handleLrange_needs runs
  case zadd key scoreMembers =>
    intro set holds
    obtain ⟨fresh, object, opened, tag, held⟩ := holds.opened
    obtain ⟨result, ran⟩ := runs
    rw [callSimple, handleZadd, asked] at ran
    dsimp only at ran
    rw [opened] at ran
    dsimp only at ran
    rw [if_neg (not_not.mpr tag), held, deref, exec_pure, exec_ok_bind] at ran
    obtain ⟨added, ran, -⟩ := exec_bind_ok.mp ran
    exact zaddMembers_needs (stands key set holds) ⟨added, ran⟩
  case geoAdd key longitude latitude score member invalid =>
    intro valid set holds
    obtain ⟨fresh, object, opened, tag, held⟩ := holds.opened
    obtain ⟨result, ran⟩ := runs
    rw [callSimple, handleGeoadd, asked] at ran
    dsimp only at ran
    rw [if_neg (by rw [valid]; exact Bool.false_ne_true), opened] at ran
    dsimp only at ran
    rw [if_neg (not_not.mpr tag), held, deref, exec_pure, exec_ok_bind,
      ((stands key set holds).flagged true).insert_eq] at ran
    split at ran
    · rename_i takes
      exact (SortedSet.takes_flagged true).mp takes
    · cases ran
  case zrem key members =>
    intro set holds
    rcases holds with ⟨-, rfl⟩ | ⟨object, lookup, tag, held⟩
    · exact new_findsAll members
    · obtain ⟨result, ran⟩ := runs
      rw [callSimple, handleZrem, asked] at ran
      dsimp only at ran
      rw [lookup] at ran
      dsimp only at ran
      rw [if_neg (not_not.mpr tag), held, deref, exec_pure, exec_ok_bind] at ran
      obtain ⟨removed, ran, -⟩ := exec_bind_ok.mp ran
      exact zremMembers_needs (stands key set (.inr ⟨object, lookup, tag, held⟩)) ⟨removed, ran⟩
  case zrank key member =>
    intro set holds
    rw [callSimple, handleZrank, asked] at runs
    rcases withSortedSet_needs runs holds with ⟨-, rfl⟩ | ⟨result, ran⟩
    · exact SortedSet.finds_none (new_score member)
    · rw [(stands key set holds).rank_eq] at ran
      by_contra lost
      rw [if_neg lost] at ran
      cases ran
  case zscore key member =>
    intro set score holds isGeo scored
    rw [callSimple, handleZscore, asked] at runs
    rcases withSortedSet_needs runs holds with ⟨-, rfl⟩ | ⟨result, ran⟩
    · cases scored
    · rw [scored] at ran
      dsimp only at ran
      rw [if_pos isGeo] at ran
      obtain ⟨bits, cast, -⟩ := exec_bind_ok.mp ran
      exact ⟨bits, cast⟩
  case geoPos key members =>
    intro set score member inside holds scored
    rw [callSimple, handleGeopos, asked] at runs
    rcases withSortedSet_needs runs holds with ⟨-, rfl⟩ | ⟨result, ran⟩
    · cases scored
    · obtain ⟨positions, ran, -⟩ := exec_bind_ok.mp ran
      exact geoPositions_needs ⟨positions, ran⟩ score member inside scored
  case geoDist key member1 member2 =>
    intro set score1 score2 holds scored1 scored2
    rw [callSimple, handleGeodist, asked] at runs
    rcases withSortedSet_needs runs holds with ⟨-, rfl⟩ | ⟨result, ran⟩
    · cases scored1
    · rw [scored1, scored2] at ran
      obtain ⟨area1, first, ran⟩ := exec_bind_ok.mp ran
      obtain ⟨area2, second, -⟩ := exec_bind_ok.mp ran
      exact ⟨castable_of_area first, castable_of_area second⟩
  case geoSearch key longitude latitude radius =>
    intro set present holds
    rw [callSimple, handleGeosearch, asked] at runs
    rcases withSortedSet_needs runs holds with ⟨missing, -⟩ | ⟨result, ran⟩
    · exact absurd missing present
    · obtain ⟨encoded, encodes, ran⟩ := exec_bind_ok.mp ran
      obtain ⟨matches_, ran, -⟩ := exec_bind_ok.mp ran
      refine ⟨⟨encoded, encodes⟩, fun member score scored => ?_⟩
      refine geoMatches_needs ⟨matches_, ran⟩ member ?_ score scored
      rw [← Multiset.mem_coe, c.env.walk_all, Finset.mem_val, Finmap.mem_keys,
        ← Finmap.lookup_isSome]
      exact Option.isSome_iff_exists.mpr ⟨score, scored⟩

end CarrotDb
