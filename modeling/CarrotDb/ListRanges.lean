import CarrotDb.DbListStates

/-! LRANGE and LPOP against the list they read. A range names its elements by
position, counted from either end; a pop takes what the range from the head
would have shown. -/
namespace CarrotDb
open Resp Listpack

variable {db : DB} {c : Context} {key : Bytes} {xs : List Bytes}

/-- A position; a negative one is first increased by the length. -/
def fromEnd (length : Nat) (position : Int) : Int :=
  if position < 0 then length + position else position

/-- The elements at the positions of a range, in the order of the list. -/
def rangeOf (xs : List Bytes) (start stop : Int) : List Bytes :=
  let first := max 0 (fromEnd xs.length start)
  let last := min ((xs.length : Int) - 1) (fromEnd xs.length stop)
  (xs.zipIdx.filter fun (_, i) => first ≤ (i : Int) ∧ (i : Int) ≤ last).map Prod.fst

/-- Elements picked by an interval of positions stand side by side. -/
private theorem zipIdx_interval (xs : List Bytes) (k a b : Nat) :
    ((xs.zipIdx k).filter fun (_, i) => decide (a ≤ i ∧ i < b)).map Prod.fst =
      (xs.drop (a - k)).take (b - max a k) := by
  induction xs generalizing k with
  | nil => simp
  | cons x rest ih =>
    rw [List.zipIdx_cons, List.filter_cons]
    by_cases low : a ≤ k
    · have start : a - k = 0 := by omega
      have later : a - (k + 1) = 0 := by omega
      by_cases high : k < b
      · obtain ⟨width, size⟩ : ∃ width, b - max a k = width + 1 := ⟨b - max a k - 1, by omega⟩
        have shorter : b - max a (k + 1) = width := by omega
        rw [if_pos (by simp [low, high]), List.map_cons, ih, start, later, size, shorter]
        rfl
      · have none : b - max a k = 0 := by omega
        have less : b - max a (k + 1) = 0 := by omega
        rw [if_neg (by simp [high]), ih, none, less, List.take_zero, List.take_zero]
    · obtain ⟨skip, size⟩ : ∃ skip, a - k = skip + 1 := ⟨a - k - 1, by omega⟩
      have shorter : a - (k + 1) = skip := by omega
      have same : max a (k + 1) = max a k := by omega
      rw [if_neg (by simp [low]), ih, size, shorter, same, List.drop_succ_cons]

theorem rangeOf_eq (xs : List Bytes) (start stop : Int) :
    rangeOf xs start stop =
      (xs.drop (max 0 (fromEnd xs.length start)).toNat).take
        ((min ((xs.length : Int) - 1) (fromEnd xs.length stop) + 1).toNat -
          (max 0 (fromEnd xs.length start)).toNat) := by
  have picked := zipIdx_interval xs 0 (max 0 (fromEnd xs.length start)).toNat
    (min ((xs.length : Int) - 1) (fromEnd xs.length stop) + 1).toNat
  rw [Nat.sub_zero, Nat.max_zero] at picked
  rw [← picked, rangeOf]
  congr 1
  apply List.filter_congr
  rintro ⟨x, i⟩ -
  simp only [decide_eq_decide]
  omega

example : rangeOf [ascii "a", ascii "b", ascii "c"] (-2) 9 = [ascii "b", ascii "c"] := by decide

/-- The range from the head on. -/
theorem rangeOf_head (xs : List Bytes) {n : Nat} (positive : 0 < n) :
    rangeOf xs 0 (n - 1) = xs.take n := by
  have last : fromEnd xs.length (n - 1 : Int) = n - 1 := if_neg (by omega)
  rw [rangeOf_eq, last, show (max 0 (fromEnd xs.length 0)).toNat = 0 from rfl, List.drop_zero,
    Nat.sub_zero, List.take_eq_take_iff]
  omega

/-- Seeking one position after another, up to the end of the list. -/
theorem rangeElements_checked {lp : Bytes} {ndebug : Bool} (formed : Layout lp xs)
    (checked : ∀ x ∈ xs, Checked ndebug x) (rounds i : Nat) :
    rangeElements ndebug lp rounds i = .ok ((xs.drop i).take rounds) := by
  induction rounds generalizing i with
  | zero => rfl
  | succ rounds ih =>
    have place : seekPointer xs i = pointer xs i := by
      have forward : ¬ (i : Int) < 0 := by omega
      simp [seekPointer, forward]
    rw [rangeElements, lpSeek_layout formed checked, place, exec_ok_bind]
    by_cases inside : i < xs.length
    · obtain ⟨element, read, text, -⟩ :=
        lpGetWithSize_payload (layout_payload formed inside) (layout_small formed inside).1
      rw [pointer, if_pos inside]
      dsimp only
      rw [elementAt, read, exec_ok_bind, text, exec_ok_bind, ← Int.natCast_succ, ih, exec_ok_bind,
        exec_pure, List.drop_eq_getElem_cons inside, List.take_succ_cons]
    · rw [pointer, if_neg inside, List.drop_of_length_le (by omega)]
      rfl

/-- Adding the length to a 64-bit position stays within 64 bits. -/
private theorem i64_fromEnd {length : Nat} {position : Int} (small : length < 2 ^ 32)
    (range : Int64Range position) :
    (if position < 0 then i64 (length + position) else position) = fromEnd length position := by
  obtain ⟨low, high⟩ := range
  unfold fromEnd
  split
  · exact i64_of_range (by omega) (by omega)
  · rfl

theorem handleLrange_checked (held : db.ListAt key xs) (checked : ∀ x ∈ xs, Checked c.env.ndebug x)
    {start stop : Int} (startRange : Int64Range start) (stopRange : Int64Range stop) :
    ∃ db', handleLrange db c key start stop =
        .ok (db', [.reply (encodeBulkStringArray (rangeOf xs start stop))]) ∧ db'.ListAt key xs := by
  rcases held with ⟨missing, rfl⟩ | ⟨object, lp, lookup, tag, pointer, formed⟩
  · refine ⟨db, ?_, .inl ⟨missing, rfl⟩⟩
    rw [handleLrange, missing]
    rfl
  · obtain ⟨lp', counted, formed'⟩ := lpLength_checked formed checked
    have short := length_le_used xs
    have small := formed.1
    refine ⟨_, ?_, @listAt_insert db.store { db with store := _ } _ _ _
      { object with listPack := some lp' } tag rfl formed' rfl⟩
    rw [handleLrange, lookup]
    dsimp only
    rw [tag, pointer]
    dsimp only
    rw [counted, exec_ok_bind]
    dsimp only
    rw [i64_fromEnd (by omega) startRange, i64_fromEnd (by omega) stopRange, rangeOf_eq]
    generalize fromEnd xs.length start = first
    generalize fromEnd xs.length stop = last
    have from0 : (if first < 0 then 0 else first) = max 0 first := by omega
    rw [from0]
    by_cases before : last < 0
    · have none : (min ((xs.length : Int) - 1) last + 1).toNat = 0 := by omega
      rw [if_pos before, none, Nat.zero_sub, List.take_zero]
      rfl
    · by_cases behind : max 0 first ≥ xs.length
      · rw [if_neg before, if_pos behind, List.drop_of_length_le (by omega), List.take_nil]
        rfl
      · obtain ⟨a, same⟩ : ∃ a : Nat, max 0 first = a := ⟨(max 0 first).toNat, by omega⟩
        have upTo : (if last ≥ xs.length then (xs.length : Int) - 1 else last) =
            min ((xs.length : Int) - 1) last := by omega
        have rounds : (min ((xs.length : Int) - 1) last + 1 - a).toNat =
            (min ((xs.length : Int) - 1) last + 1).toNat - a := by omega
        rw [if_neg before, if_neg behind, upTo, same, rounds, rangeElements_checked formed' checked,
          exec_ok_bind, Int.toNat_natCast]
        rfl

theorem handleLrange_listAt (held : db.ListAt key xs) (release : c.env.ndebug = true) {start stop : Int}
    (startRange : Int64Range start) (stopRange : Int64Range stop) :
    ∃ db', handleLrange db c key start stop =
        .ok (db', [.reply (encodeBulkStringArray (rangeOf xs start stop))]) ∧ db'.ListAt key xs :=
  handleLrange_checked held (fun _ _ => .inl release) startRange stopRange

/-! ## LPOP -/

/-- The reply to LPOP: null, the one element, or an array. -/
def popReply : List Bytes → Bytes
  | [] => encodeNullBulkString
  | [value] => encodeBulkString value
  | result => encodeBulkStringArray result

theorem handleLpop_listAt (held : db.ListAt key xs) (release : c.env.ndebug = true) (n : Nat) :
    ∃ db' effects, handleLpop db c key (some n) = .ok (db', effects) ∧
      repliedBytes effects = popReply (xs.take n) ∧ db'.ListAt key (xs.drop n) := by
  rcases held with ⟨missing, rfl⟩ | ⟨object, lp, lookup, tag, pointer, formed⟩
  · refine ⟨db, [.reply encodeNullBulkString], ?_, ?_, .inl ⟨missing, List.drop_nil⟩⟩
    · rw [handleLpop, missing]
      rfl
    · rw [List.take_nil]
      rfl
  · have checked : ∀ x ∈ xs.take n, Checked true x := fun _ _ => .inl rfl
    obtain ⟨lp', popped, formed'⟩ := popElements_layout formed n checked
    have quiet (result : List Bytes) (db : DB) : repliedBytes
        (if result = [] then [] else markWatchingClientsDirty db c.env key) = [] := by
      split
      · rfl
      · exact repliedBytes_dirty _ _ _
    rw [handleLpop, lookup]
    dsimp only
    rw [tag, pointer, release]
    dsimp only
    rw [Option.getD_some, popped, exec_ok_bind]
    refine ⟨_, _, rfl, ?_, @listAt_insert db.store { db with store := _ } _ _ _
      { object with type := .listPack, listPack := some lp' } rfl rfl formed' rfl⟩
    rw [repliedBytes_append, quiet, List.nil_append]
    refine (List.append_nil _).trans ?_
    generalize xs.take n = result
    rcases result with _ | ⟨value, _ | ⟨next, rest⟩⟩ <;> rfl

/-- LRANGE replies the elements of its range, for any 64-bit positions. LPOP
of any number of elements replies, and takes off the list, those that the
range of as many elements from the head would have shown. -/
theorem ranges_and_pops (held : db.ListAt key xs) (release : c.env.ndebug = true) :
    (∀ start stop, Int64Range start → Int64Range stop →
      ∃ db', handleLrange db c key start stop =
          .ok (db', [.reply (encodeBulkStringArray (rangeOf xs start stop))]) ∧ db'.ListAt key xs) ∧
    ∀ n : Nat, 1 ≤ n → n < 2 ^ 32 →
      ∃ db' effects left, handleLpop db c key (some n) = .ok (db', effects) ∧
        repliedBytes effects = popReply (rangeOf xs 0 (n - 1)) ∧
        db'.ListAt key left ∧ rangeOf xs 0 (n - 1) ++ left = xs := by
  refine ⟨fun start stop => handleLrange_listAt held release, fun n positive _ => ?_⟩
  obtain ⟨db', effects, ran, replied, left⟩ := handleLpop_listAt held release n
  rw [rangeOf_head xs positive]
  exact ⟨db', effects, _, ran, replied, left, List.take_append_drop n xs⟩

/-- A database with one list, of two strings and an integer. -/
def oneList : DB :=
  { store := Finmap.insert (ascii "k")
      { type := .listPack
        listPack := some [17, 0, 0, 0, 3, 0, 0x82, 97, 98, 3, 7, 1, 0x82, 99, 100, 3, 0xFF] } ∅ }

theorem oneList_listAt : oneList.ListAt (ascii "k") [ascii "ab", ascii "7", ascii "cd"] :=
  .inr ⟨_, _, Finmap.lookup_insert _, rfl, rfl, by decide, 3, [], ⟨by decide, .inl rfl⟩, by decide⟩

/-- Its last two elements, and two elements from its head. -/
theorem ranges_and_pops_three :
    (∃ db', handleLrange oneList { Context.sample with env.ndebug := true } (ascii "k") (-2) 9 =
        .ok (db', [.reply (encodeBulkStringArray [ascii "7", ascii "cd"])])) ∧
      ∃ db' effects, handleLpop oneList { Context.sample with env.ndebug := true } (ascii "k") (some 2) =
          .ok (db', effects) ∧
        repliedBytes effects = popReply [ascii "ab", ascii "7"] ∧
        db'.ListAt (ascii "k") [ascii "cd"] := by
  obtain ⟨ranges, pops⟩ := @ranges_and_pops _ { Context.sample with env.ndebug := true } _ _
    oneList_listAt rfl
  obtain ⟨db₁, shown, -⟩ := ranges (-2) 9 (by decide) (by decide)
  obtain ⟨db₂, effects, left, ran, replied, held, whole⟩ := pops 2 (by decide) (by decide)
  have front : rangeOf [ascii "ab", ascii "7", ascii "cd"] 0 ((2 : Nat) - 1) = [ascii "ab", ascii "7"] := by
    decide
  rw [front] at replied whole
  obtain rfl : left = [ascii "cd"] := List.append_cancel_left whole
  exact ⟨⟨db₁, shown⟩, db₂, effects, ran, replied, held⟩

end CarrotDb
