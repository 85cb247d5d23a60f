import CarrotDb.DbKeyspace
import CarrotDb.StreamCommands
import CarrotDb.SortedSetCommands
import CarrotDb.SortedSetOrders
import CarrotDb.ListpackSeeks
import CarrotDb.PushHandover
import CarrotDb.DbAnswers

/-! Which commands run to an end. No assertion of the listpack fails where
every integer it steps onto fits in 32 bits, no set is asked to order a score
that is not a number among two others, and no conversion leaves the range of
its type; everything else a handler does on a reachable database is defined. -/
namespace CarrotDb
open Decimal Resp FloatText Listpack

/-- An execution that stays within the defined behaviour of the source. -/
def Runs (computation : Exec α) : Prop := ∃ result, computation = .ok result

theorem runs_ok (result : α) : Runs (.ok result : Exec α) := ⟨result, rfl⟩

theorem Runs.bind {first : Exec α} {next : α → Exec β} (one : Runs first)
    (two : ∀ value, first = .ok value → Runs (next value)) : Runs (first >>= next) := by
  obtain ⟨value, ran⟩ := one
  obtain ⟨result, ran'⟩ := two value ran
  exact ⟨result, exec_bind_ok.mpr ⟨value, ran, ran'⟩⟩

theorem runs_replying (db : DB) (bytes : Bytes) : Runs (replying db bytes) := runs_ok _

variable {db : DB} {c : Context} {key : Bytes}

/-- A score that fits in `uint64_t`. -/
def Castable (score : Float) : Prop := Runs (scoreBits score)

/-- Values can be pushed: there are none, or one for a new list, or each
finds room and an entry that passes its check. -/
def DB.Takes (db : DB) (ndebug isPrepend : Bool) (key : Bytes) (values : List Bytes) : Prop :=
  values = [] ∨ (db.store.lookup key = none ∧ values.length = 1) ∨
    ∃ xs, db.ListAt key xs ∧ Pushes ndebug isPrepend xs (values.map stored)

/-- The stored text is not the largest integer. -/
def DB.Countable (db : DB) (key : Bytes) : Prop :=
  ∀ object text value, db.store.lookup key = some object → object.type = .string →
    object.stringPtr = some text →
    convertStringToNumber (text.takeWhile (· ≠ 0)) = some value → value < 2 ^ 63 - 1

/-- Counting a list needs no check where the header has the count, and else
looks at every element. -/
def DB.Counted (db : DB) (ndebug : Bool) (key : Bytes) : Prop :=
  ∀ xs, db.ListAt key xs → db.headerCount key = .ok lpHdrNumeleUnknown →
    ∀ x ∈ xs, Checked ndebug x

/-- A position of LRANGE, counted from the end where it is negative. -/
def rangePosition (length : Nat) (position : Int) : Int :=
  if position < 0 then i64 (length + position) else position

/-- The positions that LRANGE asks for. -/
def AsksFor (length : Nat) (start stop : Int) (i : Nat) : Prop :=
  rangePosition length start ≤ i ∧ i ≤ rangePosition length stop ∧ i < length

/-- LRANGE counts the list, and seeks each position it asks for. -/
def DB.Ranges (db : DB) (ndebug : Bool) (key : Bytes) (start stop : Int) : Prop :=
  db.Counted ndebug key ∧ ∀ xs, db.ListAt key xs → ∀ i, AsksFor xs.length start stop i →
    ∀ j, Seeks xs.length i j → ∀ x ∈ xs[j]?, Checked ndebug x

/-- What a command needs to run to an end, apart from the keys it must find. -/
def Command.Defined (db : DB) (c : Context) : Command → Prop
  | .incr key => db.Countable key
  | .rpush key values =>
    db.Takes c.env.ndebug false key (keptValues (queueOf db.blockedKeys key) values)
  | .lpush key values =>
    db.Takes c.env.ndebug true key (keptValues (queueOf db.blockedKeys key) values)
  | .lpop key count => ∀ xs, db.ListAt key xs → ∀ x ∈ xs.take (count.getD 1), Checked c.env.ndebug x
  | .blpop names _ => ∀ xs, db.ListAt (names.headD []) xs → ∀ x ∈ xs.head?, Checked c.env.ndebug x
  | .llen key => db.Counted c.env.ndebug key
  | .lrange key start stop => db.Ranges c.env.ndebug key start stop
  | .zadd key scoreMembers => ∀ set, db.HasSortedSet key set → set.TakesAll scoreMembers
  | .geoAdd key _ _ score member invalidLatLon =>
    invalidLatLon = false → ∀ set, db.HasSortedSet key set → set.Takes member score
  | .zrank key member => ∀ set, db.HasSortedSet key set → set.Finds member
  | .zrem key members => ∀ set, db.HasSortedSet key set → set.FindsAll members
  | .zscore key member => ∀ set score, db.HasSortedSet key set → set.isGeo = true →
    set.score member = some score → Castable score
  | .geoPos key members => ∀ set score, ∀ member ∈ members, db.HasSortedSet key set →
    set.score member = some score → Castable score
  | .geoDist key member1 member2 => ∀ set score1 score2, db.HasSortedSet key set →
    set.score member1 = some score1 → set.score member2 = some score2 →
    Castable score1 ∧ Castable score2
  | .geoSearch key longitude latitude _ => ∀ set, db.store.lookup key ≠ none →
    db.HasSortedSet key set →
    Runs (allowedGeoHash.geoHashEncode longitude latitude 26 ⟨0, 26⟩) ∧
      ∀ member score, set.score member = some score → Castable score
  | _ => True

theorem text_of_sound {object : RedisObject} (formed : object.Sound) (tag : object.type = .string) :
    ∃ text, object.stringPtr = some text := by
  rw [RedisObject.Sound, tag] at formed
  exact formed

theorem handleGetOrType_runs (sound : db.Sound) (timed : db.Timed) (isTypeCommand : Bool) :
    Runs (handleGetOrType db c isTypeCommand key) := by
  obtain ⟨db₁, expired, -, -⟩ := timed.expireIfDue c.env.clock.steady key
  rw [handleGetOrType, expired, exec_ok_bind]
  have sound₁ := expireIfDue_sound sound expired
  split
  · rename_i object lookup
    split
    · rename_i tag
      split
      · exact runs_replying _ _
      · obtain ⟨text, held⟩ := text_of_sound (sound₁.objects _ _ lookup) tag
        rw [held, deref, exec_pure, exec_ok_bind]
        exact runs_replying _ _
    · split
      · exact runs_replying _ _
      · exact runs_ok _
    · exact runs_ok _
  · exact runs_replying _ _

theorem handleIncr_runs (sound : db.Sound) (countable : db.Countable key) :
    Runs (handleIncr db c key) := by
  rw [handleIncr]
  cases lookup : db.store.lookup key with
  | none => exact runs_ok _
  | some object =>
    dsimp only
    split
    · rename_i tag
      obtain ⟨text, held⟩ := text_of_sound (sound.objects _ _ lookup) tag
      rw [held, deref, exec_pure, exec_ok_bind]
      cases converted : convertStringToNumber (text.takeWhile (· ≠ 0)) with
      | none => exact runs_replying _ _
      | some value =>
        dsimp only
        rw [increment, if_pos (countable object text value lookup tag held converted), exec_pure,
          exec_ok_bind]
        exact runs_ok _
    · exact runs_replying _ _

theorem listAt_of_sound (sound : db.Sound) {object : RedisObject} {lp : Bytes}
    (lookup : db.store.lookup key = some object) (tag : object.type = .listPack)
    (held : object.listPack = some lp) : ∃ xs, Layout lp xs ∧ db.ListAt key xs := by
  obtain ⟨xs, formed⟩ := list_of_sound (sound.objects _ _ lookup) tag held
  exact ⟨xs, formed, .inr ⟨object, lp, lookup, tag, held, formed⟩⟩

private theorem pushValues_runs {ndebug isPrepend : Bool} {values : List Bytes} {start : Nat}
    (takes : db.Takes ndebug isPrepend key values) :
    Runs (pushValues db ndebug key isPrepend values start) := by
  rcases takes with rfl | ⟨missing, single⟩ | ⟨xs, held, pushes⟩
  · exact runs_ok _
  · obtain ⟨value, rfl⟩ := List.length_eq_one_iff.mp single
    obtain ⟨lp, made, formed⟩ := lpNew_layout listPackInitialCapacity
    have pushable : Pushable ndebug isPrepend [] := fun _ x absent => by cases absent
    have added : Runs (addElement ndebug lp (stored value) isPrepend) := by
      by_cases fits : used (pushed isPrepend [] (stored value)) ≤ 2 ^ 32 - 1
      · obtain ⟨lp', ran, -⟩ := addElement_layout formed pushable fits
        exact ⟨_, ran⟩
      · exact ⟨_, addElement_full formed pushable (stored_length value) (Nat.lt_of_not_le fits)⟩
    obtain ⟨listPack, added⟩ := added
    rw [stored] at added
    rw [pushValues, pushValueToList, missing]
    dsimp only
    rw [createNewList, made, exec_ok_bind, added, exec_ok_bind, exec_pure, exec_ok_bind]
    exact runs_ok _
  · obtain ⟨db', len, ran, -⟩ := @pushValues_layout db ndebug isPrepend key xs values start held pushes
    exact ⟨_, ran⟩

theorem handlePush_runs {isPrepend : Bool} {values : List Bytes}
    (takes : db.Takes c.env.ndebug isPrepend key
      (keptValues (queueOf db.blockedKeys key) values)) :
    Runs (handlePush db c isPrepend key values) := by
  rw [keptValues] at takes
  by_cases plain : queueOf db.blockedKeys key = [] ∨ values = []
  · have all : db.Takes c.env.ndebug isPrepend key values := by
      rcases plain with idle | rfl
      · rwa [if_pos idle] at takes
      · exact .inl rfl
    rw [handlePush_plain plain]
    exact (pushValues_runs all).bind fun _ _ => runs_ok _
  · obtain ⟨held, nonempty⟩ := not_or.mp plain
    obtain ⟨blocked, queue, waiting⟩ := List.exists_cons_of_ne_nil held
    obtain ⟨first, rest, rfl⟩ := List.exists_cons_of_ne_nil nonempty
    rw [if_neg held] at takes
    have later : DB.Takes { db with blockedKeys := popFront db.blockedKeys key queue } c.env.ndebug
        isPrepend key rest := takes
    rw [handlePush_waiter waiting]
    exact (pushValues_runs later).bind fun _ _ => runs_ok _

theorem handleLpop_runs (sound : db.Sound) {count : Option Nat}
    (checked : ∀ xs, db.ListAt key xs → ∀ x ∈ xs.take (count.getD 1), Checked c.env.ndebug x) :
    Runs (handleLpop db c key count) := by
  rw [handleLpop]
  cases lookup : db.store.lookup key with
  | none => exact runs_replying _ _
  | some object =>
    dsimp only
    split
    · rename_i lp tag held
      obtain ⟨xs, formed, listed⟩ := listAt_of_sound sound lookup tag held
      obtain ⟨lp', popped, -⟩ := popElements_layout formed (count.getD 1) (checked xs listed)
      rw [popped, exec_ok_bind]
      exact runs_ok _
    · exact runs_replying _ _

theorem handleBlpop_runs (sound : db.Sound) {names : List Bytes} {timeout : Float}
    (goesOn : (Command.blpop names timeout).waits db c = false)
    (checked : ∀ xs, db.ListAt (names.headD []) xs → ∀ x ∈ xs.head?, Checked c.env.ndebug x) :
    Runs (handleBlpop db c names timeout) := by
  rw [handleBlpop]
  rw [Command.waits] at goesOn
  cases lookup : db.store.lookup (names.headD []) with
  | none =>
    rw [lookup] at goesOn
    cases goesOn
  | some object =>
    rw [lookup] at goesOn
    dsimp only at goesOn ⊢
    split
    · rename_i lp tag held
      rw [tag, held] at goesOn
      dsimp only at goesOn
      obtain ⟨xs, formed, listed⟩ := listAt_of_sound sound lookup tag held
      rw [lpFirst_checked formed (checked xs listed)] at goesOn ⊢
      rw [exec_ok_bind]
      cases xs with
      | nil => cases goesOn
      | cons x rest =>
        have first : pointer (x :: rest) 0 = some (offset (x :: rest) 0) := rfl
        obtain ⟨lp', newp, deleted, -⟩ := lpDelete_first formed c.env.ndebug
        rw [first]
        dsimp only
        rw [elementAt_first formed, exec_ok_bind, deleted, exec_ok_bind]
        exact runs_replying _ _
    · exact runs_replying _ _

/-- Where a list can be counted, its count is then in the header or its elements
all pass their checks. -/
theorem lpLength_counted {lp : Bytes} {xs : List Bytes} {ndebug : Bool} (formed : Layout lp xs)
    (checked : lpGetTotalNumElements lp = .ok lpHdrNumeleUnknown → ∀ x ∈ xs, Checked ndebug x) :
    ∃ lp', lpLength ndebug lp = .ok (xs.length, lp') ∧ Layout lp' xs ∧
      ((∀ x ∈ xs, Checked ndebug x) ∨
        lpGetTotalNumElements lp' = .ok xs.length ∧ xs.length ≠ lpHdrNumeleUnknown) := by
  obtain ⟨field, counted, ok⟩ := layout_count formed
  by_cases known : field = lpHdrNumeleUnknown
  · have all := checked (known ▸ counted)
    obtain ⟨lp', ran, formed'⟩ := lpLength_checked formed all
    exact ⟨lp', ran, formed', .inl all⟩
  · have same : field = xs.length := ok.2.resolve_right known
    refine ⟨lp, ?_, formed, .inr ⟨same ▸ counted, same ▸ known⟩⟩
    rw [lpLength, counted, exec_ok_bind, if_pos known, same]
    rfl

theorem headerCount_bound {object : RedisObject} {lp : Bytes}
    (lookup : db.store.lookup key = some object) (held : object.listPack = some lp) :
    db.headerCount key = lpGetTotalNumElements lp := by
  rw [DB.headerCount, lookup]
  dsimp only
  rw [held]
  rfl

theorem handleLlen_runs (sound : db.Sound) (counted : db.Counted c.env.ndebug key) :
    Runs (handleLlen db c key) := by
  rw [handleLlen]
  cases lookup : db.store.lookup key with
  | none => exact runs_replying _ _
  | some object =>
    dsimp only
    split
    · rename_i lp tag held
      obtain ⟨xs, formed, listed⟩ := listAt_of_sound sound lookup tag held
      obtain ⟨lp', ran, -⟩ := lpLength_counted formed fun unknown =>
        counted xs listed ((headerCount_bound lookup held).trans unknown)
      rw [ran, exec_ok_bind]
      exact runs_replying _ _
    · exact runs_replying _ _

theorem elementAt_layout {lp : Bytes} {xs : List Bytes} {i : Nat} (formed : Layout lp xs)
    (index : i < xs.length) : elementAt lp (offset xs i) = .ok xs[i] := by
  obtain ⟨element, read, text, -⟩ :=
    lpGetWithSize_payload (layout_payload formed index) (layout_small formed index).1
  rw [elementAt, read, exec_ok_bind, text]

theorem rangeElements_runs {lp : Bytes} {xs : List Bytes} {ndebug : Bool} (formed : Layout lp xs)
    (checked : ∀ x ∈ xs, Checked ndebug x) (rounds : Nat) (index : Int) :
    Runs (rangeElements ndebug lp rounds index) := by
  induction rounds generalizing index with
  | zero => exact runs_ok _
  | succ rounds ih =>
    rw [rangeElements, lpSeek_layout formed checked, exec_ok_bind, seekPointer]
    generalize (if index < 0 then (xs.length : Int) + index else index) = i
    split
    · exact runs_ok _
    · rename_i p found
      have inside : i.toNat < xs.length ∧ p = offset xs i.toNat := by
        split at found
        · rw [pointer] at found
          split at found
          · exact ⟨‹_›, (Option.some.inj found).symm⟩
          · cases found
        · cases found
      rw [inside.2, elementAt_layout formed inside.1, exec_ok_bind]
      exact (ih _).bind fun _ _ => runs_ok _

/-- Seeking one position of a counted list after another. -/
theorem rangeElements_seeks {lp : Bytes} {xs : List Bytes} {ndebug : Bool} (formed : Layout lp xs)
    (counted : lpGetTotalNumElements lp = .ok xs.length) (known : xs.length ≠ lpHdrNumeleUnknown)
    {rounds i : Nat} (inside : i + rounds ≤ xs.length)
    (checked : ∀ k, i ≤ k → k < i + rounds → ∀ j, Seeks xs.length k j →
      ∀ x ∈ xs[j]?, Checked ndebug x) : Runs (rangeElements ndebug lp rounds i) := by
  induction rounds generalizing i with
  | zero => exact runs_ok _
  | succ rounds ih =>
    have here : i < xs.length := by omega
    have found := lpSeek_checked formed counted known here (checked i (Nat.le_refl i) (by omega))
    rw [rangeElements, found, exec_ok_bind]
    dsimp only
    rw [elementAt_layout formed here, exec_ok_bind, ← Int.natCast_succ]
    exact (ih (by omega) fun k above below => checked k (by omega) (by omega)).bind
      fun _ _ => runs_ok _

/-- LRANGE on a list. -/
theorem handleLrange_list {object : RedisObject} {lp : Bytes} {start stop : Int}
    (lookup : db.store.lookup key = some object) (tag : object.type = .listPack)
    (held : object.listPack = some lp) :
    handleLrange db c key start stop = lpLength c.env.ndebug lp >>= fun counted =>
      let db := { db with
        store := db.store.insert key { object with listPack := some counted.2 } }
      let first := max 0 (rangePosition counted.1 start)
      let last := rangePosition counted.1 stop
      if last < 0 ∨ first ≥ counted.1 then replying db encodeEmptyArray
      else rangeElements c.env.ndebug counted.2 (min ((counted.1 : Int) - 1) last + 1 - first).toNat
        first >>= fun result => replying db (encodeBulkStringArray result) := by
  have zero (first : Int) : (if first < 0 then 0 else first) = max 0 first := by omega
  have end_ (length : Nat) (last : Int) :
      (if last ≥ length then (length : Int) - 1 else last) = min ((length : Int) - 1) last := by omega
  rw [handleLrange, lookup]
  dsimp only
  rw [tag, held]
  dsimp only
  congr 1
  funext counted
  rw [zero, end_, ← rangePosition, ← rangePosition]
  by_cases empty : rangePosition counted.1 stop < 0
  · rw [if_pos empty, if_pos (.inl empty)]
  · rw [if_neg empty]
    exact if_congr (or_iff_right empty).symm rfl rfl

/-- The loop of LRANGE goes over the positions it asks for. -/
theorem range_rounds {length : Nat} {start stop : Int}
    (some_ : ¬ (rangePosition length stop < 0 ∨ max 0 (rangePosition length start) ≥ length)) :
    ∃ i rounds : Nat, max 0 (rangePosition length start) = i ∧
      (min ((length : Int) - 1) (rangePosition length stop) + 1 - i).toNat = rounds ∧
      i + rounds ≤ length ∧
      ∀ k : Nat, (i ≤ k ∧ k < i + rounds) ↔ AsksFor length start stop k := by
  refine ⟨(max 0 (rangePosition length start)).toNat, _, by omega, rfl, by omega, fun k => ?_⟩
  unfold AsksFor
  omega

theorem handleLrange_runs (sound : db.Sound) {start stop : Int}
    (ranges : db.Ranges c.env.ndebug key start stop) : Runs (handleLrange db c key start stop) := by
  cases lookup : db.store.lookup key with
  | none =>
    rw [handleLrange, lookup]
    exact runs_replying _ _
  | some object =>
    by_cases list : object.type = .listPack ∧ ∃ lp, object.listPack = some lp
    · obtain ⟨tag, lp, held⟩ := list
      obtain ⟨xs, formed, listed⟩ := listAt_of_sound sound lookup tag held
      obtain ⟨lp', counted, formed', walks⟩ := lpLength_counted formed fun unknown =>
        ranges.1 xs listed ((headerCount_bound lookup held).trans unknown)
      rw [handleLrange_list lookup tag held, counted, exec_ok_bind]
      dsimp only
      split
      · exact runs_replying _ _
      · rename_i some_
        obtain ⟨i, rounds, first, count, within, positions⟩ := range_rounds some_
        rw [first, count]
        refine Runs.bind ?_ fun _ _ => runs_replying _ _
        rcases walks with checked | ⟨header, known⟩
        · exact rangeElements_runs formed' checked _ _
        · exact rangeElements_seeks formed' header known within fun k above below =>
            ranges.2 xs listed k ((positions k).mp ⟨above, below⟩)
    · rw [handleLrange, lookup]
      dsimp only
      split
      · exact absurd ⟨‹_›, _, ‹_›⟩ list
      · exact runs_replying _ _

theorem handleXadd_runs (sound : db.Sound) {streamId : Bytes} {fieldValues : List (Bytes × Bytes)} :
    Runs (handleXadd db c key streamId fieldValues) := by
  obtain ⟨opened, formed⟩ := openStream_sound sound key
  rw [handleXadd]
  dsimp only
  generalize (openStream db key).1 = opened₁, (openStream db key).2 = object at *
  split
  · exact runs_replying _ _
  · rename_i tag
    rw [ne_eq, not_not] at tag
    obtain ⟨stream, log, held, logs⟩ := stream_of_sound formed tag
    rw [held, deref, exec_pure, exec_ok_bind]
    rcases insert_logs logs c.env.clock.system streamId (rawValue fieldValues) with
      ⟨-, refused⟩ | ⟨id, -, status, logs'⟩
    · rw [if_pos refused]
      exact runs_replying _ _
    · rw [status, if_neg (fun refused => refused rfl)]
      have written : RedisObject.Sound { object with
          streamPtr := some (stream.insert c.env.clock.system streamId (rawValue fieldValues)).1 } :=
        sound_of_stream tag rfl logs'
      obtain ⟨db', effects, served, -, -⟩ :=
        handleBlockedXreadClients_ok (opened.bind written key) c.env key
      rw [served]
      exact runs_ok _

theorem handleXrange_runs (sound : db.Sound) {start stop : Bytes} :
    Runs (handleXrange db key start stop) := by
  rw [handleXrange]
  cases lookup : db.store.lookup key with
  | none => exact runs_replying _ _
  | some object =>
    dsimp only
    split
    · rename_i stream tag held
      obtain ⟨stream', log, held', logs⟩ := stream_of_sound (sound.objects _ _ lookup) tag
      rw [held] at held'
      cases held'
      split
      · exact runs_replying _ _
      · exact runs_replying _ _
      · rename_i found
        obtain ⟨bytes, encoded⟩ := encodeEntries_ok (xrangeData_sized logs found)
        rw [encoded]
        exact runs_ok _
    · exact runs_replying _ _

/-- Entries whose identifiers can be decoded. -/
private def Legible (replies : List (Bytes × List (Bytes × Bytes))) : Prop :=
  ∀ reply ∈ replies, ∀ entry ∈ reply.2, 16 ≤ entry.1.length

private theorem encodeReplies_runs {replies : List (Bytes × List (Bytes × Bytes))}
    (sized : Legible replies) : Runs (encodeReplies replies) := by
  induction replies with
  | nil => exact runs_ok _
  | cons reply rest ih =>
    obtain ⟨key, entries⟩ := reply
    obtain ⟨encoded, made⟩ := encodeEntries_ok (sized (key, entries) List.mem_cons_self)
    rw [encodeReplies, made, exec_ok_bind]
    exact (ih fun other member => sized other (List.mem_cons_of_mem _ member)).bind
      fun _ _ => runs_ok _

/-- The loop over the keys of a reading that waits for none of them. -/
private theorem collectReplies_runs (sound : db.Sound) {block : Option Float}
    {asked : List (Bytes × Bytes)} {replies : List (Bytes × List (Bytes × Bytes))}
    (present : ∀ one ∈ asked, db.store.lookup one.1 ≠ none)
    (goesOn : block.isSome = true → ∀ one ∈ asked, waitsAtKey db one.1 one.2 = false)
    (sized : Legible replies) :
    ∃ replies', collectReplies db c block asked replies = .ok (.inl replies') ∧ Legible replies' := by
  induction asked generalizing replies with
  | nil => exact ⟨replies, rfl, sized⟩
  | cons one rest ih =>
    obtain ⟨key, startId⟩ := one
    have next := fun {more} => @ih more (fun other member => present other (List.mem_cons_of_mem _ member))
      (fun some other member => goesOn some other (List.mem_cons_of_mem _ member))
    obtain ⟨object, lookup⟩ := Option.ne_none_iff_exists'.mp (present (key, startId) List.mem_cons_self)
    have here : block.isSome = true → startId ≠ ascii "$" ∧ ∀ stream, object.type = .stream →
        object.streamPtr = some stream → ∃ entry entries,
          stream.xrangeData startId (ascii "+") true = some (entry :: entries) := by
      intro some_
      have passes := goesOn some_ (key, startId) List.mem_cons_self
      rw [waitsAtKey, lookup] at passes
      dsimp only at passes
      rw [Bool.or_eq_false_iff, decide_eq_false_iff_not] at passes
      refine ⟨passes.1, fun stream tag held => ?_⟩
      have found := passes.2
      rw [tag, held] at found
      dsimp only at found
      split at found
      · exact ⟨_, _, ‹_›⟩
      · cases found
    unfold collectReplies
    rw [lookup]
    have goes : ¬ (block.isSome = true ∧ startId = ascii "$") := fun both => (here both.1).1 both.2
    cases block with
    | none =>
      dsimp only
      rw [if_neg goes]
      split
      · rename_i stream tag held
        obtain ⟨stream', log, held', logs⟩ := stream_of_sound (sound.objects _ _ lookup) tag
        rw [held] at held'
        cases held'
        split
        · rename_i entry entries found
          refine next fun reply member => ?_
          rcases List.mem_append.mp member with old | new
          · exact sized reply old
          · rw [List.mem_singleton.mp new]
            exact xrangeData_sized logs found
        · cases ‹(none : Option Float) = some _›
        · exact next sized
      · exact next sized
    | some timeout =>
      dsimp only
      rw [if_neg goes]
      split
      · rename_i stream tag held
        obtain ⟨stream', log, held', logs⟩ := stream_of_sound (sound.objects _ _ lookup) tag
        rw [held] at held'
        cases held'
        obtain ⟨entry, entries, found⟩ := (here rfl).2 stream tag held
        rw [found]
        refine next fun reply member => ?_
        rcases List.mem_append.mp member with old | new
        · exact sized reply old
        · rw [List.mem_singleton.mp new]
          exact xrangeData_sized logs found
      · exact next sized

theorem handleXread_runs (sound : db.Sound) {block : Option Float} {names ids : List Bytes}
    (goesOn : (Command.xread block names ids).waits db c = false)
    (present : block = none → names.length = ids.length →
      ∀ one ∈ names.zip ids, db.store.lookup one.1 ≠ none) :
    Runs (handleXread db c block names ids) := by
  rw [handleXread]
  split
  · exact runs_replying _ _
  · rename_i even
    rw [ne_eq, not_not] at even
    have passes : block.isSome = true → ∀ one ∈ names.zip ids, waitsAtKey db one.1 one.2 = false := by
      intro some_
      obtain ⟨timeout, rfl⟩ := Option.isSome_iff_exists.mp some_
      rw [Command.waits, decide_eq_true even, Bool.true_and, List.any_eq_false] at goesOn
      exact fun one member => Bool.eq_false_iff.mpr (goesOn one member)
    have found : ∀ one ∈ names.zip ids, db.store.lookup one.1 ≠ none := by
      cases block with
      | none => exact present rfl even
      | some timeout =>
        intro one member missing
        have stops := passes rfl one member
        rw [waitsAtKey, missing] at stops
        cases stops
    obtain ⟨replies, collected, sized⟩ := @collectReplies_runs db c sound block (names.zip ids) []
      found passes fun _ absent => absurd absent List.not_mem_nil
    rw [collected, exec_ok_bind]
    cases replies with
    | nil => exact runs_replying _ _
    | cons reply rest => exact (encodeReplies_runs sized).bind fun _ _ => runs_replying _ _

/-! ## Sorted sets -/

/-- Members that can all be put in their places are. -/
theorem zaddMembers_runs {set : SortedSet} (stands : set.Stands)
    {scoreMembers : List (Float × Bytes)} (takes : set.TakesAll scoreMembers) (added : Nat) :
    Runs (zaddMembers set scoreMembers added) := by
  induction scoreMembers generalizing set added with
  | nil => exact runs_ok _
  | cons entry rest ih =>
    obtain ⟨score, member⟩ := entry
    obtain ⟨first, later⟩ := takes
    rw [zaddMembers, stands.insert_eq, if_pos first, exec_ok_bind]
    exact ih (stands.placed member score) later _

theorem zremMembers_runs {set : SortedSet} (stands : set.Stands) {members : List Bytes}
    (finds : set.FindsAll members) (removed : Nat) : Runs (zremMembers set members removed) := by
  induction members generalizing set removed with
  | nil => exact runs_ok _
  | cons member rest ih =>
    obtain ⟨first, later⟩ := finds
    rw [zremMembers, stands.remove_eq, if_pos first, exec_ok_bind]
    exact ih (stands.taken member) later _

theorem set_of_sound {object : RedisObject} (formed : object.Sound) (tag : object.type = .sortedSet) :
    ∃ set, object.sortedSetPtr = some set := by
  rw [RedisObject.Sound, tag] at formed
  exact formed

/-- The set that ZADD and GEOADD write to. -/
theorem openSortedSet_holds (sound : db.Sound) (key : Bytes)
    (tag : (openSortedSet db key).2.type = .sortedSet) :
    ∃ set, (openSortedSet db key).2.sortedSetPtr = some set ∧ db.HasSortedSet key set := by
  rw [openSortedSet] at tag ⊢
  cases lookup : db.store.lookup key with
  | none => exact ⟨.new, rfl, .inl ⟨lookup, rfl⟩⟩
  | some object =>
    rw [lookup] at tag
    obtain ⟨set, held⟩ := set_of_sound (sound.objects _ _ lookup) tag
    exact ⟨set, held, .inr ⟨object, lookup, tag, held⟩⟩

theorem withSortedSet_runs (sound : db.Sound) {missing : Bytes} {reply : SortedSet → Exec Bytes}
    (each : ∀ set, db.store.lookup key ≠ none → db.HasSortedSet key set → Runs (reply set)) :
    Runs (withSortedSet db key missing reply) := by
  rw [withSortedSet]
  cases lookup : db.store.lookup key with
  | none => exact runs_replying _ _
  | some object =>
    dsimp only
    split
    · exact runs_replying _ _
    · rename_i tag
      rw [ne_eq, not_not] at tag
      obtain ⟨set, held⟩ := set_of_sound (sound.objects _ _ lookup) tag
      rw [held, deref, exec_pure, exec_ok_bind]
      exact (each set (by rw [lookup]; exact Option.some_ne_none _)
        (.inr ⟨object, lookup, tag, held⟩)).bind fun _ _ => runs_replying _ _

theorem areaOfScore_runs {score : Float} (castable : Castable score) : Runs (areaOfScore score) :=
  Runs.bind castable fun _ _ => runs_ok _

private theorem geoPositions_runs {set : SortedSet} {members : List Bytes}
    (castable : ∀ score, ∀ member ∈ members, set.score member = some score → Castable score) :
    Runs (geoPositions set members) := by
  induction members with
  | nil => exact runs_ok _
  | cons member rest ih =>
    have later := ih fun score other held => castable score other (List.mem_cons_of_mem _ held)
    rw [geoPositions]
    cases found : set.score member with
    | none =>
      rw [exec_pure, exec_ok_bind]
      exact later.bind fun _ _ => runs_ok _
    | some score =>
      obtain ⟨area, decoded⟩ := areaOfScore_runs (castable score member List.mem_cons_self found)
      dsimp only
      rw [decoded, exec_ok_bind, exec_pure, exec_ok_bind]
      exact later.bind fun _ _ => runs_ok _

private theorem geoMatches_runs {set : SortedSet} {center : GeoHashArea} {radius : Float}
    (castable : ∀ member score, set.score member = some score → Castable score)
    (members : List Bytes) : Runs (geoMatches set center radius members) := by
  induction members with
  | nil => exact runs_ok _
  | cons member rest ih =>
    rw [geoMatches]
    cases found : set.score member with
    | none =>
      rw [exec_pure, exec_ok_bind]
      exact ih.bind fun _ _ => runs_ok _
    | some score =>
      obtain ⟨area, decoded⟩ := areaOfScore_runs (castable member score found)
      dsimp only
      rw [decoded, exec_ok_bind, exec_pure, exec_ok_bind]
      exact ih.bind fun _ _ => runs_ok _

/-! ## Every command -/

/-- A reading without BLOCK finds all its keys. -/
def Command.Finds (db : DB) : Command → Prop
  | .xread none names ids => names.length = ids.length →
    ∀ one ∈ names.zip ids, db.store.lookup one.1 ≠ none
  | _ => True

/-- A reading without BLOCK that runs to an end found all its keys. -/
theorem collectReplies_finds {asked : List (Bytes × Bytes)}
    {replies : List (Bytes × List (Bytes × Bytes))} (runs : Runs (collectReplies db c none asked replies)) :
    ∀ one ∈ asked, db.store.lookup one.1 ≠ none := by
  induction asked generalizing replies with
  | nil => exact fun one absent => absurd absent List.not_mem_nil
  | cons one rest ih =>
    obtain ⟨key, startId⟩ := one
    obtain ⟨result, ran⟩ := runs
    unfold collectReplies at ran
    cases lookup : db.store.lookup key with
    | none =>
      rw [lookup] at ran
      cases ran
    | some object =>
      have later {more} (ran : collectReplies db c none rest more = .ok result) :
          ∀ other ∈ (key, startId) :: rest, db.store.lookup other.1 ≠ none := by
        intro other member
        rcases List.mem_cons.mp member with rfl | inside
        · rw [lookup]
          exact Option.some_ne_none _
        · exact ih ⟨result, ran⟩ other inside
      rw [lookup] at ran
      dsimp only at ran
      rw [if_neg fun both => Bool.false_ne_true both.1] at ran
      split at ran
      · split at ran
        · exact later ran
        · cases ‹(none : Option Float) = some _›
        · exact later ran
      · exact later ran

theorem finds_of_runs {command : Command} (runs : Runs (callSimple db c command)) :
    command.Finds db := by
  cases command <;> first | exact trivial | skip
  case xread block names ids =>
    cases block with
    | some timeout => exact trivial
    | none =>
      intro even
      obtain ⟨result, ran⟩ := runs
      replace ran : handleXread db c none names ids = .ok result := ran
      rw [handleXread, if_neg (not_not.mpr even)] at ran
      obtain ⟨collected, found, -⟩ := exec_bind_ok.mp ran
      exact collectReplies_finds ⟨collected, found⟩

/-- A command that does not wait and finds its keys runs to an end. -/
theorem callSimple_runs {command : Command} (sound : db.Sound) (timed : db.Timed)
    (stands : ∀ key set, db.HasSortedSet key set → set.Stands)
    (defined : command.Defined db c) (finds : command.Finds db)
    (goesOn : command.waits db c = false) (asked : c.command = command) (simple : command ≠ .exec) :
    Runs (callSimple db c command) := by
  cases command <;> first | exact runs_replying _ _ | exact runs_ok _ | skip
  case exec => exact absurd rfl simple
  case get => exact handleGetOrType_runs sound timed false
  case type => exact handleGetOrType_runs sound timed true
  case incr => exact handleIncr_runs sound defined
  case rpush => exact handlePush_runs defined
  case lpush => exact handlePush_runs defined
  case lrange => exact handleLrange_runs sound defined
  case llen => exact handleLlen_runs sound defined
  case lpop => exact handleLpop_runs sound defined
  case blpop => exact handleBlpop_runs sound goesOn defined
  case xadd => exact handleXadd_runs sound
  case xrange => exact handleXrange_runs sound
  case xread block names ids =>
    refine handleXread_runs sound goesOn fun absent => ?_
    subst absent
    exact finds
  case aclGetUser =>
    rw [callSimple, handleAclGetuser, asked]
    exact runs_replying _ _
  case discard =>
    rw [callSimple, handleDiscard]
    split
    · exact runs_replying _ _
    · exact runs_ok _
  case keys =>
    rw [callSimple, handleKeys, asked]
    dsimp only
    split <;> exact runs_replying _ _
  case subscribe =>
    rw [callSimple, handleSubscribe, asked]
    exact runs_ok _
  case publish =>
    rw [callSimple, handlePublish, asked]
    exact runs_ok _
  case zadd key scoreMembers =>
    have holds := openSortedSet_holds sound key
    rw [callSimple, handleZadd, asked]
    dsimp only
    generalize openSortedSet db key = opened at holds
    obtain ⟨db₁, object⟩ := opened
    dsimp only at holds ⊢
    split
    · exact runs_replying _ _
    · rename_i tag
      obtain ⟨set, held, found⟩ := holds (not_not.mp tag)
      rw [held, deref, exec_pure, exec_ok_bind]
      exact (zaddMembers_runs (stands key set found) (defined set found) 0).bind
        fun _ _ => runs_replying _ _
  case zrem key members =>
    rw [callSimple, handleZrem, asked]
    dsimp only
    cases lookup : db.store.lookup key with
    | none => exact runs_replying _ _
    | some object =>
      dsimp only
      split
      · exact runs_replying _ _
      · rename_i tag
        rw [ne_eq, not_not] at tag
        obtain ⟨set, held⟩ := set_of_sound (sound.objects _ _ lookup) tag
        rw [held, deref, exec_pure, exec_ok_bind]
        have found : db.HasSortedSet key set := .inr ⟨object, lookup, tag, held⟩
        exact (zremMembers_runs (stands key set found) (defined set found) 0).bind
          fun _ _ => runs_replying _ _
  case geoAdd key longitude latitude score member invalid =>
    rw [callSimple, handleGeoadd, asked]
    dsimp only
    split
    · exact runs_replying _ _
    · rename_i valid
      have holds := openSortedSet_holds sound key
      generalize openSortedSet db key = opened at holds
      obtain ⟨db₁, object⟩ := opened
      dsimp only at holds ⊢
      split
      · exact runs_replying _ _
      · rename_i tag
        obtain ⟨set, held, found⟩ := holds (not_not.mp tag)
        rw [held, deref, exec_pure, exec_ok_bind]
        have takes : SortedSet.Takes { set with isGeo := true } member score := by
          rw [SortedSet.takes_flagged]
          exact defined (Bool.eq_false_iff.mpr valid) set found
        rw [((stands key set found).flagged true).insert_eq, if_pos takes, exec_ok_bind]
        exact runs_replying _ _
  case zrank key member =>
    rw [callSimple, handleZrank, asked]
    refine withSortedSet_runs sound fun set _ found => ?_
    rw [(stands key set found).rank_eq, if_pos (defined set found), exec_ok_bind]
    split <;> exact runs_ok _
  case zrange =>
    rw [callSimple, handleZrange, asked]
    exact withSortedSet_runs sound fun _ _ _ => runs_ok _
  case zcard =>
    rw [callSimple, handleZcard, asked]
    exact withSortedSet_runs sound fun _ _ _ => runs_ok _
  case zscore key member =>
    rw [callSimple, handleZscore, asked]
    refine withSortedSet_runs sound fun set _ found => ?_
    cases scored : set.score member with
    | none => exact runs_ok _
    | some score =>
      dsimp only
      split
      · rename_i isGeo
        exact (defined set score found isGeo scored).bind fun _ _ => runs_ok _
      · exact runs_ok _
  case geoPos key members =>
    rw [callSimple, handleGeopos, asked]
    refine withSortedSet_runs sound fun set _ found => ?_
    exact (geoPositions_runs fun score member held scored =>
      defined set score member held found scored).bind fun _ _ => runs_ok _
  case geoDist key member1 member2 =>
    rw [callSimple, handleGeodist, asked]
    refine withSortedSet_runs sound fun set _ found => ?_
    split
    · rename_i score1 score2 scored1 scored2
      obtain ⟨castable1, castable2⟩ := defined set score1 score2 found scored1 scored2
      exact (areaOfScore_runs castable1).bind fun _ _ =>
        (areaOfScore_runs castable2).bind fun _ _ => runs_ok _
    · exact runs_ok _
  case geoSearch key longitude latitude radius =>
    rw [callSimple, handleGeosearch, asked]
    refine withSortedSet_runs sound fun set present found => ?_
    obtain ⟨encodes, castable⟩ := defined set present found
    exact encodes.bind fun _ _ => (geoMatches_runs castable _).bind fun _ _ => runs_ok _

end CarrotDb
