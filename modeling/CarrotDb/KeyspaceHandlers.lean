import CarrotDb.Keyspace

/-! The handlers against the keyspace. A database keeps a keyspace in listpacks,
trees and hash maps; what the keyspace says of a command about one key, the
handler of the command does, and it touches no other key. No client waits for a
key. -/
namespace CarrotDb
open Decimal Resp Listpack

variable {db db' : DB} {c : Context} {key answer more : Bytes} {bound after : Option Binding}
  {effects later : List Effect} {value : Value} {object : RedisObject}

/-- The listpack of a list, with its exact count. -/
def Exact (lp : Bytes) (xs : List Bytes) : Prop :=
  Listpack.Counted lp xs xs.length ∧ xs.length < lpHdrNumeleUnknown

/-- The tree of a stream, with the fields as they were sent. -/
structure Stream.Keeps (stream : Stream) (entries : List (StreamID × List (Bytes × Bytes))) :
    Prop where
  logs : stream.Logs (storedLog entries)
  last : stream.lastInsertStreamID = Keyspace.lastId entries
  sized : ∀ entry ∈ entries, Sized entry.2

/-- The two indexes of a sorted set. -/
structure SortedSet.Keeps (set : SortedSet) (isGeo : Bool) (scores : Map Bytes Float) : Prop where
  consistent : set.Consistent
  hashMap : set.hashMap = scores
  isGeo : set.isGeo = isGeo

/-- The object a value is kept in. -/
def Value.KeptBy (object : RedisObject) : Value → Prop
  | .text bytes => object.type = .string ∧ object.stringPtr = some bytes
  | .list xs => object.type = .listPack ∧ ∃ lp, object.listPack = some lp ∧ Exact lp xs
  | .stream entries => object.type = .stream ∧
    ∃ stream, object.streamPtr = some stream ∧ stream.Keeps entries
  | .scores isGeo byMember => object.type = .sortedSet ∧
    ∃ set, object.sortedSetPtr = some set ∧ set.Keeps isGeo byMember

/-- The tag of a value. -/
def Value.type : Value → RedisObjectEncodingType
  | .text _ => .string
  | .list _ => .listPack
  | .stream _ => .stream
  | .scores .. => .sortedSet

theorem Value.KeptBy.type (kept : value.KeptBy object) : object.type = value.type := by
  cases value <;> exact kept.1

/-- What a key is bound to in a database. -/
def DB.Binds (db : DB) (key : Bytes) : Option Binding → Prop
  | none => db.store.lookup key = none ∧ db.expiration.lookup key = none
  | some binding => (∃ object, db.store.lookup key = some object ∧ binding.value.KeptBy object) ∧
    db.expiration.lookup key = binding.deadline

theorem DB.Binds.deadline (binds : db.Binds key bound) :
    db.expiration.lookup key = bound.bind Binding.deadline := by
  cases bound with
  | none => exact binds.2
  | some binding => exact binds.2

/-- Only the one key matters. -/
theorem DB.Binds.congr (binds : db.Binds key bound)
    (store : db'.store.lookup key = db.store.lookup key)
    (expiration : db'.expiration.lookup key = db.expiration.lookup key) : db'.Binds key bound := by
  cases bound with
  | none => exact ⟨store.trans binds.1, expiration.trans binds.2⟩
  | some binding =>
    obtain ⟨⟨object, lookup, kept⟩, deadline⟩ := binds
    exact ⟨⟨object, store.trans lookup, kept⟩, expiration.trans deadline⟩

/-- A reply to the client that is served, and marks at most for others. -/
structure Tells (answer : Bytes) (effects : List Effect) : Prop where
  replied : repliedBytes effects = answer
  quiet : ∀ effect ∈ effects, (∃ bytes, effect = .reply bytes) ∨ ∃ fd, effect = .dirty fd

@[simp] theorem tells_nil : Tells [] [] := ⟨rfl, fun _ absent => absurd absent List.not_mem_nil⟩

@[simp] theorem tells_one (bytes : Bytes) : Tells bytes [.reply bytes] where
  replied := List.append_nil bytes
  quiet := fun _ member => .inl ⟨bytes, List.mem_singleton.mp member⟩

theorem tells_marks (db : DB) (env : Env) (key : Bytes) :
    Tells [] (markWatchingClientsDirty db env key) where
  replied := repliedBytes_dirty db env key
  quiet := fun effect member => by
    obtain ⟨fd, -, same⟩ := List.mem_map.mp member
    exact .inr ⟨fd, same.symm⟩

theorem Tells.append (first : Tells answer effects) (second : Tells more later) :
    Tells (answer ++ more) (effects ++ later) where
  replied := by rw [repliedBytes_append, first.replied, second.replied]
  quiet := fun effect member => (List.mem_append.mp member).elim (first.quiet effect) (second.quiet effect)

/-- Marks, and then the reply. -/
theorem tells_behind_marks (db : DB) (env : Env) (key bytes : Bytes) :
    Tells bytes (markWatchingClientsDirty db env key ++ [.reply bytes]) :=
  (tells_marks db env key).append (tells_one bytes)

/-- The reply, and then marks. -/
theorem tells_before_marks (db : DB) (env : Env) (key bytes : Bytes) :
    Tells bytes (.reply bytes :: markWatchingClientsDirty db env key) := by
  have both := (tells_one bytes).append (tells_marks db env key)
  rwa [List.append_nil] at both

/-- A handler went through, told its client the answer, bound the key anew and
left everything else. -/
structure Settled (db : DB) (key : Bytes) (after : Option Binding) (answer : Bytes) (db' : DB)
    (effects : List Effect) : Prop where
  binds : db'.Binds key after
  store : ∀ other ≠ key, db'.store.lookup other = db.store.lookup other
  expiration : ∀ other ≠ key, db'.expiration.lookup other = db.expiration.lookup other
  blockedKeys : db'.blockedKeys = db.blockedKeys
  blockedXreadKeys : db'.blockedXreadKeys = db.blockedXreadKeys
  replies : Tells answer effects

/-- A handler that settles a command about a key. -/
def Settling (db : DB) (key : Bytes) (after : Option Binding) (answer : Bytes) (outcome : Outcome) :
    Prop :=
  ∃ db' effects, outcome = .ok (db', effects) ∧ Settled db key after answer db' effects

/-- Nothing but a reply. -/
theorem settling_reply (binds : db.Binds key bound) (bytes : Bytes) :
    Settling db key bound bytes (replying db bytes) :=
  ⟨db, [.reply bytes], rfl, binds, fun _ _ => rfl, fun _ _ => rfl, rfl, rfl, tells_one bytes⟩

/-- Another value for the key, whatever its deadline is now. -/
theorem settled_insert {deadline : Option Int} (kept : value.KeptBy object)
    (expiration : db'.expiration.lookup key = deadline)
    (others : ∀ other ≠ key, db'.expiration.lookup other = db.expiration.lookup other)
    (store : db'.store = db.store.insert key object)
    (blocked : db'.blockedKeys = db.blockedKeys)
    (blockedXread : db'.blockedXreadKeys = db.blockedXreadKeys) (replies : Tells answer effects) :
    Settled db key (some ⟨value, deadline⟩) answer db' effects where
  binds := ⟨⟨object, by rw [store, Finmap.lookup_insert], kept⟩, expiration⟩
  store := fun other different => by rw [store, Finmap.lookup_insert_of_ne _ different]
  expiration := others
  blockedKeys := blocked
  blockedXreadKeys := blockedXread
  replies := replies

/-- Another value for the key, which keeps its deadline. -/
theorem settled_store (binds : db.Binds key bound) (kept : value.KeptBy object)
    (replies : Tells answer effects) :
    Settled db key (Keyspace.rebound bound value) answer
      { db with store := db.store.insert key object } effects :=
  settled_insert kept binds.deadline (fun _ _ => rfl) rfl rfl rfl replies

theorem set_settles {bytes : Bytes} {ex px : Option Nat} (binds : db.Binds key bound)
    (reacts : Keyspace.set bound c.env.clock.steady bytes ex px = .ok (answer, after)) :
    Settling db key after answer (handleSet db c key bytes ex px) := by
  have kept : Value.KeptBy { type := .string, stringPtr := some bytes } (.text bytes) := ⟨rfl, rfl⟩
  rw [Keyspace.set] at reacts
  split at reacts
  · rename_i untimed
    cases reacts
    cases ex with
    | some seconds => cases untimed
    | none =>
      cases px with
      | some milliseconds => cases untimed
      | none => exact ⟨_, _, rfl, settled_store binds kept (tells_behind_marks _ _ _ _)⟩
  · rename_i ttl timed
    split at reacts
    · rename_i range
      cases reacts
      obtain ⟨⟨db', effects⟩, ran⟩ : ∃ result, handleSet db c key bytes ex px = .ok result := ⟨_, rfl⟩
      have recorded := handleSet_deadline timed ran
      rw [i64_of_range range.1 range.2] at recorded
      refine ⟨db', effects, ran, ?_⟩
      cases ran
      refine settled_insert kept recorded (fun other different => ?_) rfl rfl rfl
        (tells_behind_marks _ _ _ _)
      cases ex with
      | some seconds => exact Finmap.lookup_insert_of_ne _ different
      | none =>
        cases px with
        | some milliseconds => exact Finmap.lookup_insert_of_ne _ different
        | none => cases timed
    · cases reacts

/-- Looking at a key that is due erases it. -/
theorem expireIfDue_current (binds : db.Binds key bound) (now : Int) :
    ∃ db', expireIfDue db now key = .ok db' ∧
      ∀ answer effects, Tells answer effects →
        Settled db key (Keyspace.current bound now) answer db' effects := by
  cases bound with
  | none =>
    refine ⟨db, ?_, fun answer effects replies =>
      ⟨binds, fun _ _ => rfl, fun _ _ => rfl, rfl, rfl, replies⟩⟩
    rw [expireIfDue, binds.2]
    rfl
  | some binding =>
    obtain ⟨⟨object, lookup, kept⟩, due⟩ := binds
    obtain ⟨value, deadline⟩ := binding
    rw [expireIfDue, due]
    cases deadline with
    | none =>
      exact ⟨db, rfl, fun answer effects replies =>
        ⟨⟨⟨object, lookup, kept⟩, due⟩, fun _ _ => rfl, fun _ _ => rfl, rfl, rfl, replies⟩⟩
    | some deadline =>
      by_cases late : now < deadline
      · have stays : Keyspace.current (some ⟨value, some deadline⟩) now =
            some ⟨value, some deadline⟩ := by simp [Keyspace.current, late]
        rw [stays]
        refine ⟨db, if_neg (not_le.mpr late), fun answer effects replies =>
          ⟨⟨⟨object, lookup, kept⟩, due⟩, fun _ _ => rfl, fun _ _ => rfl, rfl, rfl, replies⟩⟩
      · have goes : Keyspace.current (some ⟨value, some deadline⟩) now = none := by
          simp [Keyspace.current, late]
        rw [goes, lookup]
        refine ⟨_, if_pos (not_lt.mp late), fun answer effects replies => ⟨⟨?_, ?_⟩, ?_, ?_, rfl, rfl, replies⟩⟩
        · exact Finmap.lookup_erase _ _
        · exact Finmap.lookup_erase _ _
        · exact fun other different => Finmap.lookup_erase_ne different
        · exact fun other different => Finmap.lookup_erase_ne different

theorem getOrType_settles {isTypeCommand : Bool} (binds : db.Binds key bound)
    (reacts : Keyspace.getOrType bound c.env.clock.steady isTypeCommand = .ok (answer, after)) :
    Settling db key after answer (handleGetOrType db c isTypeCommand key) := by
  obtain ⟨db', expired, settled⟩ := expireIfDue_current binds c.env.clock.steady
  rw [Keyspace.getOrType] at reacts
  rw [handleGetOrType, expired, exec_ok_bind]
  generalize Keyspace.current bound c.env.clock.steady = seen at settled reacts
  have here := (settled [] [] tells_nil).binds
  cases seen with
  | none =>
    cases reacts
    rw [here.1]
    exact ⟨db', _, rfl, settled _ _ (tells_one _)⟩
  | some binding =>
    obtain ⟨⟨object, lookup, kept⟩, -⟩ := here
    obtain ⟨value, deadline⟩ := binding
    cases reacts
    rw [lookup]
    cases value with
    | text bytes =>
      obtain ⟨tag, pointer⟩ := kept
      dsimp only
      rw [tag, pointer]
      cases isTypeCommand <;> exact ⟨db', _, rfl, settled _ _ (tells_one _)⟩
    | list xs =>
      dsimp only
      rw [kept.1]
      exact ⟨db', _, rfl, settled _ _ tells_nil⟩
    | stream entries =>
      dsimp only
      rw [kept.1]
      cases isTypeCommand with
      | true => exact ⟨db', _, rfl, settled _ _ (tells_one _)⟩
      | false => exact ⟨db', _, rfl, settled _ _ tells_nil⟩
    | scores isGeo scores =>
      dsimp only
      rw [kept.1]
      exact ⟨db', _, rfl, settled _ _ tells_nil⟩

theorem incr_settles (binds : db.Binds key bound)
    (reacts : Keyspace.incr bound = .ok (answer, after)) :
    Settling db key after answer (handleIncr db c key) := by
  have refuses (binding : Binding) (object : RedisObject) (lookup : db.store.lookup key = some object)
      (tag : object.type ≠ .string) (binds : db.Binds key (some binding)) :
      Settling db key (some binding) Keyspace.noInteger (handleIncr db c key) := by
    rw [handleIncr, lookup]
    dsimp only
    rw [if_neg tag]
    exact settling_reply binds _
  cases bound with
  | none =>
    cases reacts
    rw [handleIncr, binds.1]
    have kept : Value.KeptBy { type := .string, stringPtr := some (ascii "1") } (.text (ascii "1")) :=
      ⟨rfl, rfl⟩
    exact ⟨_, _, rfl, settled_store binds kept (tells_behind_marks _ _ _ _)⟩
  | some binding =>
    obtain ⟨value, deadline⟩ := binding
    obtain ⟨⟨object, lookup, kept⟩, -⟩ := id binds
    cases value with
    | text bytes =>
      obtain ⟨tag, pointer⟩ := kept
      rw [Keyspace.incr] at reacts
      rw [handleIncr, lookup]
      dsimp only
      rw [if_pos tag, pointer, deref, exec_pure, exec_ok_bind]
      cases read : convertStringToNumber (bytes.takeWhile (· ≠ 0)) with
      | some number =>
        rw [read] at reacts
        dsimp only at reacts ⊢
        split at reacts
        · rename_i small
          cases reacts
          rw [increment, if_pos small, exec_pure, exec_ok_bind]
          exact ⟨_, _, rfl, settled_store binds ⟨tag, rfl⟩ (tells_before_marks _ _ _ _)⟩
        · cases reacts
      | none =>
        rw [read] at reacts
        cases reacts
        exact settling_reply binds _
    | list xs =>
      cases reacts
      exact refuses _ object lookup (by rw [kept.1]; decide) binds
    | stream entries =>
      cases reacts
      exact refuses _ object lookup (by rw [kept.1]; decide) binds
    | scores isGeo scores =>
      cases reacts
      exact refuses _ object lookup (by rw [kept.1]; decide) binds

/-- Popping counts down as long as the count is known. -/
theorem countedDown_iterate {count k : Nat} (known : count < lpHdrNumeleUnknown) :
    countedDown^[k] count = count - k := by
  induction k generalizing count with
  | zero => rfl
  | succ k ih =>
    rw [Function.iterate_succ_apply, countedDown, if_neg known.ne, ih (by omega)]
    omega

theorem popElements_exact {lp : Bytes} {xs : List Bytes} {ndebug : Bool} (held : Exact lp xs) (n : Nat)
    (checked : ∀ x ∈ xs.take n, Checked ndebug x) :
    ∃ lp', popElements ndebug n (some lp) = .ok (xs.take n, some lp') ∧ Exact lp' (xs.drop n) := by
  obtain ⟨counted, known⟩ := held
  obtain ⟨lp', popped, left⟩ := popElements_counted counted n checked
  have length : countedDown^[(xs.take n).length] xs.length = (xs.drop n).length := by
    rw [countedDown_iterate known, List.length_take, List.length_drop]
    omega
  rw [length] at left
  exact ⟨lp', popped, left, by rw [List.length_drop]; omega⟩

theorem lpLength_exact {lp : Bytes} {xs : List Bytes} (held : Exact lp xs) (ndebug : Bool) :
    lpLength ndebug lp = .ok (xs.length, lp) := by
  rw [lpLength, held.1.2, exec_ok_bind, if_pos held.2.ne]
  rfl

/-- Pushes need room, and prepending looks at what was first before. -/
theorem pushes_checked {isPrepend ndebug : Bool} {xs values : List Bytes}
    (checked : isPrepend = true → ∀ x ∈ xs.take 1 ++ values.dropLast, Checked ndebug x)
    (fits : used (xs ++ values) ≤ 2 ^ 32 - 1) : Pushes ndebug isPrepend xs values := by
  induction values generalizing xs with
  | nil => trivial
  | cons value rest ih =>
    have whole : used (pushed isPrepend xs value ++ rest) = used (xs ++ value :: rest) := by
      cases isPrepend <;> simp only [pushed, used, body_append, body_cons, List.length_append,
        Bool.false_eq_true, if_false, if_true] <;> simp [body] <;> omega
    have room : used (pushed isPrepend xs value) ≤ used (pushed isPrepend xs value ++ rest) := by
      rw [used, used, body_append, List.length_append]
      omega
    rw [← whole] at fits
    refine ⟨fun prepends x first => ?_, room.trans fits, ?_⟩
    · apply checked prepends
      obtain ⟨later, rfl⟩ := List.head?_eq_some_iff.mp first
      simp
    · cases rest with
      | nil => trivial
      | cons next rest =>
        refine ih (fun prepends x member => ?_) fits
        subst prepends
        apply checked rfl
        rw [List.dropLast_cons_cons]
        exact List.mem_append_right _ member

/-- The list of a key, as the handlers of lists find it. -/
theorem DB.Binds.listAt {xs : List Bytes} {deadline : Option Int}
    (binds : db.Binds key (some ⟨.list xs, deadline⟩)) :
    db.ListAt key xs ∧ db.headerCount key = .ok xs.length := by
  obtain ⟨⟨object, lookup, tag, lp, pointer, held, known⟩, -⟩ := binds
  refine ⟨.inr ⟨object, lp, lookup, tag, pointer, held.1⟩, ?_⟩
  rw [DB.headerCount, lookup]
  dsimp only
  rw [pointer]
  exact held.2

/-- A push to a list, or to a missing key. -/
theorem grow_settles {isPrepend : Bool} {xs values : List Bytes} (binds : db.Binds key bound)
    (held : db.ListAt key xs) (header : db.headerCount key = .ok xs.length)
    (checked : isPrepend = true → ∀ x ∈ xs.take 1 ++ values.dropLast, Checked c.env.ndebug x)
    (idle : db.blockedKeys.lookup key = none) (nonempty : values ≠ [])
    (counts : xs.length + values.length < lpHdrNumeleUnknown)
    (fits : used (xs ++ values) ≤ 2 ^ 32 - 1) :
    Settling db key (Keyspace.rebound bound (.list (pushAll isPrepend xs values)))
      (encodeInteger (xs.length + values.length : Nat)) (handlePush db c isPrepend key values) := by
  have pushes : Pushes c.env.ndebug isPrepend xs values := pushes_checked checked fits
  have whole := pushes_stored pushes
  rw [← whole] at pushes
  obtain ⟨db', ran, held', header'⟩ := @pushValues_counted db c.env.ndebug isPrepend key xs xs.length
    values 0 held header pushes
  rw [whole] at held'
  rw [countedUp_iterate _ _ (by omega), Nat.min_eq_left (by omega)] at ran header'
  rw [if_neg nonempty] at ran
  obtain ⟨store, rfl, others⟩ := pushValues_frame ran
  have length := pushAll_length isPrepend xs values
  refine ⟨{ db with store }, markWatchingClientsDirty { db with store } c.env key ++
    [.reply (encodeInteger (xs.length + values.length : Nat))], ?_, ?_⟩
  · rw [handlePush_plain (.inl (by rw [queueOf, idle]; rfl)), ran]
    rfl
  · refine ⟨⟨?_, binds.deadline⟩, others, fun _ _ => rfl, rfl, rfl, tells_behind_marks _ _ _ _⟩
    rcases held' with ⟨-, empty⟩ | ⟨object, lp, lookup, tag, pointer, formed⟩
    · have positive := List.length_pos_iff.mpr nonempty
      rw [empty, List.length_nil] at length
      omega
    · have counted : lpGetTotalNumElements lp = .ok (xs.length + values.length) := by
        rw [← header', DB.headerCount, lookup]
        dsimp only
        rw [pointer]
        rfl
      exact ⟨object, lookup, tag, lp, pointer, ⟨formed, by rw [length]; exact counted⟩,
        by rw [length]; exact counts⟩

theorem push_settles {isPrepend : Bool} {values : List Bytes} (binds : db.Binds key bound)
    (checked : isPrepend = true → ∀ x ∈ (Keyspace.elements bound).take 1 ++ values.dropLast,
      Checked c.env.ndebug x) (idle : db.blockedKeys.lookup key = none)
    (reacts : Keyspace.push bound isPrepend values = .ok (answer, after)) :
    Settling db key after answer (handlePush db c isPrepend key values) := by
  unfold Keyspace.push at reacts
  dsimp only at reacts
  split at reacts
  · split at reacts
    · rename_i grows
      cases reacts
      have missing : db.headerCount key = .ok 0 := by
        rw [DB.headerCount, binds.1]
        rfl
      exact grow_settles binds (.inl ⟨binds.1, rfl⟩) missing checked idle grows.1 grows.2.1
        grows.2.2
    · cases reacts
  · split at reacts
    · rename_i grows
      cases reacts
      exact grow_settles binds binds.listAt.1 binds.listAt.2 checked idle grows.1 grows.2.1
        grows.2.2
    · cases reacts
  · cases reacts

theorem lpop_settles {count : Option Nat} (binds : db.Binds key bound)
    (checked : ∀ x ∈ (Keyspace.elements bound).take (count.getD 1), Checked c.env.ndebug x)
    (reacts : Keyspace.lpop bound (count.getD 1) = .ok (answer, after)) :
    Settling db key after answer (handleLpop db c key count) := by
  cases bound with
  | none =>
    cases reacts
    rw [handleLpop, binds.1]
    exact settling_reply binds _
  | some binding =>
    obtain ⟨value, deadline⟩ := binding
    obtain ⟨⟨object, lookup, kept⟩, -⟩ := id binds
    rw [handleLpop, lookup]
    dsimp only
    rw [kept.type]
    cases value with
    | list xs =>
      cases reacts
      obtain ⟨tag, lp, pointer, held⟩ := kept
      obtain ⟨lp', popped, held'⟩ := popElements_exact held (count.getD 1) checked
      rw [pointer]
      dsimp only [Value.type]
      rw [popped, exec_ok_bind]
      have kept' : Value.KeptBy { object with type := .listPack, listPack := some lp' }
          (.list (xs.drop (count.getD 1))) := ⟨rfl, lp', rfl, held'⟩
      refine ⟨_, _, rfl, settled_store binds kept' ?_⟩
      rw [← List.nil_append (popReply _)]
      refine Tells.append ?_ ?_
      · split
        · exact tells_nil
        · exact tells_marks _ _ _
      · generalize xs.take (count.getD 1) = result
        rcases result with _ | ⟨value, _ | ⟨next, rest⟩⟩ <;> exact tells_one _
    | text bytes | stream entries | scores isGeo scores =>
      cases reacts
      exact settling_reply binds _

theorem blpop_settles {keys : List Bytes} {timeout : Float} (first : keys.headD [] = key)
    (binds : db.Binds key bound)
    (checked : ∀ x ∈ (Keyspace.elements bound).take 1, Checked c.env.ndebug x)
    (reacts : Keyspace.blpop bound key = .ok (answer, after)) :
    Settling db key after answer (handleBlpop db c keys timeout) := by
  cases bound with
  | none => cases reacts
  | some binding =>
    obtain ⟨value, deadline⟩ := binding
    obtain ⟨⟨object, lookup, kept⟩, -⟩ := id binds
    rw [handleBlpop]
    dsimp only
    rw [first, lookup]
    dsimp only
    rw [kept.type]
    cases value with
    | list xs =>
      cases xs with
      | nil => cases reacts
      | cons x xs =>
        cases reacts
        obtain ⟨tag, lp, pointer, held, known⟩ := kept
        obtain ⟨lp', newp, deleted, held'⟩ := lpDelete_first_counted held c.env.ndebug
        rw [countedDown, if_neg known.ne] at held'
        have front : lpFirst c.env.ndebug lp = .ok (some (offset (x :: xs) 0)) :=
          lpFirst_checked held.1 fun y first => checked y (by cases first; exact List.mem_singleton_self x)
        rw [pointer]
        dsimp only [Value.type]
        rw [front, exec_ok_bind]
        dsimp only
        rw [elementAt_first held.1, exec_ok_bind, deleted, exec_ok_bind]
        have kept' : Value.KeptBy { object with type := .listPack, listPack := some lp' } (.list xs) :=
          ⟨rfl, lp', rfl, held', Nat.lt_of_succ_lt known⟩
        exact ⟨_, _, rfl, settled_store binds kept' (tells_one _)⟩
    | text bytes | stream entries | scores isGeo scores =>
      cases reacts
      exact settling_reply binds _

/-- A list is written back as it was found. -/
theorem settling_list {xs : List Bytes} {deadline : Option Int} {lp : Bytes}
    (binds : db.Binds key (some ⟨.list xs, deadline⟩)) (held : Exact lp xs) (object : RedisObject)
    (bytes : Bytes) : Settling db key (some ⟨.list xs, deadline⟩) bytes
      (replying { db with
        store := db.store.insert key { object with type := .listPack, listPack := some lp } } bytes) :=
  have kept : Value.KeptBy { object with type := .listPack, listPack := some lp } (.list xs) :=
    ⟨rfl, lp, rfl, held⟩
  ⟨_, _, rfl, settled_store binds kept (tells_one bytes)⟩

theorem llen_settles (binds : db.Binds key bound)
    (reacts : Keyspace.llen bound = .ok (answer, after)) :
    Settling db key after answer (handleLlen db c key) := by
  cases reacts
  cases bound with
  | none =>
    rw [handleLlen, binds.1]
    exact settling_reply binds _
  | some binding =>
    obtain ⟨value, deadline⟩ := binding
    obtain ⟨⟨object, lookup, kept⟩, -⟩ := id binds
    rw [handleLlen, lookup]
    dsimp only
    rw [kept.type]
    cases value with
    | list xs =>
      obtain ⟨tag, lp, pointer, held⟩ := kept
      rw [pointer]
      dsimp only [Value.type]
      rw [lpLength_exact held, exec_ok_bind]
      exact settling_list binds held object _
    | text bytes | stream entries | scores isGeo scores => exact settling_reply binds _

theorem lrange_settles {start stop : Int} (binds : db.Binds key bound)
    (checked : ∀ x ∈ Keyspace.elements bound, Checked c.env.ndebug x)
    (reacts : Keyspace.lrange bound start stop = .ok (answer, after)) :
    Settling db key after answer (handleLrange db c key start stop) := by
  rw [Keyspace.lrange] at reacts
  split at reacts
  · rename_i ranges
    cases reacts
    cases bound with
    | none =>
      rw [handleLrange, binds.1]
      exact settling_reply binds _
    | some binding =>
      obtain ⟨value, deadline⟩ := binding
      cases value with
      | list xs =>
        obtain ⟨db', ran, -⟩ := handleLrange_checked binds.listAt.1 checked ranges.1 ranges.2
        obtain ⟨⟨object, lookup, tag, lp, pointer, held⟩, -⟩ := id binds
        have written : db' = { db with
            store := db.store.insert key { object with type := .listPack, listPack := some lp } } := by
          rw [handleLrange, lookup] at ran
          dsimp only at ran
          rw [tag, pointer] at ran
          dsimp only at ran
          rw [lpLength_exact held, exec_ok_bind] at ran
          dsimp only at ran
          generalize (if stop < 0 then i64 (xs.length + stop) else stop) = last at ran
          generalize (if start < 0 then i64 (xs.length + start) else start) = first at ran
          generalize (if first < 0 then 0 else first) = first at ran
          split at ran
          · exact (replying_ok ran).1
          · split at ran
            · exact (replying_ok ran).1
            · obtain ⟨result, -, ran⟩ := exec_bind_ok.mp ran
              exact (replying_ok ran).1
        rw [ran, written]
        exact settling_list binds held object _
      | text bytes | stream entries | scores isGeo scores =>
        obtain ⟨⟨object, lookup, kept⟩, -⟩ := id binds
        rw [handleLrange, lookup]
        dsimp only
        rw [kept.type]
        exact settling_reply binds _
  · cases reacts

/-! ## Streams -/

/-- The text of an identifier is read against the last one only. -/
theorem fromString_last (stream : Stream) (systemMs : Nat) (text : Bytes) :
    stream.fromString systemMs text =
      Stream.fromString ⟨none, stream.lastInsertStreamID⟩ systemMs text := rfl

theorem lastId_append (entries : List (StreamID × List (Bytes × Bytes))) (id : StreamID)
    (fieldValues : List (Bytes × Bytes)) :
    Keyspace.lastId (entries ++ [(id, fieldValues)]) = id := by
  simp [Keyspace.lastId]

/-- What the keyspace refuses, the stream refuses; to ask for the first
identifier, it compares with the last one nevertheless. -/
theorem Stream.Keeps.refuses {stream : Stream} {entries : List (StreamID × List (Bytes × Bytes))}
    (keeps : stream.Keeps entries) {systemMs : Nat} {text : Bytes} {error : StreamErrorType}
    (refused : Keyspace.nextId (Keyspace.lastId entries) systemMs text = .error error) (raw : Bytes) :
    error ≠ .ok ∧ stream.insert systemMs text raw = (stream, ⟨error, []⟩) := by
  rw [← keeps.last, Keyspace.nextId, ← fromString_last] at refused
  unfold Stream.insert
  cases read : stream.fromString systemMs text with
  | none =>
    rw [read] at refused
    cases refused
    exact ⟨by simp, rfl⟩
  | some id =>
    rw [read] at refused
    dsimp only at refused ⊢
    by_cases zero : id = ⟨0, 0⟩
    · rw [if_pos zero] at refused
      cases refused
      rw [if_pos (id.eq_zero_iff.mp zero)]
      exact ⟨by simp, rfl⟩
    · rw [if_neg zero] at refused
      rw [if_neg (fun same => zero (id.eq_zero_iff.mpr same))]
      cases greater : id.isGreater stream.lastInsertStreamID with
      | true =>
        rw [greater] at refused
        cases refused
      | false =>
        rw [greater] at refused
        cases refused
        have positive : stream.lastInsertStreamID.ms ≠ 0 ∨ stream.lastInsertStreamID.seq ≠ 0 := by
          by_contra first
          have less : StreamID.Lt stream.lastInsertStreamID id := by
            rw [StreamID.eq_zero_iff] at zero
            rw [StreamID.lt_iff]
            omega
          rw [StreamID.Lt, greater] at less
          cases less
        rw [if_pos ⟨positive, rfl⟩]
        exact ⟨by simp, rfl⟩

/-- What the keyspace accepts, the stream accepts. -/
theorem Stream.Keeps.accepts {stream : Stream} {entries : List (StreamID × List (Bytes × Bytes))}
    (keeps : stream.Keeps entries) {systemMs : Nat} {text : Bytes} {id : StreamID}
    (accepted : Keyspace.nextId (Keyspace.lastId entries) systemMs text = .ok id)
    {fieldValues : List (Bytes × Bytes)} (sized : Sized fieldValues) :
    ∃ stream', stream.insert systemMs text (rawValue fieldValues) =
      (stream', ⟨.ok, id.toString⟩) ∧ stream'.Keeps (entries ++ [(id, fieldValues)]) := by
  rw [← keeps.last, Keyspace.nextId, ← fromString_last] at accepted
  cases read : stream.fromString systemMs text with
  | none =>
    rw [read] at accepted
    cases accepted
  | some found =>
    rw [read] at accepted
    dsimp only at accepted
    split at accepted
    · cases accepted
    · rename_i zero
      split at accepted
      · rename_i greater
        cases accepted
        have inserted : stream.insert systemMs text (rawValue fieldValues) =
            (⟨some (RadixTree.insert stream.radixTreePtr id.toBinary (rawValue fieldValues)), id⟩,
              ⟨.ok, id.toString⟩) := by
          unfold Stream.insert
          rw [read]
          dsimp only
          rw [if_neg (fun same => zero (id.eq_zero_iff.mpr same)), greater,
            if_neg (fun both => Bool.false_ne_true both.2.symm)]
        refine ⟨_, inserted, ?_, (lastId_append entries id fieldValues).symm, ?_⟩
        · rcases insert_logs keeps.logs systemMs text (rawValue fieldValues) with
            ⟨-, refused⟩ | ⟨other, same, -, logs⟩
          · rw [inserted] at refused
            exact absurd rfl refused
          · rw [read] at same
            cases same
            rw [inserted] at logs
            simpa [storedLog] using logs
        · intro entry member
          rcases List.mem_append.mp member with old | new
          · exact keeps.sized entry old
          · rw [List.mem_singleton.mp new]
            exact sized
      · cases accepted

section
variable {opened : DB} {stream stream' : Stream} {streamId : Bytes}
  {fieldValues : List (Bytes × Bytes)} {entries : List (StreamID × List (Bytes × Bytes))}

theorem xadd_refuses {error : StreamErrorType} (opens : openStream db key = (opened, object))
    (tag : object.type = .stream) (pointer : object.streamPtr = some stream) (failed : error ≠ .ok)
    (refused : stream.insert c.env.clock.system streamId (rawValue fieldValues) =
      (stream', ⟨error, []⟩)) :
    handleXadd db c key streamId fieldValues = replying opened (xaddError error) := by
  rw [handleXadd, opens]
  dsimp only
  rw [if_neg (not_not.mpr tag), pointer, deref, exec_pure, exec_ok_bind, refused]
  exact if_pos failed

theorem xadd_appends {id : StreamID} (opens : openStream db key = (opened, object))
    (tag : object.type = .stream) (pointer : object.streamPtr = some stream)
    (idle : opened.blockedXreadKeys.lookup key = none)
    (inserted : stream.insert c.env.clock.system streamId (rawValue fieldValues) =
      (stream', ⟨.ok, id.toString⟩)) :
    ∃ effects, handleXadd db c key streamId fieldValues = .ok ({ opened with
        store := opened.store.insert key { object with streamPtr := some stream' } }, effects) ∧
      Tells (encodeBulkString id.toString) effects := by
  rw [handleXadd, opens]
  dsimp only
  rw [if_neg (not_not.mpr tag), pointer, deref, exec_pure, exec_ok_bind, inserted]
  dsimp only
  rw [if_neg (not_not.mpr rfl), handleBlockedXreadClients]
  dsimp only
  rw [idle]
  refine ⟨_, rfl, ?_⟩
  rw [List.append_nil]
  exact tells_before_marks _ _ _ _

theorem xadd_settles (binds : db.Binds key bound) (idle : db.blockedXreadKeys.lookup key = none)
    (reacts : Keyspace.xadd bound c.env.clock.system streamId fieldValues = .ok (answer, after)) :
    Settling db key after answer (handleXadd db c key streamId fieldValues) := by
  unfold Keyspace.xadd at reacts
  dsimp only at reacts
  split at reacts
  · -- a new stream is stored before anything is inserted
    split at reacts
    · rename_i sized
      have opens : openStream db key = ({ db with
          store := db.store.insert key { type := .stream, streamPtr := some Stream.new } },
          { type := .stream, streamPtr := some Stream.new }) := by
        rw [openStream, binds.1]
      have keeps : Stream.new.Keeps [] := ⟨new_logs, rfl, fun _ absent => absurd absent List.not_mem_nil⟩
      split at reacts
      · rename_i error refused
        cases reacts
        obtain ⟨failed, ran⟩ := keeps.refuses refused (rawValue fieldValues)
        rw [xadd_refuses opens rfl rfl failed ran]
        have kept : Value.KeptBy { type := .stream, streamPtr := some Stream.new } (.stream []) :=
          ⟨rfl, _, rfl, keeps⟩
        exact ⟨_, _, rfl, settled_store binds kept (tells_one _)⟩
      · rename_i id accepted
        cases reacts
        obtain ⟨stream', inserted, keeps'⟩ := keeps.accepts accepted sized
        obtain ⟨effects, ran, replies⟩ := xadd_appends opens rfl rfl idle inserted
        rw [Finmap.insert_insert] at ran
        have kept : Value.KeptBy { type := .stream, streamPtr := some stream' }
            (.stream ([] ++ [(id, fieldValues)])) := ⟨rfl, _, rfl, keeps'⟩
        exact ⟨_, _, ran, settled_store binds kept replies⟩
    · cases reacts
  · rename_i entries deadline
    split at reacts
    · rename_i sized
      obtain ⟨⟨object, lookup, tag, stream, pointer, keeps⟩, -⟩ := id binds
      have opens : openStream db key = (db, object) := by rw [openStream, lookup]
      split at reacts
      · rename_i error refused
        cases reacts
        obtain ⟨failed, ran⟩ := keeps.refuses refused (rawValue fieldValues)
        rw [xadd_refuses opens tag pointer failed ran]
        exact settling_reply binds _
      · rename_i id accepted
        cases reacts
        obtain ⟨stream', inserted, keeps'⟩ := keeps.accepts accepted sized
        obtain ⟨effects, ran, replies⟩ := xadd_appends opens tag pointer idle inserted
        have kept : Value.KeptBy { object with streamPtr := some stream' }
            (.stream (entries ++ [(id, fieldValues)])) := ⟨tag, _, rfl, keeps'⟩
        exact ⟨_, _, ran, settled_store binds kept replies⟩
    · cases reacts
  · rename_i binding other
    cases reacts
    obtain ⟨value, deadline⟩ := binding
    obtain ⟨⟨object, lookup, kept⟩, -⟩ := id binds
    have apart : object.type ≠ .stream := by
      rw [kept.type]
      cases value with
      | stream entries => exact absurd rfl (other entries deadline)
      | text bytes | list xs | scores isGeo scores => simp [Value.type]
    rw [handleXadd, openStream, lookup]
    dsimp only
    rw [if_pos apart]
    exact settling_reply binds _

end

/-- The entries of a key, as XRANGE and XREAD find them. -/
theorem entriesWithin_logs {stream : Stream} {entries : List (StreamID × List (Bytes × Bytes))}
    (keeps : stream.Keeps entries) (start stop : Bytes) :
    (stream.xrangeData start stop false).getD [] =
      (storedLog (Keyspace.entriesWithin start stop entries)).pairs := by
  rw [Keyspace.entriesWithin]
  cases low : fromStringForSearch start false with
  | none =>
    rw [Stream.xrangeData, low]
    rfl
  | some low' =>
    cases high : fromStringForSearch stop true with
    | none =>
      rw [Stream.xrangeData, low, high]
      rfl
    | some high' =>
      rw [xrangeData_logs keeps.logs low high (fromStringForSearch_fits low)
        (fromStringForSearch_fits high), between_stored]
      split
      · rename_i empty
        rw [List.map_eq_nil_iff.mp empty]
        rfl
      · rfl

theorem entriesBehind_logs {stream : Stream} {entries : List (StreamID × List (Bytes × Bytes))}
    (keeps : stream.Keeps entries) (text : Bytes) :
    (stream.xrangeData text (ascii "+") true).getD [] =
      (storedLog (Keyspace.entriesBehind text entries)).pairs := by
  rw [xrangeData_behind keeps.logs, Log.behind, Keyspace.entriesBehind]
  cases fromStringForSearch text false with
  | none => rfl
  | some low =>
    dsimp only
    rw [storedLog, List.filter_map]
    rfl

theorem encodeEntries_keeps {stream : Stream}
    {entries part : List (StreamID × List (Bytes × Bytes))} (keeps : stream.Keeps entries)
    (among : ∀ entry ∈ part, entry ∈ entries) :
    encodeEntries (storedLog part).pairs = .ok (part.flatMap encodeEntry) :=
  encodeEntries_stored
    (fun entry member => keeps.logs.fits (entry.1, rawValue entry.2)
      (List.mem_map_of_mem (among entry member)))
    fun entry member => keeps.sized entry (among entry member)

theorem entriesWithin_among {start stop : Bytes} {entries : List (StreamID × List (Bytes × Bytes))} :
    ∀ entry ∈ Keyspace.entriesWithin start stop entries, entry ∈ entries := by
  intro entry member
  rw [Keyspace.entriesWithin] at member
  split at member
  · exact List.mem_of_mem_filter member
  · cases member

theorem entriesBehind_among {text : Bytes} {entries : List (StreamID × List (Bytes × Bytes))} :
    ∀ entry ∈ Keyspace.entriesBehind text entries, entry ∈ entries := by
  intro entry member
  rw [Keyspace.entriesBehind] at member
  split at member
  · cases member
  · exact List.mem_of_mem_filter member

theorem pairs_nil {part : List (StreamID × List (Bytes × Bytes))}
    (empty : (storedLog part).pairs = []) : part = [] := by
  simpa [Log.pairs, storedLog] using empty

theorem xrange_settles {start stop : Bytes} (binds : db.Binds key bound)
    (reacts : Keyspace.xrange bound start stop = .ok (answer, after)) :
    Settling db key after answer (handleXrange db key start stop) := by
  cases reacts
  have nothing : encodeRange (Keyspace.entriesWithin start stop []) = encodeEmptyArray := by
    rw [Keyspace.entriesWithin]
    split <;> rfl
  cases bound with
  | none =>
    rw [handleXrange, binds.1]
    show Settling db key none (encodeRange (Keyspace.entriesWithin start stop [])) _
    rw [nothing]
    exact settling_reply binds _
  | some binding =>
    obtain ⟨value, deadline⟩ := binding
    obtain ⟨⟨object, lookup, kept⟩, -⟩ := id binds
    rw [handleXrange, lookup]
    dsimp only
    rw [kept.type]
    cases value with
    | stream entries =>
      obtain ⟨tag, stream, pointer, keeps⟩ := kept
      have found := entriesWithin_logs keeps start stop
      have encoded := encodeEntries_keeps keeps (@entriesWithin_among start stop entries)
      rw [pointer]
      dsimp only [Value.type, Keyspace.entries]
      generalize Keyspace.entriesWithin start stop entries = part at found encoded
      generalize stream.xrangeData start stop false = data at found
      rcases data with _ | _ | ⟨first, rest⟩
      · rw [pairs_nil found.symm]
        exact settling_reply binds _
      · rw [pairs_nil found.symm]
        exact settling_reply binds _
      · rw [Option.getD_some] at found
        dsimp only
        rw [found, encoded, exec_ok_bind, Log.pairs, storedLog, List.length_map, List.length_map]
        exact settling_reply binds _
    | text bytes | list xs | scores isGeo scores =>
      dsimp only [Keyspace.entries]
      rw [nothing]
      exact settling_reply binds _

/-! ## Sorted sets -/

/-- The ordered index is the members in order. -/
theorem SortedSet.Keeps.ranked {set : SortedSet} {isGeo : Bool} {scores : Map Bytes Float}
    (keeps : set.Keeps isGeo scores) : Keyspace.ranked scores = set.sets := by
  obtain ⟨consistent, rfl, -⟩ := keeps
  have injective : Function.Injective fun member : Bytes =>
      ((set.hashMap.lookup member).getD 0, member) := fun _ _ same => congrArg Prod.snd same
  have same : ((set.hashMap.keys.sort (· ≥ ·)).map fun member =>
      ((set.hashMap.lookup member).getD 0, member)).Perm set.sets := by
    refine (List.perm_ext_iff_of_nodup ((Finset.sort_nodup _ _).map injective)
      (List.Nodup.of_map _ consistent.members_nodup)).mpr ?_
    rintro ⟨score, member⟩
    rw [consistent.agree, List.mem_map]
    constructor
    · rintro ⟨other, listed, pair⟩
      obtain ⟨rfl, rfl⟩ := Prod.mk.inj pair
      obtain ⟨held, lookup⟩ := Option.isSome_iff_exists.mp
        (Finmap.lookup_isSome.mpr (Finmap.mem_keys.mp ((Finset.mem_sort _).mp listed)))
      rw [lookup]
      rfl
    · intro lookup
      refine ⟨member, (Finset.mem_sort _).mpr (Finmap.mem_keys.mpr ?_), by rw [lookup]; rfl⟩
      rw [← Finmap.lookup_isSome, lookup]
      rfl
  have total : Std.Total fun a b : Float × Bytes => entryRank a ≤ entryRank b := ⟨fun a b => le_total _ _⟩
  have transitive : IsTrans (Float × Bytes) fun a b => entryRank a ≤ entryRank b :=
    ⟨fun a b c => le_trans⟩
  refine List.Perm.eq_of_pairwise (fun a b left right below above => ?_)
    (List.pairwise_insertionSort _ _) (consistent.ordered.imp le_of_lt)
    ((List.perm_insertionSort _ _).trans same)
  have place : entryRank a = entryRank b := le_antisymm below above
  have inside : a ∈ set.sets := same.mem_iff.mp ((List.perm_insertionSort _ _).mem_iff.mp left)
  exact consistent.unique inside right (congrArg (fun rank => (ofLex rank).2) place)

theorem SortedSet.Keeps.card {set : SortedSet} {isGeo : Bool} {scores : Map Bytes Float}
    (keeps : set.Keeps isGeo scores) : scores.keys.card = set.sets.length := by
  rw [← keeps.hashMap, keeps.consistent.keys_card]

theorem SortedSet.Keeps.insert {set : SortedSet} {isGeo : Bool} {scores : Map Bytes Float}
    (keeps : set.Keeps isGeo scores) (member : Bytes) {score : Float} (number : score.isNaN = false) :
    ∃ set', set.insert member score = .ok (set', decide (member ∈ scores)) ∧
      set'.Keeps isGeo (scores.insert member score) := by
  obtain ⟨consistent, rfl, rfl⟩ := keeps
  obtain ⟨set', ran, consistent', scores, isGeo, -⟩ := consistent.insert member number
  have known : (set.score member).isSome = decide (member ∈ set.hashMap) := by
    rw [SortedSet.score, Bool.eq_iff_iff, Finmap.lookup_isSome, decide_eq_true_eq]
  rw [known] at ran
  refine ⟨set', ran, consistent', Finmap.ext_lookup fun other => ?_, isGeo⟩
  refine (scores other).trans ?_
  by_cases here : other = member
  · subst here
    rw [if_pos rfl, Finmap.lookup_insert]
  · rw [if_neg here, Finmap.lookup_insert_of_ne _ here]
    rfl

theorem SortedSet.Keeps.remove {set : SortedSet} {isGeo : Bool} {scores : Map Bytes Float}
    (keeps : set.Keeps isGeo scores) (member : Bytes) :
    ∃ set' found, set.remove member = .ok (set', found) ∧ set'.Keeps isGeo (scores.erase member) := by
  obtain ⟨consistent, rfl, rfl⟩ := keeps
  obtain ⟨set', ran, consistent', hashMap, isGeo, -⟩ := consistent.remove member
  exact ⟨set', _, ran, consistent', hashMap, isGeo⟩

theorem run_insertions {set set' : SortedSet} {isGeo : Bool} {scores : Map Bytes Float}
    (keeps : set.Keeps isGeo scores) {scoreMembers : List (Float × Bytes)}
    (numbers : Numbers scoreMembers) (ran : set.run (insertions scoreMembers) = .ok set') :
    set'.Keeps isGeo
      (scoreMembers.foldl (fun scores entry => scores.insert entry.2 entry.1) scores) := by
  induction scoreMembers generalizing set scores with
  | nil =>
    cases ran
    exact keeps
  | cons entry rest ih =>
    obtain ⟨next, inserted, keeps'⟩ := keeps.insert entry.2 (numbers entry List.mem_cons_self)
    have step : set.run (insertions (entry :: rest)) = next.run (insertions rest) := by
      show (set.insert entry.2 entry.1 >>= fun result => result.1.run (insertions rest)) = _
      rw [inserted]
      rfl
    rw [step] at ran
    exact ih keeps' (fun other member => numbers other (List.mem_cons_of_mem _ member)) ran

theorem run_removals {set set' : SortedSet} {isGeo : Bool} {scores : Map Bytes Float}
    (keeps : set.Keeps isGeo scores) {members : List Bytes}
    (ran : set.run (removals members) = .ok set') :
    set'.Keeps isGeo (members.foldl (fun scores member => scores.erase member) scores) := by
  induction members generalizing set scores with
  | nil =>
    cases ran
    exact keeps
  | cons member rest ih =>
    obtain ⟨next, found, removed, keeps'⟩ := keeps.remove member
    have step : set.run (removals (member :: rest)) = next.run (removals rest) := by
      show (set.remove member >>= fun result => result.1.run (removals rest)) = _
      rw [removed]
      rfl
    rw [step] at ran
    exact ih keeps' ran

/-- The set that ZADD and GEOADD write to, and what storing another one in its
place leaves. -/
theorem openSortedSet_settles {isGeo : Bool} {scores : Map Bytes Float} (binds : db.Binds key bound)
    (found : Keyspace.scoresOf bound = .ok (isGeo, scores)) :
    ∃ opened object set, openSortedSet db key = (opened, object) ∧ object.type = .sortedSet ∧
      object.sortedSetPtr = some set ∧ set.Keeps isGeo scores ∧
      ∀ set' isGeo' scores' answer, SortedSet.Keeps set' isGeo' scores' →
        Settled db key (Keyspace.rebound bound (.scores isGeo' scores')) answer
          (storeSortedSet opened key object set') [.reply answer] := by
  cases bound with
  | none =>
    cases found
    refine ⟨_, _, SortedSet.new, by rw [openSortedSet, binds.1], rfl, rfl,
      ⟨SortedSet.new_consistent false, rfl, rfl⟩, fun set' isGeo' scores' answer keeps => ?_⟩
    have kept : Value.KeptBy { type := .sortedSet, sortedSetPtr := some set' }
        (.scores isGeo' scores') := ⟨rfl, set', rfl, keeps⟩
    rw [storeSortedSet, Finmap.insert_insert]
    exact settled_store binds kept (tells_one answer)
  | some binding =>
    obtain ⟨value, deadline⟩ := binding
    obtain ⟨⟨object, lookup, kept⟩, -⟩ := id binds
    cases value with
    | scores isGeo' scores' =>
      cases found
      obtain ⟨tag, set, pointer, keeps⟩ := kept
      refine ⟨db, object, set, by rw [openSortedSet, lookup], tag, pointer, keeps,
        fun set' isGeo' scores' answer keeps' => ?_⟩
      have kept' : Value.KeptBy { object with sortedSetPtr := some set' } (.scores isGeo' scores') :=
        ⟨tag, set', rfl, keeps'⟩
      exact settled_store binds kept' (tells_one answer)
    | text bytes | list xs | stream entries => cases found

/-- Another value is refused. -/
theorem openSortedSet_refuses {refusal : Bytes} (binds : db.Binds key bound)
    (found : Keyspace.scoresOf bound = .error refusal) : refusal = wrongType ∧
      ∃ object, openSortedSet db key = (db, object) ∧ object.type ≠ .sortedSet := by
  cases bound with
  | none => cases found
  | some binding =>
    obtain ⟨value, deadline⟩ := binding
    obtain ⟨⟨object, lookup, kept⟩, -⟩ := id binds
    have tag := kept.type
    cases value with
    | scores isGeo' scores' => cases found
    | text bytes | list xs | stream entries =>
      cases found
      exact ⟨rfl, object, by rw [openSortedSet, lookup], by simp [tag, Value.type]⟩

theorem zadd_settles {scoreMembers : List (Float × Bytes)} (binds : db.Binds key bound)
    (asked : c.command = .zadd key scoreMembers)
    (reacts : Keyspace.zadd bound scoreMembers = .ok (answer, after)) :
    Settling db key after answer (handleZadd db c) := by
  rw [Keyspace.zadd] at reacts
  rw [handleZadd, asked]
  dsimp only
  split at reacts
  · rename_i refusal found
    cases reacts
    obtain ⟨rfl, object, opens, tag⟩ := openSortedSet_refuses binds found
    rw [opens]
    dsimp only
    rw [if_pos tag]
    exact settling_reply binds _
  · rename_i isGeo scores found
    split at reacts
    · rename_i all
      cases reacts
      have numbers : Numbers scoreMembers := fun entry member => by
        simpa using List.all_eq_true.mp all entry member
      obtain ⟨opened, object, set, opens, tag, pointer, keeps, settled⟩ :=
        openSortedSet_settles binds found
      obtain ⟨set', added, looped, ran, grown⟩ := zaddMembers_counts keeps.consistent numbers 0
      have keeps' := run_insertions keeps numbers ran
      have size : (scoreMembers.foldl (fun scores entry => scores.insert entry.2 entry.1)
          scores).keys.card - scores.keys.card = added := by
        rw [keeps'.card, keeps.card, grown, Nat.add_sub_cancel_left]
      rw [Nat.zero_add] at looped
      rw [opens, size]
      dsimp only
      rw [if_neg (not_not.mpr tag), pointer, deref, exec_pure, exec_ok_bind, looped, exec_ok_bind]
      exact ⟨_, _, rfl, settled _ _ _ _ keeps'⟩
    · cases reacts

theorem geoadd_settles {longitude latitude score : Float} {member : Bytes} {invalidLatLon : Bool}
    (binds : db.Binds key bound)
    (asked : c.command = .geoAdd key longitude latitude score member invalidLatLon)
    (reacts : Keyspace.geoadd bound longitude latitude score member invalidLatLon =
      .ok (answer, after)) : Settling db key after answer (handleGeoadd db c) := by
  rw [Keyspace.geoadd] at reacts
  rw [handleGeoadd, asked]
  dsimp only
  split at reacts
  · rename_i invalid
    cases reacts
    rw [if_pos invalid]
    exact settling_reply binds _
  · rename_i valid
    rw [if_neg valid]
    split at reacts
    · rename_i refusal found
      cases reacts
      obtain ⟨rfl, object, opens, tag⟩ := openSortedSet_refuses binds found
      rw [opens]
      dsimp only
      rw [if_pos tag]
      exact settling_reply binds _
    · rename_i isGeo scores found
      split at reacts
      · cases reacts
      · rename_i number
        cases reacts
        obtain ⟨opened, object, set, opens, tag, pointer, keeps, settled⟩ :=
          openSortedSet_settles binds found
        have flagged : SortedSet.Keeps { set with isGeo := true } true scores :=
          ⟨keeps.consistent.flagged true, keeps.hashMap, rfl⟩
        obtain ⟨set', inserted, keeps'⟩ := flagged.insert member (Bool.not_eq_true _ ▸ number)
        rw [opens]
        dsimp only
        rw [if_neg (not_not.mpr tag), pointer, deref, exec_pure, exec_ok_bind, inserted, exec_ok_bind]
        refine ⟨_, _, rfl, ?_⟩
        simp only [decide_eq_true_eq]
        exact settled _ _ _ _ keeps'

theorem zrem_settles {members : List Bytes} (binds : db.Binds key bound)
    (asked : c.command = .zrem key members)
    (reacts : Keyspace.zrem bound members = .ok (answer, after)) :
    Settling db key after answer (handleZrem db c) := by
  rw [handleZrem, asked]
  dsimp only
  cases bound with
  | none =>
    cases reacts
    rw [binds.1]
    exact settling_reply binds _
  | some binding =>
    obtain ⟨value, deadline⟩ := binding
    obtain ⟨⟨object, lookup, kept⟩, -⟩ := id binds
    rw [lookup]
    dsimp only
    cases value with
    | scores isGeo scores =>
      cases reacts
      obtain ⟨tag, set, pointer, keeps⟩ := kept
      obtain ⟨set', removed, looped, ran, shrunk⟩ := zremMembers_counts keeps.consistent members 0
      have keeps' := run_removals keeps ran
      have size : scores.keys.card -
          (members.foldl (fun scores member => scores.erase member) scores).keys.card = removed := by
        rw [keeps'.card, keeps.card, shrunk, Nat.add_sub_cancel_left]
      rw [Nat.zero_add] at looped
      rw [if_neg (not_not.mpr tag), pointer, deref, exec_pure, exec_ok_bind, looped, exec_ok_bind, size]
      have kept' : Value.KeptBy { object with sortedSetPtr := some set' } (.scores isGeo _) :=
        ⟨tag, set', rfl, keeps'⟩
      exact ⟨_, _, rfl, settled_store binds kept' (tells_one _)⟩
    | text bytes | list xs | stream entries =>
      cases reacts
      rw [if_pos (by rw [kept.type]; simp [Value.type])]
      exact settling_reply binds _

/-- The reading commands of sorted sets. -/
theorem fromScores_settles {missing : Bytes} {reply : SortedSet → Exec Bytes}
    {told : Bool → Map Bytes Float → Except Declined Bytes} (binds : db.Binds key bound)
    (same : ∀ set isGeo scores bytes, SortedSet.Keeps set isGeo scores →
      told isGeo scores = .ok bytes → reply set = .ok bytes)
    (reacts : Keyspace.fromScores bound missing told = .ok (answer, after)) :
    Settling db key after answer (withSortedSet db key missing reply) := by
  rw [withSortedSet]
  cases bound with
  | none =>
    cases reacts
    rw [binds.1]
    exact settling_reply binds _
  | some binding =>
    obtain ⟨value, deadline⟩ := binding
    obtain ⟨⟨object, lookup, kept⟩, -⟩ := id binds
    rw [lookup]
    dsimp only
    cases value with
    | scores isGeo scores =>
      obtain ⟨tag, set, pointer, keeps⟩ := kept
      rw [Keyspace.fromScores] at reacts
      cases tells : told isGeo scores with
      | error declined =>
        rw [tells] at reacts
        cases reacts
      | ok bytes =>
        rw [tells] at reacts
        cases reacts
        rw [if_neg (not_not.mpr tag), pointer, deref, exec_pure, exec_ok_bind,
          same set isGeo scores answer keeps tells, exec_ok_bind]
        exact settling_reply binds _
    | text bytes | list xs | stream entries =>
      cases reacts
      rw [if_pos (by rw [kept.type]; simp [Value.type])]
      exact settling_reply binds _

theorem zcard_settles (binds : db.Binds key bound) (asked : c.command = .zcard key)
    (reacts : Keyspace.zcard bound = .ok (answer, after)) :
    Settling db key after answer (handleZcard db c) := by
  rw [handleZcard, asked]
  refine fromScores_settles binds (fun set isGeo scores bytes keeps told => ?_) reacts
  cases told
  rw [keeps.card, ← keeps.consistent.counted]
  rfl

theorem zscore_settles {member : Bytes} (binds : db.Binds key bound)
    (asked : c.command = .zscore key member)
    (reacts : Keyspace.zscore bound member = .ok (answer, after)) :
    Settling db key after answer (handleZscore db c) := by
  rw [handleZscore, asked]
  refine fromScores_settles binds (fun set isGeo scores bytes keeps told => ?_) reacts
  rw [SortedSet.score, keeps.hashMap, keeps.isGeo]
  cases lookup : scores.lookup member with
  | none =>
    rw [lookup] at told
    cases told
    rfl
  | some score =>
    rw [lookup] at told
    cases isGeo with
    | false =>
      cases told
      rfl
    | true =>
      cases bits : scoreBits score with
      | error fault =>
        simp [bits] at told
      | ok number =>
        simp only [bits, if_true, Except.ok.injEq] at told
        subst told
        simp [bits]

/-- The rank of a member is its index among the members in order. -/
theorem SortedSet.Consistent.rank_eq {set : SortedSet} (consistent : set.Consistent) (member : Bytes) :
    set.rank member = .ok ((set.sets.map Prod.snd).idxOf? member) := by
  cases index : (set.sets.map Prod.snd).idxOf? member with
  | some i =>
    obtain ⟨inside, same, -⟩ := List.idxOf?_eq_some_iff.mp index
    exact (consistent.rank_iff member i).mpr (List.getElem?_eq_some_iff.mpr ⟨inside, same⟩)
  | none =>
    have absent := List.idxOf?_eq_none_iff.mp index
    cases lookup : set.hashMap.lookup member with
    | none =>
      rw [SortedSet.rank, lookup]
      rfl
    | some score =>
      have held := (consistent.agree score member).mpr lookup
      exact absurd (List.mem_map.mpr ⟨_, held, rfl⟩) absent

theorem zrank_settles {member : Bytes} (binds : db.Binds key bound)
    (asked : c.command = .zrank key member)
    (reacts : Keyspace.zrank bound member = .ok (answer, after)) :
    Settling db key after answer (handleZrank db c) := by
  rw [handleZrank, asked]
  refine fromScores_settles binds (fun set isGeo scores bytes keeps told => ?_) reacts
  cases told
  rw [keeps.ranked, keeps.consistent.rank_eq, exec_ok_bind]
  cases (set.sets.map Prod.snd).idxOf? member <;> rfl

theorem zrange_settles {start stop : Int} (binds : db.Binds key bound)
    (asked : c.command = .zrange key start stop)
    (reacts : Keyspace.zrange bound start stop = .ok (answer, after)) :
    Settling db key after answer (handleZrange db c) := by
  rw [handleZrange, asked]
  refine fromScores_settles binds (fun set isGeo scores bytes keeps told => ?_) reacts
  cases told
  rw [keeps.ranked, SortedSet.range_eq]
  rfl

/-! ## All commands about one key -/

/-- What the keyspace says of a command about a key, the database does. -/
theorem respond_settles {command : Command} (binds : db.Binds key bound)
    (idle : db.blockedKeys.lookup key = none) (idleXread : db.blockedXreadKeys.lookup key = none)
    (asked : Keyspace.ofRequest command = true → c.command = command)
    (about : command.part = some (.key key))
    (checked : ∀ x ∈ Keyspace.examined bound command, Checked c.env.ndebug x)
    (reacts : Keyspace.respond bound c.env.clock command = .ok (answer, after)) :
    Settling db key after answer (callSimple db c command) := by
  cases command <;> first | (cases reacts; done) | cases about
  case set => exact set_settles binds reacts
  case get => exact getOrType_settles binds reacts
  case type => exact getOrType_settles binds reacts
  case incr => exact incr_settles binds reacts
  case rpush => exact push_settles binds (fun prepends => absurd prepends Bool.false_ne_true) idle reacts
  case lpush => exact push_settles binds (fun _ => checked) idle reacts
  case lpop => exact lpop_settles binds checked reacts
  case blpop => exact blpop_settles rfl binds checked reacts
  case llen => exact llen_settles binds reacts
  case lrange => exact lrange_settles binds checked reacts
  case xadd => exact xadd_settles binds idleXread reacts
  case xrange => exact xrange_settles binds reacts
  case zadd => exact zadd_settles binds (asked rfl) reacts
  case geoAdd => exact geoadd_settles binds (asked rfl) reacts
  case zrem => exact zrem_settles binds (asked rfl) reacts
  case zcard => exact zcard_settles binds (asked rfl) reacts
  case zscore => exact zscore_settles binds (asked rfl) reacts
  case zrank => exact zrank_settles binds (asked rfl) reacts
  case zrange => exact zrange_settles binds (asked rfl) reacts

theorem react_settles {command : Command} (binds : db.Binds key bound)
    (idle : db.blockedKeys.lookup key = none) (idleXread : db.blockedXreadKeys.lookup key = none)
    (asked : Keyspace.ofRequest command = true → c.command = command)
    (about : command.part = some (.key key))
    (reacts : Keyspace.react bound c.env.ndebug c.env.clock command = .ok (answer, after)) :
    Settling db key after answer (callSimple db c command) := by
  rw [Keyspace.react] at reacts
  split at reacts
  · rename_i checked
    exact respond_settles binds idle idleXread asked about checked reacts
  · cases reacts

end CarrotDb
