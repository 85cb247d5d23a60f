import CarrotDb.DbObjects

/-! Which pointer of an object may be used. Every object of the store owns
exactly the pointer its tag names, whatever the commands that made it, as long
as no listpack outgrows its header. A handler that tests the tag may then
dereference without a test of the pointer; a push only asserts the tag. And a
key with a deadline is in the store, so GET and TYPE find what they erase. -/
namespace CarrotDb
open Decimal Resp Listpack

/-- The pointers of an object that are not null. -/
def RedisObject.holds (object : RedisObject) : RedisObjectEncodingType → Bool
  | .string => object.stringPtr.isSome
  | .listPack => object.listPack.isSome
  | .stream => object.streamPtr.isSome
  | .sortedSet => object.sortedSetPtr.isSome

/-- An object owns exactly the pointer its tag names. -/
def RedisObject.Named (object : RedisObject) : Prop :=
  ∀ pointer, object.holds pointer = true ↔ pointer = object.type

/-- Every object of the store does. -/
def DB.Named (db : DB) : Prop :=
  ∀ key object, db.store.lookup key = some object → object.Named

/-- The list that a push would leave fits in a listpack. -/
def DB.RoomFor (db : DB) (isPrepend : Bool) (key : Bytes) (values : List Bytes) : Prop :=
  ∀ xs, db.ListAt key xs → used (pushAll isPrepend xs (values.map stored)) ≤ 2 ^ 32 - 1

/-- No listpack that a command writes exceeds the size its header can hold. -/
def DB.Roomy (db : DB) (command : Command) : Prop :=
  ∀ isPrepend key values, command.pushes = some (isPrepend, key, values) →
    db.RoomFor isPrepend key (keptValues (queueOf db.blockedKeys key) values)

/-- The databases that commands and the snapshot loader leave, in any order. -/
inductive DB.Filled : DB → Prop where
  | empty : DB.Filled {}
  | called {db db' : DB} {c : Context} {command : Command} {effects : List Effect} :
    DB.Filled db → db.Roomy command → callSimple db c command = .ok (db', effects) → DB.Filled db'
  | loaded {db : DB} (key value : Bytes) : DB.Filled db → DB.Filled (db.set key value)
  | loadedWithExpiry {db : DB} (systemNow steadyNow : Int) (key value : Bytes) (expiry : Nat) :
    DB.Filled db → DB.Filled (db.setWithExpiry systemNow steadyNow key value expiry)

variable {db db' : DB} {c : Context} {effects : List Effect} {key : Bytes}

private theorem named_string (text : Bytes) :
    RedisObject.Named { type := .string, stringPtr := some text } := by
  intro pointer
  cases pointer <;> simp [RedisObject.holds]

private theorem named_stream (stream : Stream) :
    RedisObject.Named { type := .stream, streamPtr := some stream } := by
  intro pointer
  cases pointer <;> simp [RedisObject.holds]

private theorem named_set (set : SortedSet) :
    RedisObject.Named { type := .sortedSet, sortedSetPtr := some set } := by
  intro pointer
  cases pointer <;> simp [RedisObject.holds]

/-- Writing the pointer the tag names again keeps an object as it should be. -/
theorem RedisObject.Named.rewrite {object object' : RedisObject} (named : object.Named)
    (type : object'.type = object.type)
    (pointers : ∀ pointer, object'.holds pointer = (object.holds pointer || pointer = object.type)) :
    object'.Named := by
  intro pointer
  rw [pointers, type]
  simp [named pointer]

theorem RedisObject.Named.string {object : RedisObject} (named : object.Named)
    (tag : object.type = .string) (text : Bytes) :
    RedisObject.Named { object with stringPtr := some text } := by
  refine named.rewrite rfl fun pointer => ?_
  cases pointer <;> simp [RedisObject.holds, tag]

theorem RedisObject.Named.list {object : RedisObject} (named : object.Named)
    (tag : object.type = .listPack) (lp : Bytes) :
    RedisObject.Named { object with listPack := some lp } := by
  refine named.rewrite rfl fun pointer => ?_
  cases pointer <;> simp [RedisObject.holds, tag]

theorem RedisObject.Named.stream {object : RedisObject} (named : object.Named)
    (tag : object.type = .stream) (stream : Stream) :
    RedisObject.Named { object with streamPtr := some stream } := by
  refine named.rewrite rfl fun pointer => ?_
  cases pointer <;> simp [RedisObject.holds, tag]

theorem RedisObject.Named.set {object : RedisObject} (named : object.Named)
    (tag : object.type = .sortedSet) (set : SortedSet) :
    RedisObject.Named { object with sortedSetPtr := some set } := by
  refine named.rewrite rfl fun pointer => ?_
  cases pointer <;> simp [RedisObject.holds, tag]

/-- Owning exactly the pointer of the tag is kept, whatever the sorted sets. -/
theorem named_kept : Kept RedisObject.Named fun _ => True where
  closed := closed_true
  held _ _ _ _ := trivial
  newString := named_string
  newStream := named_stream
  newSet set _ := named_set set
  string _ named := named.string
  list _ named := named.list
  stream _ named := named.stream
  set _ named tag set _ := named.set tag set

private theorem used_le_pushAll (isPrepend : Bool) (xs values : List Bytes) :
    used xs ≤ used (pushAll isPrepend xs values) := by
  induction values generalizing xs with
  | nil => exact Nat.le_refl _
  | cons value rest ih =>
    have grown := used_pushed isPrepend xs value
    have later := ih (pushed isPrepend xs value)
    have whole : pushAll isPrepend xs (value :: rest) =
        pushAll isPrepend (pushed isPrepend xs value) rest := rfl
    rw [whole]
    omega

/-- With room, what `lpAppend` or `lpPrepend` returns is not null. -/
private theorem addElement_room {ndebug isPrepend : Bool} {lp value : Bytes} {xs : List Bytes}
    {listPack : Option Bytes} (formed : Layout lp xs)
    (fits : used (pushed isPrepend xs value) ≤ 2 ^ 32 - 1)
    (ran : addElement ndebug lp value isPrepend = .ok listPack) : ∃ lp', listPack = some lp' := by
  by_cases pushable : Pushable ndebug isPrepend xs
  · obtain ⟨lp', added, -⟩ := addElement_layout formed pushable fits
    rw [added] at ran
    cases ran
    exact ⟨lp', rfl⟩
  · rw [addElement_unpushable formed pushable] at ran
    cases ran

/-- A push that goes through found no key or a list. -/
private theorem pushValueToList_listed (named : db.Named) (sound : db.Sound)
    {ndebug isPrepend : Bool} {value : Bytes} {len : Nat}
    (ran : pushValueToList db ndebug key value isPrepend = .ok (db', len)) :
    ∃ xs, db.ListAt key xs := by
  unfold pushValueToList at ran
  split at ran
  · exact ⟨[], .inl ⟨‹_›, rfl⟩⟩
  · rename_i object lookup
    unfold appendToExistingList at ran
    obtain ⟨-, -, ran⟩ := exec_bind_ok.mp ran
    obtain ⟨lp, held, -⟩ := exec_bind_ok.mp ran
    cases pointer : object.listPack with
    | none =>
      rw [pointer] at held
      cases held
    | some lp =>
      have tag : object.type = .listPack :=
        ((named key object lookup .listPack).mp (by simp [RedisObject.holds, pointer])).symm
      obtain ⟨xs, -, listed⟩ := listAt_of_sound sound lookup tag pointer
      exact ⟨xs, listed⟩

private theorem pushValueToList_named (named : db.Named) {ndebug isPrepend : Bool} {value : Bytes}
    {len : Nat} {xs : List Bytes} (listed : db.ListAt key xs)
    (fits : used (pushed isPrepend xs (stored value)) ≤ 2 ^ 32 - 1)
    (ran : pushValueToList db ndebug key value isPrepend = .ok (db', len)) : db'.Named := by
  unfold pushValueToList at ran
  rcases listed with ⟨missing, rfl⟩ | ⟨object, lp, lookup, tag, pointer, formed⟩
  · obtain ⟨lp, made, formed⟩ := lpNew_layout listPackInitialCapacity
    simp only [missing, createNewList, made, exec_ok_bind] at ran
    obtain ⟨listPack, added, ran⟩ := exec_bind_ok.mp ran
    obtain ⟨lp', rfl⟩ := addElement_room formed fits added
    cases ran
    apply DB.Objects.insert named _ rfl
    intro pointer
    cases pointer <;> simp [RedisObject.holds]
  · simp only [lookup, appendToExistingList, pointer, deref, exec_pure, exec_ok_bind] at ran
    obtain ⟨-, -, ran⟩ := exec_bind_ok.mp ran
    obtain ⟨listPack, added, ran⟩ := exec_bind_ok.mp ran
    obtain ⟨lp', rfl⟩ := addElement_room formed fits added
    obtain ⟨written, -, ran⟩ := exec_bind_ok.mp ran
    obtain ⟨count, -, ran⟩ := exec_bind_ok.mp ran
    cases ran
    apply DB.Objects.insert named _ rfl
    exact (named key object lookup).list tag lp'

private theorem pushValues_named (named : db.Named) (sound : db.Sound) {ndebug isPrepend : Bool}
    {values : List Bytes} {start len : Nat} (room : db.RoomFor isPrepend key values)
    (ran : pushValues db ndebug key isPrepend values start = .ok (db', len)) : db'.Named := by
  induction values generalizing db start with
  | nil =>
    cases ran
    exact named
  | cons value rest ih =>
    obtain ⟨⟨db₁, len₁⟩, first, ran⟩ := exec_bind_ok.mp ran
    obtain ⟨xs, listed⟩ := pushValueToList_listed named sound first
    have whole : used (pushAll isPrepend (pushed isPrepend xs (stored value)) (rest.map stored)) ≤
        2 ^ 32 - 1 := room xs listed
    have fits := (used_le_pushAll isPrepend _ (rest.map stored)).trans whole
    apply ih (pushValueToList_named named listed fits first) (pushValueToList_sound sound first) _ ran
    -- The list after the first push is the one the room was counted for.
    intro ys listed'
    rcases pushValueToList_inv listed first with ⟨-, -, held⟩ | ⟨⟨beyond, -⟩, -⟩
    · rwa [listAt_unique listed' held]
    · omega

theorem handlePush_named (named : db.Named) (sound : db.Sound) {isPrepend : Bool}
    {values : List Bytes} (room : db.RoomFor isPrepend key (keptValues (queueOf db.blockedKeys key) values))
    (ran : handlePush db c isPrepend key values = .ok (db', effects)) : db'.Named := by
  by_cases plain : queueOf db.blockedKeys key = [] ∨ values = []
  · have all : keptValues (queueOf db.blockedKeys key) values = values := by
      rcases plain with idle | rfl
      · simp [keptValues, idle]
      · simp [keptValues]
    rw [all] at room
    rw [handlePush_plain plain] at ran
    obtain ⟨⟨db₁, len⟩, pushed, ran⟩ := exec_bind_ok.mp ran
    cases ran
    exact pushValues_named named sound room pushed
  · obtain ⟨held, nonempty⟩ := not_or.mp plain
    obtain ⟨blocked, queue, waiting⟩ := List.exists_cons_of_ne_nil held
    obtain ⟨first, rest, rfl⟩ := List.exists_cons_of_ne_nil nonempty
    simp only [keptValues, if_neg held, List.tail_cons] at room
    rw [handlePush_waiter waiting] at ran
    obtain ⟨⟨db₁, len⟩, pushed, ran⟩ := exec_bind_ok.mp ran
    cases ran
    have taken : DB.Named { db with blockedKeys := popFront db.blockedKeys key queue } :=
      DB.Objects.congr named rfl
    exact pushValues_named taken (sound.congr rfl rfl) room pushed

/-- One command. -/
theorem callSimple_named (named : db.Named) (sound : db.Sound) {command : Command}
    (room : db.Roomy command) (ran : callSimple db c command = .ok (db', effects)) : db'.Named := by
  cases pushes : command.pushes with
  | none => exact callSimple_objects named_kept named sound pushes ran
  | some push =>
    obtain ⟨isPrepend, key, values⟩ := push
    rw [callSimple_pushes pushes] at ran
    exact handlePush_named named sound (room isPrepend key values pushes) ran

theorem DB.Filled.sound (filled : db.Filled) : db.Sound := by
  induction filled with
  | empty => exact reachable_sound .empty
  | called _ _ ran sound => exact callSimple_sound sound ran
  | loaded key value _ sound => exact sound.insert (sound_of_text rfl rfl) rfl rfl
  | loadedWithExpiry _ _ key value _ _ sound =>
    exact sound.insert (sound_of_text rfl rfl) rfl rfl

/-- In every filled database each object owns exactly the pointer of its tag. -/
theorem DB.Filled.named (filled : db.Filled) : db.Named := by
  induction filled with
  | empty => exact fun _ _ absent => (nomatch absent)
  | called before room ran named => exact callSimple_named named before.sound room ran
  | loaded key value _ named => exact DB.Objects.insert named (named_string value) rfl
  | loadedWithExpiry _ _ key value _ _ named =>
    exact DB.Objects.insert named (named_string value) rfl

/-! ## Dereferences -/

/-- The key whose sorted set a command only reads, or removes members from. -/
def Command.readsSortedSet : Command → Option Bytes
  | .zrank key _ | .zrange key _ _ | .zcard key | .zscore key _ | .zrem key _ | .geoPos key _
  | .geoDist key _ _ | .geoSearch key .. => some key
  | _ => none

/-- The key whose sorted set a command writes to, once it is made. -/
def Command.opensSortedSet : Command → Option Bytes
  | .zadd key _ | .geoAdd key _ _ _ _ false => some key
  | _ => none

/-- The dereferences that a handler makes without a test of the pointer: all
but one behind a test of the tag, and one in each push, of the object that the
loop finds at the key, behind an assertion. -/
inductive Dereferences (db : DB) (c : Context) : Command → RedisObject → RedisObjectEncodingType → Prop
  | get {db' : DB} {key : Bytes} {object : RedisObject} :
    expireIfDue db c.env.clock.steady key = .ok db' → db'.store.lookup key = some object →
    object.type = .string → Dereferences db c (.get key) object .string
  | incr {key : Bytes} {object : RedisObject} :
    db.store.lookup key = some object → object.type = .string →
    Dereferences db c (.incr key) object .string
  | push {db' : DB} {command : Command} {isPrepend : Bool} {key value : Bytes}
      {values done rest : List Bytes} {object : RedisObject} {len : Nat} :
    command.pushes = some (isPrepend, key, values) →
    keptValues (queueOf db.blockedKeys key) values = done ++ value :: rest →
    pushValues db c.env.ndebug key isPrepend done 0 = .ok (db', len) →
    db'.store.lookup key = some object → Dereferences db c command object .listPack
  | xadd {key streamId : Bytes} {fieldValues : List (Bytes × Bytes)} :
    (openStream db key).2.type = .stream →
    Dereferences db c (.xadd key streamId fieldValues) (openStream db key).2 .stream
  | reading {command : Command} {key : Bytes} {object : RedisObject} :
    command.readsSortedSet = some key → db.store.lookup key = some object → object.type = .sortedSet →
    Dereferences db c command object .sortedSet
  | writing {command : Command} {key : Bytes} :
    command.opensSortedSet = some key → (openSortedSet db key).2.type = .sortedSet →
    Dereferences db c command (openSortedSet db key).2 .sortedSet

/-- A command pushes a value to the list at a key that is bound to another type. -/
def DB.PushesElsewhere (db : DB) (command : Command) : Prop :=
  ∃ isPrepend key values object, command.pushes = some (isPrepend, key, values) ∧
    keptValues (queueOf db.blockedKeys key) values ≠ [] ∧
    db.store.lookup key = some object ∧ object.type ≠ .listPack

theorem RedisObject.Named.tag {object : RedisObject} (named : object.Named) :
    object.holds object.type = true := (named object.type).mpr rfl

/-- The object that the loop of a push finds at a key with a list, or at one it
has bound itself. -/
theorem pushed_object {ndebug isPrepend : Bool} {done rest : List Bytes} {value : Bytes} {len : Nat}
    {xs : List Bytes} {object : RedisObject} (listed : db.ListAt key xs)
    (fits : used (pushAll isPrepend xs ((done ++ value :: rest).map stored)) ≤ 2 ^ 32 - 1)
    (ran : pushValues db ndebug key isPrepend done 0 = .ok (db', len))
    (found : db'.store.lookup key = some object) : object.holds .listPack = true := by
  have held : ∃ ys, db'.ListAt key ys := by
    clear found
    generalize (0 : Nat) = start at ran
    induction done generalizing db xs start with
    | nil =>
      cases ran
      exact ⟨xs, listed⟩
    | cons first others ih =>
      obtain ⟨⟨db₁, len₁⟩, pushed₁, ran⟩ := exec_bind_ok.mp ran
      have whole : used (pushAll isPrepend (pushed isPrepend xs (stored first))
        ((others ++ value :: rest).map stored)) ≤ 2 ^ 32 - 1 := fits
      rcases pushValueToList_inv listed pushed₁ with ⟨-, -, listed₁⟩ | ⟨⟨beyond, -⟩, -⟩
      · exact ih listed₁ whole len₁ ran
      · have grown := used_le_pushAll isPrepend (pushed isPrepend xs (stored first))
          ((others ++ value :: rest).map stored)
        omega
  obtain ⟨ys, ⟨missing, -⟩ | ⟨object', lp, lookup, -, pointer, -⟩⟩ := held
  · simp [missing] at found
  · rw [lookup] at found
    cases found
    simp [RedisObject.holds, pointer]

/-- A push to a key that is bound to another type, of which the object has no
listpack, fails the assertion, or dereferences null where assertions are
compiled out. -/
theorem handlePush_null {isPrepend : Bool} {values : List Bytes} {object : RedisObject}
    (some_value : keptValues (queueOf db.blockedKeys key) values ≠ [])
    (lookup : db.store.lookup key = some object) (other : object.type ≠ .listPack)
    (null : object.listPack = none) :
    handlePush db c isPrepend key values =
      .error (if c.env.ndebug then .undefinedBehaviour else .assertFailed) := by
  have fails : ∀ {db₁ : DB} {value : Bytes} {rest : List Bytes} {start : Nat},
      db₁.store = db.store → pushValues db₁ c.env.ndebug key isPrepend (value :: rest) start =
        .error (if c.env.ndebug then .undefinedBehaviour else .assertFailed) := by
    intro db₁ value rest start same
    simp only [pushValues, pushValueToList, appendToExistingList, same, lookup, null]
    cases c.env.ndebug <;> simp [cassert, other, deref]
  cases waiting : queueOf db.blockedKeys key with
  | nil =>
    rw [handlePush_plain (.inl waiting)]
    obtain ⟨value, rest, rfl⟩ : ∃ value rest, values = value :: rest := by
      apply List.exists_cons_of_ne_nil
      simpa [keptValues, waiting] using some_value
    rw [fails rfl]
    rfl
  | cons blocked queue =>
    obtain ⟨first, value, rest, rfl⟩ : ∃ first value rest, values = first :: value :: rest := by
      rcases values with _ | ⟨first, _ | ⟨value, rest⟩⟩
      · simp [keptValues, waiting] at some_value
      · simp [keptValues, waiting] at some_value
      · exact ⟨first, value, rest, rfl⟩
    rw [handlePush_waiter waiting]
    dsimp only
    rw [fails]
    · rfl
    · rfl

theorem handlePush_elsewhere (named : db.Named) {isPrepend : Bool} {values : List Bytes}
    {object : RedisObject} (some_value : keptValues (queueOf db.blockedKeys key) values ≠ [])
    (lookup : db.store.lookup key = some object) (other : object.type ≠ .listPack) :
    handlePush db c isPrepend key values =
      .error (if c.env.ndebug then .undefinedBehaviour else .assertFailed) := by
  have absent := (named key object lookup .listPack).not.mpr other.symm
  exact handlePush_null some_value lookup other (by simpa [RedisObject.holds] using absent)

/-- In every filled database each object owns exactly the pointer of its tag,
and every dereference of a command is of a pointer that is not null, but for a
push to a key that is bound to another type: that one ends the run. -/
theorem dereferences_safe_iff (filled : db.Filled) :
    db.Named ∧ ∀ (c : Context) (command : Command), db.Roomy command →
      ((∀ object pointer, Dereferences db c command object pointer → object.holds pointer = true) ↔
        ¬ db.PushesElsewhere command) ∧
      (db.PushesElsewhere command → callSimple db c command =
        .error (if c.env.ndebug then .undefinedBehaviour else .assertFailed)) := by
  have named := filled.named
  refine ⟨named, fun c command room => ⟨⟨?_, ?_⟩, ?_⟩⟩
  · -- The first value of such a push is the one that meets the other object.
    rintro safe ⟨isPrepend, key, values, object, pushes, some_value, lookup, other⟩
    obtain ⟨value, rest, kept⟩ := List.exists_cons_of_ne_nil some_value
    have starts : pushValues db c.env.ndebug key isPrepend [] 0 = .ok (db, 0) := rfl
    have holds := safe object .listPack (.push pushes kept starts lookup)
    exact other ((named key object lookup .listPack).mp holds).symm
  · intro listed object pointer dereference
    cases dereference with
    | get ran lookup tag => exact tag ▸ (expireIfDue_objects named ran _ object lookup).tag
    | incr lookup tag => exact tag ▸ (named _ object lookup).tag
    | @push db₁ _ isPrepend key value values done rest _ _ pushes kept ran found =>
      obtain ⟨xs, at_key⟩ : ∃ xs, db.ListAt key xs := by
        cases lookup : db.store.lookup key with
        | none => exact ⟨[], .inl ⟨lookup, rfl⟩⟩
        | some old =>
          have tag : old.type = .listPack := by
            by_contra other
            exact listed ⟨isPrepend, key, values, old, pushes, by simp [kept], lookup, other⟩
          have holds := (named key old lookup).tag
          obtain ⟨lp, pointer⟩ := Option.isSome_iff_exists.mp (tag ▸ holds)
          obtain ⟨xs, -, at_key⟩ := listAt_of_sound filled.sound lookup tag pointer
          exact ⟨xs, at_key⟩
      have fits := room isPrepend key values pushes xs at_key
      rw [kept] at fits
      exact pushed_object at_key fits ran found
    | xadd tag => exact tag ▸ (openStream_objects named_kept named _).2.tag
    | reading _ lookup tag => exact tag ▸ (named _ object lookup).tag
    | writing _ tag => exact tag ▸ (openSortedSet_objects named_kept named _).2.tag
  · rintro ⟨isPrepend, key, values, object, pushes, some_value, lookup, other⟩
    rw [callSimple_pushes pushes]
    exact handlePush_elsewhere named some_value lookup other

theorem DB.Filled.timed (filled : db.Filled) : db.Timed := by
  induction filled with
  | empty => exact reachable_timed .empty
  | called _ _ ran timed => exact timed_invariant.command _ _ _ _ _ ran timed
  | loaded key value _ timed =>
    exact timed.insert rfl rfl fun other different => Finmap.lookup_erase_ne different
  | loadedWithExpiry _ _ key value _ _ timed =>
    refine timed.insert rfl rfl fun other different => ?_
    exact (Finmap.lookup_insert_of_ne _ different).trans (Finmap.lookup_erase_ne different)

theorem DB.Filled.stands (filled : db.Filled) : db.Objects RedisObject.SetStands := by
  induction filled with
  | empty => exact fun _ _ absent => (nomatch absent)
  | called before _ ran stands =>
    exact command_objects setStands_kept setStands_pushed stands before.sound ran
  | loaded key value _ stands => exact stands.insert (setStands_kept.newString value) rfl
  | loadedWithExpiry _ _ key value _ _ stands =>
    exact stands.insert (setStands_kept.newString value) rfl

/-- A command that ends in a fault lacks what it needs of numbers, orders and
elements, or a key it asks for, or cannot make its client wait. Only for a push
is the list of the key among it: no other one ends in a null dereference. -/
theorem callSimple_faults (filled : db.Filled) {command : Command} {fault : Fault}
    (asked : c.command = command) (simple : command ≠ .exec)
    (ran : callSimple db c command = .error fault) :
    ¬ command.Defined db c ∨ ¬ command.Finds db ∨ command.waits db c = true := by
  by_contra meets
  obtain ⟨defined, finds, goesOn⟩ := not_or.mp meets |>.imp not_not.mp not_or.mp
  have stands (key : Bytes) (set : SortedSet) (holds : db.HasSortedSet key set) : set.Stands := by
    rcases holds with ⟨-, rfl⟩ | ⟨object, lookup, -, pointer⟩
    · exact SortedSet.new_stands
    · exact filled.stands key object lookup set pointer
  obtain ⟨result, runs⟩ := callSimple_runs filled.sound filled.timed stands defined
    (not_not.mp finds) (Bool.eq_false_iff.mpr goesOn) asked simple
  rw [ran] at runs
  cases runs

/-- A database whose only key holds a string. -/
def oneText : DB := DB.set {} (ascii "k") (ascii "v")

/-- GET of a string finds its text. -/
theorem dereferences_safe_text :
    oneText.Named ∧ ∀ object pointer,
      Dereferences oneText Context.sample (.get (ascii "k")) object pointer →
        object.holds pointer = true := by
  obtain ⟨named, safe⟩ := dereferences_safe_iff (.loaded (ascii "k") (ascii "v") .empty)
  have fits : oneText.Roomy (.get (ascii "k")) := fun _ _ _ pushes => (nomatch pushes)
  refine ⟨named, (safe Context.sample (.get (ascii "k")) fits).1.mpr ?_⟩
  rintro ⟨isPrepend, key, values, object, pushes, -⟩
  cases pushes

/-- RPUSH to a string dereferences null, where the assertion does not abort. -/
theorem push_dereferences_null :
    oneText.Filled ∧ oneText.Roomy (.rpush (ascii "k") [ascii "x"]) ∧
      (∃ object, Dereferences oneText Context.sample (.rpush (ascii "k") [ascii "x"]) object .listPack ∧
        object.holds .listPack = false) ∧
      callSimple oneText Context.sample (.rpush (ascii "k") [ascii "x"]) = .error .assertFailed ∧
      callSimple oneText { Context.sample with env := { Context.sample.env with ndebug := true } }
        (.rpush (ascii "k") [ascii "x"]) = .error .undefinedBehaviour := by
  have filled : oneText.Filled := .loaded (ascii "k") (ascii "v") .empty
  have lookup : oneText.store.lookup (ascii "k") =
      some { type := .string, stringPtr := some (ascii "v") } := Finmap.lookup_insert _
  have starts : pushValues oneText Context.sample.env.ndebug (ascii "k") false [] 0 =
    .ok (oneText, 0) := rfl
  have kept : keptValues (queueOf oneText.blockedKeys (ascii "k")) [ascii "x"] = [] ++ [ascii "x"] := rfl
  refine ⟨filled, ?_, ⟨_, .push rfl kept starts lookup, rfl⟩, ?_, ?_⟩
  · intro isPrepend key values pushes xs listed
    cases pushes
    rcases listed with ⟨missing, -⟩ | ⟨object, lp, found, tag, -⟩
    · simp [lookup] at missing
    · rw [lookup] at found
      cases found
      cases tag
  · exact handlePush_elsewhere filled.named (by simp [kept]) lookup (by simp)
  · exact handlePush_elsewhere filled.named (by simp [kept]) lookup (by simp)

/-! ## Deadlines -/

/-- What GET and TYPE leave of a key with a deadline. -/
theorem expireIfDue_ok {now : Int} (expired : expireIfDue db now key = .ok db') :
    (db'.store, db'.expiration) =
      if (db.expiration.lookup key).any (· ≤ now) then
        (db.store.erase key, db.expiration.erase key)
      else (db.store, db.expiration) := by
  unfold expireIfDue at expired
  split at expired
  · rename_i deadline due
    split at expired
    · split at expired
      · cases expired
        simp_all
      · cases expired
    · cases expired
      simp_all
  · rename_i due
    cases expired
    simp [due]

/-- In every reachable database each key with a deadline is in the store; so
GET and TYPE of any key run to an end, and take a key whose deadline has come
from both maps together. -/
theorem expiration_in_store (reached : db.Reachable) :
    (∀ key ∈ db.expiration, key ∈ db.store) ∧
      ∀ (c : Context) (isTypeCommand : Bool) (key : Bytes), ∃ db' effects,
        handleGetOrType db c isTypeCommand key = .ok (db', effects) ∧
        (db'.store, db'.expiration) =
          if (db.expiration.lookup key).any (· ≤ c.env.clock.steady) then
            (db.store.erase key, db.expiration.erase key)
          else (db.store, db.expiration) := by
  have timed := reachable_timed reached
  constructor
  · intro key due
    obtain ⟨deadline, lookup⟩ := Finmap.mem_iff.mp due
    obtain ⟨object, found, -⟩ := timed key deadline lookup
    exact Finmap.mem_of_lookup_eq_some found
  · intro c isTypeCommand key
    obtain ⟨⟨db', effects⟩, ran⟩ : Runs (handleGetOrType db c isTypeCommand key) :=
      handleGetOrType_runs (reachable_sound reached) timed isTypeCommand
    exact ⟨db', effects, ran, expireIfDue_ok (handleGetOrType_expires ran)⟩

/-- A key that was loaded with a deadline is gone from both maps once the
steady clock has reached it. -/
theorem expiration_in_store_loaded :
    let db := DB.setWithExpiry {} 0 0 (ascii "k") (ascii "v") 1
    let c := { Context.sample with env := { Context.sample.env with clock := ⟨10 ^ 6, 0⟩ } }
    (ascii "k" ∈ db.expiration ∧ ascii "k" ∈ db.store) ∧
      ∃ db' effects, handleGetOrType db c false (ascii "k") = .ok (db', effects) ∧
        ascii "k" ∉ db'.store ∧ ascii "k" ∉ db'.expiration := by
  intro db c
  obtain ⟨bound, both⟩ := expiration_in_store (.loadedWithExpiry 0 0 (ascii "k") (ascii "v") 1 .empty)
  have deadline : db.expiration.lookup (ascii "k") = some (10 ^ 6) := Finmap.lookup_insert _
  have due : ascii "k" ∈ db.expiration := Finmap.mem_of_lookup_eq_some deadline
  refine ⟨⟨due, bound _ due⟩, ?_⟩
  obtain ⟨db', effects, ran, left⟩ := both c false (ascii "k")
  have arrived : (db.expiration.lookup (ascii "k")).any (· ≤ c.env.clock.steady) = true := by
    simp [deadline, c]
  rw [if_pos arrived] at left
  obtain ⟨store, expiration⟩ := Prod.mk.inj left
  refine ⟨db', effects, ran, ?_, ?_⟩
  · rw [store]
    exact Finmap.notMem_erase_self
  · rw [expiration]
    exact Finmap.notMem_erase_self

end CarrotDb
