import CarrotDb.DbPointers

/-! Write commands on a key of another type. The handlers look at the tag before
they write, but for that of RPUSH and LPUSH: it looks at the tag in an assertion
only, and takes the listpack of an object that has none. -/
namespace CarrotDb
open Resp Listpack

variable {db : DB} {c : Context} {key : Bytes}

/-- Only an object with the tag of a list has a listpack. -/
def RedisObject.ListTagged (object : RedisObject) : Prop :=
  object.listPack ≠ none → object.type = .listPack

theorem listTagged_kept : Kept RedisObject.ListTagged fun _ => True where
  closed := closed_true
  held _ _ _ _ := trivial
  newString _ absent := absurd rfl absent
  newStream _ absent := absurd rfl absent
  newSet _ _ absent := absurd rfl absent
  string _ tagged _ _ := tagged
  list _ _ tag _ _ := tag
  stream _ tagged _ _ := tagged
  set _ tagged _ _ _ := tagged

/-- A push binds a list, or rewrites what it has read a listpack from. -/
theorem listTagged_pushed : KeptByPushes RedisObject.ListTagged where
  newList _ _ := rfl
  append _ tagged held _ _ := tagged held

/-! ## Keys of another type -/

/-- The key that a write command takes for a value of one type, and the type. -/
def Command.writesTo : Command → Option (Bytes × RedisObjectEncodingType)
  | .rpush key _ | .lpush key _ | .lpop key _ => some (key, .listPack)
  | .incr key => some (key, .string)
  | .xadd key .. => some (key, .stream)
  | .zadd key _ | .zrem key _ | .geoAdd key .. => some (key, .sortedSet)
  | _ => none

/-- The command runs, no assertion fails, and neither the store nor a deadline
changes. -/
def DB.Unharmed (db : DB) (c : Context) (command : Command) : Prop :=
  ∃ db' effects, callSimple db c command = .ok (db', effects) ∧
    db'.store = db.store ∧ db'.expiration = db.expiration

/-- A waiting client takes all the values that a command pushes. -/
def DB.PushesNothing (db : DB) (command : Command) : Prop :=
  ∀ isPrepend key values, command.pushes = some (isPrepend, key, values) →
    keptValues (queueOf db.blockedKeys key) values = []

/-- A command that only replies does no harm. -/
theorem unharmed_replying {command : Command} {bytes : Bytes}
    (replies : callSimple db c command = replying db bytes) : db.Unharmed c command :=
  ⟨db, _, replies, rfl, rfl⟩

variable {object : RedisObject}

theorem handleLpop_other {count : Option Nat} (lookup : db.store.lookup key = some object)
    (other : object.type ≠ .listPack) :
    handleLpop db c key count = replying db encodeNullBulkString := by
  unfold handleLpop
  rw [lookup]
  dsimp only
  split
  · exact absurd ‹_› other
  · rfl

theorem handleXadd_other {streamId : Bytes} {fieldValues : List (Bytes × Bytes)}
    (lookup : db.store.lookup key = some object) (other : object.type ≠ .stream) :
    handleXadd db c key streamId fieldValues =
      replying db (encodeError (ascii "Key exists with different data type")) := by
  unfold handleXadd openStream
  simp [lookup, other]

theorem openSortedSet_bound (lookup : db.store.lookup key = some object) :
    openSortedSet db key = (db, object) := by
  simp [openSortedSet, lookup]

/-- The command that a request runs: its own, or one that EXEC has queued. -/
def Context.Runs (c : Context) (command : Command) : Prop :=
  c.command = command ∨ c.command = .exec

/-- The handlers of sorted sets only reply: what is at the key is of another
type, or the request is an EXEC. -/
theorem handleZadd_other {scoreMembers : List (Float × Bytes)}
    (asked : c.Runs (.zadd key scoreMembers)) (lookup : db.store.lookup key = some object)
    (other : object.type ≠ .sortedSet) : ∃ bytes, handleZadd db c = replying db bytes := by
  rcases asked with asked | asked
  · refine ⟨wrongType, ?_⟩
    simp [handleZadd, asked, openSortedSet_bound lookup, other]
  · exact ⟨invalidCommandType, by simp [handleZadd, asked]⟩

theorem handleZrem_other {members : List Bytes} (asked : c.Runs (.zrem key members))
    (lookup : db.store.lookup key = some object) (other : object.type ≠ .sortedSet) :
    ∃ bytes, handleZrem db c = replying db bytes := by
  rcases asked with asked | asked
  · exact ⟨wrongType, by simp [handleZrem, asked, lookup, other]⟩
  · exact ⟨invalidCommandType, by simp [handleZrem, asked]⟩

theorem handleGeoadd_other {longitude latitude score : Float} {member : Bytes}
    {invalidLatLon : Bool}
    (asked : c.Runs (.geoAdd key longitude latitude score member invalidLatLon))
    (lookup : db.store.lookup key = some object) (other : object.type ≠ .sortedSet) :
    ∃ bytes, handleGeoadd db c = replying db bytes := by
  rcases asked with asked | asked
  · cases invalidLatLon with
    | true => exact ⟨_, by simp [handleGeoadd, asked]; rfl⟩
    | false =>
      refine ⟨wrongType, ?_⟩
      simp [handleGeoadd, asked, openSortedSet_bound lookup, other]
  · exact ⟨invalidCommandType, by simp [handleGeoadd, asked]⟩

/-- A push of which waiting clients take all values writes nothing. -/
theorem handlePush_nothing {isPrepend : Bool} {values : List Bytes}
    (nothing : keptValues (queueOf db.blockedKeys key) values = []) :
    ∃ db' effects, handlePush db c isPrepend key values = .ok (db', effects) ∧
      db'.store = db.store ∧ db'.expiration = db.expiration := by
  by_cases plain : queueOf db.blockedKeys key = [] ∨ values = []
  · have empty : values = [] := by
      rcases plain with idle | empty
      · simpa [keptValues, idle] using nothing
      · exact empty
    subst empty
    rw [handlePush_plain plain]
    exact ⟨_, _, rfl, rfl, rfl⟩
  · obtain ⟨held, some_value⟩ := not_or.mp plain
    obtain ⟨blocked, queue, waiting⟩ := List.exists_cons_of_ne_nil held
    obtain ⟨first, rest, rfl⟩ := List.exists_cons_of_ne_nil some_value
    have empty : rest = [] := by simpa [keptValues, held] using nothing
    subst empty
    rw [handlePush_waiter waiting]
    exact ⟨_, _, rfl, rfl, rfl⟩

theorem push_unharmed_iff (tagged : db.Objects RedisObject.ListTagged) {command : Command}
    {isPrepend : Bool} {values : List Bytes} (pushes : command.pushes = some (isPrepend, key, values))
    (lookup : db.store.lookup key = some object) (other : object.type ≠ .listPack) :
    db.Unharmed c command ↔ db.PushesNothing command := by
  constructor
  · rintro ⟨db', effects, ran, -⟩ isPrepend' key' values' pushes'
    rw [pushes] at pushes'
    cases pushes'
    by_contra some_value
    have null : object.listPack = none := by
      by_contra held
      exact other (tagged key object lookup held)
    rw [callSimple_pushes pushes, handlePush_null some_value lookup other null] at ran
    cases ran
  · intro nothing
    rw [DB.Unharmed, callSimple_pushes pushes]
    exact handlePush_nothing (nothing _ _ _ pushes)

/-- In every reachable database, a write command on a key of another type does
no harm but for a push of which a value is left: that one does not run. -/
theorem wrongType_unharmed_iff (reached : db.Reachable) {command : Command}
    {type : RedisObjectEncodingType} (writes : command.writesTo = some (key, type))
    (asked : c.Runs command) (lookup : db.store.lookup key = some object)
    (other : object.type ≠ type) : db.Unharmed c command ↔ db.PushesNothing command := by
  have tagged := reachable_objects listTagged_kept listTagged_pushed reached
  have replying_iff {bytes : Bytes} (quiet : command.pushes = none)
      (replies : callSimple db c command = replying db bytes) :
      db.Unharmed c command ↔ db.PushesNothing command := by
    refine iff_of_true (unharmed_replying replies) fun isPrepend key values pushes => ?_
    rw [quiet] at pushes
    cases pushes
  cases command <;> cases writes
  case rpush => exact push_unharmed_iff tagged rfl lookup other
  case lpush => exact push_unharmed_iff tagged rfl lookup other
  case lpop => exact replying_iff rfl (handleLpop_other lookup other)
  case incr => exact replying_iff rfl (by simp [callSimple, handleIncr, lookup, other]; rfl)
  case xadd => exact replying_iff rfl (handleXadd_other lookup other)
  case zadd =>
    obtain ⟨bytes, replies⟩ := handleZadd_other asked lookup other
    exact replying_iff rfl replies
  case zrem =>
    obtain ⟨bytes, replies⟩ := handleZrem_other asked lookup other
    exact replying_iff rfl replies
  case geoAdd =>
    obtain ⟨bytes, replies⟩ := handleGeoadd_other asked lookup other
    exact replying_iff rfl replies

private theorem oneText_lookup : oneText.store.lookup (ascii "k") =
    some { type := .string, stringPtr := some (ascii "v") } := Finmap.lookup_insert _

/-- LPOP of a string is only answered. -/
theorem wrongType_unharmed_lpop :
    oneText.Unharmed { Context.sample with command := .lpop (ascii "k") none }
      (.lpop (ascii "k") none) := by
  refine (wrongType_unharmed_iff (.loaded (ascii "k") (ascii "v") .empty) rfl (.inl rfl)
    oneText_lookup (by decide)).mpr ?_
  intro isPrepend key values pushes
  cases pushes

/-- RPUSH to a string that was set fails the assertion. -/
theorem rpush_to_string_harms : ¬ ∀ (db : DB) (c : Context) (command : Command) (key : Bytes)
    (type : RedisObjectEncodingType) (object : RedisObject), db.Reachable →
    command.writesTo = some (key, type) → c.Runs command → db.store.lookup key = some object →
    object.type ≠ type → db.Unharmed c command := by
  intro harmless
  have ran := harmless oneText
    { Context.sample with command := .rpush (ascii "k") [ascii "x"] }
    (.rpush (ascii "k") [ascii "x"]) (ascii "k") .listPack _
    (.loaded (ascii "k") (ascii "v") .empty) rfl (.inl rfl) oneText_lookup (by decide)
  obtain ⟨db', effects, ran, -⟩ := ran
  have kept : keptValues (queueOf oneText.blockedKeys (ascii "k")) [ascii "x"] = [ascii "x"] := rfl
  rw [callSimple_pushes rfl, handlePush_null (by simp [kept]) oneText_lookup (by decide) rfl] at ran
  cases ran

end CarrotDb
