import CarrotDb.Db

/-! The handlers of strings: SET, GET, TYPE and INCR, and the setters that
the snapshot loader uses. -/
namespace CarrotDb
open Decimal Resp

/-- `handle_set`. -/
def handleSet (db : DB) (c : Context) (key value : Bytes) (ex px : Option Nat) : Outcome :=
  let now := c.env.clock.steady
  let expiration :=
    match ex, px with
    | some seconds, _ =>
      db.expiration.insert key (i64 (now + i64 (i64 seconds * 10 ^ 9)))
    | none, some milliseconds =>
      db.expiration.insert key (afterMilliseconds now (i64 milliseconds))
    | none, none => db.expiration
  let redisObj : RedisObject := { type := .string, stringPtr := some value }
  let db := { db with expiration, store := db.store.insert key redisObj }
  pure (db, markWatchingClientsDirty db c.env key ++ [.reply (encodeSimpleString (ascii "OK"))])

/-- The check of `handle_get_or_type` for a key whose time has come: an
expired key is erased from both maps, and must be in the store. -/
def expireIfDue (db : DB) (now : Int) (key : Bytes) : Exec DB :=
  match db.expiration.lookup key with
  | some deadline =>
    if now ≥ deadline then
      match db.store.lookup key with
      | some _ => pure { db with
          store := db.store.erase key, expiration := db.expiration.erase key }
      | none => throw .undefinedBehaviour
    else pure db
  | none => pure db

/-- `handle_get_or_type`. -/
def handleGetOrType (db : DB) (c : Context) (isTypeCommand : Bool) (key : Bytes) : Outcome := do
  let db ← expireIfDue db c.env.clock.steady key
  match db.store.lookup key with
  | some redisObject =>
    match redisObject.type with
    | .string =>
      if isTypeCommand then replying db (encodeSimpleString (ascii "string"))
      else replying db (encodeBulkString (← deref redisObject.stringPtr))
    | .stream =>
      if isTypeCommand then replying db (encodeSimpleString (ascii "stream")) else pure (db, [])
    | _ => pure (db, [])
  | none =>
    replying db (if isTypeCommand then encodeSimpleString (ascii "none") else encodeNullBulkString)

/-- `value++`, which must not overflow. -/
def increment (value : Int) : Exec Int :=
  if value < 2 ^ 63 - 1 then pure (value + 1) else throw .undefinedBehaviour

/-- `handle_incr`. The stored text is read as a C string. -/
def handleIncr (db : DB) (c : Context) (key : Bytes) : Outcome := do
  match db.store.lookup key with
  | none =>
    let redisObj : RedisObject := { type := .string, stringPtr := some (ascii "1") }
    let db := { db with store := db.store.insert key redisObj }
    pure (db, markWatchingClientsDirty db c.env key ++ [.reply (encodeInteger 1)])
  | some object =>
    let refused := encodeError (ascii "value is not an integer or out of range")
    if object.type = .string then
      match convertStringToNumber ((← deref object.stringPtr).takeWhile (· ≠ 0)) with
      | some value => do
        let value ← increment value
        let object := { object with stringPtr := some (intToDecimal value) }
        let db := { db with store := db.store.insert key object }
        pure (db, .reply (encodeInteger value) :: markWatchingClientsDirty db c.env key)
      | none => replying db refused
    else replying db refused

/-- `DB::set`. -/
def DB.set (db : DB) (key value : Bytes) : DB :=
  let redisObject : RedisObject := { type := .string, stringPtr := some value }
  { db with store := db.store.insert key redisObject, expiration := db.expiration.erase key }

/-- `DB::setWithExpiry`, at readings of both clocks in nanoseconds. -/
def DB.setWithExpiry (db : DB) (systemNow steadyNow : Int) (key value : Bytes)
    (expiryTimestampMs : Nat) : DB :=
  let durationToExpiry := i64 (i64 (i64 expiryTimestampMs * 10 ^ 6) - systemNow)
  let db := db.set key value
  { db with expiration := db.expiration.insert key (i64 (steadyNow + durationToExpiry)) }

end CarrotDb
