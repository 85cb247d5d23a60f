import CarrotDb.Db

/-! The handlers of lists: RPUSH and LPUSH, LPOP, BLPOP, LRANGE and LLEN. A
list is a listpack; clients that wait for a list are served by a push. -/
namespace CarrotDb
open Resp Listpack

/-- `LIST_PACK_INITIAL_CAPACITY`. -/
def listPackInitialCapacity : Nat := 20

/-- `lpAppend` or `lpPrepend`, as the direction says; a null pointer is what
they return when the listpack would grow too large. -/
def addElement (ndebug : Bool) (lp : Bytes) (value : Bytes) (isPrepend : Bool) :
    Exec (Option Bytes) := do
  let inserted ← if isPrepend then lpPrepend ndebug lp value else lpAppend ndebug lp value
  pure (inserted.map Prod.fst)

/-- `create_new_list`. -/
def createNewList (db : DB) (ndebug : Bool) (key value : Bytes) (isPrepend : Bool) :
    Exec (DB × Nat) := do
  let listPack ← addElement ndebug (← lpNew listPackInitialCapacity) value isPrepend
  pure ({ db with store := db.store.insert key { type := .listPack, listPack } }, 1)

/-- `append_to_existing_list`, on the object bound to a key. -/
def appendToExistingList (db : DB) (ndebug : Bool) (key : Bytes) (redisObject : RedisObject)
    (value : Bytes) (isPrepend : Bool) : Exec (DB × Nat) := do
  cassert ndebug (pure (redisObject.type = .listPack))
  let listPack ← addElement ndebug (← deref redisObject.listPack) value isPrepend
  let len ← lpGetTotalNumElements (← deref listPack)
  pure ({ db with store := db.store.insert key { redisObject with listPack } }, len)

/-- `push_value_to_list`. The length of the value is passed in 32 bits. -/
def pushValueToList (db : DB) (ndebug : Bool) (key value : Bytes) (isPrepend : Bool) :
    Exec (DB × Nat) :=
  let value := value.take (u32 value.length)
  match db.store.lookup key with
  | none => createNewList db ndebug key value isPrepend
  | some redisObject => appendToExistingList db ndebug key redisObject value isPrepend

/-- The loop of `handle_push` over the values. -/
def pushValues (db : DB) (ndebug : Bool) (key : Bytes) (isPrepend : Bool) :
    List Bytes → Nat → Exec (DB × Nat)
  | [], len => pure (db, len)
  | value :: rest, _ => do
    let (db, len) ← pushValueToList db ndebug key value isPrepend
    pushValues db ndebug key isPrepend rest len

/-- Takes the front out of a queue of waiting clients; an empty queue is
removed. -/
def popFront (queues : Map Bytes (List α)) (key : Bytes) (rest : List α) : Map Bytes (List α) :=
  if rest = [] then queues.erase key else queues.insert key rest

/-- `handle_push`. The first waiting client takes the first value, whether it
still exists or not. -/
def handlePush (db : DB) (c : Context) (isPrepend : Bool) (key : Bytes) (values : List Bytes) :
    Outcome := do
  match db.blockedKeys.lookup key, values with
  | some (blocked :: queue), first :: rest => do
    let db := { db with blockedKeys := popFront db.blockedKeys key queue }
    let served :=
      if c.env.alive blocked.clientFd then
        [.write blocked.clientFd (encodeBulkStringArray [key, first]), .unblock blocked.clientFd]
      else []
    let (db, _) ← pushValues db c.env.ndebug key isPrepend rest 0
    pure (db, served ++ [.reply (encodeInteger values.length)])
  | _, _ => do
    let (db, len) ← pushValues db c.env.ndebug key isPrepend values 0
    pure (db, markWatchingClientsDirty db c.env key ++ [.reply (encodeInteger len)])

/-- The text of the element at a pointer. -/
def elementAt (lp : Bytes) (p : Nat) : Exec Bytes := do elementText lp (← lpGetWithSize lp p)

/-- `handle_blpop`. -/
def handleBlpop (db : DB) (c : Context) (keys : List Bytes) (timeout : Float) : Outcome := do
  let key := keys.headD []
  let wait : Outcome := do
    let blocked ← BlockedClient.make c.env.clock.steady c.fd timeout
    let queue := (db.blockedKeys.lookup key).getD [] ++ [blocked]
    pure ({ db with blockedKeys := db.blockedKeys.insert key queue }, [.block])
  match db.store.lookup key with
  | none => wait
  | some redisObject =>
    match redisObject.type, redisObject.listPack with
    | .listPack, some lp => do
      match ← lpFirst c.env.ndebug lp with
      | none => wait
      | some p => do
        let value ← elementAt lp p
        let listPack := (← lpDelete c.env.ndebug lp p).map Prod.fst
        let db := { db with store := db.store.insert key { redisObject with listPack } }
        replying db (encodeBulkStringArray [key, value])
    | _, _ => replying db encodeNullBulkString

/-- The loop of `handle_lpop`: the values taken and the listpack left. -/
def popElements (ndebug : Bool) : (totalCount : Nat) → Option Bytes → Exec (List Bytes × Option Bytes)
  | 0, listPack => pure ([], listPack)
  | totalCount + 1, listPack => do
    let lp ← deref listPack
    match ← lpFirst ndebug lp with
    | none => pure ([], listPack)
    | some p => do
      let value ← elementAt lp p
      let listPack := (← lpDelete ndebug lp p).map Prod.fst
      let (result, listPack) ← popElements ndebug totalCount listPack
      pure (value :: result, listPack)

/-- `handle_lpop`. -/
def handleLpop (db : DB) (c : Context) (key : Bytes) (count : Option Nat) : Outcome := do
  match db.store.lookup key with
  | none => replying db encodeNullBulkString
  | some redisObj =>
    match redisObj.type, redisObj.listPack with
    | .listPack, some lp => do
      let (result, listPack) ← popElements c.env.ndebug (count.getD 1) (some lp)
      let db := { db with store := db.store.insert key { redisObj with listPack } }
      let dirty := if result = [] then [] else markWatchingClientsDirty db c.env key
      pure (db, dirty ++ [.reply (match result with
        | [] => encodeNullBulkString
        | [value] => encodeBulkString value
        | _ => encodeBulkStringArray result)])
    | _, _ => replying db encodeNullBulkString

/-- `handle_llen`. Counting refreshes the header of a long list. -/
def handleLlen (db : DB) (c : Context) (key : Bytes) : Outcome := do
  match db.store.lookup key with
  | none => replying db (encodeInteger 0)
  | some redisObj =>
    match redisObj.type, redisObj.listPack with
    | .listPack, some lp => do
      let (listLength, lp) ← lpLength c.env.ndebug lp
      let db := { db with store := db.store.insert key { redisObj with listPack := some lp } }
      replying db (encodeInteger listLength)
    | _, _ => replying db (encodeInteger 0)

/-- The loop of `handle_lrange`, from an index on. -/
def rangeElements (ndebug : Bool) (lp : Bytes) : (rounds : Nat) → (index : Int) → Exec (List Bytes)
  | 0, _ => pure []
  | rounds + 1, index => do
    match ← lpSeek ndebug lp index with
    | none => pure []
    | some p => do
      let value ← elementAt lp p
      pure (value :: (← rangeElements ndebug lp rounds (index + 1)))

/-- `handle_lrange`. -/
def handleLrange (db : DB) (c : Context) (key : Bytes) (start stop : Int) : Outcome := do
  match db.store.lookup key with
  | none => replying db encodeEmptyArray
  | some redisObj =>
    match redisObj.type, redisObj.listPack with
    | .listPack, some lp => do
      let (listLength, lp) ← lpLength c.env.ndebug lp
      let db := { db with store := db.store.insert key { redisObj with listPack := some lp } }
      let startIndex := if start < 0 then i64 (listLength + start) else start
      let endIndex := if stop < 0 then i64 (listLength + stop) else stop
      let startIndex := if startIndex < 0 then 0 else startIndex
      if endIndex < 0 then replying db encodeEmptyArray
      else if startIndex ≥ listLength then replying db encodeEmptyArray
      else do
        let endIndex := if endIndex ≥ listLength then (listLength : Int) - 1 else endIndex
        let result ← rangeElements c.env.ndebug lp (endIndex + 1 - startIndex).toNat startIndex
        replying db (encodeBulkStringArray result)
    | _, _ => replying db encodeEmptyArray

end CarrotDb
