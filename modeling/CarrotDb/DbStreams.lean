import CarrotDb.Db

/-! The handlers of streams: XADD, XRANGE and XREAD. -/
namespace CarrotDb
open Resp

/-- The payload that is stored for an entry. -/
def rawValue (fieldValues : List (Bytes × Bytes)) : Bytes :=
  fieldValues.flatMap fun fv => encodeBulkString fv.1 ++ encodeBulkString fv.2

/-- The reply for entries of a stream, behind their number. -/
def encodeEntries : List (Bytes × Bytes) → Exec Bytes
  | [] => pure []
  | (binaryId, rawPayload) :: rest => do
    let sid ← StreamID.fromBinary binaryId
    let (fields, _) := parseBulkStringSequence rawPayload
    pure (encodeArrayHeader 2 ++ encodeBulkString sid.toString ++ encodeBulkStringArray fields ++
      (← encodeEntries rest))

/-- `write_xread_response`: what it appends to the client's buffer. -/
def xreadResponse (db : DB) (key startId : Bytes) : Exec Bytes := do
  match db.store.lookup key with
  | none => pure encodeNullBulkString
  | some redisObj =>
    match redisObj.type, redisObj.streamPtr with
    | .stream, some stream =>
      let actualStartId := if startId = ascii "$" then ascii "0-0" else startId
      match stream.xrangeData actualStartId (ascii "+") true with
      | none => pure encodeNullArray
      | some [] => pure encodeNullArray
      | some entries => do
        pure (encodeArrayHeader 1 ++ encodeArrayHeader 2 ++ encodeBulkString key ++
          encodeArrayHeader entries.length ++ (← encodeEntries entries))
    | _, _ => pure encodeNullBulkString

/-- The loop of `handle_blocked_xread_clients` over the queue. -/
def serveXreadClients (db : DB) (env : Env) : List BlockedXreadClient → Exec (List Effect)
  | [] => pure []
  | blocked :: rest => do
    let served ←
      if env.alive blocked.clientFd then do
        let response ← xreadResponse db blocked.streamKey blocked.streamId
        pure [.write blocked.clientFd response, .unblock blocked.clientFd]
      else pure []
    pure (served ++ (← serveXreadClients db env rest))

/-- `handle_blocked_xread_clients`. -/
def handleBlockedXreadClients (db : DB) (env : Env) (key : Bytes) : Outcome := do
  match db.blockedXreadKeys.lookup key with
  | some (blocked :: queue) => do
    let effects ← serveXreadClients db env (blocked :: queue)
    pure ({ db with blockedXreadKeys := db.blockedXreadKeys.erase key }, effects)
  | _ => pure (db, [])

/-- The stream of `handle_xadd`: the object bound to the key, or a new one
that is stored before anything is inserted. -/
def openStream (db : DB) (key : Bytes) : DB × RedisObject :=
  match db.store.lookup key with
  | some redisObject => (db, redisObject)
  | none =>
    let redisObject : RedisObject := { type := .stream, streamPtr := some Stream.new }
    ({ db with store := db.store.insert key redisObject }, redisObject)

/-- The error replies of XADD. -/
def xaddError : StreamErrorType → Bytes
  | .invalidIdFormat => encodeError (ascii "Invalid stream ID format")
  | .idNotGreaterThanLast =>
    encodeError (ascii "The ID specified in XADD is equal or smaller than the target stream top item")
  | .notGreaterThanZero => encodeError (ascii "The ID specified in XADD must be greater than 0-0")
  | .ok => []

/-- `handle_xadd`. -/
def handleXadd (db : DB) (c : Context) (key streamId : Bytes) (fieldValues : List (Bytes × Bytes)) :
    Outcome := do
  let (db, redisObject) := openStream db key
  if redisObject.type ≠ .stream then
    replying db (encodeError (ascii "Key exists with different data type"))
  else do
    let stream ← deref redisObject.streamPtr
    let (stream, status) := stream.insert c.env.clock.system streamId (rawValue fieldValues)
    if status.error ≠ .ok then replying db (xaddError status.error)
    else do
      let object := { redisObject with streamPtr := some stream }
      let db := { db with store := db.store.insert key object }
      let (served, effects) ← handleBlockedXreadClients db c.env key
      pure (served, .reply (encodeBulkString status.streamid) ::
        markWatchingClientsDirty db c.env key ++ effects)

/-- `handle_xrange`. -/
def handleXrange (db : DB) (key start stop : Bytes) : Outcome := do
  match db.store.lookup key with
  | none => replying db encodeEmptyArray
  | some redisObj =>
    match redisObj.type, redisObj.streamPtr with
    | .stream, some stream =>
      match stream.xrangeData start stop false with
      | none => replying db encodeEmptyArray
      | some [] => replying db encodeEmptyArray
      | some entries => do
        replying db (encodeArrayHeader entries.length ++ (← encodeEntries entries))
    | _, _ => replying db encodeEmptyArray

/-- `mark_client_blocking`. -/
def markClientBlocking (db : DB) (c : Context) (key streamId : Bytes) (expirationTime : Float) :
    Outcome := do
  let blocked ← BlockedXreadClient.make c.env.clock.steady c.fd expirationTime streamId key
  let queue := (db.blockedXreadKeys.lookup key).getD [] ++ [blocked]
  pure ({ db with blockedXreadKeys := db.blockedXreadKeys.insert key queue }, [.block])

/-- The identifier a client with `$` waits behind. -/
def blockOnId (db : DB) (key startId : Bytes) : Bytes :=
  match db.store.lookup key with
  | some redisObj =>
    match redisObj.type, redisObj.streamPtr with
    | .stream, some stream => stream.lastInsertStreamID.toString
    | _, _ => startId
  | none => startId

/-- The loop of `handle_xread`: the replies collected, or the outcome of
blocking on one of the keys. A missing key of a reading that does not block
is used although it was not found. -/
def collectReplies (db : DB) (c : Context) (blockTimeout : Option Float) :
    List (Bytes × Bytes) → List (Bytes × List (Bytes × Bytes)) →
      Exec (List (Bytes × List (Bytes × Bytes)) ⊕ (DB × List Effect))
  | [], replies => pure (.inl replies)
  | (key, startId) :: rest, replies =>
    let blocking (timeout : Float) (streamId : Bytes) := do
      pure (.inr (← markClientBlocking db c key streamId timeout))
    match blockTimeout, db.store.lookup key with
    | some timeout, none =>
      blocking timeout (if startId = ascii "$" then blockOnId db key startId else startId)
    | none, none => throw .undefinedBehaviour
    | _, some redisObj =>
      if blockTimeout.isSome ∧ startId = ascii "$" then
        blocking (blockTimeout.getD 0.0) (blockOnId db key startId)
      else
        match redisObj.type, redisObj.streamPtr with
        | .stream, some stream =>
          match stream.xrangeData startId (ascii "+") true, blockTimeout with
          | some (entry :: entries), _ =>
            collectReplies db c blockTimeout rest (replies ++ [(key, entry :: entries)])
          | _, some timeout => blocking timeout startId
          | _, none => collectReplies db c blockTimeout rest replies
        | _, _ => collectReplies db c blockTimeout rest replies

/-- The replies of XREAD, written out. -/
def encodeReplies : List (Bytes × List (Bytes × Bytes)) → Exec Bytes
  | [] => pure []
  | (key, entries) :: rest => do
    pure (encodeArrayHeader 2 ++ encodeBulkString key ++ encodeArrayHeader entries.length ++
      (← encodeEntries entries) ++ (← encodeReplies rest))

/-- `handle_xread`. -/
def handleXread (db : DB) (c : Context) (blockTimeout : Option Float) (keys ids : List Bytes) :
    Outcome := do
  if keys.length ≠ ids.length then replying db encodeEmptyArray
  else
    match ← collectReplies db c blockTimeout (keys.zip ids) [] with
    | .inr outcome => pure outcome
    | .inl [] => replying db encodeEmptyArray
    | .inl replies => do
      replying db (encodeArrayHeader replies.length ++ (← encodeReplies replies))

end CarrotDb
