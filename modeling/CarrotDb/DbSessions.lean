import CarrotDb.Db

/-! The handlers that are about the client rather than the store: PING, ECHO,
KEYS, CONFIG GET, users, channels, and the start and the end of a
transaction. -/
namespace CarrotDb
open Decimal Resp

/-- `handle_ping`. -/
def handlePing (db : DB) (c : Context) : Outcome :=
  replying db
    (if c.client.pubSub then encodeBulkString (ascii "pong") else encodeSimpleString (ascii "PONG"))

/-- `handle_echo`. -/
def handleEcho (db : DB) (message : Bytes) : Outcome := replying db (encodeBulkString message)

/-- `handleKeys`; the store is walked in hash order. Any other command of the
context gets no reply. -/
def handleKeys (db : DB) (c : Context) : Outcome :=
  match c.command with
  | .keys pattern =>
    if pattern = ascii "*" then replying db (encodeBulkStringArray (c.env.walk db.store.keys))
    else replying db encodeEmptyArray
  | _ => pure (db, [])

/-- `handleGetConfig`. -/
def handleGetConfig (db : DB) (rdbFilePath : Bytes) (parameters : List Bytes) : Outcome :=
  pure (db, (parameters.filter fun p => isEqual p (ascii "dir")).map fun _ =>
    .reply (encodeArrayHeader 2 ++ encodeBulkString (ascii "dir") ++ encodeBulkString rdbFilePath))

/-- `handle_acl_whoami`. -/
def handleAclWhoami (db : DB) (c : Context) : Outcome :=
  replying db (encodeBulkString (c.client.user.getD (ascii "default")))

/-- `handle_acl_getuser`, which casts the command of the context. -/
def handleAclGetuser (db : DB) (c : Context) : Outcome :=
  match c.command with
  | .aclGetUser _ =>
    let user := (c.client.user.bind c.acl.getUser).getD ⟨[], [], false, false⟩
    replying db (encodeArrayHeader 4 ++ encodeBulkString (ascii "flags") ++
      encodeBulkStringArray user.flags ++ encodeBulkString (ascii "passwords") ++
      encodeBulkStringArray user.passwords)
  | _ => throw .undefinedBehaviour

/-- The two hexadecimal digits of `%02x`. -/
def hexByte (byte : UInt8) : Bytes :=
  let digit (n : Nat) : UInt8 := if n < 10 then UInt8.ofNat (48 + n) else UInt8.ofNat (87 + n)
  [digit (byte.toNat / 16), digit (byte.toNat % 16)]

/-- `hash_sha256`. -/
def hashSha256 (env : Env) (input : Bytes) : Bytes := (env.sha256 input).flatMap hexByte

/-- `handle_acl_setuser`. The parsed flags are not passed on. -/
def handleAclSetuser (c : Context) (username : Bytes) (password : Option Bytes) : ACLManager × Effect :=
  let hashedPassword := (password.map (hashSha256 c.env)).getD []
  (c.acl.setUser username hashedPassword [], .reply (encodeSimpleString (ascii "OK")))

/-- `handle_auth`. -/
def handleAuth (c : Context) (username password : Bytes) : List Effect :=
  let refused := [.reply (encodeError
    (ascii "invalid username-password pair or user is disabled") (ascii "WRONGPASS"))]
  let accepted := [.authenticate username, .reply (encodeSimpleString (ascii "OK"))]
  match c.acl.getUser username with
  | none => refused
  | some user =>
    if !user.isEnabled then refused
    else if user.nopass then accepted
    else if user.passwords.contains (hashSha256 c.env password) then accepted
    else refused

/-- `handlePublish`, which casts the command of the context. The channel is
looked up with `operator[]`, which creates it. -/
def handlePublish (db : DB) (c : Context) : Outcome :=
  match c.command with
  | .publish channelName message =>
    let subscribers := (db.pubsubClients.lookup channelName).getD []
    let frame := encodeBulkStringArray [ascii "message", channelName, message]
    let delivered := subscribers.flatMap fun fd =>
      if c.env.alive fd then [.write fd frame, .ready fd] else [.ready fd]
    let active := (subscribers.filter c.env.alive).length
    pure ({ db with pubsubClients := db.pubsubClients.insert channelName subscribers },
      delivered ++ [.reply (encodeInteger active)])
  | _ => throw .undefinedBehaviour

/-- The loop of `handleUnSubscribe`: the subscribers without the first entry
of the client, or `none` when it has none. An entry of a client that is gone
is used all the same. -/
def removeSubscriber (env : Env) (fd : Fd) : List Fd → Exec (Option (List Fd))
  | [] => pure none
  | other :: rest =>
    if !env.alive other then throw .undefinedBehaviour
    else if other = fd then pure (some rest)
    else do pure ((← removeSubscriber env fd rest).map (other :: ·))

/-- `handleUnSubscribe`. -/
def handleUnSubscribe (db : DB) (c : Context) (channelName : Bytes) : Outcome := do
  let subscribers := (db.pubsubClients.lookup channelName).getD []
  let remaining ← removeSubscriber c.env c.fd subscribers
  let total :=
    if remaining.isSome then sub64 c.client.totalSubscribedChannels 1
    else c.client.totalSubscribedChannels
  let db := { db with
    pubsubClients := db.pubsubClients.insert channelName (remaining.getD subscribers) }
  pure (db, (if remaining.isSome then [.unsubscribe] else []) ++
    [.reply (encodeArrayHeader 3 ++ encodeBulkString (ascii "unsubscribe") ++
      encodeBulkString channelName ++ encodeInteger (i64 total))])

/-- `handleSubscribe`, which casts the command of the context. -/
def handleSubscribe (db : DB) (c : Context) : Outcome :=
  match c.command with
  | .subscribe channelName =>
    let subscribers := (db.pubsubClients.lookup channelName).getD [] ++ [c.fd]
    let total := u64 (c.client.totalSubscribedChannels + 1)
    pure ({ db with pubsubClients := db.pubsubClients.insert channelName subscribers },
      [.subscribe, .reply (encodeArrayHeader 3 ++ encodeBulkString (ascii "subscribe") ++
        encodeBulkString channelName ++ encodeInteger (i64 total))])
  | _ => throw .undefinedBehaviour

/-! ## Transactions -/

/-- `handle_multi`. -/
def handleMulti (db : DB) : Outcome :=
  pure (db, [.beginTransaction, .reply (encodeSimpleString (ascii "OK"))])

/-- `handle_discard`. -/
def handleDiscard (db : DB) (c : Context) : Outcome :=
  if !c.client.multi then replying db (encodeError (ascii "DISCARD without MULTI"))
  else pure (db, [.endTransaction, .reply (encodeSimpleString (ascii "OK"))])

end CarrotDb
