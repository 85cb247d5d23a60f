import CarrotDb.DbStrings
import CarrotDb.DbLists
import CarrotDb.DbStreams
import CarrotDb.DbSortedSets
import CarrotDb.DbSessions

/-! `db/db.cpp`: the dispatch of a command to its handler, the queue of a
transaction, and the sweep over clients whose time is up. -/
namespace CarrotDb
open Resp

/-- `DB::call` for every command but EXEC. A command without a case of its own
is answered as PING. -/
def callSimple (db : DB) (c : Context) : Command → Outcome
  | .ping => handlePing db c
  | .echo message => handleEcho db message
  | .aclWhoami => handleAclWhoami db c
  | .aclGetUser _ => handleAclGetuser db c
  | .set key value ex px => handleSet db c key value ex px
  | .get key => handleGetOrType db c false key
  | .type key => handleGetOrType db c true key
  | .incr key => handleIncr db c key
  | .rpush key values => handlePush db c false key values
  | .lpush key values => handlePush db c true key values
  | .lrange key start stop => handleLrange db c key start stop
  | .llen key => handleLlen db c key
  | .lpop key count => handleLpop db c key count
  | .blpop keys timeout => handleBlpop db c keys timeout
  | .xadd key streamId fieldValues => handleXadd db c key streamId fieldValues
  | .xrange key start stop => handleXrange db key start stop
  | .xread blockTimeout keys ids => handleXread db c blockTimeout keys ids
  | .multi => handleMulti db
  | .exec => throw .undefinedBehaviour -- EXEC is never queued; it would run its own queue forever
  | .discard => handleDiscard db c
  | .keys _ => handleKeys db c
  | .subscribe _ => handleSubscribe db c
  | .publish .. => handlePublish db c
  | .zadd .. => handleZadd db c
  | .zrank .. => handleZrank db c
  | .zrange .. => handleZrange db c
  | .zcard _ => handleZcard db c
  | .zscore .. => handleZscore db c
  | .zrem .. => handleZrem db c
  | .geoAdd .. => handleGeoadd db c
  | .geoPos .. => handleGeopos db c
  | .geoDist .. => handleGeodist db c
  | .geoSearch .. => handleGeosearch db c
  | .unSubscribe _ | .unknow | .aclSetUser .. | .auth .. | .info _ | .replConf .. | .psync ..
  | .wait .. | .getConfig _ => handlePing db c

/-- The loop of `handle_exec` over the queued commands, each at its own
reading of the environment. -/
def runQueue (db : DB) (c : Context) : List Command → List Env → Outcome
  | [], _ => pure (db, [])
  | _ :: _, [] => throw .undefinedBehaviour
  | command :: commands, env :: envs => do
    let (db, first) ← callSimple db { c with env } command
    let (db, rest) ← runQueue db c commands envs
    pure (db, first ++ rest)

/-- `handle_exec`. -/
def handleExec (db : DB) (c : Context) (envs : List Env) : Outcome :=
  if !c.client.multi then replying db (encodeError (ascii "EXEC without MULTI"))
  else do
    let commands := c.client.queuedCommands
    let (db, effects) ← runQueue db c commands envs
    pure (db, .reply (encodeArrayHeader commands.length) :: effects ++ [.endTransaction])

/-- `DB::call`. -/
def call (db : DB) (c : Context) (envs : List Env) : Command → Outcome
  | .exec => handleExec db c envs
  | command => callSimple db c command

/-- `formatError`. -/
def formatError (commandType : CommandType) : Bytes :=
  ascii "Can't execute '" ++ commandTypeToString commandType ++
    ascii "': only (P|S)SUBSCRIBE / (P|S)UNSUBSCRIBE / PING / QUIT / RESET are allowed in this context"

/-- `handlePubSub`. -/
def handlePubSub (db : DB) (c : Context) : Outcome :=
  match c.command with
  | .subscribe _ => handleSubscribe db c
  | .unSubscribe channelName => handleUnSubscribe db c channelName
  | .ping => do
    let (db, effects) ← handlePing db c
    pure (db, .reply (encodeArrayHeader 2) :: effects ++ [.reply (encodeBulkString [])])
  | command => replying db (encodeError (formatError command.commandType))

/-- What a request leaves behind: the database, the users, what is done to
clients, and the command, which a transaction moves into its queue. -/
structure Executed where
  db : DB
  acl : ACLManager
  effects : List Effect
  command : Option Command

/-- Queues a command of a transaction; its client watches the key from now on. -/
def queueCommand (db : DB) (c : Context) : DB × List Effect :=
  let watching := (db.watchingKeys.lookup c.command.key).getD [] ++ [c.fd]
  ({ db with watchingKeys := db.watchingKeys.insert c.command.key watching },
    [.queue c.command, .reply (encodeSimpleString (ascii "QUEUED"))])

/-- `DB::execute`. `envs` are the readings the commands of a transaction are
run at. -/
def execute (db : DB) (c : Context) (rdbFilePath : Bytes) (envs : List Env) : Exec Executed := do
  let done (outcome : DB × List Effect) : Executed := ⟨outcome.1, c.acl, outcome.2, some c.command⟩
  if c.command.commandType = .aclWhoami ∧ !c.client.isAuthenticated then
    pure (done (db, [.reply (encodeError (ascii "Authentication required.") (ascii "NOAUTH"))]))
  else if c.client.multi ∧ c.command.commandType ≠ .exec ∧ c.command.commandType ≠ .discard then
    let (db, effects) := queueCommand db c
    pure ⟨db, c.acl, effects, none⟩
  else if c.client.pubSub then do
    pure (done (← handlePubSub db c))
  else
    match c.command with
    | .getConfig parameters => do pure (done (← handleGetConfig db rdbFilePath parameters))
    | .aclSetUser username password _ =>
      let (acl, effect) := handleAclSetuser c username password
      pure ⟨db, acl, [effect], some c.command⟩
    | .auth username password => pure (done (db, handleAuth c username password))
    | command => do pure (done (← call db c envs command))

/-! ## Timeouts -/

/-- The sweep over one map of queues: what is left of it, and the clients
whose time is up. -/
def expireQueues (now : Int) (timeoutAt : α → Int) (clientFd : α → Fd)
    (queues : Map Bytes (List α)) (keys : List Bytes) : Map Bytes (List α) × List Fd :=
  keys.foldl (fun (left, expired) key =>
    let queue := (queues.lookup key).getD []
    let kept := queue.filter fun blocked => !isExpired now (timeoutAt blocked)
    let gone := queue.filter fun blocked => isExpired now (timeoutAt blocked)
    (popFront left key kept, expired ++ gone.map clientFd)) (queues, [])

/-- `check_and_expire_blocked_clients`. Clients that are gone get no answer. -/
def checkAndExpireBlockedClients (db : DB) (env : Env) : DB × List Effect :=
  let now := env.clock.steady
  let (blockedKeys, expired) :=
    expireQueues now BlockedClient.timeoutAt BlockedClient.clientFd db.blockedKeys
      (env.walk db.blockedKeys.keys)
  let (blockedXreadKeys, expiredXread) :=
    expireQueues now BlockedXreadClient.timeoutAt BlockedXreadClient.clientFd db.blockedXreadKeys
      (env.walk db.blockedXreadKeys.keys)
  ({ db with blockedKeys, blockedXreadKeys },
    ((expired ++ expiredXread).filter env.alive).map fun fd => .write fd encodeNullArray)

end CarrotDb
