import CarrotDb.Command
import CarrotDb.Stream
import CarrotDb.SortedSet
import CarrotDb.Listpack
import Mathlib

/-! The state of `db/db.h` and `models/client.h`. A handler reads the state
of the database and of the client it serves, and returns the new database
with what it does to clients, in order. -/
namespace CarrotDb
open Resp

/-- `RedisObjectEncodingType`. -/
inductive RedisObjectEncodingType where
  | string
  | listPack
  | stream
  | sortedSet
  deriving DecidableEq, Repr

/-- `RedisObject`: a type tag and one owning pointer for each encoding. -/
structure RedisObject where
  type : RedisObjectEncodingType
  stringPtr : Option Bytes := none
  listPack : Option Bytes := none
  streamPtr : Option Stream := none
  sortedSetPtr : Option SortedSet := none

/-- One reading of both clocks: `steady_clock` in nanoseconds and
`system_clock` in milliseconds. -/
structure Clock where
  steady : Int
  system : Nat

/-- `time_point::max()`. -/
def timePointMax : Int := 2 ^ 63 - 1

/-- A time point some milliseconds behind another, in 64-bit nanoseconds. -/
def afterMilliseconds (now milliseconds : Int) : Int := i64 (now + i64 (milliseconds * 10 ^ 6))

/-- A connected client, by its file descriptor. -/
abbrev Fd := Nat

/-- `Client`. `user` names a user of the access control list. -/
structure Client where
  readBuffer : Bytes := []
  writeBuffer : Bytes := []
  multi : Bool := false
  dirty : Bool := false
  pubSub : Bool := false
  queuedCommands : List Command := []
  isSlave : Bool := false
  replicaOffset : Int := 0
  totalSubscribedChannels : Nat := 0
  user : Option Bytes := none
  isAuthenticated : Bool := false

/-- `BlockedClient`. -/
structure BlockedClient where
  clientFd : Fd
  timeoutAt : Int

/-- `BlockedXreadClient`. -/
structure BlockedXreadClient where
  clientFd : Fd
  timeoutAt : Int
  streamId : Bytes
  streamKey : Bytes

/-- The constructor of `BlockedClient`, with a timeout in seconds. -/
def BlockedClient.make (now : Int) (fd : Fd) (timeoutSecs : Float) : Exec BlockedClient :=
  if timeoutSecs == 0.0 then pure ⟨fd, timePointMax⟩
  else do
    let timeoutMs ← FloatText.toInteger (-2 ^ 63) (2 ^ 63 - 1) (timeoutSecs * 1000)
    pure ⟨fd, afterMilliseconds now timeoutMs⟩

/-- The constructor of `BlockedXreadClient`, with a timeout in milliseconds,
and the two fields set behind it. -/
def BlockedXreadClient.make (now : Int) (fd : Fd) (timeoutMs : Float) (streamId streamKey : Bytes) :
    Exec BlockedXreadClient :=
  if timeoutMs == 0 then pure ⟨fd, timePointMax, streamId, streamKey⟩
  else do
    let timeout ← FloatText.toInteger (-2 ^ 63) (2 ^ 63 - 1) timeoutMs
    pure ⟨fd, afterMilliseconds now timeout, streamId, streamKey⟩

/-- `is_expired`. -/
def isExpired (now timeoutAt : Int) : Bool := timeoutAt != timePointMax && now ≥ timeoutAt

/-- `User`. -/
structure User where
  passwords : List Bytes
  flags : List Bytes
  isEnabled : Bool
  nopass : Bool
  deriving DecidableEq

/-- `ACLManager`: its users by name. -/
structure ACLManager where
  users : Map Bytes User

/-- `ACLManager` as its constructor leaves it. -/
def ACLManager.new : ACLManager :=
  ⟨Finmap.singleton (ascii "default") ⟨[], [ascii "nopass"], true, true⟩⟩

/-- `ACLManager::getUser`. -/
def ACLManager.getUser (acl : ACLManager) (username : Bytes) : Option User :=
  acl.users.lookup username

/-- `ACLManager::setUser`. -/
def ACLManager.setUser (acl : ACLManager) (username hashedPassword : Bytes) (flags : List Bytes) :
    ACLManager :=
  let user := (acl.users.lookup username).getD ⟨[], [], true, false⟩
  let user :=
    if hashedPassword ≠ [] then { user with passwords := [hashedPassword], nopass := false }
    else user
  ⟨acl.users.insert username { user with flags }⟩

/-! ## The database -/

/-- `DB`. -/
structure DB where
  store : Map Bytes RedisObject := ∅
  expiration : Map Bytes Int := ∅
  blockedKeys : Map Bytes (List BlockedClient) := ∅
  blockedXreadKeys : Map Bytes (List BlockedXreadClient) := ∅
  watchingKeys : Map Bytes (List Fd) := ∅
  pubsubClients : Map Bytes (List Fd) := ∅

/-- What the environment decides while a command runs: the clock readings,
which clients still exist, the order in which hash maps are walked, the hash
function of OpenSSL, and whether assertions are compiled in. -/
structure Env where
  clock : Clock
  alive : Fd → Bool
  walk : Finset Bytes → List Bytes
  walk_all : ∀ keys, (walk keys : Multiset Bytes) = keys.val
  sha256 : Bytes → Bytes
  ndebug : Bool

/-- What a handler does to a client or to the context of its request. -/
inductive Effect where
  /-- Bytes appended to the write buffer of the client that is served. -/
  | reply (bytes : Bytes)
  /-- Bytes appended to the write buffer of another client. -/
  | write (fd : Fd) (bytes : Bytes)
  /-- `setClientDirty`. -/
  | dirty (fd : Fd)
  /-- `isBlocked = true`. -/
  | block
  /-- `unblocked_client_fd = fd`. -/
  | unblock (fd : Fd)
  /-- `ready_to_write_clients.push_back`. -/
  | ready (fd : Fd)
  /-- `addTransactionFlags`. -/
  | beginTransaction
  /-- `queued_commands.clear` and `resetFlags`. -/
  | endTransaction
  /-- `queued_commands.push_back`. -/
  | queue (command : Command)
  /-- `setClientPubSub` and one more subscribed channel. -/
  | subscribe
  /-- One subscribed channel less. -/
  | unsubscribe
  /-- The client is authenticated as a user. -/
  | authenticate (username : Bytes)

/-- What the served client is sent. -/
def repliedBytes (effects : List Effect) : Bytes :=
  effects.flatMap fun
    | .reply bytes => bytes
    | _ => []

/-- The context of a request: the client that is served, the command it sent,
and the users. A handler that is called for another command still sees the
command of the context. -/
structure Context where
  fd : Fd
  client : Client
  command : Command
  acl : ACLManager
  env : Env

/-- A new client on a machine whose maps are walked in key order. -/
def Context.sample : Context where
  fd := 5
  client := {}
  command := .ping
  acl := .new
  env := {
    clock := ⟨0, 0⟩
    alive := fun _ => true
    walk := fun keys => keys.sort (· ≤ ·)
    walk_all := fun keys => Finset.sort_eq keys (· ≤ ·)
    sha256 := id
    ndebug := false }

/-- What a handler leaves behind. -/
abbrev Outcome := Exec (DB × List Effect)

/-- `mark_watching_clients_dirty`. -/
def markWatchingClientsDirty (db : DB) (env : Env) (key : Bytes) : List Effect :=
  (((db.watchingKeys.lookup key).getD []).filter env.alive).map .dirty

/-- A handler that only replies. -/
def replying (db : DB) (bytes : Bytes) : Outcome := pure (db, [.reply bytes])

/-- The value of a pointer that is dereferenced unchecked. -/
def deref : Option α → Exec α
  | some value => pure value
  | none => throw .undefinedBehaviour

end CarrotDb
