import CarrotDb.ChannelFlags
import CarrotDb.CommandReplay
import CarrotDb.WakeUps
import CarrotDb.XreadWaits

/-! What a client that has not authenticated can reach. The only test for it
stands in front of ACL WHOAMI; which other requests neither touch nor show data
is decided by what their handlers read and write. -/
namespace CarrotDb
open Resp

/-- The keys, and the times they end. -/
structure Data where
  store : Map Bytes RedisObject := ∅
  expiration : Map Bytes Int := ∅

def DB.data (db : DB) : Data := ⟨db.store, db.expiration⟩

/-- The same database over other data. -/
def DB.withData (db : DB) (data : Data) : DB :=
  { db with store := data.store, expiration := data.expiration }

/-- Data that a server can come to: each object is what its tag says, and only
strings end. -/
def Data.Sound (data : Data) : Prop :=
  (DB.withData {} data).Sound ∧ (DB.withData {} data).Timed

def Server.withData (server : Server) (data : Data) : Server :=
  { server with db := server.db.withData data }

/-- The machine has a reading of its environment for each command of the
client's transaction. -/
def Machine.Lasts (machine : Machine) (client : Client) : Prop :=
  client.queuedCommands.length ≤ machine.queue.length

/-- Data, other clients and replicas are as they were. -/
structure Untouched (server after : Server) (fd : Fd) : Prop where
  data : after.db.data = server.db.data
  others : ∀ other, other ≠ fd → after.clients.lookup other = server.clients.lookup other
  replicas : after.slaveConnections = server.slaveConnections

/-- What the gate is for, where a client asks for something: it is answered and
leaves everything but that client as it was, and neither the answer nor what
the client waits for from then on depends on the data. -/
structure Gated (server : Server) (fd : Fd) (client : Client)
    (asks : Server → Machine → Exec Handled) : Prop where
  untouched : ∀ machine, machine.Lasts client →
    ∃ handled, asks server machine = .ok handled ∧ Untouched server handled.server fd
  blind : ∀ data data' machine, data.Sound → data'.Sound → machine.Lasts client →
    (asks (server.withData data) machine).map (fun handled => handled.server.withData {}) =
      (asks (server.withData data') machine).map (fun handled => handled.server.withData {})

/-- None of the connections but the client's own still exists. -/
def Server.Alone (server : Server) (fd : Fd) (fds : List Fd) : Prop :=
  ∀ other ∈ fds, server.alive other = true → other = fd

/-- The bounds of XRANGE leave room for an entry, which is none with 0-0. -/
def Spans (start stop : Bytes) : Prop :=
  ∃ low high, fromStringForSearch start false = some low ∧
    fromStringForSearch stop true = some high ∧ low.Le high ∧ high ≠ ⟨0, 0⟩

/-- A change of the key marks no client that is not marked yet. -/
def Server.Marked (server : Server) (fd : Fd) (db : DB) (key : Bytes) : Prop :=
  ∀ other ∈ queueOf db.watchingKeys key, ∀ watching,
    server.clients.lookup other = some watching → other = fd ∨ watching.dirty = true

/-- A push that stores nothing and tells nobody: it has no values, or one that
the client takes itself, or a client that does not exist any more. -/
def Server.PushesAside (server : Server) (fd : Fd) (db : DB) (key : Bytes) (values : List Bytes) :
    Prop :=
  (values = [] ∧ server.Marked fd db key) ∨
  values.length = 1 ∧ ∃ blocked ∈ (queueOf db.blockedKeys key).head?,
    server.alive blocked.clientFd = true → blocked.clientFd = fd

/-- SET of what the key holds already, for as long as it does. -/
def Server.SetsAgain (server : Server) (fd : Fd) (db : DB) (key value : Bytes) (ex px : Option Nat) :
    Prop :=
  (ex = none ∧ px = none) ∧
    db.store.lookup key = some { type := .string, stringPtr := some value } ∧
    server.Marked fd db key

/-- The commands whose handlers show and change no data, and reach nobody else. -/
def Command.Quiet (server : Server) (fd : Fd) (db : DB) : Command → Prop
  | .get _ | .type _ | .incr _ | .llen _ | .lrange .. | .blpop .. | .xadd .. | .zadd .. | .zrank ..
  | .zrange .. | .zcard _ | .zscore .. | .zrem .. | .geoPos .. | .geoDist .. | .geoSearch .. => False
  | .set key value ex px => server.SetsAgain fd db key value ex px
  | .keys pattern => pattern ≠ ascii "*"
  | .publish channel _ => server.Alone fd (queueOf db.pubsubClients channel)
  | .rpush key values | .lpush key values => server.PushesAside fd db key values
  | .lpop _ count => count = some 0
  | .xrange _ start stop => ¬ Spans start stop
  | .xread _ names ids => names.length = ids.length → names = []
  | .geoAdd _ _ _ _ _ invalidLatLon => invalidLatLon = true
  | _ => True

/-- Those that are run by EXEC. Handlers that take their arguments from the
context find the command EXEC there, and refuse it or fail. -/
def Command.QuietInside (server : Server) (fd : Fd) (db : DB) : Command → Prop
  | .aclGetUser _ | .subscribe _ | .publish .. | .exec => False
  | .keys _ | .zadd .. | .zrank .. | .zrange .. | .zcard _ | .zscore .. | .zrem .. | .geoAdd ..
  | .geoPos .. | .geoDist .. | .geoSearch .. => True
  | command => command.Quiet server fd db

/-- The database behind a quiet command of a transaction: a push takes the
client that waits at the front. -/
def DB.behind (db : DB) : Command → DB
  | .rpush key (_ :: _) | .lpush key (_ :: _) =>
    { db with blockedKeys := popFront db.blockedKeys key (queueOf db.blockedKeys key).tail }
  | _ => db

/-- Each command of a transaction is quiet behind those in front of it. -/
def Server.QuietQueue (server : Server) (fd : Fd) : DB → List Command → Prop
  | _, [] => True
  | db, command :: rest =>
    command.QuietInside server fd db ∧ server.QuietQueue fd (db.behind command) rest

/-- A channel whose subscribers in front of the client all exist. -/
def Server.Steady (server : Server) (fd : Fd) (channel : Bytes) : Prop :=
  ∀ other ∈ (queueOf server.db.pubsubClients channel).takeWhile (· ≠ fd), server.alive other = true

/-- What the database is left to do reaches nothing. A transaction queues all
but EXEC; a write command is passed on, whether it is run or a client with
channels may not use it. -/
def Server.RunsQuietly (server : Server) (fd : Fd) (client : Client) (command : Command) : Prop :=
  if client.multi then
    command = .exec → client.pubSub = false → server.QuietQueue fd server.db client.queuedCommands
  else
    (command.isWriteCommand = true → server.Alone fd server.slaveConnections) ∧
      if client.pubSub then ∀ channel, command = .unSubscribe channel → server.Steady fd channel
      else command.Quiet server fd server.db

/-- The requests of a client that has not authenticated that reach nothing. -/
def Server.Harmless (server : Server) (fd : Fd) (client : Client) : Command → Prop
  | .aclWhoami | .info _ => True
  | .replConf .ack _ _ ackOffset => server.Alone fd (server.acknowledges fd ackOffset)
  | .replConf .. => True
  | .psync .. => client.isSlave = true
  | .wait numReplica _ => server.config.offset = 0 ∨
    numReplica ≤ ackedReplicas server.clients server.slaveConnections (i64 server.config.offset) ∨
    server.Alone fd server.slaveConnections
  | command => server.RunsQuietly fd client command

variable {server : Server} {fd : Fd} {client : Client} {command : Command} {machine : Machine}
  {db db' : DB} {c : Context} {effects first second : List Effect} {clients : Map Fd Client}
  {data : Data}

/-! ## Effects that spare other clients -/

/-- The effects change no client but the served one. -/
def Spares (clients : Map Fd Client) (fd : Fd) (effects : List Effect) : Prop :=
  ∀ effect ∈ effects, ∀ other client, other ≠ fd → clients.lookup other = some client →
    effect.target fd = some other → effect.apply client = client

theorem spares_private (own : ∀ effect ∈ effects, effect.Private) : Spares clients fd effects := by
  intro effect member other client different _ target
  have alone := own effect member
  cases effect <;> first | exact alone.elim | skip
  all_goals simp only [Effect.target, Option.some.injEq, reduceCtorEq] at target
  all_goals exact absurd target.symm different

theorem spares_reply (bytes : Bytes) : Spares clients fd [.reply bytes] :=
  spares_private (List.forall_mem_singleton.mpr trivial)

theorem Spares.append (one : Spares clients fd first) (two : Spares clients fd second) :
    Spares clients fd (first ++ second) := by
  intro effect member
  rcases List.mem_append.mp member with left | right
  · exact one effect left
  · exact two effect right

/-- What is written to nobody else that exists. -/
theorem spares_written (alone : ∀ effect ∈ effects, ∀ other, effect.target fd = some other →
    (clients.lookup other).isSome = true → other = fd) : Spares clients fd effects := by
  intro effect member other client different connected target
  exact absurd (alone effect member other target (by rw [connected]; rfl)) different

theorem Spares.others (spares : Spares clients fd effects) {other : Fd} (different : other ≠ fd) :
    (applyToClients fd effects clients).lookup other = clients.lookup other := by
  rw [lookup_applyToClients]
  cases connected : clients.lookup other with
  | none => rfl
  | some client =>
    refine congrArg some ?_
    induction effects with
    | nil => rfl
    | cons effect rest ih =>
      have later := ih fun next member => spares next (List.mem_cons_of_mem _ member)
      have step : applyEffects fd other (effect :: rest) client = applyEffects fd other rest
          (if effect.target fd = some other then effect.apply client else client) := rfl
      rw [step]
      split
      · rw [spares effect List.mem_cons_self other client different connected ‹_›]
        exact later
      · exact later

/-! ## Handlers that see no data -/

theorem Data.Sound.bind_string (sound : data.Sound) (key value : Bytes) :
    Data.Sound { data with
      store := data.store.insert key { type := .string, stringPtr := some value } } := by
  constructor
  · exact sound.1.insert (sound_of_text rfl rfl) rfl rfl
  · intro other deadline due
    by_cases here : other = key
    · subst here
      exact ⟨_, Finmap.lookup_insert _, rfl⟩
    · obtain ⟨object, lookup, tag⟩ := sound.2 other deadline due
      exact ⟨object, (Finmap.lookup_insert_of_ne _ here).trans lookup, tag⟩

/-- A stream of sound data holds a log. -/
theorem Data.Sound.stream (sound : data.Sound) {key : Bytes} {object : RedisObject} {stream : Stream}
    (lookup : data.store.lookup key = some object) (tag : object.type = .stream)
    (pointer : object.streamPtr = some stream) : ∃ log, stream.Logs log := by
  obtain ⟨held, log, same, logs⟩ := stream_of_sound (sound.1.objects key object lookup) tag
  rw [pointer] at same
  cases same
  exact ⟨log, logs⟩

/-- Over any data the handler does the same, leaves the data of the database as
it is and spares the other clients. -/
def Seals (clients : Map Fd Client) (fd : Fd) (handler : DB → Outcome) (db db' : DB) : Prop :=
  ∃ (effects : List Effect) (moves : Data → Data), (∀ data, data.Sound →
      (moves data).Sound ∧ handler (db.withData data) = .ok (db'.withData (moves data), effects)) ∧
    moves db.data = db.data ∧ Spares clients fd effects

theorem seals_spares {handler : DB → Outcome} (effects : List Effect)
    (does : ∀ data, handler (db.withData data) = .ok (db'.withData data, effects))
    (spares : Spares clients fd effects) : Seals clients fd handler db db' :=
  ⟨effects, id, fun data sound => ⟨sound, does data⟩, rfl, spares⟩

theorem seals_private {handler : DB → Outcome} (effects : List Effect)
    (does : ∀ data, handler (db.withData data) = .ok (db'.withData data, effects))
    (own : ∀ effect ∈ effects, effect.Private) : Seals clients fd handler db db' :=
  seals_spares effects does (spares_private own)

theorem seals_reply {handler : DB → Outcome} {bytes : Bytes}
    (replies : ∀ data, handler (db.withData data) = replying (db'.withData data) bytes) :
    Seals clients fd handler db db' := seals_spares _ replies (spares_reply bytes)

/-- Marking who watches a key spares clients that are marked. -/
theorem marks_spare {key : Bytes} {env : Env} (marked : server.Marked fd db key) :
    Spares server.clients fd (markWatchingClientsDirty db env key) := by
  intro effect member other client different connected target
  obtain ⟨watching, inside, rfl⟩ := List.mem_map.mp member
  cases target
  have dirty := (marked other (List.mem_of_mem_filter inside) client connected).resolve_left different
  rw [Effect.apply, ← dirty]

theorem set_seals {key value : Bytes} {ex px : Option Nat}
    (again : server.SetsAgain fd db key value ex px) :
    Seals server.clients fd (fun db => handleSet db c key value ex px) db db := by
  obtain ⟨⟨rfl, rfl⟩, held, marked⟩ := again
  refine ⟨markWatchingClientsDirty db c.env key ++ [.reply (encodeSimpleString (ascii "OK"))],
    fun data => { data with
      store := data.store.insert key { type := .string, stringPtr := some value } },
    fun data sound => ⟨sound.bind_string key value, rfl⟩, ?_,
    (marks_spare marked).append (spares_reply _)⟩
  refine congrArg (fun store => (⟨store, db.expiration⟩ : Data)) (Finmap.ext_lookup fun other => ?_)
  by_cases here : other = key
  · rw [here, Finmap.lookup_insert, ← held]
  · exact Finmap.lookup_insert_of_ne _ here

theorem push_seals {key : Bytes} {values : List Bytes} (isPrepend : Bool)
    (present : c.env.alive = server.alive) (aside : server.PushesAside fd db key values) :
    Seals server.clients fd (fun db => handlePush db c isPrepend key values) db
      (db.behind (.rpush key values)) := by
  rcases aside with ⟨rfl, marked⟩ | ⟨single, blocked, front, own⟩
  · exact seals_spares (markWatchingClientsDirty db c.env key ++ [.reply (encodeInteger 0)])
      (fun data => handlePush_plain (.inr rfl)) ((marks_spare marked).append (spares_reply _))
  · obtain ⟨value, rfl⟩ := List.length_eq_one_iff.mp single
    obtain ⟨queue, waits⟩ : ∃ queue, queueOf db.blockedKeys key = blocked :: queue :=
      List.head?_eq_some_iff.mp front
    let served : List Effect :=
      if c.env.alive blocked.clientFd then
        [.write blocked.clientFd (encodeBulkStringArray [key, value]), .unblock blocked.clientFd]
      else []
    refine seals_spares (served ++ [.reply (encodeInteger 1)]) (fun data => ?_) ?_
    · rw [@handlePush_waiter (db.withData data) c isPrepend key value [] blocked queue waits]
      rw [DB.behind, waits]
      rfl
    · refine Spares.append (spares_written fun effect member other target alive => ?_) (spares_reply _)
      dsimp only [served] at member
      split at member
      · rename_i here
        rw [present] at here
        rcases List.mem_pair.mp member with rfl | rfl
        · cases target
          exact own here
        · cases target
      · cases member

theorem lpop_seals (key : Bytes) :
    Seals clients fd (fun db => handleLpop db c key (some 0)) db db := by
  refine seals_spares [.reply encodeNullBulkString] (fun data => ?_) (spares_reply _)
  rw [handleLpop]
  cases lookup : (db.withData data).store.lookup key with
  | none => rfl
  | some object =>
    dsimp only
    split
    · rename_i lp _ held
      have same : { object with listPack := some lp } = object := by rw [← held]
      have kept : (db.withData data).store.insert key object = (db.withData data).store := by
        refine Finmap.ext_lookup fun other => ?_
        by_cases here : other = key
        · rw [here, Finmap.lookup_insert, lookup]
        · exact Finmap.lookup_insert_of_ne _ here
      have popped : popElements c.env.ndebug ((some 0).getD 1) (some lp) = .ok ([], some lp) := rfl
      rw [popped, exec_ok_bind]
      dsimp only
      rw [same, kept]
      rfl
    · rfl

/-- A range without room has no entries. -/
theorem xrangeData_narrow {start stop : Bytes} {stream : Stream} {log : Log} (logs : stream.Logs log)
    (narrow : ¬ Spans start stop) :
    ∀ entries ∈ stream.xrangeData start stop false, entries = [] := by
  intro entries found
  cases low : fromStringForSearch start false with
  | none =>
    rw [Option.mem_def, Stream.xrangeData, low] at found
    cases found
  | some startID =>
    cases high : fromStringForSearch stop true with
    | none =>
      rw [Option.mem_def, Stream.xrangeData, low, high] at found
      cases found
    | some endID =>
      rw [Option.mem_def, xrangeData_logs logs low high (fromStringForSearch_fits low)
        (fromStringForSearch_fits high)] at found
      split at found
      · cases found
      · cases found
        refine List.map_eq_nil_iff.mpr (List.filter_eq_nil_iff.mpr fun entry member inside => ?_)
        obtain ⟨above, below⟩ := of_decide_eq_true inside
        refine narrow ⟨startID, endID, low, high, ?_, fun least => ?_⟩
        · unfold StreamID.Le at above below ⊢
          omega
        · rw [least] at below
          refine logs.positive entry member ((StreamID.eq_zero_iff _).mpr ?_)
          unfold StreamID.Le at below
          dsimp only at below
          omega

theorem xrange_seals {start stop : Bytes} (key : Bytes) (narrow : ¬ Spans start stop) :
    Seals clients fd (fun db => handleXrange db key start stop) db db := by
  refine ⟨[.reply encodeEmptyArray], id, fun data sound => ⟨sound, ?_⟩, rfl, spares_reply _⟩
  dsimp only
  rw [handleXrange]
  cases lookup : (db.withData data).store.lookup key with
  | none => rfl
  | some object =>
    dsimp only
    split
    · rename_i stream tag pointer
      obtain ⟨log, logs⟩ := sound.stream lookup tag pointer
      have empty := xrangeData_narrow logs narrow
      split
      · rfl
      · rfl
      · rename_i entries some_ found
        exact absurd (empty entries found) some_
    · rfl

theorem xread_seals {blockTimeout : Option Float} {keys ids : List Bytes}
    (idle : keys.length = ids.length → keys = []) :
    Seals clients fd (fun db => handleXread db c blockTimeout keys ids) db db := by
  refine seals_spares [.reply encodeEmptyArray] (fun data => ?_) (spares_reply _)
  rw [handleXread]
  split
  · rfl
  · rename_i same
    rw [idle (not_not.mp same)]
    rfl

theorem publish_seals {channel message : Bytes} (asked : c.command = .publish channel message)
    (present : c.env.alive = server.alive)
    (alone : server.Alone fd (queueOf db.pubsubClients channel)) :
    ∃ db', Seals server.clients fd (fun db => handlePublish db c) db db' := by
  let subscribers := queueOf db.pubsubClients channel
  let sent : List Effect := subscribers.flatMap fun subscriber =>
    if c.env.alive subscriber then
      [.write subscriber (encodeBulkStringArray [ascii "message", channel, message]), .ready subscriber]
    else [.ready subscriber]
  refine ⟨{ db with pubsubClients := db.pubsubClients.insert channel subscribers }, seals_spares
    (sent ++ [.reply (encodeInteger (subscribers.filter c.env.alive).length)]) (fun data => ?_) ?_⟩
  · simp only [handlePublish, asked]
    rfl
  · refine Spares.append (spares_written fun effect member other target alive => ?_) (spares_reply _)
    obtain ⟨subscriber, inside, member⟩ := List.mem_flatMap.mp member
    split at member
    · rename_i here
      rw [present] at here
      rcases List.mem_pair.mp member with rfl | rfl
      · cases target
        exact alone other inside here
      · cases target
    · rw [List.mem_singleton.mp member] at target
      cases target

theorem subscribe_seals {channel : Bytes} (asked : c.command = .subscribe channel) :
    ∃ db', Seals clients fd (fun db => handleSubscribe db c) db db' := by
  let subscribers := (db.pubsubClients.lookup channel).getD [] ++ [c.fd]
  let total := u64 (c.client.totalSubscribedChannels + 1)
  refine ⟨{ db with pubsubClients := db.pubsubClients.insert channel subscribers }, seals_private
    [.subscribe, .reply (encodeArrayHeader 3 ++ encodeBulkString (ascii "subscribe") ++
      encodeBulkString channel ++ encodeInteger (i64 total))] (fun data => ?_)
    (by simp [Effect.Private])⟩
  simp only [handleSubscribe, asked]
  rfl

/-- A quiet command that is called for itself, outside of a transaction. -/
theorem quiet_seals (asked : c.command = command) (present : c.env.alive = server.alive)
    (alone : c.client.multi = false) (envs : List Env) (quiet : command.Quiet server fd db) :
    ∃ db', Seals server.clients fd (fun db => call db c envs command) db db' := by
  cases command
  case get | type | incr | llen | lrange | blpop | xadd | zadd | zrank | zrange | zcard | zscore | zrem
      | geoPos | geoDist | geoSearch => exact quiet.elim
  case set key value ex px => exact ⟨_, set_seals quiet⟩
  case rpush key values => exact ⟨_, push_seals false present quiet⟩
  case lpush key values => exact ⟨_, push_seals true present quiet⟩
  case lpop key count =>
    cases (show count = some 0 from quiet)
    exact ⟨_, lpop_seals key⟩
  case xrange key start stop => exact ⟨_, xrange_seals key quiet⟩
  case xread blockTimeout keys ids => exact ⟨_, xread_seals quiet⟩
  case publish channel message => exact publish_seals asked present quiet
  case keys pattern =>
    refine ⟨db, ?_⟩
    simp only [call, callSimple, handleKeys, asked, if_neg (show ¬ pattern = ascii "*" from quiet)]
    exact seals_reply fun data => rfl
  case geoAdd key longitude latitude score member invalidLatLon =>
    cases (show invalidLatLon = true from quiet)
    refine ⟨db, ?_⟩
    simp only [call, callSimple, handleGeoadd, asked]
    exact seals_reply fun data => rfl
  case aclGetUser username =>
    refine ⟨db, ?_⟩
    simp only [call, callSimple, handleAclGetuser, asked]
    exact seals_reply fun data => rfl
  case exec =>
    refine ⟨db, ?_⟩
    simp only [call, handleExec, alone]
    exact seals_reply fun data => rfl
  case discard =>
    refine ⟨db, ?_⟩
    simp only [call, callSimple, handleDiscard, alone]
    exact seals_reply fun data => rfl
  case multi =>
    exact ⟨db, seals_private [.beginTransaction, .reply (encodeSimpleString (ascii "OK"))]
      (fun data => rfl) (by simp [Effect.Private])⟩
  case subscribe channel => exact subscribe_seals asked
  all_goals exact ⟨db, seals_reply fun data => rfl⟩

theorem behind_push (key : Bytes) (values : List Bytes) :
    db.behind (.lpush key values) = db.behind (.rpush key values) := by
  cases values <;> rfl

/-- A quiet command that EXEC calls. -/
theorem inside_seals (exec : c.command = .exec) (present : c.env.alive = server.alive)
    (quiet : command.QuietInside server fd db) :
    Seals server.clients fd (fun db => callSimple db c command) db (db.behind command) := by
  cases command
  case aclGetUser | subscribe | publish | exec => exact quiet.elim
  case get | type | incr | llen | lrange | blpop | xadd => exact quiet.elim
  case set key value ex px => exact set_seals quiet
  case rpush key values => exact push_seals false present quiet
  case lpush key values =>
    rw [behind_push]
    exact push_seals true present quiet
  case lpop key count =>
    cases (show count = some 0 from quiet)
    exact lpop_seals key
  case xrange key start stop => exact xrange_seals key quiet
  case xread blockTimeout keys ids => exact xread_seals quiet
  case keys pattern =>
    refine seals_private [] (fun data => ?_) (fun _ absent => absurd absent List.not_mem_nil)
    simp only [callSimple, handleKeys, exec]
    rfl
  case multi =>
    exact seals_private [.beginTransaction, .reply (encodeSimpleString (ascii "OK"))]
      (fun data => rfl) (by simp [Effect.Private])
  case discard =>
    cases open_ : c.client.multi with
    | false =>
      simp only [callSimple, handleDiscard, open_]
      exact seals_reply fun data => rfl
    | true =>
      refine seals_private [.endTransaction, .reply (encodeSimpleString (ascii "OK"))] (fun data => ?_)
        (by simp [Effect.Private])
      simp only [callSimple, handleDiscard, open_]
      rfl
  case zadd | zrank | zrange | zcard | zscore | zrem | geoAdd | geoPos | geoDist | geoSearch =>
    refine seals_spares [.reply invalidCommandType] (fun data => ?_) (spares_reply _)
    simp only [callSimple, handleZadd, handleZrank, handleZrange, handleZcard, handleZscore,
      handleZrem, handleGeoadd, handleGeopos, handleGeodist, handleGeosearch, exec]
    rfl
  all_goals exact seals_reply fun data => rfl

theorem behind_data : (db.behind command).data = db.data := by
  cases command
  case rpush key values => cases values <;> rfl
  case lpush key values => cases values <;> rfl
  all_goals rfl

/-- The commands of a quiet transaction, one after another. -/
theorem queue_seals (exec : c.command = .exec) {commands : List Command} {envs : List Env}
    (present : ∀ env ∈ envs, env.alive = server.alive)
    (lasts : commands.length ≤ envs.length) (quiet : server.QuietQueue fd db commands) :
    ∃ db', Seals server.clients fd (fun db => runQueue db c commands envs) db db' := by
  induction commands generalizing db envs with
  | nil =>
    exact ⟨db, seals_spares [] (fun data => by cases envs <;> rfl)
      fun _ absent => absurd absent List.not_mem_nil⟩
  | cons command commands ih =>
    cases envs with
    | nil => exact absurd lasts (Nat.not_succ_le_zero _)
    | cons env envs =>
      obtain ⟨front, moves, done, still, spares⟩ := @inside_seals server fd command db { c with env }
        exec (present env List.mem_cons_self) quiet.1
      obtain ⟨db', rest, movesRest, doneRest, stillRest, sparesRest⟩ := ih
        (fun other member => present other (List.mem_cons_of_mem _ member))
        (Nat.le_of_succ_le_succ lasts) quiet.2
      refine ⟨db', front ++ rest, movesRest ∘ moves, fun data sound => ?_, ?_,
        spares.append sparesRest⟩
      · obtain ⟨soundRest, ranRest⟩ := doneRest (moves data) (done data sound).1
        refine ⟨soundRest, ?_⟩
        have ran := (done data sound).2
        dsimp only at ran ranRest ⊢
        rw [runQueue, ran, exec_ok_bind]
        dsimp only
        rw [ranRest, exec_ok_bind]
        rfl
      · rw [behind_data] at stillRest
        rw [Function.comp_apply, still, stillRest]

theorem removeSubscriber_runs {env : Env} {subscribers : List Fd} (here : env.alive fd = true)
    (steady : ∀ other ∈ subscribers.takeWhile (· ≠ fd), env.alive other = true) :
    ∃ remaining, removeSubscriber env fd subscribers = .ok remaining := by
  induction subscribers with
  | nil => exact ⟨none, rfl⟩
  | cons other rest ih =>
    by_cases own : other = fd
    · refine ⟨some rest, ?_⟩
      rw [removeSubscriber, own, here]
      simp
    · rw [List.takeWhile_cons, if_pos (by simpa using own)] at steady
      obtain ⟨first, later⟩ := List.forall_mem_cons.mp steady
      obtain ⟨remaining, ran⟩ := ih later
      refine ⟨remaining.map (other :: ·), ?_⟩
      rw [removeSubscriber, first, ran]
      simp [own]

/-- A client with channels changes its own, or is refused. -/
theorem pubSub_seals (served : c.fd = fd) (present : c.env.alive = server.alive)
    (here : server.alive fd = true)
    (steady : ∀ channel, c.command = .unSubscribe channel → server.Steady fd channel) :
    ∃ db', Seals clients fd (fun db => handlePubSub db c) server.db db' := by
  cases asked : c.command
  case subscribe channel =>
    obtain ⟨db', effects, moves, does, still⟩ := @subscribe_seals fd server.db c clients channel asked
    refine ⟨db', effects, moves, fun data sound => ⟨(does data sound).1, ?_⟩, still⟩
    simp only [handlePubSub, asked]
    exact (does data sound).2
  case unSubscribe channel =>
    obtain ⟨remaining, ran⟩ := @removeSubscriber_runs fd c.env (queueOf server.db.pubsubClients channel)
      (present ▸ here) (present ▸ steady channel asked)
    let subscribers := queueOf server.db.pubsubClients channel
    let total :=
      if remaining.isSome then sub64 c.client.totalSubscribedChannels 1
      else c.client.totalSubscribedChannels
    refine ⟨{ server.db with
        pubsubClients := server.db.pubsubClients.insert channel (remaining.getD subscribers) },
      seals_private ((if remaining.isSome then [.unsubscribe] else []) ++
        [.reply (encodeArrayHeader 3 ++ encodeBulkString (ascii "unsubscribe") ++
          encodeBulkString channel ++ encodeInteger (i64 total))]) (fun data => ?_) ?_⟩
    · simp only [handlePubSub, asked, handleUnSubscribe, served]
      have found : removeSubscriber c.env fd
          (((server.db.withData data).pubsubClients.lookup channel).getD []) = .ok remaining := ran
      rw [found, exec_ok_bind]
      rfl
    · intro effect member
      rcases List.mem_append.mp member with counted | replied
      · split at counted
        · rw [List.mem_singleton.mp counted]
          trivial
        · cases counted
      · rw [List.mem_singleton.mp replied]
        trivial
  case ping =>
    let pong := if c.client.pubSub then encodeBulkString (ascii "pong")
      else encodeSimpleString (ascii "PONG")
    refine ⟨server.db, seals_private [.reply (encodeArrayHeader 2), .reply pong,
      .reply (encodeBulkString [])] (fun data => ?_) (by simp [Effect.Private])⟩
    simp only [handlePubSub, asked]
    rfl
  all_goals
    refine ⟨server.db, ?_⟩
    simp only [handlePubSub, asked]
    exact seals_reply fun data => rfl

/-! ## Requests that reach nothing, served -/

/-- Most commands are harmless by what the database does with them. -/
theorem harmless_direct (direct : server.handle fd client machine command = none)
    (known : command ≠ .aclWhoami) :
    server.Harmless fd client command ↔ server.RunsQuietly fd client command := by
  cases command
  case aclWhoami => exact absurd rfl known
  case info | replConf | psync | wait => cases direct
  all_goals exact Iff.rfl

/-- What a request leaves, over other data. -/
def Executed.withData (executed : Executed) (data : Data) : Executed :=
  { executed with db := executed.db.withData data }

/-- A request is run as over any other data, leaves the data, spares the other
clients, and is passed on to none of them. -/
def RunsApart (server : Server) (c : Context) (rdbFilePath : Bytes) (envs : List Env) : Prop :=
  ∃ (executed : Executed) (moves : Data → Data),
    (∀ data, data.Sound → execute (server.db.withData data) c rdbFilePath envs =
      .ok (executed.withData (moves data))) ∧
    moves server.db.data = server.db.data ∧ Spares server.clients c.fd executed.effects ∧
    ∀ command, executed.command = some command → command.isWriteCommand = true →
      server.Alone c.fd server.slaveConnections

variable {rdbFilePath : Bytes} {envs : List Env}

theorem runsApart_handler {handler : DB → Outcome}
    (seals : ∃ db', Seals server.clients c.fd handler server.db db')
    (alone : c.command.isWriteCommand = true → server.Alone c.fd server.slaveConnections)
    (runs : ∀ db, execute db c rdbFilePath envs = (do
      let outcome ← handler db
      pure ⟨outcome.1, c.acl, outcome.2, some c.command⟩)) :
    RunsApart server c rdbFilePath envs := by
  obtain ⟨db', effects, moves, does, still, spares⟩ := seals
  refine ⟨⟨db', c.acl, effects, some c.command⟩, moves, fun data sound => ?_, still, spares,
    fun command same write => ?_⟩
  · rw [runs, (does data sound).2, exec_ok_bind]
    rfl
  · cases same
    exact alone write

theorem handleAuth_private (username password : Bytes) :
    ∀ effect ∈ handleAuth c username password, effect.Private := by
  unfold handleAuth
  split
  · simp [Effect.Private]
  · split
    · simp [Effect.Private]
    · split
      · simp [Effect.Private]
      · split <;> simp [Effect.Private]

/-- EXEC of a quiet transaction. -/
theorem exec_seals (exec : c.command = .exec) (open_ : c.client.multi = true)
    (present : ∀ env ∈ envs, env.alive = server.alive)
    (lasts : c.client.queuedCommands.length ≤ envs.length)
    (quiet : server.QuietQueue fd db c.client.queuedCommands) :
    ∃ db', Seals server.clients fd (fun db => handleExec db c envs) db db' := by
  obtain ⟨db', effects, moves, does, still, spares⟩ := queue_seals exec present lasts quiet
  refine ⟨db', .reply (encodeArrayHeader c.client.queuedCommands.length) :: effects ++ [.endTransaction],
    moves, fun data sound => ⟨(does data sound).1, ?_⟩, still, ?_⟩
  · have ran := (does data sound).2
    dsimp only at ran ⊢
    rw [handleExec, open_, if_neg (by decide)]
    dsimp only
    rw [ran, exec_ok_bind]
    rfl
  · exact ((spares_reply _).append spares).append
      (spares_private (List.forall_mem_singleton.mpr trivial))

theorem execute_whoami (known : c.command = .aclWhoami) (guest : c.client.isAuthenticated = false) :
    RunsApart server c rdbFilePath envs := by
  refine ⟨⟨server.db, c.acl, [.reply (encodeError (ascii "Authentication required.") (ascii "NOAUTH"))],
    some c.command⟩, id, fun data _ => ?_, rfl, spares_reply _, fun command same write => ?_⟩
  · simp only [execute, known, guest]
    rfl
  · cases same
    rw [known] at write
    cases write

private theorem type_whoami (known : command ≠ .aclWhoami) : command.commandType ≠ .aclWhoami := by
  intro type
  cases command <;> first | exact known rfl | cases type

/-- In a transaction commands are queued, but for EXEC and DISCARD. -/
theorem execute_transaction (known : c.command ≠ .aclWhoami) (multi : c.client.multi = true)
    (present : c.env.alive = server.alive) (presentAll : ∀ env ∈ envs, env.alive = server.alive)
    (lasts : c.client.queuedCommands.length ≤ envs.length) (here : server.alive c.fd = true)
    (quiet : c.command = .exec → c.client.pubSub = false →
      server.QuietQueue c.fd server.db c.client.queuedCommands) :
    RunsApart server c rdbFilePath envs := by
  have whoami : ¬ (c.command.commandType = .aclWhoami ∧ (!c.client.isAuthenticated) = true) :=
    fun both => type_whoami known both.1
  by_cases ends : c.command = .exec ∨ c.command = .discard
  · have plain : ¬ (c.client.multi = true ∧ c.command.commandType ≠ .exec ∧
        c.command.commandType ≠ .discard) := by
      rintro ⟨-, notExec, notDiscard⟩
      rcases ends with same | same <;> rw [same] at notExec notDiscard
      · exact notExec rfl
      · exact notDiscard rfl
    have reads : c.command.isWriteCommand = true → server.Alone c.fd server.slaveConnections := by
      rcases ends with same | same <;> rw [same] <;> exact nofun
    cases listening : c.client.pubSub with
    | true =>
      refine runsApart_handler (pubSub_seals rfl present here fun channel asked => ?_) reads fun db => ?_
      · rw [asked] at ends
        rcases ends with same | same <;> cases same
      · rw [execute]
        dsimp only
        rw [if_neg whoami, if_neg plain, if_pos listening]
    | false =>
      have closed : ¬ c.client.pubSub = true := by simp [listening]
      rcases ends with same | same
      · refine runsApart_handler (exec_seals same multi presentAll lasts (quiet same listening)) reads
          fun db => ?_
        rw [execute]
        dsimp only
        rw [if_neg whoami, if_neg plain, if_neg closed, same]
        rfl
      · have seals : Seals server.clients c.fd (fun db => handleDiscard db c) server.db server.db :=
          seals_private [.endTransaction, .reply (encodeSimpleString (ascii "OK"))]
            (fun data => by simp only [handleDiscard, multi]; rfl) (by simp [Effect.Private])
        refine runsApart_handler ⟨_, seals⟩ reads fun db => ?_
        rw [execute]
        dsimp only
        rw [if_neg whoami, if_neg plain, if_neg closed, same]
        rfl
  · have queued : c.client.multi = true ∧ c.command.commandType ≠ .exec ∧
        c.command.commandType ≠ .discard := by
      refine ⟨multi, fun type => ends ?_, fun type => ends ?_⟩
      · cases named : c.command <;> rw [named] at type <;> first | exact .inl rfl | cases type
      · cases named : c.command <;> rw [named] at type <;> first | exact .inr rfl | cases type
    refine ⟨⟨(queueCommand server.db c).1, c.acl, (queueCommand server.db c).2, none⟩, id,
      fun data _ => ?_, rfl, spares_private (by simp [queueCommand, Effect.Private]),
      fun command absent => by cases absent⟩
    rw [execute]
    dsimp only
    rw [if_neg whoami, if_pos queued]
    rfl

/-- A client with channels is served as such. -/
theorem execute_listening (known : c.command ≠ .aclWhoami) (multi : c.client.multi = false)
    (listening : c.client.pubSub = true) : execute db c rdbFilePath envs = (do
      let outcome ← handlePubSub db c
      pure ⟨outcome.1, c.acl, outcome.2, some c.command⟩) := by
  rw [execute]
  dsimp only
  rw [if_neg fun both => type_whoami known both.1, if_neg fun both => ?_, if_pos listening]
  rw [multi] at both
  cases both.1

/-- Outside of a transaction, with channels. -/
theorem execute_channels (known : c.command ≠ .aclWhoami) (multi : c.client.multi = false)
    (listening : c.client.pubSub = true) (present : c.env.alive = server.alive)
    (here : server.alive c.fd = true)
    (alone : c.command.isWriteCommand = true → server.Alone c.fd server.slaveConnections)
    (steady : ∀ channel, c.command = .unSubscribe channel → server.Steady c.fd channel) :
    RunsApart server c rdbFilePath envs :=
  runsApart_handler (pubSub_seals rfl present here steady) alone fun _ =>
    execute_listening known multi listening

/-- What is run for itself is called, but for three commands. -/
theorem execute_called (multi : c.client.multi = false) (listening : c.client.pubSub = false)
    (known : c.command ≠ .aclWhoami)
    (plain : c.command.commandType ∉ [CommandType.getConfig, .aclSetUser, .auth]) :
    execute db c rdbFilePath envs = (do
      let outcome ← call db c envs c.command
      pure ⟨outcome.1, c.acl, outcome.2, some c.command⟩) := by
  rw [execute]
  dsimp only
  rw [if_neg fun both => type_whoami known both.1, multi, listening,
    if_neg fun queued => Bool.false_ne_true queued.1, if_neg Bool.false_ne_true]
  cases named : c.command
  case getConfig | aclSetUser | auth =>
    rw [named] at plain
    simp [Command.commandType] at plain
  all_goals rfl

/-- In no mode. -/
theorem execute_quiet (known : c.command ≠ .aclWhoami) (multi : c.client.multi = false)
    (listening : c.client.pubSub = false) (present : c.env.alive = server.alive)
    (alone : c.command.isWriteCommand = true → server.Alone c.fd server.slaveConnections)
    (quiet : c.command.Quiet server c.fd server.db) : RunsApart server c rdbFilePath envs := by
  by_cases plain : c.command.commandType ∈ [CommandType.getConfig, .aclSetUser, .auth]
  · have whoami : ¬ (c.command.commandType = .aclWhoami ∧ (!c.client.isAuthenticated) = true) :=
      fun both => type_whoami known both.1
    have unqueued : ¬ (c.client.multi = true ∧ c.command.commandType ≠ .exec ∧
        c.command.commandType ≠ .discard) := fun queued => by simp [multi] at queued
    have closed : ¬ c.client.pubSub = true := by simp [listening]
    have reads : ∀ command, some c.command = some command → command.isWriteCommand = true →
        server.Alone c.fd server.slaveConnections := by
      intro command same write
      cases same
      exact alone write
    cases named : c.command
    case aclSetUser username password flags =>
      refine ⟨⟨server.db, (handleAclSetuser c username password).1,
        [(handleAclSetuser c username password).2], some c.command⟩, id, fun data _ => ?_, rfl,
        spares_reply _, reads⟩
      rw [execute]
      dsimp only
      rw [if_neg whoami, if_neg unqueued, if_neg closed, named]
      rfl
    case auth username password =>
      refine ⟨⟨server.db, c.acl, handleAuth c username password, some c.command⟩, id,
        fun data _ => ?_, rfl, spares_private (handleAuth_private username password), reads⟩
      rw [execute]
      dsimp only
      rw [if_neg whoami, if_neg unqueued, if_neg closed, named]
      rfl
    case getConfig parameters =>
      let shown : List Effect := (parameters.filter fun p => isEqual p (ascii "dir")).map fun _ =>
        .reply (encodeArrayHeader 2 ++ encodeBulkString (ascii "dir") ++ encodeBulkString rdbFilePath)
      refine ⟨⟨server.db, c.acl, shown, some c.command⟩, id, fun data _ => ?_, rfl,
        spares_private ?_, reads⟩
      · rw [execute]
        dsimp only
        rw [if_neg whoami, if_neg unqueued, if_neg closed, named]
        rfl
      · intro effect member
        obtain ⟨parameter, -, rfl⟩ := List.mem_map.mp member
        trivial
    all_goals
      rw [named] at plain
      simp [Command.commandType] at plain
  · exact runsApart_handler (quiet_seals rfl present multi envs quiet) alone fun db =>
      execute_called multi listening known plain

/-- What is passed on of a request, to every replica. -/
def Server.passedOn (server : Server) (passed : Option Command) : List Effect :=
  (passed.toList.filter Command.isWriteCommand).flatMap fun command =>
    server.slaveConnections.map fun slave => .write slave command.frame.bytes

/-- The bytes that are passed on do not depend on the data, nor does what the
configuration becomes. -/
theorem handlePropagate_passedOn (passed : Option Command) (bytesProcessed : Nat) :
    ∃ config, ∀ db acl, handlePropagate { server with db := db, acl := acl } passed bytesProcessed =
      .ok ({ server with db := db, acl := acl, config := config }, server.passedOn passed) := by
  cases passed with
  | none => exact ⟨server.config, fun _ _ => rfl⟩
  | some command =>
    by_cases write : command.isWriteCommand = true
    · have same : server.passedOn (some command) =
          server.slaveConnections.map fun slave => .write slave command.frame.bytes := by
        rw [Server.passedOn, Option.toList_some, List.filter_cons_of_pos write]
        exact List.append_nil _
      by_cases none_ : server.slaveConnections = []
      · refine ⟨server.config, fun _ _ => (if_pos (.inl none_)).trans ?_⟩
        rw [same, none_]
        rfl
      · refine ⟨{ server.config with offset := u64 (server.config.offset + bytesProcessed) },
          fun _ _ => (if_neg ?_).trans ?_⟩
        · rintro (absent | reads)
          · exact none_ absent
          · rw [write] at reads
            cases reads
        · rw [same, toResp_frame write]
          rfl
    · refine ⟨server.config, fun _ _ => (if_pos (.inr (by simpa using write))).trans ?_⟩
      rw [Server.passedOn, Option.toList_some, List.filter_cons_of_neg write]
      rfl

theorem passedOn_spares {passed : Option Command}
    (alone : ∀ command, passed = some command → command.isWriteCommand = true →
      server.Alone fd server.slaveConnections) : Spares server.clients fd (server.passedOn passed) := by
  refine spares_written fun effect member other target alive => ?_
  obtain ⟨command, written, member⟩ := List.mem_flatMap.mp member
  obtain ⟨passes, write⟩ := List.mem_filter.mp written
  obtain ⟨slave, inside, rfl⟩ := List.mem_map.mp member
  cases target
  exact alone command (Option.mem_toList.mp passes) write other inside alive

/-- A request that is served as over any other data, and leaves other clients
and the replicas as they were. -/
def ServesApart (server : Server) (fd : Fd) (asks : Server → Exec Handled) : Prop :=
  ∃ (handled : Handled) (moves : Data → Data), (∀ data, data.Sound → asks (server.withData data) =
      .ok { handled with server := handled.server.withData (moves data) }) ∧
    moves server.db.data = server.db.data ∧
    (∀ other, other ≠ fd → handled.server.clients.lookup other = server.clients.lookup other) ∧
    handled.server.slaveConnections = server.slaveConnections

theorem gated_of_apart {asks : Server → Machine → Exec Handled} (sound : server.db.data.Sound)
    (apart : ∀ machine, machine.Lasts client → ServesApart server fd fun server => asks server machine) :
    Gated server fd client asks := by
  constructor
  · intro machine lasts
    obtain ⟨handled, moves, does, still, others, replicas⟩ := apart machine lasts
    exact ⟨_, does server.db.data sound, still, others, replicas⟩
  · intro data data' machine one two lasts
    obtain ⟨handled, moves, does, -⟩ := apart machine lasts
    dsimp only at does
    rw [does data one, does data' two]
    rfl

theorem serve_direct {bytesProcessed : Nat} (direct : server.handle fd client machine command = none)
    (runs : RunsApart server (server.context fd client machine command) server.config.rdbFilePath
      (machine.queue.map fun env => { env with alive := server.alive })) :
    ServesApart server fd fun server => server.serve fd client machine command bytesProcessed := by
  obtain ⟨executed, moves, does, still, spares, alone⟩ := runs
  obtain ⟨config, passes⟩ := @handlePropagate_passedOn server executed.command bytesProcessed
  let effects := executed.effects ++ server.passedOn executed.command
  let after : Server := { server with
    db := executed.db, acl := executed.acl, config := config
    clients := applyToClients fd effects server.clients }
  have dispatches (data : Data) (sound : data.Sound) :
      (server.withData data).dispatch fd client machine command bytesProcessed = .ok ⟨after.withData (moves data), effects, after.pendingSlaves⟩ := by
    have unhandled : (server.withData data).handle fd client machine command = none := by
      cases command <;> first | rfl | cases direct
    rw [Server.dispatch, unhandled]
    have run : execute (server.withData data).db ((server.withData data).context fd client machine command)
        (server.withData data).config.rdbFilePath
        (machine.queue.map fun env => { env with alive := (server.withData data).alive }) = _ :=
      does data sound
    dsimp only
    rw [run, exec_ok_bind]
    have passed : handlePropagate { server.withData data with
        db := (executed.withData (moves data)).db, acl := (executed.withData (moves data)).acl }
        executed.command bytesProcessed = _ := passes _ _
    dsimp only at passed ⊢
    rw [show (executed.withData (moves data)).command = executed.command from rfl, passed, exec_ok_bind]
    rfl
  refine ⟨⟨after, effects, after.pendingSlaves ++ ((if isBlocked effects then [] else [fd]) ++
    ((unblockedClientFd effects).toList ++ readyToWriteClients effects).filter after.alive)⟩,
    moves, fun data sound => ?_, still, fun other different => ?_, rfl⟩
  · dsimp only
    rw [Server.serve, dispatches data sound, exec_ok_bind]
    rfl
  · exact (spares.append (passedOn_spares alone)).others different

/-- A request that the replication manager answers. -/
theorem serve_managed {bytesProcessed : Nat} {managed : Handled}
    (handles : ∀ data, (server.withData data).handle fd client machine command =
      some { managed with server := managed.server.withData data })
    (spares : Spares managed.server.clients fd managed.effects)
    (others : ∀ other, other ≠ fd →
      managed.server.clients.lookup other = server.clients.lookup other)
    (replicas : managed.server.slaveConnections = server.slaveConnections) :
    ServesApart server fd fun server => server.serve fd client machine command bytesProcessed := by
  let after : Server := { managed.server with
    clients := applyToClients fd managed.effects managed.server.clients }
  refine ⟨⟨after, managed.effects, managed.flushed ++ ((if isBlocked managed.effects then [] else [fd]) ++
    ((unblockedClientFd managed.effects).toList ++ readyToWriteClients managed.effects).filter
      after.alive)⟩, id, fun data _ => ?_, rfl, fun other different => ?_, replicas⟩
  · dsimp only
    rw [Server.serve, Server.dispatch, handles]
    rfl
  · exact (spares.others different).trans (others other different)

/-- An acknowledgement writes to the clients it satisfies. -/
theorem acknowledgement_writes {slaves : List Fd} {waiting : List BlockedWaitClient} {effect : Effect}
    {other : Fd} (member : effect ∈ (checkBlockedWaitClients clients slaves waiting).1)
    (target : effect.target fd = some other) :
    ∃ blocked ∈ waiting, (clients.lookup blocked.clientFd).isSome = true ∧
      blocked.numReplicasNeeded ≤ ackedReplicas clients slaves blocked.masterOffset ∧
      blocked.clientFd = other := by
  induction waiting with
  | nil => cases member
  | cons blocked rest ih =>
    rw [checkBlockedWaitClients] at member
    dsimp only at member
    split at member
    · obtain ⟨found, inside, answered⟩ := ih member
      exact ⟨found, List.mem_cons_of_mem _ inside, answered⟩
    · rename_i there
      split at member
      · rename_i enough
        rcases List.mem_cons.mp member with rfl | member
        · refine ⟨blocked, List.mem_cons_self, ?_, enough, Option.some.inj target⟩
          simpa [Option.isSome_iff_ne_none] using there
        · rcases List.mem_cons.mp member with rfl | member
          · cases target
          · obtain ⟨found, inside, answered⟩ := ih member
            exact ⟨found, List.mem_cons_of_mem _ inside, answered⟩
      · obtain ⟨found, inside, answered⟩ := ih member
        exact ⟨found, List.mem_cons_of_mem _ inside, answered⟩

theorem ack_apart {bytesProcessed : Nat} {listeningPort capability : Bytes} {ackOffset : Int}
    (alone : server.Alone fd (server.acknowledges fd ackOffset)) :
    ServesApart server fd fun server => server.serve fd client machine
      (.replConf .ack listeningPort capability ackOffset) bytesProcessed := by
  refine @serve_managed server fd client _ machine bytesProcessed
    (handleReplconf server fd .ack ackOffset) (fun data => rfl)
    (spares_written fun effect member other target alive => ?_) (fun other different => ?_) rfl
  · obtain ⟨blocked, inside, there, enough, rfl⟩ := acknowledgement_writes member target
    have present : server.alive blocked.clientFd = true := by
      rw [← there]
      exact (alive_modifyClient _ _ _ _).symm
    refine alone blocked.clientFd ?_ present
    refine List.mem_map.mpr ⟨blocked, List.mem_filter.mpr ⟨inside, ?_⟩, rfl⟩
    rw [present, Bool.true_and]
    exact decide_eq_true enough
  · refine (lookup_modifyClient _ _ _ _).trans ?_
    rw [if_neg (Ne.symm different), Option.map_id]
    rfl

theorem wait_apart {bytesProcessed numReplica timeout : Nat}
    (harmless : server.Harmless fd client (.wait numReplica timeout)) :
    ServesApart server fd fun server => server.serve fd client machine (.wait numReplica timeout)
      bytesProcessed := by
  let managed := handleWait server fd machine.env.clock.steady numReplica timeout
  have shape : Spares managed.server.clients fd managed.effects ∧
      managed.server.clients = server.clients ∧
      managed.server.slaveConnections = server.slaveConnections := by
    simp only [managed, handleWait]
    split
    · exact ⟨spares_reply _, rfl, rfl⟩
    · rename_i some_
      split
      · exact ⟨spares_reply _, rfl, rfl⟩
      · rename_i few
        have alone := (harmless.resolve_left some_).resolve_left few
        refine ⟨Spares.append (spares_written fun effect member other target alive => ?_)
          (spares_private (List.forall_mem_singleton.mpr trivial)), rfl, rfl⟩
        obtain ⟨slave, inside, rfl⟩ := List.mem_map.mp member
        cases target
        exact alone other inside alive
  refine @serve_managed server fd client _ machine bytesProcessed managed (fun data => ?_) shape.1
    (fun other _ => ?_) shape.2.2
  · refine congrArg some ?_
    simp only [managed, handleWait]
    by_cases zero : server.config.offset = 0
    · rw [if_pos zero]
      exact if_pos zero
    · rw [if_neg zero]
      refine (if_neg zero).trans ?_
      by_cases enough : numReplica ≤
          ackedReplicas server.clients server.slaveConnections (i64 server.config.offset)
      · rw [if_pos enough]
        exact if_pos enough
      · rw [if_neg enough]
        exact if_neg enough
  · rw [shape.2.1]

theorem psync_apart {bytesProcessed : Nat} {replId : Bytes} {offset : Int}
    (registered : client.isSlave = true) :
    ServesApart server fd fun server => server.serve fd client machine (.psync replId offset)
      bytesProcessed := by
  refine @serve_managed server fd client _ machine bytesProcessed
    ⟨server, [.reply (fullResync server.config (machine.rdbFile.getD emptyRdb))], []⟩ (fun data => ?_)
    (spares_reply _) (fun _ _ => rfl) rfl
  exact congrArg some (if_pos registered)

/-- A harmless request is gated. -/
theorem serve_gated (bytesProcessed : Nat) (sound : server.db.data.Sound)
    (connected : server.clients.lookup fd = some client) (guest : client.isAuthenticated = false)
    (harmless : server.Harmless fd client command) :
    Gated server fd client fun server machine =>
      server.serve fd client machine command bytesProcessed := by
  refine gated_of_apart sound fun machine lasts => ?_
  have here : server.alive fd = true := by rw [Server.alive, connected]; rfl
  have lasts' : client.queuedCommands.length ≤
      (machine.queue.map fun env => { env with alive := server.alive }).length := by
    rw [List.length_map]
    exact lasts
  have present : ∀ env ∈ machine.queue.map fun env => { env with alive := server.alive },
      env.alive = server.alive := by
    intro env member
    obtain ⟨reading, -, rfl⟩ := List.mem_map.mp member
    rfl
  cases direct : server.handle fd client machine command with
  | some managed =>
    cases command
    case info asked =>
      exact @serve_managed server fd client _ machine bytesProcessed
        ⟨server, [.reply (handleInfo server.config)], []⟩ (fun _ => rfl) (spares_reply _)
        (fun _ _ => rfl) rfl
    case replConf subcommand listeningPort capability ackOffset =>
      cases subcommand with
      | ack => exact ack_apart harmless
      | _ =>
        exact @serve_managed server fd client _ machine bytesProcessed
          ⟨server, [.reply (encodeSimpleString (ascii "OK"))], []⟩ (fun _ => rfl) (spares_reply _)
          (fun _ _ => rfl) rfl
    case psync => exact psync_apart harmless
    case wait => exact wait_apart harmless
    all_goals cases direct
  | none =>
    refine serve_direct direct ?_
    by_cases known : command = .aclWhoami
    · exact execute_whoami known guest
    have conditions := (harmless_direct direct known).mp harmless
    unfold Server.RunsQuietly at conditions
    cases multi : client.multi with
    | true =>
      rw [multi, if_pos rfl] at conditions
      exact execute_transaction known multi rfl present lasts' here conditions
    | false =>
      rw [multi, if_neg Bool.false_ne_true] at conditions
      cases listening : client.pubSub with
      | true =>
        rw [listening, if_pos rfl] at conditions
        exact execute_channels known multi listening rfl here conditions.1 conditions.2
      | false =>
        rw [listening, if_neg Bool.false_ne_true] at conditions
        exact execute_quiet known multi listening rfl conditions.1 conditions.2

end CarrotDb
