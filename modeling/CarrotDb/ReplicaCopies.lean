import CarrotDb.KeyspaceWire
import CarrotDb.ReplicaLink

/-! A replica is a copy of its master, some updates behind. Where the clients of
the master only read, or send updates that come to the same everywhere, and
those of the replica only read, the replica has at any time a keyspace that its
master had, and the updates it lacks are those on their way to it. -/
namespace CarrotDb
open Resp Listpack

variable {db db' : DB} {c : Context} {keyspace keyspace' : Keyspace} {effects : List Effect}
  {command : Command} {bytes : Bytes}

/-- The requests that change neither the keyspace nor the mode of a client. -/
def Command.Looks : Command → Prop
  | .get _ | .type _ | .llen _ | .lrange .. | .xread none .. | .publish .. => True
  | .multi | .discard | .aclSetUser .. => False
  | command => ReadsOnly command

/-- An effect that opens neither a transaction nor a channel. -/
def Effect.Still : Effect → Prop
  | .beginTransaction | .subscribe => False
  | _ => True

theorem Tells.still (replies : Tells bytes effects) : ∀ effect ∈ effects, effect.Still := by
  intro effect member
  rcases replies.quiet effect member with ⟨bytes, rfl⟩ | ⟨fd, rfl⟩ <;> trivial

/-- A handler that replies and leaves the keyspace as it is. -/
structure Looked (keyspace : Keyspace) (db' : DB) (effects : List Effect) : Prop where
  represents : db'.Represents keyspace
  still : ∀ effect ∈ effects, effect.Still

theorem looked_replying (represents : db.Represents keyspace)
    (ran : replying db bytes = .ok (db', effects)) : Looked keyspace db' effects := by
  obtain ⟨rfl, rfl⟩ := replying_ok ran
  exact ⟨represents, by simp [Effect.Still]⟩

theorem withSortedSet_looked {key missing : Bytes} {reply : SortedSet → Exec Bytes}
    (represents : db.Represents keyspace)
    (ran : withSortedSet db key missing reply = .ok (db', effects)) : Looked keyspace db' effects := by
  rw [withSortedSet] at ran
  split at ran
  · exact looked_replying represents ran
  · split at ran
    · exact looked_replying represents ran
    · obtain ⟨set, -, ran⟩ := exec_bind_ok.mp ran
      obtain ⟨bytes, -, ran⟩ := exec_bind_ok.mp ran
      exact looked_replying represents ran

theorem handleXrange_looked {key start stop : Bytes} (represents : db.Represents keyspace)
    (ran : handleXrange db key start stop = .ok (db', effects)) : Looked keyspace db' effects := by
  rw [handleXrange] at ran
  split at ran
  · exact looked_replying represents ran
  · split at ran
    · split at ran
      · exact looked_replying represents ran
      · exact looked_replying represents ran
      · obtain ⟨bytes, -, ran⟩ := exec_bind_ok.mp ran
        exact looked_replying represents ran
    · exact looked_replying represents ran

/-- Without BLOCK nobody is marked as waiting. -/
theorem collectReplies_unblocked {asked : List (Bytes × Bytes)}
    {replies : List (Bytes × List (Bytes × Bytes))} {outcome : DB × List Effect} :
    collectReplies db c none asked replies ≠ .ok (.inr outcome) := by
  intro ran
  induction asked generalizing replies with
  | nil => cases ran
  | cons one rest ih =>
    obtain ⟨key, startId⟩ := one
    unfold collectReplies at ran
    dsimp only at ran
    split at ran
    · rename_i blocks _
      cases blocks
    · cases ran
    · rw [if_neg fun both => Bool.false_ne_true both.1] at ran
      split at ran
      · split at ran
        · exact ih ran
        · rename_i blocks _
          cases blocks
        · exact ih ran
      · exact ih ran

theorem handleXread_looked {keys ids : List Bytes} (represents : db.Represents keyspace)
    (ran : handleXread db c none keys ids = .ok (db', effects)) : Looked keyspace db' effects := by
  rw [handleXread] at ran
  split at ran
  · exact looked_replying represents ran
  · obtain ⟨collected, found, ran⟩ := exec_bind_ok.mp ran
    cases collected with
    | inr outcome => exact absurd found collectReplies_unblocked
    | inl replies =>
      cases replies with
      | nil => exact looked_replying represents ran
      | cons reply rest =>
        obtain ⟨encoded, -, ran⟩ := exec_bind_ok.mp ran
        exact looked_replying represents ran

theorem handleLrange_looked {key : Bytes} {start stop : Int} (represents : db.Represents keyspace)
    (ran : handleLrange db c key start stop = .ok (db', effects)) : Looked keyspace db' effects := by
  have binds := represents.binds key
  rw [handleLrange] at ran
  cases lookup : db.store.lookup key with
  | none =>
    rw [lookup] at ran
    exact looked_replying represents ran
  | some object =>
    rw [lookup] at ran
    dsimp only at ran
    cases bound : keyspace.lookup key with
    | none =>
      rw [bound, DB.Binds, lookup] at binds
      cases binds.1
    | some binding =>
      rw [bound] at binds
      obtain ⟨⟨held, found, kept⟩, deadline⟩ := binds
      rw [lookup] at found
      cases found
      split at ran
      · rename_i lp tag pointer
        obtain ⟨value, due⟩ := binding
        have value_ := kept.type.symm.trans tag
        cases value with
        | list xs =>
          obtain ⟨-, lp', pointer', exact_⟩ := kept
          rw [pointer] at pointer'
          cases pointer'
          rw [lpLength_exact exact_, exec_ok_bind] at ran
          have same : { object with listPack := some lp } = object := by rw [← pointer]
          rw [same] at ran
          have represents' : DB.Represents { db with store := db.store.insert key object } keyspace := by
            refine ⟨fun other => (represents.binds other).congr ?_ rfl, represents.idle,
              represents.idleXread⟩
            by_cases here : other = key
            · subst here
              exact (Finmap.lookup_insert _).trans lookup.symm
            · exact Finmap.lookup_insert_of_ne _ here
          dsimp only at ran
          generalize (if stop < 0 then i64 (xs.length + stop) else stop) = last at ran
          generalize (if start < 0 then i64 (xs.length + start) else start) = first at ran
          generalize (if first < 0 then 0 else first) = first at ran
          split at ran
          · exact looked_replying represents' ran
          · split at ran
            · exact looked_replying represents' ran
            · obtain ⟨result, -, ran⟩ := exec_bind_ok.mp ran
              exact looked_replying represents' ran
        | text bytes | stream entries | scores isGeo scores => cases value_
      · exact looked_replying represents ran

/-- What the keyspace answers whatever the database holds. -/
theorem looked_of_step {result : Bytes} (represents : db.Represents keyspace)
    (calm : c.client.pubSub = false) (asked : c.command = command)
    (stepped : Keyspace.step c.env.ndebug keyspace c.env.clock command = .ok (result, keyspace))
    (ran : callSimple db c command = .ok (db', effects)) : Looked keyspace db' effects := by
  obtain ⟨after, told, called, replies, represents'⟩ := step_refines represents calm
    (fun _ => asked) stepped
  rw [called] at ran
  cases ran
  exact ⟨represents', replies.still⟩

/-- A keyspace without deadlines. -/
def Keyspace.Lasting (keyspace : Keyspace) : Prop :=
  ∀ key binding, keyspace.lookup key = some binding → binding.deadline = none

theorem Keyspace.Lasting.current (lasting : keyspace.Lasting) (key : Bytes) (now : Int) :
    Keyspace.current (keyspace.lookup key) now = keyspace.lookup key := by
  cases bound : keyspace.lookup key with
  | none => rfl
  | some binding =>
    rw [Keyspace.current, Option.filter_some, lasting key binding bound]
    rfl

/-- Nothing has expired there, so GET and TYPE take no key away. -/
theorem Keyspace.Lasting.getOrType (lasting : keyspace.Lasting) (key : Bytes) (now : Int)
    (isTypeCommand : Bool) : ∃ answer,
      Keyspace.getOrType (keyspace.lookup key) now isTypeCommand =
        .ok (answer, keyspace.lookup key) := by
  rw [Keyspace.getOrType, lasting.current]
  cases keyspace.lookup key with
  | none => exact ⟨_, rfl⟩
  | some binding => exact ⟨_, rfl⟩

/-- A command about one key that leaves it bound as it was. -/
theorem step_unchanged {key answer : Bytes} {ndebug : Bool} {clock : Clock}
    (stepping : Keyspace.step ndebug keyspace clock command = (do
      let (answer, bound) ← Keyspace.react (keyspace.lookup key) ndebug clock command
      .ok (answer, place keyspace key bound)))
    (blind : Keyspace.examined (keyspace.lookup key) command = [])
    (responds : Keyspace.respond (keyspace.lookup key) clock command =
      .ok (answer, keyspace.lookup key)) :
    Keyspace.step ndebug keyspace clock command = .ok (answer, keyspace) := by
  rw [stepping, Keyspace.react, if_pos (by rw [blind]; simp), responds]
  show Except.ok (answer, place keyspace key (keyspace.lookup key)) = _
  rw [place_lookup]

theorem looks_looked (represents : db.Represents keyspace) (lasting : keyspace.Lasting)
    (calm : c.client.pubSub = false) (looks : c.command.Looks)
    (ran : callSimple db c c.command = .ok (db', effects)) : Looked keyspace db' effects := by
  cases asked : c.command <;> rw [asked] at looks ran <;> first | exact looks.elim | skip
  case ping | unSubscribe | unknow | auth | info | replConf | psync | wait | getConfig | echo | aclWhoami =>
    exact looked_replying represents ran
  case xrange => exact handleXrange_looked represents ran
  case lrange => exact handleLrange_looked represents ran
  case xread block keys ids =>
    cases block with
    | none => exact handleXread_looked represents ran
    | some timeout => exact looks.elim
  case get key =>
    obtain ⟨answer, responds⟩ := lasting.getOrType key c.env.clock.steady false
    exact looked_of_step represents calm asked (step_unchanged rfl rfl responds) ran
  case type key =>
    obtain ⟨answer, responds⟩ := lasting.getOrType key c.env.clock.steady true
    exact looked_of_step represents calm asked (step_unchanged rfl rfl responds) ran
  case llen key => exact looked_of_step represents calm asked (step_unchanged rfl rfl rfl) ran
  case aclGetUser =>
    rw [callSimple, handleAclGetuser, asked] at ran
    exact looked_replying represents ran
  case keys =>
    rw [callSimple, handleKeys, asked] at ran
    dsimp only at ran
    split at ran <;> exact looked_replying represents ran
  case publish channel message =>
    rw [callSimple, handlePublish, asked] at ran
    cases ran
    refine ⟨⟨fun key => (represents.binds key).congr rfl rfl, represents.idle,
      represents.idleXread⟩, fun effect member => ?_⟩
    rcases List.mem_append.mp member with inside | last
    · obtain ⟨fd, -, delivered⟩ := List.mem_flatMap.mp inside
      split at delivered
      · rcases List.mem_pair.mp delivered with rfl | rfl <;> trivial
      · rw [List.mem_singleton.mp delivered]
        trivial
    · rw [List.mem_singleton.mp last]
      trivial
  all_goals
    rw [callSimple] at ran
    first
      | rw [handleZrank] at ran | rw [handleZrange] at ran | rw [handleZcard] at ran
      | rw [handleZscore] at ran | rw [handleGeopos] at ran | rw [handleGeodist] at ran
      | rw [handleGeosearch] at ran
    split at ran
    · exact withSortedSet_looked represents ran
    · exact looked_replying represents ran

/-- A client outside of transactions and channels. -/
structure Client.Idle (client : Client) : Prop where
  multi : client.multi = false
  pubSub : client.pubSub = false

theorem execute_looked {rdbFilePath : Bytes} {envs : List Env} {executed : Executed}
    (represents : db.Represents keyspace) (lasting : keyspace.Lasting) (idle : c.client.Idle)
    (looks : c.command.Looks) (ran : execute db c rdbFilePath envs = .ok executed) :
    Looked keyspace executed.db executed.effects := by
  by_cases direct : c.command.Direct
  · rw [execute_direct idle.multi idle.pubSub direct] at ran
    obtain ⟨⟨db', effects⟩, called, ran⟩ := exec_bind_ok.mp ran
    cases ran
    exact looks_looked represents lasting idle.pubSub looks called
  · have settled (result : Executed) (same : execute db c rdbFilePath envs = .ok result)
        (kept : result.db = db) (still : ∀ effect ∈ result.effects, effect.Still) :
        Looked keyspace executed.db executed.effects := by
      rw [ran] at same
      cases same
      exact ⟨kept ▸ represents, still⟩
    cases asked : c.command <;> rw [asked] at looks direct <;>
      first | exact looks.elim | exact absurd trivial direct | skip
    case aclWhoami =>
      cases known : c.client.isAuthenticated with
      | false =>
        refine settled ⟨db, c.acl, [.reply (encodeError (ascii "Authentication required.")
          (ascii "NOAUTH"))], some c.command⟩ ?_ rfl (by simp [Effect.Still])
        simp [execute, asked, known, Command.commandType]
      | true =>
        refine settled ⟨db, c.acl, [.reply (encodeBulkString (c.client.user.getD (ascii "default")))],
          some c.command⟩ ?_ rfl (by simp [Effect.Still])
        simp [execute, asked, known, idle.multi, idle.pubSub, Command.commandType, call, callSimple,
          handleAclWhoami, replying]
    case auth username password =>
      refine settled ⟨db, c.acl, handleAuth c username password, some c.command⟩ ?_ rfl ?_
      · simp [execute, asked, idle.multi, idle.pubSub, Command.commandType]
      · intro effect member
        rw [handleAuth] at member
        dsimp only at member
        repeat' split at member
        all_goals
          simp only [List.mem_cons, List.not_mem_nil, or_false] at member
          rcases member with rfl | rfl <;> trivial
    case getConfig parameters =>
      refine settled ⟨db, c.acl, (parameters.filter fun p => isEqual p (ascii "dir")).map fun _ =>
        .reply (encodeArrayHeader 2 ++ encodeBulkString (ascii "dir") ++
          encodeBulkString rdbFilePath), some c.command⟩ ?_ rfl ?_
      · simp [execute, asked, idle.multi, idle.pubSub, Command.commandType, handleGetConfig]
      · intro effect member
        obtain ⟨_, -, rfl⟩ := List.mem_map.mp member
        trivial

/-- An update that asks no clock: no SET with an expiry, no XADD of a new
identifier. -/
def Command.Timeless : Command → Prop
  | .set _ _ ex px => ex = none ∧ px = none
  | .xadd _ streamId _ => streamId ≠ ascii "*"
  | _ => True

/-- An update that comes to the same at the master and at a replica, where it
is read from its frame. -/
structure Command.Copies (command : Command) : Prop where
  write : command.isWriteCommand = true
  timeless : command.Timeless
  rereads : command.reread = .ok command

namespace Keyspace

/-- The keyspace behind an update, whatever the time, of a server built with
assertions. -/
def update (keyspace : Keyspace) (command : Command) : Except Declined Keyspace :=
  (step false keyspace ⟨0, 0⟩ command).map Prod.snd

/-- The keyspace behind updates, one after another. -/
def updated (keyspace : Keyspace) (commands : List Command) : Except Declined Keyspace :=
  commands.foldlM update keyspace

theorem updated_append {keyspace final : Keyspace} {commands others : List Command}
    (updates : keyspace.updated (commands ++ others) = .ok final) :
    ∃ between : Keyspace, keyspace.updated commands = .ok between ∧ between.updated others = .ok final := by
  rw [updated, List.foldlM_append] at updates
  cases first : keyspace.updated commands with
  | error declined =>
    rw [updated] at first
    rw [first] at updates
    cases updates
  | ok between =>
    rw [updated] at first
    rw [first] at updates
    exact ⟨between, rfl, updates⟩

theorem updated_single (keyspace : Keyspace) (command : Command) :
    keyspace.updated [command] = keyspace.update command := by
  rw [updated, List.foldlM_cons]
  cases keyspace.update command <;> rfl

variable {bound : Option Binding} {clock clock' : Clock}

theorem nextId_timeless {last : StreamID} {text : Bytes} (given : text ≠ ascii "*")
    (systemMs systemMs' : Nat) : nextId last systemMs text = nextId last systemMs' text := by
  rw [nextId, nextId, Stream.fromString, Stream.fromString, if_neg given, if_neg given]

/-- Where the clocks are not asked they may show anything. -/
theorem respond_timeless (write : command.isWriteCommand = true) (timeless : command.Timeless) :
    respond bound clock command = respond bound clock' command := by
  cases command <;> first | rfl | cases write
  case set key value ex px =>
    obtain ⟨rfl, rfl⟩ := timeless
    rfl
  case xadd key streamId fieldValues =>
    simp only [respond, xadd, nextId_timeless timeless clock.system clock'.system]

/-- What is answered where assertions are checked is answered anywhere. -/
theorem react_timeless {reaction : Bytes × Option Binding} (ndebug : Bool)
    (write : command.isWriteCommand = true) (timeless : command.Timeless)
    (reacts : react bound false clock command = .ok reaction) :
    react bound ndebug clock' command = .ok reaction := by
  rw [react] at reacts
  split at reacts
  · rename_i checked
    rw [react, if_pos, respond_timeless write timeless, reacts]
    exact fun x member => .inr ((checked x member).resolve_left Bool.false_ne_true)
  · cases reacts

/-- A binding without a deadline, if any. -/
def Unlimited (bound : Option Binding) : Prop :=
  ∀ binding, bound = some binding → binding.deadline = none

theorem Unlimited.rebound (unlimited : Unlimited bound) (value : Value) :
    Unlimited (rebound bound value) := by
  intro binding same
  cases same
  cases bound with
  | none => rfl
  | some before => exact unlimited before rfl

/-- An update leaves the deadline of its key alone. -/
theorem respond_unlimited {answer : Bytes} {after : Option Binding}
    (write : command.isWriteCommand = true) (timeless : command.Timeless)
    (unlimited : Unlimited bound) (responds : respond bound clock command = .ok (answer, after)) :
    Unlimited after := by
  cases command <;> cases write
  case set key value ex px =>
    obtain ⟨rfl, rfl⟩ := timeless
    cases responds
    exact unlimited.rebound _
  case incr key =>
    cases bound with
    | none =>
      cases responds
      rintro binding ⟨⟩
      rfl
    | some binding =>
      obtain ⟨value, deadline⟩ := binding
      cases value with
      | text bytes =>
        simp only [respond, incr] at responds
        split at responds
        · split at responds <;> cases responds
          exact unlimited.rebound _
        · cases responds
          exact unlimited
      | list | stream | scores =>
        cases responds
        exact unlimited
  case rpush key values | lpush key values =>
    cases bound with
    | none =>
      simp only [respond, push] at responds
      split at responds <;> cases responds
      exact unlimited.rebound _
    | some binding =>
      obtain ⟨value, deadline⟩ := binding
      cases value with
      | list xs =>
        simp only [respond, push] at responds
        split at responds <;> cases responds
        exact unlimited.rebound _
      | text | stream | scores => cases responds
  case lpop key count =>
    cases bound with
    | none =>
      cases responds
      exact unlimited
    | some binding =>
      obtain ⟨value, deadline⟩ := binding
      cases value with
      | list xs =>
        cases responds
        exact unlimited.rebound _
      | text | stream | scores =>
        cases responds
        exact unlimited
  case xadd key streamId fieldValues =>
    cases bound with
    | none =>
      simp only [respond, xadd] at responds
      split at responds
      · split at responds <;> cases responds <;> exact unlimited.rebound _
      · cases responds
    | some binding =>
      obtain ⟨value, deadline⟩ := binding
      cases value with
      | stream entries =>
        simp only [respond, xadd] at responds
        split at responds
        · split at responds <;> cases responds <;> exact unlimited.rebound _
        · cases responds
      | text | list | scores =>
        cases responds
        exact unlimited
  case zadd key scoreMembers =>
    rw [respond, zadd] at responds
    split at responds
    · cases responds
      exact unlimited
    · split at responds <;> cases responds
      exact unlimited.rebound _
  case geoAdd =>
    rw [respond, geoadd] at responds
    split at responds
    · cases responds
      exact unlimited
    · split at responds
      · cases responds
        exact unlimited
      · split at responds <;> cases responds
        exact unlimited.rebound _
  case zrem key members =>
    cases bound with
    | none =>
      cases responds
      exact unlimited
    | some binding =>
      obtain ⟨value, deadline⟩ := binding
      cases value with
      | scores isGeo byMember =>
        cases responds
        exact unlimited.rebound _
      | text | list | stream =>
        cases responds
        exact unlimited
  case aclSetUser => cases responds

theorem step_write (write : command.isWriteCommand = true) (ndebug : Bool) (keyspace : Keyspace)
    (clock : Clock) : step ndebug keyspace clock command = (do
      let (answer, bound) ← react (keyspace.lookup command.key) ndebug clock command
      .ok (answer, place keyspace command.key bound)) := by
  cases command <;> first | rfl | cases write

/-- An update of the keyspace is answered alike at any time. -/
theorem step_of_update {keyspace keyspace' : Keyspace} (write : command.isWriteCommand = true)
    (timeless : command.Timeless) (lasting : keyspace.Lasting)
    (updates : keyspace.update command = .ok keyspace') (ndebug : Bool) (clock : Clock) :
    keyspace'.Lasting ∧ ∃ answer, step ndebug keyspace clock command = .ok (answer, keyspace') := by
  rw [update, step_write write] at updates
  cases reacts : react (keyspace.lookup command.key) false ⟨0, 0⟩ command with
  | error declined =>
    rw [reacts] at updates
    cases updates
  | ok reaction =>
    obtain ⟨answer, after⟩ := reaction
    rw [reacts] at updates
    cases updates
    refine ⟨?_, answer, ?_⟩
    · intro key binding bound
      by_cases here : key = command.key
      · subst here
        rw [lookup_place] at bound
        rw [react] at reacts
        split at reacts
        · exact respond_unlimited write timeless (lasting _) reacts binding bound
        · cases reacts
      · rw [lookup_place_ne _ _ here] at bound
        exact lasting key binding bound
    · rw [step_write write, react_timeless ndebug write timeless reacts]
      rfl

end Keyspace

/-- Wherever the client is, an update does what the keyspace says. -/
theorem execute_updated {rdbFilePath : Bytes} {envs : List Env} {executed : Executed}
    (represents : db.Represents keyspace) (lasting : keyspace.Lasting) (idle : c.client.Idle)
    (copies : c.command.Copies) (updates : keyspace.update c.command = .ok keyspace')
    (ran : execute db c rdbFilePath envs = .ok executed) :
    keyspace'.Lasting ∧ Looked keyspace' executed.db executed.effects := by
  obtain ⟨lasting', answer, stepped⟩ := Keyspace.step_of_update copies.write copies.timeless lasting
    updates c.env.ndebug c.env.clock
  obtain ⟨after, told, called, replies, represents'⟩ := step_refines represents idle.pubSub
    (fun _ => rfl) stepped
  have other : c.command ≠ .exec := by
    intro same
    have write := copies.write
    rw [same] at write
    cases write
  rw [execute_direct idle.multi idle.pubSub (direct_of_step stepped other), called] at ran
  cases ran
  exact ⟨lasting', represents', replies.still⟩

/-- Every client is outside of transactions and channels. -/
def AllIdle (clients : Map Fd Client) : Prop :=
  ∀ fd client, clients.lookup fd = some client → client.Idle

private theorem idle_counted {client : Client} (idle : client.Idle) (channels : Nat) :
    ({ client with totalSubscribedChannels := channels } : Client).Idle := ⟨idle.multi, idle.pubSub⟩

theorem applyEffects_idle {client : Client} (still : ∀ effect ∈ effects, effect.Still)
    (idle : client.Idle) (served fd : Fd) : (applyEffects served fd effects client).Idle := by
  induction effects generalizing client with
  | nil => exact idle
  | cons effect rest ih =>
    have here := still effect List.mem_cons_self
    have step : applyEffects served fd (effect :: rest) client = applyEffects served fd rest
        (if effect.target served = some fd then effect.apply client else client) := rfl
    rw [step]
    refine ih (fun other member => still other (List.mem_cons_of_mem _ member)) ?_
    split
    · cases effect with
      | beginTransaction | subscribe => exact here.elim
      | endTransaction => exact ⟨rfl, rfl⟩
      | unsubscribe => exact idle_counted idle _
      | _ => exact ⟨idle.multi, idle.pubSub⟩
    · exact idle

theorem AllIdle.applied {clients : Map Fd Client} (idle : AllIdle clients)
    (still : ∀ effect ∈ effects, effect.Still) (served : Fd) :
    AllIdle (applyToClients served effects clients) := by
  intro fd client lookup
  rw [lookup_applyToClients] at lookup
  obtain ⟨before, held, rfl⟩ := Option.map_eq_some_iff.mp lookup
  exact applyEffects_idle still (idle fd before held) served fd

theorem AllIdle.insert {clients : Map Fd Client} {client : Client} (idle : AllIdle clients)
    (own : client.Idle) (fd : Fd) : AllIdle (clients.insert fd client) := by
  intro other after lookup
  by_cases here : other = fd
  · subst here
    rw [Finmap.lookup_insert] at lookup
    cases lookup
    exact own
  · rw [Finmap.lookup_insert_of_ne _ here] at lookup
    exact idle other after lookup

theorem AllIdle.modified {clients : Map Fd Client} {change : Client → Client} (idle : AllIdle clients)
    (keeps : ∀ client : Client, client.Idle → (change client).Idle) (fd : Fd) :
    AllIdle (modifyClient clients fd change) := by
  intro other after lookup
  rw [lookup_modifyClient] at lookup
  obtain ⟨before, held, same⟩ := Option.map_eq_some_iff.mp lookup
  have own := idle other before held
  split at same <;> cases same
  · exact keeps before own
  · exact own

/-- A server whose database holds a keyspace without deadlines, and whose
clients, a master it may have among them, are idle. -/
structure Server.Holds (server : Server) (keyspace : Keyspace) : Prop where
  db : server.db.Represents keyspace
  lasting : keyspace.Lasting
  clients : AllIdle server.clients
  master : ∀ slave, server.masterConnection = some slave → slave.client.Idle

variable {server : Server} {handled : Handled} {event : Event} {fd : Fd} {machine : Machine}
  {client : Client}

theorem checkBlockedWaitClients_still (clients : Map Fd Client) (slaves : List Fd)
    (waiting : List BlockedWaitClient) :
    ∀ effect ∈ (checkBlockedWaitClients clients slaves waiting).1, effect.Still := by
  induction waiting with
  | nil => exact fun _ absent => absurd absent List.not_mem_nil
  | cons blocked rest ih =>
    rw [checkBlockedWaitClients]
    dsimp only
    split
    · exact ih
    · split
      · exact List.forall_mem_cons.mpr ⟨trivial, List.forall_mem_cons.mpr ⟨trivial, ih⟩⟩
      · exact ih

theorem expireBlockedWaitClients_still (clients : Map Fd Client) (slaves : List Fd) (now : Int)
    (waiting : List BlockedWaitClient) :
    ∀ effect ∈ (expireBlockedWaitClients clients slaves now waiting).1, effect.Still := by
  induction waiting with
  | nil => exact fun _ absent => absurd absent List.not_mem_nil
  | cons blocked rest ih =>
    rw [expireBlockedWaitClients]
    dsimp only
    split
    · split
      · exact List.forall_mem_cons.mpr ⟨trivial, ih⟩
      · exact ih
    · exact ih

/-- The replication manager keeps away from the database and from the modes of
the clients. -/
theorem handle_holds {managed : Handled} (holds : server.Holds keyspace)
    (managing : server.handle fd client machine command = some managed) :
    managed.server.Holds keyspace ∧ ∀ effect ∈ managed.effects, effect.Still := by
  have replied (bytes : Bytes) : ∀ effect ∈ [Effect.reply bytes], effect.Still :=
    List.forall_mem_singleton.mpr trivial
  cases command <;> cases managing
  case info => exact ⟨holds, replied _⟩
  case replConf subcommand _ _ ackOffset =>
    cases subcommand with
    | ack =>
      refine ⟨⟨holds.db, holds.lasting, holds.clients.modified ?_ fd, holds.master⟩,
        checkBlockedWaitClients_still _ _ _⟩
      exact fun _ idle => ⟨idle.multi, idle.pubSub⟩
    | _ => exact ⟨holds, replied _⟩
  case psync =>
    rw [handlePsync]
    split
    · exact ⟨holds, replied _⟩
    · refine ⟨⟨holds.db, holds.lasting, holds.clients.modified ?_ fd, holds.master⟩, replied _⟩
      exact fun _ idle => ⟨idle.multi, idle.pubSub⟩
  case wait =>
    rw [handleWait]
    dsimp only
    split
    · exact ⟨holds, replied _⟩
    · split
      · exact ⟨holds, replied _⟩
      · refine ⟨⟨holds.db, holds.lasting, holds.clients, holds.master⟩, fun effect member => ?_⟩
        rcases List.mem_append.mp member with asked | blocked
        · obtain ⟨_, -, rfl⟩ := List.mem_map.mp asked
          trivial
        · rw [List.mem_singleton.mp blocked]
          trivial

/-- What a request does to the keyspace: nothing, or its update. -/
def Command.Does (command : Command) (keyspace keyspace' : Keyspace) : Prop :=
  command.Looks ∧ keyspace' = keyspace ∨
    command.Copies ∧ keyspace.update command = .ok keyspace'

theorem serve_holds {bytesProcessed : Nat} (holds : server.Holds keyspace) (idle : client.Idle)
    (does : command.Does keyspace keyspace')
    (served : server.serve fd client machine command bytesProcessed = .ok handled) :
    handled.server.Holds keyspace' := by
  rcases serve_cases served with ⟨managed, managing, -, after⟩ |
    ⟨executed, server₁, propagated, -, ran, passing, -, after⟩
  · obtain ⟨kept, still⟩ := handle_holds holds managing
    have same : keyspace' = keyspace := by
      rcases does with ⟨-, same⟩ | ⟨copies, -⟩
      · exact same
      · have write := copies.write
        cases command <;> first | (cases managing; done) | cases write
    rw [after, same]
    exact ⟨kept.db, kept.lasting, kept.clients.applied still fd, kept.master⟩
  · have looked : keyspace'.Lasting ∧ Looked keyspace' executed.db executed.effects := by
      rcases does with ⟨looks, rfl⟩ | ⟨copies, updates⟩
      · exact ⟨holds.lasting, execute_looked holds.db holds.lasting idle looks ran⟩
      · exact execute_updated holds.db holds.lasting idle copies updates ran
    obtain ⟨lasting', represents, still⟩ := looked
    have passed : (∀ effect ∈ propagated, effect.Still) ∧ server₁.db = executed.db ∧
        server₁.clients = server.clients ∧ server₁.masterConnection = server.masterConnection := by
      rcases handlePropagate_cases passing with ⟨rfl, rfl, -⟩ | ⟨one, raw, -, -, -, -, rfl, rfl⟩
      · exact ⟨fun _ absent => absurd absent List.not_mem_nil, rfl, rfl, rfl⟩
      · refine ⟨fun effect member => ?_, rfl, rfl, rfl⟩
        obtain ⟨_, -, rfl⟩ := List.mem_map.mp member
        trivial
    obtain ⟨silent, db, clients, connection⟩ := passed
    rw [after]
    refine ⟨db ▸ represents, lasting', ?_, fun slave held => holds.master slave ?_⟩
    · dsimp only
      rw [clients]
      exact holds.clients.applied (List.forall_mem_append.mpr ⟨still, silent⟩) fd
    · exact connection ▸ held

/-- What the requests of an event do to the keyspace, its events do. -/
theorem step_holds {event : Event} (holds : server.Holds keyspace)
    (alone : event.fromMaster = none ∨ server.masterConnection = none)
    (does : ∀ command ∈ server.asked event, command.Does keyspace keyspace')
    (unasked : server.asked event = [] → keyspace' = keyspace)
    (ran : server.step event = .ok handled) : handled.server.Holds keyspace' := by
  cases event with
  | connect fd =>
    rw [unasked rfl]
    rw [Server.step] at ran
    split at ran <;> cases ran
    · exact holds
    · exact ⟨holds.db, holds.lasting, holds.clients.insert ⟨rfl, rfl⟩ fd, holds.master⟩
  | receive fd data machine =>
    rcases step_receive ran with ⟨absent, rfl⟩ | ⟨client, parsed, lookup, read, request, served⟩
    · rw [unasked]
      · exact holds
      · rw [Server.asked, requestIn, absent]
        rfl
    · have before := holds.clients fd client lookup
      have idle : ({ client with readBuffer := parsed.readBuffer } : Client).Idle :=
        ⟨before.multi, before.pubSub⟩
      have taken : (server.taking fd client parsed).Holds keyspace :=
        ⟨holds.db, holds.lasting, holds.clients.insert idle fd, holds.master⟩
      refine serve_holds taken idle (does _ ?_) served
      rw [Server.asked, request]
      exact List.mem_singleton_self _
  | close fd data =>
    rw [unasked rfl]
    cases ran
    refine ⟨holds.db, holds.lasting, holds.clients.modified ?_ fd, holds.master⟩
    exact fun _ idle => ⟨idle.multi, idle.pubSub⟩
  | send fd count =>
    rw [unasked rfl]
    cases ran
    refine ⟨holds.db, holds.lasting, holds.clients.modified ?_ fd, holds.master⟩
    exact fun _ idle => ⟨idle.multi, idle.pubSub⟩
  | expire machine =>
    rw [unasked rfl]
    cases ran
    rw [Server.handleExpiredBlockedClients, checkAndExpire_idle holds.db]
    exact ⟨holds.db, holds.lasting, holds.clients.applied (expireBlockedWaitClients_still _ _ _ _) 0,
      holds.master⟩
  | receiveMaster data machines =>
    rw [unasked rfl]
    have none := alone.resolve_left fun speaks => by cases speaks
    rw [Server.step, Server.handleMasterRead, none] at ran
    cases ran
    exact holds
  | endMaster data =>
    rw [unasked rfl]
    cases ran
    refine ⟨holds.db, holds.lasting, holds.clients, fun slave connection => ?_⟩
    obtain ⟨before, held, rfl⟩ := Option.map_eq_some_iff.mp connection
    have idle := holds.master before held
    exact ⟨idle.multi, idle.pubSub⟩
  | sendMaster =>
    rw [unasked rfl]
    cases ran
    refine ⟨holds.db, holds.lasting, holds.clients, fun slave connection => ?_⟩
    obtain ⟨before, held, rfl⟩ := Option.map_eq_some_iff.mp connection
    have idle := holds.master before held
    exact ⟨idle.multi, idle.pubSub⟩

/-- The update that a message stands for. -/
def Message.update : Message → Option Command
  | .getAck => none
  | .write command => some command

theorem Command.Looks.write (looks : command.Looks) : command.isWriteCommand = false := by
  cases command <;> first | rfl | exact looks.elim

theorem message_looks (server : Server) (looks : command.Looks) :
    (server.message false command).toList.filterMap Message.update = [] := by
  have calm := looks.write
  cases command with
  | wait numReplica timeout =>
    rw [Server.message]
    split <;> rfl
  | _ => first | rfl | cases calm

theorem message_write (server : Server) (write : command.isWriteCommand = true) :
    server.message false command = some (.write command) := by
  cases command <;> first | rfl | cases write

/-- The messages of an event are those of the command it brings, if any. -/
theorem passed_asked (idle : AllIdle server.clients) (event : Event) :
    server.asked event = [] ∧ server.passed event = [] ∨
      ∃ command, server.asked event = [command] ∧
        server.passed event = (server.message false command).toList := by
  rw [Server.asked, Server.passed]
  cases request : requestIn server event with
  | none => exact .inl ⟨rfl, rfl⟩
  | some one =>
    obtain ⟨fd, parsed⟩ := one
    obtain ⟨_, _, client, -, lookup, -⟩ := requestIn_some request
    refine .inr ⟨parsed.command, rfl, ?_⟩
    dsimp only
    rw [lookup, Option.any_some, (idle fd client lookup).multi]

/-- What an event passes on is what its request does. -/
theorem passed_does (idle : AllIdle server.clients)
    (asked : ∀ command ∈ server.asked event, command.Looks ∨ command.Copies)
    (updates : keyspace.updated ((server.passed event).filterMap Message.update) = .ok keyspace') :
    (∀ command ∈ server.asked event, command.Does keyspace keyspace') ∧
      (server.asked event = [] → keyspace' = keyspace) := by
  rcases passed_asked idle event with ⟨nobody, nothing⟩ | ⟨command, one, sent⟩
  · rw [nothing] at updates
    cases updates
    rw [nobody]
    exact ⟨fun _ absent => absurd absent List.not_mem_nil, fun _ => rfl⟩
  · rw [one] at asked ⊢
    rw [sent] at updates
    refine ⟨List.forall_mem_singleton.mpr ?_, fun absent => by cases absent⟩
    rcases asked command (List.mem_singleton_self _) with looks | copies
    · rw [message_looks server looks] at updates
      cases updates
      exact .inl ⟨looks, rfl⟩
    · rw [message_write server copies.write] at updates
      exact .inr ⟨copies, (Keyspace.updated_single keyspace command).symm.trans updates⟩

/-- No user is among the updates of a keyspace. -/
theorem messages_known {messages : List Message}
    (updates : keyspace.updated (messages.filterMap Message.update) = .ok keyspace') :
    ∀ message ∈ messages, message.Known := by
  induction messages generalizing keyspace with
  | nil => exact fun _ absent => absurd absent List.not_mem_nil
  | cons message messages ih =>
    cases message with
    | getAck => exact List.forall_mem_cons.mpr ⟨trivial, ih updates⟩
    | write command =>
      obtain ⟨between, first, later⟩ := @Keyspace.updated_append _ _ [command] _ updates
      refine List.forall_mem_cons.mpr ⟨fun user => ?_, ih later⟩
      cases command <;> first | (cases user; done) | skip
      cases first

/-! ## The master -/

/-- The master has the keyspace of its messages. -/
theorem Link.Runs.master_holds {link link' : Link} {log : Link.Log} (begins : link.Begins fd)
    (runs : link.Runs fd log link') (holds : link.master.Holds keyspace)
    (asked : ∀ command ∈ log.asked, command.Looks ∨ command.Copies)
    (updates : keyspace.updated (log.messages.filterMap Message.update) = .ok keyspace') :
    link'.master.Holds keyspace' := by
  have onward {log : Link.Log} {link' : Link} {event : Event} {handled : Handled} {final : Keyspace}
      (runs : link.Runs fd log link') (asked' : ∀ command ∈ log.asked ++ link'.master.asked event,
        command.Looks ∨ command.Copies)
      (updates : keyspace.updated ((log.messages ++ link'.master.passed event).filterMap
        Message.update) = .ok final)
      (ran : link'.master.step event = .ok handled)
      (ih : ∀ {between : Keyspace}, (∀ command ∈ log.asked, command.Looks ∨ command.Copies) →
        keyspace.updated (log.messages.filterMap Message.update) = .ok between →
        link'.master.Holds between) : handled.server.Holds final := by
    rw [List.filterMap_append] at updates
    obtain ⟨between, before, updates⟩ := Keyspace.updated_append updates
    have held := ih (fun command member => asked' command (List.mem_append_left _ member)) before
    obtain ⟨-, leading, -⟩ := runs.sides begins (messages_known before)
    obtain ⟨does, unasked⟩ := passed_does held.clients
      (fun command member => asked' command (List.mem_append_right _ member)) updates
    exact step_holds held (.inr leading.mastering.master) does unasked ran
  induction runs generalizing keyspace' with
  | start =>
    cases updates
    exact holds
  | master runs elsewhere ran ih => exact onward runs asked updates ran (fun a u => ih a u)
  | replica _ _ _ ih | replicaReads _ _ _ _ _ ih | replicaWrites _ _ _ ih => exact ih asked updates
  | masterReads runs _ _ ran ih => exact onward runs asked updates ran (fun a u => ih a u)

/-! ## The replica -/

/-- What the loop of a replica keeps: its database holds a keyspace, and its
clients and its master are idle. -/
structure Replicated (keyspace : Keyspace) (client : Client) (server : Server) : Prop where
  db : server.db.Represents keyspace
  lasting : keyspace.Lasting
  clients : AllIdle server.clients
  own : client.Idle

theorem executeReplicated_carries {state state' : Server × List Machine × List Effect}
    {client client' : Client} (carried : Replicated keyspace client state.1) (copies : command.Copies)
    (updates : keyspace.update command = .ok keyspace')
    (ran : Server.executeReplicated fd client command state = .ok (client', state')) :
    Replicated keyspace' client' state'.1 := by
  obtain ⟨server, machines, others⟩ := state
  unfold Server.executeReplicated at ran
  cases machines with
  | nil => cases ran
  | cons machine machines =>
    dsimp only at ran
    obtain ⟨executed, done, ran⟩ := exec_bind_ok.mp ran
    obtain ⟨there, -, ran⟩ := exec_bind_ok.mp ran
    cases ran
    obtain ⟨lasting, represents, still⟩ := @execute_updated server.db
      (server.context fd client machine command) keyspace keyspace' _ _ _ carried.db carried.lasting
      carried.own copies updates done
    exact ⟨represents, lasting, carried.clients.applied still fd,
      applyEffects_idle still carried.own fd fd⟩

theorem skipRdb_idle {slave : SlaveReplicationClient} (idle : slave.client.Idle) (buffer : Bytes) :
    (slave.skipRdb buffer).client.Idle := by
  have kept (readBuffer : Bytes) : ({ slave.client with readBuffer } : Client).Idle :=
    ⟨idle.multi, idle.pubSub⟩
  unfold SlaveReplicationClient.skipRdb
  split
  · split
    · exact kept _
    · dsimp only
      repeat' split
      all_goals exact kept _
  · exact kept _

theorem handleHandshakeRead_idle {slave : SlaveReplicationClient} (idle : slave.client.Idle) :
    slave.handleHandshakeRead.client.Idle := by
  have kept (readBuffer writeBuffer : Bytes) :
      ({ slave.client with readBuffer, writeBuffer } : Client).Idle := ⟨idle.multi, idle.pubSub⟩
  rw [SlaveReplicationClient.handleHandshakeRead]
  cases parseSimpleString slave.client.readBuffer with
  | none => exact idle
  | some response =>
    dsimp only
    split
    · exact kept _ _
    · split
      · exact kept _ _
      · split
        · exact kept _ _
        · split
          · split
            · exact idle
            · exact skipRdb_idle idle _
          · exact kept _ slave.client.writeBuffer

/-- A read of the stream does the updates of its rounds. -/
theorem read_holds {data : Bytes} {machines : List Machine} (holds : server.Holds keyspace)
    (copies : ∀ command ∈ (Turn.rounds ⟨server, .receiveMaster data machines, handled⟩).filterMap
      Round.command, command.Copies)
    (updates : keyspace.updated ((Turn.rounds
      ⟨server, .receiveMaster data machines, handled⟩).filterMap Round.command) = .ok keyspace')
    (ran : server.step (.receiveMaster data machines) = .ok handled) :
    handled.server.Holds keyspace' := by
  rw [Server.step, Server.handleMasterRead] at ran
  rw [Turn.rounds] at copies updates
  dsimp only at copies updates
  cases connection : server.masterConnection with
  | none =>
    rw [connection] at ran updates
    cases ran
    cases updates
    exact holds
  | some slave =>
    rw [connection] at ran copies updates
    dsimp only at ran copies updates
    obtain ⟨⟨slave', server', machines', effects⟩, looped, ran⟩ := exec_bind_ok.mp ran
    cases ran
    have own := holds.master slave connection
    have started : (slave.withReadBuffer (slave.client.readBuffer ++ data)).client.Idle :=
      ⟨own.multi, own.pubSub⟩
    rw [SlaveReplicationClient.handleRead, SlaveReplicationClient.processReadBuffer] at looped
    rw [SlaveReplicationClient.roundsOf] at copies updates
    dsimp only at looped copies updates
    -- the loop, behind the handshake or right after it
    have looping {slave₁ : SlaveReplicationClient} (idle : slave₁.client.Idle)
        (copies : ∀ command ∈ (SlaveReplicationClient.roundsFrom (Server.executeReplicated slave.fd)
          slave₁.client.readBuffer.length slave₁ (server, machines, [])).filterMap Round.command,
            command.Copies)
        (updates : keyspace.updated ((SlaveReplicationClient.roundsFrom
          (Server.executeReplicated slave.fd) slave₁.client.readBuffer.length slave₁
            (server, machines, [])).filterMap Round.command) = .ok keyspace')
        (looped : slave₁.processCommands (Server.executeReplicated slave.fd) (server, machines, []) =
          .ok (slave', server', machines', effects)) :
        Replicated keyspace' slave'.client server' := by
      have rule := @SlaveReplicationClient.rounds_carry _ (Server.executeReplicated slave.fd) slave₁
        slave' (server, machines, []) (server', machines', effects) _
        (fun done client state => (∀ command ∈ done.filterMap Round.command, command.Copies) →
          ∀ final, keyspace.updated (done.filterMap Round.command) = .ok final →
            Replicated final client state.1) ?_ ?_ ?_ [] looped
        (fun _ final same => by
          cases same
          exact ⟨holds.db, holds.lasting, holds.clients, idle⟩)
      · exact rule copies _ updates
      · intro done client state readBuffer held copies final updates
        obtain ⟨db, lasting, clients, own⟩ := held copies final updates
        exact ⟨db, lasting, clients, ⟨own.multi, own.pubSub⟩⟩
      · intro done client state reply held copies final updates
        have nothing : [Round.acknowledged reply].filterMap Round.command = [] := rfl
        rw [List.filterMap_append, nothing, List.append_nil] at copies updates
        obtain ⟨db, lasting, clients, own⟩ := held copies final updates
        exact ⟨db, lasting, clients, ⟨own.multi, own.pubSub⟩⟩
      · intro done client command state client' state' held executed copies final updates
        rw [List.filterMap_append] at copies updates
        obtain ⟨before, last⟩ := List.forall_mem_append.mp copies
        obtain ⟨between, first, second⟩ := Keyspace.updated_append updates
        have update : between.update command = .ok final :=
          (Keyspace.updated_single between command).symm.trans second
        obtain ⟨db, lasting, clients, own⟩ := executeReplicated_carries (held before between first)
          (last command (List.mem_singleton_self _)) update executed
        exact ⟨db, lasting, clients, ⟨own.multi, own.pubSub⟩⟩
    have done (replicated : Replicated keyspace' slave'.client server') :
        Server.Holds { server' with masterConnection := some slave' } keyspace' := by
      refine ⟨replicated.db, replicated.lasting, replicated.clients, fun other same => ?_⟩
      cases same
      exact replicated.own
    split at looped
    · rename_i completed
      rw [if_pos completed, if_pos completed] at copies updates
      exact done (looping started copies updates looped)
    · rename_i going
      rw [if_neg going] at copies updates
      split at looped
      · rename_i completed
        rw [if_pos completed] at copies updates
        exact done (looping (handleHandshakeRead_idle started) copies updates looped)
      · rename_i waiting
        rw [if_neg waiting] at updates
        cases looped
        cases updates
        exact done ⟨holds.db, holds.lasting, holds.clients, handleHandshakeRead_idle started⟩

/-- The replica has the keyspace of its rounds. -/
theorem Link.Runs.replica_holds {link link' : Link} {log : Link.Log} (runs : link.Runs fd log link')
    (holds : link.replica.Holds keyspace) (queried : ∀ command ∈ log.queried, command.Looks)
    (copies : ∀ command ∈ log.rounds.filterMap Round.command, command.Copies)
    (updates : keyspace.updated (log.rounds.filterMap Round.command) = .ok keyspace') :
    link'.replica.Holds keyspace' := by
  induction runs generalizing keyspace' with
  | start =>
    cases updates
    exact holds
  | master _ _ _ ih | masterReads _ _ _ _ ih => exact ih queried copies updates
  | @replica log link event handled _ elsewhere ran ih =>
    have looks := fun command member => queried command (List.mem_append_right _ member)
    have silent : event.fromMaster = none := by
      cases event <;> first | rfl | exact absurd trivial elsewhere
    exact step_holds (ih (fun command member => queried command (List.mem_append_left _ member)) copies
      updates) (.inl silent) (fun command member => .inl ⟨looks command member, rfl⟩) (fun _ => rfl) ran
  | replicaWrites _ _ ran ih =>
    exact step_holds (ih queried copies updates) (.inl rfl)
      (fun _ absent => absurd absent List.not_mem_nil) (fun _ => rfl) ran
  | replicaReads _ _ _ _ ran ih =>
    dsimp only at copies updates
    rw [List.filterMap_append] at copies updates
    obtain ⟨before, now⟩ := List.forall_mem_append.mp copies
    obtain ⟨between, first, second⟩ := Keyspace.updated_append updates
    exact read_holds (ih queried before first) now second ran

/-! ## Both -/

/-- What an event passes on, it asks. -/
theorem passed_subset (server : Server) (event : Event) :
    ∀ command ∈ (server.passed event).filterMap Message.update, command ∈ server.asked event := by
  intro command member
  obtain ⟨message, sent, update⟩ := List.mem_filterMap.mp member
  rw [Server.passed] at sent
  rw [Server.asked]
  cases request : requestIn server event with
  | none =>
    rw [request] at sent
    cases sent
  | some one =>
    rw [request] at sent
    dsimp only at sent
    have passed := Option.mem_toList.mp sent
    unfold Server.message at passed
    split at passed
    · split at passed <;> cases passed
      cases update
    · split at passed <;> cases passed
      cases update
      exact List.mem_singleton_self _

theorem Link.Runs.messages_asked {link link' : Link} {log : Link.Log} (runs : link.Runs fd log link') :
    ∀ command ∈ log.messages.filterMap Message.update, command ∈ log.asked := by
  induction runs with
  | start => exact fun _ absent => absurd absent List.not_mem_nil
  | replica _ _ _ ih | replicaReads _ _ _ _ _ ih | replicaWrites _ _ _ ih => exact ih
  | master _ _ _ ih | masterReads _ _ _ _ ih =>
    intro command member
    dsimp only at member ⊢
    rw [List.filterMap_append] at member
    rcases List.mem_append.mp member with old | new
    · exact List.mem_append_left _ (ih command old)
    · exact List.mem_append_right _ (passed_subset _ _ command new)

/-- Messages whose commands are read as they are do those commands. -/
theorem done_commands {messages : List Message} {rounds : List Round}
    (each : List.Forall₂ Message.Done messages rounds)
    (copies : ∀ command ∈ messages.filterMap Message.update, command.Copies) :
    rounds.filterMap Round.command = messages.filterMap Message.update := by
  induction each with
  | nil => rfl
  | @cons message round messages rounds one _ ih =>
    cases one with
    | acknowledged reply => exact ih copies
    | @executed command read stands =>
      have own : command.Copies := copies command List.mem_cons_self
      rw [own.rereads] at stands
      cases stands
      exact congrArg (List.cons command) (ih fun other member =>
        copies other (List.mem_cons_of_mem _ member))

/-- Two connections and the PSYNC of one of them leave the keyspace empty. -/
theorem sample_holds : Link.sample.master.Holds ∅ ∧ Link.sample.replica.Holds ∅ := by
  have lasting : Keyspace.Lasting ∅ := fun _ _ absent => by cases absent
  have nobody : AllIdle ∅ := fun _ _ absent => by cases absent
  have idle : ({} : Server).Holds ∅ := ⟨represents_empty, lasting, nobody, fun _ absent => by cases absent⟩
  have connected (server : Server) (fd : Fd) (holds : server.Holds ∅) :
      (server.after (.connect fd)).server.Holds ∅ :=
    step_holds holds (.inl rfl) (fun _ absent => absurd absent List.not_mem_nil) (fun _ => rfl)
      (after_ran (by rw [Server.step]; split <;> rfl))
  refine ⟨step_holds (connected _ 3 (connected _ 1 idle)) (.inl rfl) (fun command member => ?_)
    (fun _ => rfl) (after_ran (by decide +kernel)), represents_empty, lasting, nobody, ?_⟩
  · have psync : Handled.connectedTwice.server.asked registering =
        [.psync (ascii "?") (-1)] := rfl
    have same : command = _ := List.mem_singleton.mp (psync ▸ member)
    rw [same]
    exact .inl ⟨trivial, rfl⟩
  · rintro slave ⟨⟩
    exact ⟨rfl, rfl⟩

end CarrotDb
