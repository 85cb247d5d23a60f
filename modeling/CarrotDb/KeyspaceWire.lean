import CarrotDb.ClientStreams
import CarrotDb.KeyspaceRuns

/-! From the bytes clients send to the bytes they are sent. A master without
replicas parses the frames of its clients as they arrive, in step with them,
has the commands run, and flushes each answer in the turn it was asked for. -/
namespace CarrotDb
open Resp Lockstep

/-- The commands that the replication manager keeps to itself. -/
def Command.Managed (command : Command) : Prop :=
  command.commandType ∈ [.info, .replConf, .psync, .wait]

instance (command : Command) : Decidable command.Managed :=
  inferInstanceAs (Decidable (command.commandType ∈ [.info, .replConf, .psync, .wait]))

namespace World

/-- What comes to be heard of: a client connects, or one of them asks. -/
inductive Heard where
  | connected (fd : Fd)
  | asked (asked : Asked)

/-- All that a client has been sent so far. -/
def inbox (world : World) (fd : Fd) : Bytes := ((world.parties.lookup fd).map Party.inbox).getD []

/-- Something is heard of. The replication manager is not asked anything. -/
def hear (ndebug : Bool) (world : World) : Heard → Except Declined World
  | .connected fd =>
    .ok (if fd ∈ world.parties then world
      else { world with parties := world.parties.insert fd { inbox := [] } })
  | .asked asked =>
    if asked.fd ∈ world.parties ∧ ¬ asked.command.Managed then
      (step ndebug world asked).map Prod.snd
    else .error .foreign

end World

/-- What the frame of a client asks. -/
def Frame.asks (frame : Frame) (fd : Fd) (machine : Machine) : World.Asked :=
  ⟨fd, frame.command.toOption.getD .unknow, machine.env.clock, machine.queue.map Env.clock⟩

/-- What is heard of in a run of events, if each read event completes the next
of the frames its client has left. -/
def heardIn (frames : Fd → List Frame) : List Event → List World.Heard
  | [] => []
  | .connect fd :: events => .connected fd :: heardIn frames events
  | .receive fd _ machine :: events =>
    match frames fd with
    | [] => heardIn frames events
    | frame :: later =>
      .asked (frame.asks fd machine) :: heardIn (Function.update frames fd later) events
  | .close _ _ :: events | .send _ _ :: events | .expire _ :: events | .receiveMaster _ _ :: events
  | .endMaster _ :: events | .sendMaster :: events => heardIn frames events

/-- An event that is neither a connection nor a read. -/
def Event.Idle : Event → Prop
  | .connect _ | .receive .. | .close .. => False
  | _ => True

/-- Behind the end of the file of a client there is nothing more to read. -/
def ClosesLast : List Event → Prop
  | [] => True
  | .close fd _ :: events => received fd events = [] ∧ ClosesLast events
  | _ :: events => ClosesLast events

/-- An event at a build with assertions, or at one without. -/
def Event.BuiltAs (ndebug : Bool) : Event → Prop
  | .receive _ _ machine => machine.env.ndebug = ndebug ∧ ∀ env ∈ machine.queue, env.ndebug = ndebug
  | _ => True

/-- The bytes of a client that have arrived and are not parsed yet. -/
def Server.pending (server : Server) (fd : Fd) : Bytes :=
  ((server.clients.lookup fd).map Client.readBuffer).getD []

/-- A master without replicas that serves a world. -/
structure Server.Serves (server : Server) (world : World) : Prop where
  db : server.db.Represents world.keyspace
  parties : ∀ fd, (server.clients.lookup fd).map Client.queued =
    (world.parties.lookup fd).map Party.queued
  plain : ∀ fd client, server.clients.lookup fd = some client → client.Plain
  slaves : server.slaveConnections = []
  waits : server.blockedWaitClients = []
  master : server.masterConnection = none

/-- A turn of the event loop that takes a world to another: what it appends to
write buffers is what the parties are sent, and a client that is served has its
connection flushed. -/
structure Turn.Serves (turn : Turn) (world world' : World) : Prop where
  stepped : turn.before.step turn.event = .ok turn.handled
  serves : turn.handled.server.Serves world'
  sent : ∀ fd, world'.inbox fd = world.inbox fd ++ turn.sent fd
  flushed : ∀ fd data machine, turn.event = .receive fd data machine → fd ∈ turn.handled.flushed

/-- Turns that do so one after another. -/
structure ServesAll (server : Server) (events : List Event) (turns : List Turn)
    (world world' : World) : Prop where
  ran : server.run events = .ok turns
  serves : (server.behind turns).Serves world'
  sent : ∀ fd, world'.inbox fd = world.inbox fd ++ sentIn turns fd
  flushed : ∀ turn ∈ turns, ∀ fd data machine, turn.event = .receive fd data machine →
    fd ∈ turn.handled.flushed

variable {db : DB} {keyspace keyspace' : Keyspace} {server : Server} {world world' : World}
  {event : Event} {machine : Machine} {fd : Fd} {effects : List Effect} {handled : Handled}
  {frames : Fd → List Frame} {events : List Event} {ndebug : Bool} {client : Client}

/-- The served client is sent the replies, nobody else anything. -/
theorem appended_modest {served : Fd} (modest : ∀ effect ∈ effects, effect.Modest) :
    appended served fd effects = if served = fd then repliedBytes effects else [] := by
  induction effects with
  | nil => simp [appended, repliedBytes]
  | cons effect rest ih =>
    have later := ih fun other member => modest other (List.mem_cons_of_mem _ member)
    have here := modest effect List.mem_cons_self
    rw [appended, repliedBytes] at later
    rw [appended, repliedBytes, List.flatMap_cons, List.flatMap_cons, later]
    cases effect with
    | reply bytes | dirty marked | beginTransaction | endTransaction | queue command =>
      by_cases same : served = fd <;> simp [same]
    | _ => exact here.elim

theorem isBlocked_modest (modest : ∀ effect ∈ effects, effect.Modest) : isBlocked effects = false := by
  rw [isBlocked, List.any_eq_false]
  intro effect member
  have here := modest effect member
  cases effect <;> simp_all [Effect.Modest]

/-- What an RDB file leaves is a keyspace of texts. -/
theorem loaded_represents (loaded : DB.Loaded db) : ∃ keyspace, db.Represents keyspace := by
  induction loaded with
  | empty => exact ⟨∅, represents_empty⟩
  | @set db key value _ ih =>
    obtain ⟨keyspace, represents⟩ := ih
    have kept : Value.KeptBy { type := .string, stringPtr := some value } (.text value) := ⟨rfl, rfl⟩
    have settled : Settled db key (some ⟨.text value, none⟩) [] (db.set key value) [] :=
      settled_insert kept (Finmap.lookup_erase key _)
        (fun other different => Finmap.lookup_erase_ne different) rfl rfl rfl tells_nil
    exact ⟨_, settled.represents represents⟩
  | @setWithExpiry db systemNow steadyNow key value expiry _ ih =>
    obtain ⟨keyspace, represents⟩ := ih
    have kept : Value.KeptBy { type := .string, stringPtr := some value } (.text value) := ⟨rfl, rfl⟩
    have settled : Settled db key (some ⟨.text value, some _⟩) []
        (db.setWithExpiry systemNow steadyNow key value expiry) [] :=
      settled_insert kept (Finmap.lookup_insert _)
        (fun other different => (Finmap.lookup_insert_of_ne _ different).trans
          (Finmap.lookup_erase_ne different)) rfl rfl rfl tells_nil
    exact ⟨_, settled.represents represents⟩

/-- A master that starts on an RDB file, or on none, serves the keyspace of it
to nobody yet. -/
theorem started_serves (represents : db.Represents keyspace) (config : ServerConfig) :
    Server.Serves { db := db, config := config } ⟨keyspace, ∅⟩ where
  db := represents
  parties := fun _ => rfl
  plain := fun _ _ absent => by cases absent
  slaves := rfl
  waits := rfl
  master := rfl

/-! ## One event -/

theorem Server.Serves.mem_iff (serves : server.Serves world) (fd : Fd) :
    fd ∈ world.parties ↔ (server.clients.lookup fd).isSome := by
  have parties := congrArg Option.isSome (serves.parties fd)
  rw [Option.isSome_map, Option.isSome_map] at parties
  rw [parties, Finmap.lookup_isSome]

private theorem walk_idle {β : Type} {queues : Map Bytes β} (idle : ∀ key, queues.lookup key = none)
    (env : Env) : env.walk queues.keys = [] := by
  have keys : queues.keys = ∅ := Finset.eq_empty_of_forall_notMem fun key member =>
    Finmap.lookup_eq_none.mp (idle key) (Finmap.mem_keys.mp member)
  have all := env.walk_all queues.keys
  rw [keys] at all ⊢
  exact Multiset.coe_eq_zero _ |>.mp all

/-- No client waits, and nobody is told that its time is up. -/
theorem checkAndExpire_idle (represents : db.Represents keyspace) (env : Env) :
    checkAndExpireBlockedClients db env = (db, []) := by
  rw [checkAndExpireBlockedClients]
  rw [walk_idle represents.idle, walk_idle represents.idleXread]
  rfl

/-- A master without replicas passes nothing on. -/
theorem handlePropagate_alone (alone : server.slaveConnections = []) (command : Option Command)
    (bytesProcessed : Nat) : handlePropagate server command bytesProcessed = .ok (server, []) := by
  cases command with
  | none => rfl
  | some command =>
    rw [handlePropagate]
    dsimp only
    rw [if_pos (.inl alone)]
    rfl

/-- What the replication manager does not keep goes to the database. -/
theorem handle_unmanaged {command : Command} (unmanaged : ¬ command.Managed) :
    server.handle fd client machine command = none := by
  cases command <;> first | rfl | exact absurd (by simp [Command.Managed, Command.commandType]) unmanaged

/-- What a request leaves of the other clients: their read buffers, their
queues, and that they listen to no channel. -/
theorem applied_other {other : Fd} {clients : Map Fd Client}
    (modest : ∀ effect ∈ effects, effect.Modest) (different : other ≠ fd) :
    ((applyToClients fd effects clients).lookup other).map Client.queued =
        (clients.lookup other).map Client.queued ∧
      ∀ after, (applyToClients fd effects clients).lookup other = some after →
        ∃ before, clients.lookup other = some before ∧ (before.Plain → after.Plain) := by
  rw [lookup_applyToClients]
  cases clients.lookup other with
  | none => exact ⟨rfl, fun _ absent => by cases absent⟩
  | some before =>
    obtain ⟨dirty, applied⟩ := applyEffects_modest modest different before
    rw [Option.map_some, applied]
    refine ⟨rfl, fun after same => ⟨before, rfl, fun plain => ?_⟩⟩
    cases same
    exact ⟨plain.pubSub, plain.queue⟩

/-- A request that the database carries out is flushed to its client. -/
theorem serve_carried {command : Command} {executed : Executed} (alone : server.slaveConnections = [])
    (unmanaged : ¬ command.Managed)
    (ran : execute server.db (server.context fd client machine command) server.config.rdbFilePath
      (machine.queue.map fun env => { env with alive := server.alive }) = .ok executed)
    (modest : ∀ effect ∈ executed.effects, effect.Modest) (bytesProcessed : Nat) :
    ∃ flushed, server.serve fd client machine command bytesProcessed = .ok ⟨{ server with
        db := executed.db
        acl := executed.acl
        clients := applyToClients fd executed.effects server.clients }, executed.effects, flushed⟩ ∧
      fd ∈ flushed := by
  have passed := @handlePropagate_alone { server with db := executed.db, acl := executed.acl } alone
    executed.command bytesProcessed
  rw [Server.serve, Server.dispatch, handle_unmanaged unmanaged]
  dsimp only
  rw [ran, exec_ok_bind, passed, exec_ok_bind, exec_pure, exec_ok_bind]
  dsimp only
  rw [List.append_nil, isBlocked_modest modest]
  refine ⟨_, rfl, ?_⟩
  simp

/-- Who is heard of asking is connected. -/
theorem Server.Serves.connected {asked : World.Asked} (serves : server.Serves world)
    (heard : world.hear ndebug (.asked asked) = .ok world') :
    ∃ client, server.clients.lookup asked.fd = some client := by
  rw [World.hear] at heard
  split at heard
  · rename_i asking
    exact Option.isSome_iff_exists.mp ((serves.mem_iff asked.fd).mp asking.1)
  · cases heard

/-- What a request comes to behind the parser. -/
theorem serve_serves {command : Command} {answer : Bytes} (serves : server.Serves world)
    (connected : server.clients.lookup fd = some client) (unmanaged : ¬ command.Managed)
    (built : machine.env.ndebug = ndebug ∧ ∀ env ∈ machine.queue, env.ndebug = ndebug)
    (stepped : World.step ndebug world
      ⟨fd, command, machine.env.clock, machine.queue.map Env.clock⟩ = .ok (answer, world'))
    (bytesProcessed : Nat) :
    ∃ handled, server.serve fd client machine command bytesProcessed = .ok handled ∧
      handled.server.Serves world' ∧
      (∀ other, world'.inbox other = world.inbox other ++ appended fd other handled.effects) ∧
      fd ∈ handled.flushed := by
  have party := serves.parties fd
  rw [connected, Option.map_some] at party
  obtain ⟨party, known, queued⟩ := Option.map_eq_some_iff.mp party.symm
  have clocks : (machine.queue.map fun env => { env with alive := server.alive }).map Env.clock =
      machine.queue.map Env.clock := by
    rw [List.map_map]
    rfl
  rw [← clocks] at stepped
  have built' : Request.BuiltAs ndebug ⟨fd, command, { machine.env with alive := server.alive },
      machine.queue.map fun env => { env with alive := server.alive }⟩ := by
    refine ⟨built.1, fun env member => ?_⟩
    obtain ⟨before, inside, rfl⟩ := List.mem_map.mp member
    exact built.2 before inside
  obtain ⟨keyspace', transaction, executed, carried, rfl⟩ :=
    @asked_carried answer ⟨server.db, server.acl, server.clients⟩ world world' _ client
      server.config.rdbFilePath ndebug party serves.db (serves.plain _ _ connected) built' queued.symm
      known stepped
  obtain ⟨flushed, served, prompt⟩ :=
    serve_carried serves.slaves unmanaged carried.ran carried.modest bytesProcessed
  refine ⟨_, served, ⟨carried.represents, fun other => ?_, fun other after lookup => ?_,
    serves.slaves, serves.waits, serves.master⟩, fun other => ?_, prompt⟩
  · by_cases here : other = fd
    · subst here
      rw [lookup_applyToClients, connected, Finmap.lookup_insert]
      exact congrArg some (congrArg Party.queued carried.party)
    · rw [Finmap.lookup_insert_of_ne _ here, ← serves.parties other]
      exact (applied_other carried.modest here).1
  · by_cases here : other = fd
    · subst here
      dsimp only at lookup
      rw [lookup_applyToClients, connected] at lookup
      cases lookup
      exact carried.plain
    · obtain ⟨before, was, plain⟩ := (applied_other carried.modest here).2 after lookup
      exact plain (serves.plain other before was)
  · rw [appended_modest carried.modest, carried.replied, World.inbox, World.inbox]
    by_cases here : other = fd
    · subst here
      rw [Finmap.lookup_insert, known, if_pos rfl]
      rfl
    · rw [Finmap.lookup_insert_of_ne _ here, if_neg (Ne.symm here), List.append_nil]

/-- Taking the bytes of a request from a read buffer shows nobody anything. -/
theorem Server.Serves.taking (serves : server.Serves world)
    (connected : server.clients.lookup fd = some client) (parsed : Parsed) :
    (server.taking fd client parsed).Serves world where
  db := serves.db
  parties := fun other => by
    rw [Server.taking, ← serves.parties other]
    by_cases here : other = fd
    · subst here
      rw [connected, Finmap.lookup_insert]
      rfl
    · rw [Finmap.lookup_insert_of_ne _ here]
  plain := fun other after lookup => by
    rw [Server.taking] at lookup
    dsimp only at lookup
    by_cases here : other = fd
    · subst here
      rw [Finmap.lookup_insert] at lookup
      cases lookup
      have plain := serves.plain _ _ connected
      exact ⟨plain.pubSub, plain.queue⟩
    · rw [Finmap.lookup_insert_of_ne _ here] at lookup
      exact serves.plain other after lookup
  slaves := serves.slaves
  waits := serves.waits
  master := serves.master

/-- A read event that completes a frame: the command is run, and in the same
turn its client is sent the answer, nobody else anything. -/
theorem receive_serves {frame : Frame} {rest data : Bytes} (serves : server.Serves world)
    (connected : server.clients.lookup fd = some client)
    (whole : client.readBuffer ++ data = frame.bytes ++ rest) (readable : frame.Readable rest)
    (built : Event.BuiltAs ndebug (.receive fd data machine))
    (heard : world.hear ndebug (.asked (frame.asks fd machine)) = .ok world') :
    ∃ handled, Turn.Serves ⟨server, .receive fd data machine, handled⟩ world world' ∧
      handled.server.pending fd = rest ∧
      ∀ other ≠ fd, handled.server.pending other = server.pending other := by
  obtain ⟨command, count, stands, read⟩ := Frame.parse_readable readable
  have asks : frame.asks fd machine =
      ⟨fd, command, machine.env.clock, machine.queue.map Env.clock⟩ := by
    rw [Frame.asks, stands]
    rfl
  rw [asks, World.hear] at heard
  split at heard
  case isFalse => cases heard
  rename_i asking
  cases stepped : World.step ndebug world
      ⟨fd, command, machine.env.clock, machine.queue.map Env.clock⟩ with
  | error declined =>
    rw [stepped] at heard
    cases heard
  | ok result =>
    obtain ⟨answer, after⟩ := result
    rw [stepped] at heard
    cases heard
    have lookup : (server.taking fd client ⟨command, count, rest⟩).clients.lookup fd =
        some { client with readBuffer := rest } := Finmap.lookup_insert _
    obtain ⟨handled, served, serves', inboxes, prompt⟩ :=
      serve_serves (serves.taking connected ⟨command, count, rest⟩) lookup asking.2 built stepped count
    have left := fun other => @serve_readBuffer _ _ _ _ other _ _ _ served
    refine ⟨handled, ⟨?_, serves', inboxes, fun _ _ _ same => ?_⟩, ?_, fun other different => ?_⟩
    · rw [Server.step, Server.handleRead, modifyClient, connected]
      dsimp only
      rw [Server.processClientRequest, Finmap.lookup_insert]
      dsimp only
      rw [whole, read, exec_ok_bind, Finmap.insert_insert]
      exact served
    · cases same
      exact prompt
    · rw [Server.pending, left fd, lookup]
      rfl
    · rw [Server.pending, left other, Server.taking, Finmap.lookup_insert_of_ne _ different]
      rfl

/-- A connection is a party from then on. -/
theorem connect_serves (serves : server.Serves world) (fd : Fd) :
    ∃ handled world', world.hear ndebug (.connected fd) = .ok world' ∧
      Turn.Serves ⟨server, .connect fd, handled⟩ world world' ∧
      ∀ other, handled.server.pending other = server.pending other := by
  rw [World.hear]
  have party := serves.mem_iff fd
  cases known : server.clients.lookup fd with
  | some client =>
    rw [known] at party
    rw [if_pos (party.mpr rfl)]
    refine ⟨⟨server, [], []⟩, _, rfl, ⟨?_, serves, fun _ => (List.append_nil _).symm,
      fun _ _ _ absent => by cases absent⟩, fun _ => rfl⟩
    rw [Server.step, Server.alive, known]
    rfl
  | none =>
    rw [known] at party
    have stranger : fd ∉ world.parties := fun member => Bool.false_ne_true (party.mp member)
    rw [if_neg stranger]
    refine ⟨⟨server.onNewConnection fd, [], []⟩, _, rfl, ⟨?_, ⟨serves.db, fun other => ?_,
      fun other after lookup => ?_, serves.slaves, serves.waits, serves.master⟩, fun other => ?_,
      fun _ _ _ absent => by cases absent⟩, fun other => ?_⟩
    · rw [Server.step, Server.alive, known]
      rfl
    · rw [Server.onNewConnection]
      by_cases here : other = fd
      · subst here
        rw [Finmap.lookup_insert, Finmap.lookup_insert]
        rfl
      · rw [Finmap.lookup_insert_of_ne _ here, Finmap.lookup_insert_of_ne _ here]
        exact serves.parties other
    · rw [Server.onNewConnection] at lookup
      dsimp only at lookup
      by_cases here : other = fd
      · subst here
        rw [Finmap.lookup_insert] at lookup
        cases lookup
        exact ⟨rfl, fun _ => rfl⟩
      · rw [Finmap.lookup_insert_of_ne _ here] at lookup
        exact serves.plain other after lookup
    · refine Eq.trans ?_ (List.append_nil _).symm
      rw [World.inbox, World.inbox]
      by_cases here : other = fd
      · subst here
        rw [Finmap.lookup_insert, Finmap.lookup_eq_none.mpr stranger]
        rfl
      · rw [Finmap.lookup_insert_of_ne _ here]
    · rw [Server.pending, Server.pending, Server.onNewConnection]
      by_cases here : other = fd
      · subst here
        rw [Finmap.lookup_insert, known]
        rfl
      · rw [Finmap.lookup_insert_of_ne _ here]

/-- Bytes that leave a write buffer are nothing to the world. -/
theorem send_serves (serves : server.Serves world) (fd : Fd) (count : Nat) :
    (server.handleWrite fd count).Serves world ∧
      ∀ other, (server.handleWrite fd count).pending other = server.pending other := by
  refine ⟨⟨serves.db, fun other => ?_, fun other after lookup => ?_, serves.slaves, serves.waits,
    serves.master⟩, fun other => ?_⟩
  · exact (view_modifyClient (by intro client; rfl) _ _ _).trans (serves.parties other)
  · rw [Server.handleWrite] at lookup
    dsimp only at lookup
    rw [lookup_modifyClient] at lookup
    obtain ⟨before, was, rfl⟩ := Option.map_eq_some_iff.mp lookup
    have plain := serves.plain other before was
    split
    · exact ⟨plain.pubSub, plain.queue⟩
    · exact plain
  · exact congrArg (Option.getD · []) (view_modifyClient (by intro client; rfl) _ _ _)

/-- What else happens is nothing to the world: nobody waits, and no master
speaks. -/
theorem idle_serves (serves : server.Serves world) (idle : event.Idle) :
    ∃ handled, Turn.Serves ⟨server, event, handled⟩ world world ∧
      ∀ other, handled.server.pending other = server.pending other := by
  have silent : ∀ handled, server.step event = .ok handled → handled.effects = [] →
      handled.server.Serves world → Turn.Serves ⟨server, event, handled⟩ world world := by
    intro handled stepped none serves'
    refine ⟨stepped, serves', fun fd => ?_, fun fd data machine same => ?_⟩
    · rw [Turn.sent, none]
      exact (List.append_nil _).symm
    · dsimp only at same
      rw [same] at idle
      exact idle.elim
  cases event with
  | connect fd | receive fd data machine | close fd data => exact idle.elim
  | send fd count =>
    obtain ⟨serves', pending⟩ := send_serves serves fd count
    exact ⟨⟨server.handleWrite fd count, [], []⟩, silent _ rfl rfl serves', pending⟩
  | expire machine =>
    have nobody : server.handleExpiredBlockedClients machine = ⟨server, [], []⟩ := by
      rw [Server.handleExpiredBlockedClients, checkAndExpire_idle serves.db, serves.waits]
      rw [show server = { server with blockedWaitClients := [] } by rw [← serves.waits]]
      rfl
    refine ⟨⟨server, [], []⟩, silent _ ?_ rfl serves, fun _ => rfl⟩
    rw [Server.step, nobody]
    rfl
  | receiveMaster data machines =>
    refine ⟨⟨server, [], []⟩, silent _ ?_ rfl serves, fun _ => rfl⟩
    rw [Server.step, Server.handleMasterRead, serves.master]
    rfl
  | endMaster data =>
    have none : (server.handleMasterEnd data).masterConnection = none := by
      rw [Server.handleMasterEnd, serves.master]
      rfl
    exact ⟨⟨server.handleMasterEnd data, [], []⟩, silent _ rfl rfl ⟨serves.db, serves.parties,
      serves.plain, serves.slaves, serves.waits, none⟩, fun _ => rfl⟩
  | sendMaster =>
    have none : server.handleMasterWrite.masterConnection = none := by
      rw [Server.handleMasterWrite, serves.master]
      rfl
    exact ⟨⟨server.handleMasterWrite, [], []⟩, silent _ rfl rfl ⟨serves.db, serves.parties,
      serves.plain, serves.slaves, serves.waits, none⟩, fun _ => rfl⟩

/-- The end of what a client sends is nothing to the world. -/
theorem close_serves (serves : server.Serves world) (fd : Fd) (data : Bytes) :
    Turn.Serves ⟨server, .close fd data, ⟨server.handleClose fd data, [], []⟩⟩ world world ∧
      ∀ other, other ≠ fd → (server.handleClose fd data).pending other = server.pending other := by
  refine ⟨⟨rfl, ⟨serves.db, fun other => ?_, fun other after lookup => ?_, serves.slaves, serves.waits,
    serves.master⟩, fun other => (List.append_nil _).symm, fun _ _ _ same => by cases same⟩,
    fun other different => ?_⟩
  · exact (view_modifyClient (by intro client; rfl) _ _ _).trans (serves.parties other)
  · rw [Server.handleClose] at lookup
    dsimp only at lookup
    rw [lookup_modifyClient] at lookup
    obtain ⟨before, was, rfl⟩ := Option.map_eq_some_iff.mp lookup
    have plain := serves.plain other before was
    split
    · exact ⟨plain.pubSub, plain.queue⟩
    · exact plain
  · rw [Server.pending, Server.handleClose, lookup_modifyClient, if_neg (Ne.symm different),
      Option.map_id]
    rfl

/-! ## Runs -/

theorem ClosesLast.tail (closes : ClosesLast (event :: events)) : ClosesLast events := by
  cases event with
  | close fd data => exact closes.2
  | _ => exact closes

theorem heardIn_idle (idle : event.Idle) (frames : Fd → List Frame) (events : List Event) :
    heardIn frames (event :: events) = heardIn frames events := by
  cases event <;> first | rfl | exact idle.elim

theorem received_idle (idle : event.Idle) (fd : Fd) (events : List Event) :
    received fd (event :: events) = received fd events := by
  cases event <;> first | rfl | exact idle.elim

theorem received_other {data : Bytes} {other : Fd} (different : other ≠ fd) (events : List Event) :
    received other (.receive fd data machine :: events) = received other events := by
  rw [received, List.filterMap_cons]
  dsimp only
  rw [if_neg (Ne.symm different)]
  rfl

theorem received_own {data : Bytes} (events : List Event) :
    received fd (.receive fd data machine :: events) = data :: received fd events := by
  rw [received, List.filterMap_cons]
  dsimp only
  rw [if_pos rfl]
  rfl

/-- A turn that serves, and a run behind it that does. -/
theorem Turn.Serves.cons {world₁ : World} {turns : List Turn}
    (turn : Turn.Serves ⟨server, event, handled⟩ world world₁)
    (later : ServesAll handled.server events turns world₁ world') :
    ServesAll server (event :: events) (⟨server, event, handled⟩ :: turns) world world' where
  ran := by
    rw [Server.run, turn.stepped, exec_ok_bind, later.ran, exec_ok_bind]
    rfl
  serves := later.serves
  sent := fun fd => by
    rw [later.sent, turn.sent, List.append_assoc]
    rfl
  flushed := fun one member => by
    rcases List.mem_cons.mp member with rfl | behind
    · exact turn.flushed
    · exact later.flushed one behind

/-- A client is in step with its frames, or done with them. -/
def Server.Keeps (server : Server) (frames : Fd → List Frame) (events : List Event) : Prop :=
  ∀ fd, InStep (server.pending fd) (frames fd) (received fd events) ∨
    frames fd = [] ∧ received fd events = []

private theorem run_served (serves : server.Serves world) (keeps : server.Keeps frames events)
    (closes : ClosesLast events) (built : ∀ event ∈ events, event.BuiltAs ndebug)
    (told : (heardIn frames events).foldlM (World.hear ndebug) world = .ok world') :
    ∃ turns, ServesAll server events turns world world' := by
  induction events generalizing server world frames with
  | nil =>
    cases told
    exact ⟨[], rfl, serves, fun fd => (List.append_nil _).symm, fun _ absent => by cases absent⟩
  | cons event events ih =>
    have later := fun other member => built other (List.mem_cons_of_mem event member)
    by_cases idle : event.Idle
    · rw [heardIn_idle idle] at told
      obtain ⟨handled, turn, pending⟩ := idle_serves serves idle
      have next : handled.server.Keeps frames events := by
        intro fd
        rw [pending, ← received_idle idle]
        exact keeps fd
      obtain ⟨turns, all⟩ := ih turn.serves next closes.tail later told
      exact ⟨_, turn.cons all⟩
    cases event with
    | send _ _ | expire _ | receiveMaster _ _ | endMaster _ | sendMaster => exact absurd trivial idle
    | connect fd =>
      obtain ⟨handled, world₁, heard, turn, pending⟩ := @connect_serves server world ndebug serves fd
      rw [heardIn, List.foldlM_cons, heard] at told
      obtain ⟨turns, all⟩ := ih turn.serves (fun other => pending other ▸ keeps other) closes.tail
        later told
      exact ⟨_, turn.cons all⟩
    | close fd data =>
      obtain ⟨turn, pending⟩ := close_serves serves fd data
      have next : (server.handleClose fd data).Keeps frames events := by
        intro other
        by_cases same : other = fd
        · subst same
          -- its frames are all answered, whatever has come with the end
          have nothing := closes.1
          refine .inr ⟨?_, nothing⟩
          rcases keeps other with inStep | ⟨done, -⟩
          · have last : InStep (server.pending other) (frames other) (received other events) := inStep
            rw [nothing] at last
            cases left : frames other with
            | nil => rfl
            | cons frame rest =>
              rw [left] at last
              exact last.elim
          · exact done
        · rw [pending other same]
          exact keeps other
      obtain ⟨turns, all⟩ := ih turn.serves next closes.tail later told
      exact ⟨_, turn.cons all⟩
    | receive fd data machine =>
      have here := keeps fd
      rw [received_own] at here
      cases left : frames fd with
      | nil =>
        rw [left] at here
        rcases here with inStep | ⟨-, done⟩
        · exact inStep.elim
        · cases done
      | cons frame rest =>
        rw [left] at here
        obtain ⟨behind, whole, readable, inStep'⟩ := here.resolve_right fun done => by cases done.1
        rw [heardIn, left, List.foldlM_cons] at told
        cases heard : world.hear ndebug (.asked (frame.asks fd machine)) with
        | error declined =>
          rw [heard] at told
          cases told
        | ok world₁ =>
          rw [heard] at told
          have known : ∃ client, server.clients.lookup fd = some client := serves.connected heard
          obtain ⟨client, connected⟩ := known
          rw [Server.pending, connected] at whole
          obtain ⟨handled, turn, own, others⟩ := receive_serves serves connected whole readable
            (built _ List.mem_cons_self) heard
          have next : handled.server.Keeps (Function.update frames fd rest) events := by
            intro other
            by_cases same : other = fd
            · subst same
              rw [own, Function.update_self]
              exact .inl inStep'
            · rw [others other same, Function.update_of_ne same, ← received_other same events]
              exact keeps other
          obtain ⟨turns, all⟩ := ih turn.serves next closes.tail later told
          exact ⟨_, turn.cons all⟩

/-- The frames of two clients. -/
def counting (fd : Fd) : List Frame :=
  if fd = 5 then [⟨ascii "INCR", [ascii "k"]⟩, ⟨ascii "GET", [ascii "k"]⟩]
  else if fd = 6 then [⟨ascii "incr", [ascii "k"]⟩] else []

/-- They come in between one another, the second one of a client in two pieces;
the other client closes in the middle of a frame. -/
def countingEvents : List Event :=
  [.connect 5, .connect 6,
    .receive 5 (encodeBulkStringArray [ascii "INCR", ascii "k"] ++ ascii "*2\r\n$3") .sample,
    .receive 6 (encodeBulkStringArray [ascii "incr", ascii "k"]) .sample, .send 5 2,
    .close 6 (ascii "*1\r\n"), .receive 5 (ascii "\r\nGET\r\n$1\r\nk\r\n") .sample]

end CarrotDb
