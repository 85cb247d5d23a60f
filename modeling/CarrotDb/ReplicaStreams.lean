import CarrotDb.ReplicaCommands
import CarrotDb.ServerFrames

/-! Replicas are sent the same stream. A replica is registered by its PSYNC;
from then on every frame the master appends for replicas is appended to its
buffer too, in the order of the requests the frames come from. -/
namespace CarrotDb
open Resp

/-- The replicas are the connections that have sent PSYNC, each once. -/
structure Server.Registered (server : Server) : Prop where
  nodup : server.slaveConnections.Nodup
  flagged : ∀ fd, fd ∈ server.slaveConnections ↔
    (server.clients.lookup fd).any Client.isSlave = true

variable {server server' : Server} {handled : Handled} {event : Event} {fd : Fd}
  {machine : Machine} {data : Bytes}

private theorem isSlave_subscribed (client : Client) (channels : Nat) :
    ({ client with totalSubscribedChannels := channels } : Client).isSlave = client.isSlave := rfl

theorem Effect.apply_isSlave (effect : Effect) (client : Client) :
    (effect.apply client).isSlave = client.isSlave := by
  cases effect with
  | unsubscribe => exact isSlave_subscribed client _
  | subscribe => exact isSlave_subscribed { client with pubSub := true } _
  | _ => rfl

/-- The registration depends on the flags of the clients only. -/
theorem Server.Registered.congr (registered : server.Registered)
    (slaves : server'.slaveConnections = server.slaveConnections)
    (flags : ∀ fd, (server'.clients.lookup fd).any Client.isSlave =
      (server.clients.lookup fd).any Client.isSlave) : server'.Registered :=
  ⟨slaves ▸ registered.nodup, fun fd => by rw [slaves, flags]; exact registered.flagged fd⟩

theorem flags_applyToClients (served fd : Fd) (effects : List Effect) (clients : Map Fd Client) :
    ((applyToClients served effects clients).lookup fd).any Client.isSlave =
      (clients.lookup fd).any Client.isSlave := by
  rw [lookup_applyToClients, Option.any_map]
  congr 1
  exact funext (applyEffects_keeps Effect.apply_isSlave served fd effects)

theorem flags_modifyClient {clients : Map Fd Client} {change : Client → Client} {fd other : Fd}
    (kept : ∀ client, (change client).isSlave = client.isSlave) :
    ((modifyClient clients fd change).lookup other).any Client.isSlave =
      (clients.lookup other).any Client.isSlave := by
  rw [lookup_modifyClient, Option.any_map]
  congr 1
  funext client
  show ((if fd = other then change else id) client).isSlave = client.isSlave
  split
  · exact kept client
  · rfl

/-- A read event of a client is its request behind the parser. -/
theorem step_taking {client : Client} {parsed : Parsed}
    (connected : server.clients.lookup fd = some client)
    (read : parseCommand (client.readBuffer ++ data) = .ok parsed) :
    server.step (.receive fd data machine) = (server.taking fd client parsed).serve fd
      { client with readBuffer := parsed.readBuffer } machine parsed.command
        parsed.bytesProcessed := by
  simp only [Server.step, Server.handleRead, Server.processClientRequest, modifyClient, connected,
    Finmap.lookup_insert, read, exec_ok_bind, Finmap.insert_insert, Server.taking]

/-- A read event of nobody does nothing. -/
theorem step_absent (absent : server.clients.lookup fd = none) :
    server.step (.receive fd data machine) = .ok ⟨server, [], []⟩ := by
  simp only [Server.step, Server.handleRead, Server.processClientRequest, modifyClient, absent]
  rfl

theorem taking_registered {client : Client} {parsed : Parsed} (registered : server.Registered)
    (lookup : server.clients.lookup fd = some client) :
    (server.taking fd client parsed).Registered := by
  refine registered.congr rfl fun other => ?_
  rw [Server.taking]
  dsimp only
  by_cases same : other = fd
  · subst same
    rw [Finmap.lookup_insert, lookup]
    rfl
  · rw [Finmap.lookup_insert_of_ne _ same]

private theorem slaves_kept {command : Command} {slaves : List Fd}
    (stays : ∀ replId offset, command ≠ .psync replId offset) (other : Fd) :
    other ∈ slaves ↔
      other ∈ slaves ∨ other = fd ∧ ∃ replId offset, command = .psync replId offset := by
  refine ⟨.inl, fun held => held.resolve_right ?_⟩
  rintro ⟨-, replId, offset, same⟩
  exact stays replId offset same

/-- What the replication manager registers: the client of a first PSYNC. -/
theorem handle_registered {client : Client} {command : Command} {managed : Handled}
    (registered : server.Registered) (lookup : server.clients.lookup fd = some client)
    (managing : server.handle fd client machine command = some managed) :
    managed.server.Registered ∧ ∀ other, other ∈ managed.server.slaveConnections ↔
      other ∈ server.slaveConnections ∨ other = fd ∧ ∃ replId offset, command = .psync replId offset := by
  cases command <;> cases managing
  case info =>
    exact ⟨registered, slaves_kept (by intro _ _ same; cases same)⟩
  case replConf subcommand listeningPort capability ackOffset =>
    cases subcommand with
    | ack =>
      exact ⟨registered.congr rfl fun other => flags_modifyClient fun _ => rfl,
        slaves_kept (by intro _ _ same; cases same)⟩
    | _ =>
      exact ⟨registered, slaves_kept (by intro _ _ same; cases same)⟩
  case psync replId offset =>
    rw [handlePsync]
    have flag := registered.flagged fd
    rw [lookup, Option.any_some] at flag
    split
    · rename_i already
      refine ⟨registered, fun other => ⟨.inl, fun held => held.elim id fun both => ?_⟩⟩
      rw [both.1]
      exact flag.mpr already
    · rename_i fresh
      have absent : fd ∉ server.slaveConnections := fun inside => fresh (flag.mp inside)
      refine ⟨⟨?_, fun other => ?_⟩, fun other => ?_⟩
      · exact List.nodup_append.mpr ⟨registered.nodup, List.nodup_singleton fd, fun one inside two same => by
          rw [List.mem_singleton.mp same]
          exact fun equal => absent (equal ▸ inside)⟩
      · dsimp only
        rw [List.mem_append, List.mem_singleton, lookup_modifyClient]
        by_cases same : fd = other
        · subst same
          rw [lookup, if_pos rfl]
          simp
        · rw [if_neg same, Option.map_id, id, registered.flagged other]
          exact ⟨fun held => held.resolve_right (Ne.symm same), .inl⟩
      · dsimp only
        rw [List.mem_append, List.mem_singleton]
        exact or_congr Iff.rfl ⟨fun same => ⟨same, replId, offset, rfl⟩, fun both => both.1⟩
  case wait numReplica timeout =>
    rw [handleWait]
    dsimp only
    split
    · exact ⟨registered, slaves_kept (by intro _ _ same; cases same)⟩
    · split
      · exact ⟨registered, slaves_kept (by intro _ _ same; cases same)⟩
      · exact ⟨registered.congr rfl fun _ => rfl,
          slaves_kept (by intro _ _ same; cases same)⟩

/-- An event is the PSYNC of a connection. -/
def Registers (server : Server) (event : Event) (fd : Fd) : Prop :=
  ∃ parsed replId offset, requestIn server event = some (fd, parsed) ∧
    parsed.command = .psync replId offset

/-- The replication manager leaves the database and the master as they are. -/
theorem handle_frame {client : Client} {command : Command} {managed : Handled}
    (managing : server.handle fd client machine command = some managed) :
    managed.server.db = server.db ∧
      managed.server.masterConnection = server.masterConnection := by
  cases command <;> cases managing
  case info => exact ⟨rfl, rfl⟩
  case replConf subcommand _ _ _ => cases subcommand <;> exact ⟨rfl, rfl⟩
  case psync =>
    rw [handlePsync]
    split <;> exact ⟨rfl, rfl⟩
  case wait =>
    rw [handleWait]
    dsimp only
    split
    · exact ⟨rfl, rfl⟩
    · split <;> exact ⟨rfl, rfl⟩

theorem serve_registered {client : Client} {command : Command} {bytesProcessed : Nat}
    (registered : server.Registered) (lookup : server.clients.lookup fd = some client)
    (ran : server.serve fd client machine command bytesProcessed = .ok handled) :
    handled.server.Registered ∧ handled.server.masterConnection = server.masterConnection ∧
      ∀ other, other ∈ handled.server.slaveConnections ↔
        other ∈ server.slaveConnections ∨ other = fd ∧ ∃ replId offset, command = .psync replId offset := by
  rcases serve_cases ran with ⟨managed, managing, -, after⟩ |
    ⟨executed, server₁, propagated, notManaged, -, passing, -, after⟩
  · obtain ⟨kept, slaves⟩ := handle_registered registered lookup managing
    rw [after]
    refine ⟨kept.congr rfl fun other => flags_applyToClients fd other _ _, ?_, slaves⟩
    exact (handle_frame managing).2
  · have kept : server₁.slaveConnections = server.slaveConnections ∧
        server₁.clients = server.clients ∧ server₁.masterConnection = server.masterConnection := by
      rcases handlePropagate_cases passing with ⟨rfl, -, -⟩ | ⟨one, raw, -, -, -, -, rfl, -⟩ <;>
        exact ⟨rfl, rfl, rfl⟩
    rw [after]
    refine ⟨registered.congr kept.1 fun other => ?_, kept.2.2, fun other => ?_⟩
    · dsimp only
      rw [flags_applyToClients, kept.2.1]
    · dsimp only
      rw [kept.1]
      refine ⟨.inl, fun held => held.elim id fun ⟨_, replId, offset, psync⟩ => ?_⟩
      rw [psync] at notManaged
      cases notManaged

/-- What the commands of the master keep of the server, reading them keeps. -/
theorem receiveMaster_runs (invariant : Server → Prop)
    (runs : ∀ server c rdbFilePath envs executed fd, invariant server →
      execute server.db c rdbFilePath envs = .ok executed → invariant { server with
        db := executed.db
        acl := executed.acl
        clients := applyToClients fd executed.effects server.clients })
    (connected : ∀ server slave, invariant server →
      invariant { server with masterConnection := some slave })
    {data : Bytes} {machines : List Machine}
    (ran : server.step (.receiveMaster data machines) = .ok handled) (held : invariant server) :
    invariant handled.server := by
  rw [Server.step, Server.handleMasterRead] at ran
  split at ran
  · cases ran
    exact held
  · rename_i slave connection
    obtain ⟨⟨slave', server', machines', effects⟩, read, ran⟩ := exec_bind_ok.mp ran
    cases ran
    refine connected _ _ (@SlaveReplicationClient.processReadBuffer_keeps _ _ _ _ _ _
      (fun state : Server × List Machine × List Effect => invariant state.1) ?_ read held)
    rintro client command ⟨server, machines, effects⟩ client' state' held executing
    unfold Server.executeReplicated at executing
    cases machines with
    | nil => cases executing
    | cons machine machines =>
      obtain ⟨executed, run, executing⟩ := exec_bind_ok.mp executing
      obtain ⟨there, -, executing⟩ := exec_bind_ok.mp executing
      cases executing
      exact runs server _ _ _ executed _ held run

theorem receiveMaster_keeps (invariant : Server → Prop)
    (runs : ∀ server db acl fd effects, invariant server → invariant { server with
      db := db
      acl := acl
      clients := applyToClients fd effects server.clients })
    (connected : ∀ server slave, invariant server →
      invariant { server with masterConnection := some slave })
    {data : Bytes} {machines : List Machine}
    (ran : server.step (.receiveMaster data machines) = .ok handled) (held : invariant server) :
    invariant handled.server :=
  receiveMaster_runs invariant (fun server _ _ _ executed fd held _ =>
    runs server executed.db executed.acl fd executed.effects held) connected ran held

theorem loaded_reachable {db : DB} (loaded : db.Loaded) : db.Reachable := by
  induction loaded with
  | empty => exact .empty
  | set key value _ reached => exact .loaded key value reached
  | setWithExpiry systemNow steadyNow key value expiry _ reached =>
    exact .loadedWithExpiry systemNow steadyNow key value expiry reached

/-- The database of a server is one that the runs of a database reach. -/
theorem server_db_reachable (reached : server.Reachable) : server.db.Reachable := by
  induction reached with
  | start starts =>
    cases starts with
    | master loaded => exact loaded_reachable loaded
    | replica loaded => exact loaded_reachable loaded
  | @step server event handled _ ran reached =>
    cases event with
    | connect fd =>
      rw [Server.step] at ran
      split at ran <;> cases ran <;> exact reached
    | receive fd data machine =>
      rcases step_receive ran with ⟨-, rfl⟩ | ⟨client, parsed, -, -, -, served⟩
      · exact reached
      · rcases serve_cases served with ⟨managed, managing, -, after⟩ |
          ⟨executed, server₁, propagated, -, run, passing, -, after⟩
        · rw [after]
          exact (handle_frame managing).1.symm ▸ reached
        · have kept : server₁.db = executed.db := by
            rcases handlePropagate_cases passing with ⟨rfl, -, -⟩ | ⟨one, raw, -, -, -, -, rfl, -⟩ <;>
              rfl
          rw [after]
          exact kept.symm ▸ .executed reached run
    | close fd data =>
      cases ran
      exact reached
    | send fd count =>
      cases ran
      exact reached
    | expire machine =>
      cases ran
      exact .swept _ reached
    | receiveMaster data machines =>
      exact receiveMaster_runs (fun server => server.db.Reachable)
        (fun _ _ _ _ _ _ held run => .executed held run) (fun _ _ held => held) ran reached
    | endMaster data =>
      cases ran
      exact reached
    | sendMaster =>
      cases ran
      exact reached

/-- Every event keeps the registration, and only PSYNC adds to it. A master
stays a master. -/
theorem step_registered (registered : server.Registered)
    (ran : server.step event = .ok handled) :
    handled.server.Registered ∧
      (server.masterConnection = none → handled.server.masterConnection = none) ∧
      ∀ other, other ∈ handled.server.slaveConnections ↔
        other ∈ server.slaveConnections ∨ Registers server event other := by
  have calm (quiet : requestIn server event = none) (other : Fd) :
      other ∈ server.slaveConnections ↔
        other ∈ server.slaveConnections ∨ Registers server event other := by
    refine ⟨.inl, fun held => held.elim id fun ⟨parsed, _, _, request, _⟩ => ?_⟩
    rw [quiet] at request
    cases request
  cases event with
  | connect fd =>
    rw [Server.step] at ran
    split at ran
    · cases ran
      exact ⟨registered, id, calm rfl⟩
    · rename_i fresh
      cases ran
      refine ⟨registered.congr rfl fun other => ?_, id, calm rfl⟩
      rw [Server.onNewConnection]
      dsimp only
      by_cases same : other = fd
      · subst same
        rw [Finmap.lookup_insert]
        have absent : server.clients.lookup other = none := by
          simpa [Server.alive] using fresh
        rw [absent]
        rfl
      · rw [Finmap.lookup_insert_of_ne _ same]
  | receive fd data machine =>
    rcases step_receive ran with ⟨absent, rfl⟩ | ⟨client, parsed, lookup, read, request, served⟩
    · refine ⟨registered, id, calm ?_⟩
      rw [requestIn, absent]
    · have lookup₁ : (server.taking fd client parsed).clients.lookup fd =
          some { client with readBuffer := parsed.readBuffer } := Finmap.lookup_insert _
      obtain ⟨kept, same, slaves⟩ :=
        serve_registered (taking_registered registered lookup) lookup₁ served
      refine ⟨kept, same.trans, fun other => (slaves other).trans (or_congr Iff.rfl ?_)⟩
      constructor
      · rintro ⟨rfl, replId, offset, psync⟩
        exact ⟨parsed, replId, offset, request, psync⟩
      · rintro ⟨parsed', replId, offset, request', psync⟩
        rw [request] at request'
        cases request'
        exact ⟨rfl, replId, offset, psync⟩
  | close fd data =>
    cases ran
    exact ⟨registered.congr rfl fun other => flags_modifyClient fun _ => rfl, id, calm rfl⟩
  | send fd count =>
    cases ran
    exact ⟨registered.congr rfl fun other => flags_modifyClient fun _ => rfl, id, calm rfl⟩
  | expire machine =>
    cases ran
    exact ⟨registered.congr rfl fun other => flags_applyToClients 0 other _ _, id, calm rfl⟩
  | receiveMaster data machines =>
    obtain ⟨kept, slaves⟩ := receiveMaster_keeps
      (fun after => after.Registered ∧ after.slaveConnections = server.slaveConnections)
      (fun after db acl fd effects held =>
        ⟨held.1.congr rfl fun other => flags_applyToClients fd other _ _, held.2⟩)
      (fun after slave held => ⟨held.1.congr rfl fun _ => rfl, held.2⟩) ran ⟨registered, rfl⟩
    refine ⟨kept, fun master => ?_, slaves ▸ calm rfl⟩
    rw [Server.step, Server.handleMasterRead, master] at ran
    cases ran
    exact master
  | endMaster data =>
    cases ran
    refine ⟨registered.congr rfl fun _ => rfl, fun master => ?_, calm rfl⟩
    rw [Server.handleMasterEnd, master]
    rfl
  | sendMaster =>
    cases ran
    refine ⟨registered.congr rfl fun _ => rfl, fun master => ?_, calm rfl⟩
    rw [Server.handleMasterWrite, master]
    rfl

theorem appended_append (served fd : Fd) (first second : List Effect) :
    appended served fd (first ++ second) = appended served fd first ++ appended served fd second :=
  List.flatMap_append

/-- Without a reply to it, a connection is sent what is written to it. -/
theorem appended_writes {served fd : Fd} {effects : List Effect}
    (silent : served = fd → repliedBytes effects = []) :
    appended served fd effects =
      (writes effects).flatMap fun one => if one.1 = fd then one.2 else [] := by
  induction effects with
  | nil => rfl
  | cons effect rest ih =>
    rw [appended, List.flatMap_cons, writes, List.filterMap_cons]
    rw [appended] at ih
    rw [writes] at ih
    have later : served = fd → repliedBytes rest = [] := by
      intro same
      have both := silent same
      rw [repliedBytes, List.flatMap_cons] at both
      exact (List.append_eq_nil_iff.mp both).2
    rw [ih later]
    cases effect with
    | write other bytes => rfl
    | reply bytes =>
      dsimp only
      split
      · rename_i same
        have both := silent same
        rw [repliedBytes, List.flatMap_cons] at both
        have empty : bytes = [] := (List.append_eq_nil_iff.mp both).1
        rw [empty]
        rfl
      · rfl
    | _ => rfl

/-- A connection that nothing is written to. -/
theorem appended_nothing {served fd : Fd} {effects : List Effect}
    (silent : served = fd → repliedBytes effects = []) (others : ∀ one ∈ writes effects, one.1 ≠ fd) :
    appended served fd effects = [] := by
  rw [appended_writes silent]
  exact List.flatMap_eq_nil_iff.mpr fun one member => if_neg (others one member)

theorem appended_reply {served fd : Fd} (different : served ≠ fd) (bytes : Bytes) :
    appended served fd [.reply bytes] = [] := by
  rw [appended, List.flatMap_singleton]
  exact if_neg different

/-- One frame to every replica is one frame to each. -/
theorem appended_frame {slaves : List Fd} (nodup : slaves.Nodup) (served fd : Fd) (frame : Bytes) :
    appended served fd (slaves.map fun slave => .write slave frame) =
      if fd ∈ slaves then frame else [] := by
  induction slaves with
  | nil => rfl
  | cons slave rest ih =>
    obtain ⟨fresh, nodup⟩ := List.nodup_cons.mp nodup
    rw [List.map_cons, appended, List.flatMap_cons]
    rw [appended] at ih
    rw [ih nodup]
    dsimp only
    by_cases same : slave = fd
    · subst same
      rw [if_pos rfl, if_neg fresh, if_pos List.mem_cons_self, List.append_nil]
    · rw [if_neg same, List.nil_append]
      simp only [List.mem_cons, Ne.symm same, false_or]

/-- The frame that a command is to the replicas: a write command is passed on
unless a transaction queues it, and a WAIT that has to wait asks for
acknowledgements. -/
def Server.frame (server : Server) (multi : Bool) : Command → Bytes
  | .wait numReplica _ =>
    if server.config.offset = 0 ∨
        numReplica ≤ ackedReplicas server.clients server.slaveConnections (i64 server.config.offset)
    then [] else getackCmd
  | command => if command.isWriteCommand ∧ !multi then command.toResp.toOption.getD [] else []

/-- What an event puts on the stream of the replicas. -/
def Server.streamed (server : Server) (event : Event) : Bytes :=
  match requestIn server event with
  | none => []
  | some (fd, parsed) =>
    server.frame ((server.clients.lookup fd).any Client.multi) parsed.command

/-- A request to acknowledge an offset. -/
def Command.IsAck (command : Command) : Prop :=
  ∃ listeningPort capability ackOffset,
    command = .replConf .ack listeningPort capability ackOffset

theorem ackedReplicas_taking {client : Client} {parsed : Parsed} {slaves : List Fd} {offset : Int}
    (lookup : server.clients.lookup fd = some client) :
    ackedReplicas (server.taking fd client parsed).clients slaves offset =
      ackedReplicas server.clients slaves offset := by
  rw [ackedReplicas, ackedReplicas]
  congr 1
  refine List.filter_congr fun slave _ => ?_
  rw [Server.taking]
  dsimp only
  by_cases same : slave = fd
  · subst same
    rw [Finmap.lookup_insert, lookup]
    rfl
  · rw [Finmap.lookup_insert_of_ne _ same]

theorem frame_taking {client : Client} {parsed : Parsed} {multi : Bool} {command : Command}
    (lookup : server.clients.lookup fd = some client) :
    (server.taking fd client parsed).frame multi command = server.frame multi command := by
  cases command <;> first | rfl | skip
  rw [Server.frame, ackedReplicas_taking lookup]
  rfl

theorem checkBlockedWaitClients_silent (clients : Map Fd Client) (slaves : List Fd)
    (waiting : List BlockedWaitClient) :
    repliedBytes (checkBlockedWaitClients clients slaves waiting).1 = [] := by
  induction waiting with
  | nil => rfl
  | cons blocked rest ih =>
    rw [checkBlockedWaitClients]
    dsimp only
    split
    · exact ih
    · split <;> exact ih

theorem frame_of_reading {multi : Bool} {command : Command} (reads : command.isWriteCommand = false)
    (noWait : ∀ numReplica timeout, command ≠ .wait numReplica timeout) :
    server.frame multi command = [] := by
  unfold Server.frame
  split
  · exact absurd rfl (noWait _ _)
  · rw [reads]
    exact if_neg fun both => Bool.false_ne_true both.1

theorem frame_of_queued {command : Command}
    (noWait : ∀ numReplica timeout, command ≠ .wait numReplica timeout) :
    server.frame true command = [] := by
  unfold Server.frame
  split
  · exact absurd rfl (noWait _ _)
  · exact if_neg fun both => Bool.false_ne_true both.2

/-- What the replication manager answers itself: a connection that is not
known is sent the frame of the command if it is a replica. -/
theorem handle_sent {other : Fd} {client : Client} {multi : Bool} {command : Command}
    {managed : Handled} (nodup : server.slaveConnections.Nodup) (stranger : ¬ server.Knows other)
    (quiet : other = fd → command.IsAck)
    (managing : server.handle fd client machine command = some managed) :
    appended fd other managed.effects =
      if other ∈ server.slaveConnections then server.frame multi command else [] := by
  have foreign (notAck : ¬ command.IsAck) : fd ≠ other := fun same => notAck (quiet same.symm)
  cases command <;> cases managing
  case info isReplicationArgument =>
    rw [show server.frame multi (.info isReplicationArgument) = [] from rfl, ite_self]
    exact appended_reply (foreign fun ⟨_, _, _, absent⟩ => nomatch absent) _
  case replConf subcommand listeningPort capability ackOffset =>
    rw [show server.frame multi (.replConf subcommand listeningPort capability ackOffset) = []
      from rfl, ite_self]
    cases subcommand with
    | ack =>
      refine appended_nothing (fun _ => checkBlockedWaitClients_silent _ _ _) fun one member same => ?_
      exact stranger (same ▸ .inr ((checkBlockedWaitClients_subset _ _ _).2 one member))
    | _ => exact appended_reply (foreign fun ⟨_, _, _, absent⟩ => nomatch absent) _
  case psync replId offset =>
    rw [show server.frame multi (.psync replId offset) = [] from rfl, ite_self, handlePsync_effects]
    exact appended_reply (foreign fun ⟨_, _, _, absent⟩ => nomatch absent) _
  case wait numReplica timeout =>
    have different := foreign fun ⟨_, _, _, absent⟩ => nomatch absent
    rw [handleWait]
    dsimp only
    split
    · rename_i fresh
      have none_ : server.frame multi (.wait numReplica timeout) = [] := if_pos (.inl fresh)
      rw [none_, ite_self]
      exact appended_reply different _
    · rename_i used
      split
      · rename_i enough
        have none_ : server.frame multi (.wait numReplica timeout) = [] := if_pos (.inr enough)
        rw [none_, ite_self]
        exact appended_reply different _
      · rename_i few
        have asks : server.frame multi (.wait numReplica timeout) = getackCmd :=
          if_neg (not_or.mpr ⟨used, few⟩)
        rw [asks, appended_append, appended_frame nodup]
        exact List.append_nil _

/-- Serving a request, a connection that is not known is sent the frame of the
command if it is a replica, and nothing otherwise; it may acknowledge. -/
theorem serve_sent {other : Fd} {client : Client} {command : Command} {bytesProcessed : Nat}
    (nodup : server.slaveConnections.Nodup) (stranger : ¬ server.Knows other)
    (quiet : other = fd → command.IsAck)
    (ran : server.serve fd client machine command bytesProcessed = .ok handled) :
    appended fd other handled.effects =
      if other ∈ server.slaveConnections then server.frame client.multi command else [] := by
  rcases serve_cases ran with ⟨managed, managing, effects, -⟩ |
    ⟨executed, server₁, propagated, notManaged, run, passing, effects, -⟩
  · rw [effects]
    exact handle_sent nodup stranger quiet managing
  · rw [effects, appended_append]
    have foreign : fd ≠ other := by
      intro same
      obtain ⟨_, _, _, ack⟩ := quiet same.symm
      rw [ack] at notManaged
      cases notManaged
    have inside : appended fd other executed.effects = [] := by
      refine appended_nothing (fun same => absurd same foreign) fun one member same => ?_
      rcases (execute_within run).written one member with known | own
      · exact stranger (same ▸ .inl known)
      · exact foreign (own.symm.trans same)
    have noWait : ∀ numReplica timeout, command ≠ .wait numReplica timeout := by
      intro _ _ wait
      rw [wait] at notManaged
      cases notManaged
    rw [inside, List.nil_append]
    rcases handlePropagate_cases passing with ⟨-, rfl, idle⟩ | ⟨one, raw, given, isWrite, encoded, -, -, rfl⟩
    · rcases idle with nobody | reads
      · rw [show server.slaveConnections = [] from nobody, if_neg List.not_mem_nil]
        rfl
      · have empty : server.frame client.multi command = [] := by
          cases isWrite : command.isWriteCommand with
          | false => exact frame_of_reading isWrite noWait
          | true =>
            have passed : executed.command = if client.multi then none else some command :=
              execute_write isWrite run
            cases multi : client.multi with
            | true => exact frame_of_queued noWait
            | false =>
              rw [multi] at passed
              rw [reads command passed] at isWrite
              cases isWrite
        rw [empty, ite_self]
        rfl
    · have same : one = command ∧ client.multi = false := by
        rcases execute_command run with passed | ⟨gone, -, -⟩
        · rw [passed] at given
          cases given
          refine ⟨rfl, ?_⟩
          have passed' := execute_write isWrite run
          rw [passed] at passed'
          cases multi : client.multi with
          | false => rfl
          | true =>
            have queued : (server.context fd client machine command).client.multi = true := multi
            rw [queued] at passed'
            cases passed'
        · rw [gone] at given
          cases given
      obtain ⟨rfl, plain⟩ := same
      have frame : server.frame client.multi one = raw := by
        unfold Server.frame
        split
        · exact absurd rfl (noWait _ _)
        · rw [if_pos ⟨isWrite, by rw [plain]; rfl⟩, encoded]
          rfl
      rw [frame]
      exact appended_frame nodup fd other raw

theorem expireBlockedWaitClients_silent (clients : Map Fd Client) (slaves : List Fd) (now : Int)
    (waiting : List BlockedWaitClient) :
    repliedBytes (expireBlockedWaitClients clients slaves now waiting).1 = [] := by
  induction waiting with
  | nil => rfl
  | cons blocked rest ih =>
    rw [expireBlockedWaitClients]
    dsimp only
    split
    · split <;> exact ih
    · exact ih

theorem repliedBytes_map_write (fds : List Fd) (bytes : Bytes) :
    repliedBytes (fds.map fun fd => .write fd bytes) = [] := by
  rw [repliedBytes, List.flatMap_map]
  exact List.flatMap_eq_nil_iff.mpr fun _ _ => rfl

theorem handleExpiredBlockedClients_silent (server : Server) (machine : Machine) :
    repliedBytes (server.handleExpiredBlockedClients machine).effects = [] := by
  rw [Server.handleExpiredBlockedClients]
  dsimp only
  rw [repliedBytes_append, expireBlockedWaitClients_silent, List.append_nil]
  exact repliedBytes_map_write _ _

/-- Nobody becomes known but by a request of its own that is no ACK. -/
theorem serve_stranger {other : Fd} {client : Client} {command : Command} {bytesProcessed : Nat}
    (stranger : ¬ server.Knows other) (quiet : other = fd → command.IsAck)
    (ran : server.serve fd client machine command bytesProcessed = .ok handled) :
    ¬ handled.server.Knows other := by
  intro held
  by_cases same : other = fd
  · obtain ⟨listeningPort, capability, ackOffset, rfl⟩ := quiet same
    rcases serve_cases ran with ⟨managed, managing, -, after⟩ | ⟨_, _, _, notManaged, -⟩
    · cases managing
      rw [after] at held
      refine stranger (held.imp id fun ⟨blocked, inside, this⟩ => ⟨blocked, ?_, this⟩)
      exact (checkBlockedWaitClients_subset _ _ _).1 inside
    · cases notManaged
  · exact ((serve_within ran).1 other held).elim stranger same

/-- A connection that only acknowledges in an event. -/
def OnlyAcks (server : Server) (event : Event) (fd : Fd) : Prop :=
  ∀ parsed, requestIn server event = some (fd, parsed) → parsed.command.IsAck

/-- What an event sends to a connection that is not known: its frame, if the
connection is a replica. -/
theorem step_sent (registered : server.Registered) (master : server.masterConnection = none)
    (stranger : ¬ server.Knows fd) (quiet : OnlyAcks server event fd)
    (ran : server.step event = .ok handled) :
    ¬ handled.server.Knows fd ∧ appended event.served fd handled.effects =
      if fd ∈ server.slaveConnections then server.streamed event else [] := by
  have calm (nothing : requestIn server event = none)
      (same : appended event.served fd handled.effects = []) :
      appended event.served fd handled.effects =
        if fd ∈ server.slaveConnections then server.streamed event else [] := by
    rw [Server.streamed, nothing, ite_self, same]
  cases event with
  | connect other =>
    rw [Server.step] at ran
    split at ran <;> cases ran <;> exact ⟨stranger, calm rfl rfl⟩
  | receive served data machine =>
    rcases step_receive ran with ⟨absent, rfl⟩ | ⟨client, parsed, lookup, read, request, served⟩
    · refine ⟨stranger, calm ?_ rfl⟩
      rw [requestIn, absent]
    · rename_i other
      have quiet' : fd = other → parsed.command.IsAck := fun same => by
        subst same
        exact quiet parsed request
      have stranger' : ¬ (server.taking other client parsed).Knows fd := stranger
      refine ⟨serve_stranger stranger' quiet' served, ?_⟩
      have nodup' : (server.taking other client parsed).slaveConnections.Nodup := registered.nodup
      refine (serve_sent nodup' stranger' quiet' served).trans ?_
      rw [Server.streamed, request]
      dsimp only
      rw [lookup, frame_taking lookup]
      rfl
  | close other data =>
    cases ran
    exact ⟨stranger, calm rfl rfl⟩
  | send other count =>
    cases ran
    exact ⟨stranger, calm rfl rfl⟩
  | expire machine =>
    cases ran
    obtain ⟨kept, sent⟩ := @sweep_knows server.db { machine.env with alive := server.alive }
    obtain ⟨left, answered⟩ := expireBlockedWaitClients_subset server.clients
      server.slaveConnections machine.env.clock.steady server.blockedWaitClients
    refine ⟨?_, calm rfl (appended_nothing (fun _ => ?_) fun one member same => ?_)⟩
    · rintro (known | ⟨blocked, inside, same⟩)
      · exact stranger (.inl (kept fd known))
      · exact stranger (.inr ⟨blocked, left inside, same⟩)
    · exact handleExpiredBlockedClients_silent server machine
    · rw [Server.handleExpiredBlockedClients] at member
      dsimp only at member
      rw [writes_append] at member
      rcases List.mem_append.mp member with inside | inside
      · exact stranger (same ▸ .inl (sent one inside))
      · exact stranger (same ▸ .inr (answered one inside))
  | receiveMaster data machines =>
    rw [Server.step, Server.handleMasterRead, master] at ran
    cases ran
    exact ⟨stranger, calm rfl rfl⟩
  | endMaster data =>
    cases ran
    exact ⟨stranger, calm rfl rfl⟩
  | sendMaster =>
    cases ran
    exact ⟨stranger, calm rfl rfl⟩

/-! ## Runs -/

/-- What holds of a master in every state of a run. -/
structure Server.Mastering (server : Server) : Prop where
  registered : server.Registered
  master : server.masterConnection = none

theorem Server.Mastering.step (mastering : server.Mastering) (ran : server.step event = .ok handled) :
    handled.server.Mastering :=
  let ⟨registered, master, _⟩ := step_registered mastering.registered ran
  ⟨registered, master mastering.master⟩

theorem start_mastering (starts : Server.Start server) (master : server.masterConnection = none) :
    server.Mastering := by
  refine ⟨?_, master⟩
  cases starts <;>
    exact ⟨List.nodup_nil, fun fd => iff_of_false List.not_mem_nil Bool.false_ne_true⟩

theorem Server.Leads.mastering {turns : List Turn} {last : Server}
    (leads : server.Leads turns last) (mastering : server.Mastering) : last.Mastering :=
  leads.keeps (fun _ _ _ held ran => held.step ran) mastering

/-- Through turns in which it only acknowledges, a replica that is not known
stays a replica that is not known, and it is sent the stream. -/
theorem Server.Leads.streams {turns : List Turn} {last : Server}
    (leads : server.Leads turns last) (mastering : server.Mastering)
    (inside : fd ∈ server.slaveConnections) (stranger : ¬ server.Knows fd)
    (quiet : ∀ turn ∈ turns, OnlyAcks turn.before turn.event fd) :
    fd ∈ last.slaveConnections ∧ ¬ last.Knows fd ∧
      sentIn turns fd = turns.flatMap fun turn => turn.before.streamed turn.event := by
  induction turns generalizing server with
  | nil =>
    cases leads
    exact ⟨inside, stranger, rfl⟩
  | cons turn turns ih =>
    obtain ⟨rfl, ran, leads⟩ := leads
    obtain ⟨registered, master, slaves⟩ :=
      step_registered mastering.registered ran
    obtain ⟨stranger', sent⟩ := step_sent mastering.registered mastering.master stranger
      (quiet _ List.mem_cons_self) ran
    obtain ⟨inside', last', later⟩ := ih leads ⟨registered, master mastering.master⟩
      ((slaves fd).mpr (.inl inside)) stranger'
      fun turn member => quiet turn (List.mem_cons_of_mem _ member)
    refine ⟨inside', last', ?_⟩
    rw [sentIn, List.flatMap_cons, List.flatMap_cons]
    rw [sentIn] at later
    rw [later, Turn.sent, sent, if_pos inside]

/-- The turn of a PSYNC: its replica is registered, and sent the line of the
full resynchronisation and the RDB file behind it. -/
theorem psync_sent (mastering : server.Mastering) (psync : Registers server event fd)
    (ran : server.step event = .ok handled) :
    fd ∈ handled.server.slaveConnections ∧ (¬ server.Knows fd → ¬ handled.server.Knows fd) ∧
      ∃ rdbContent, appended event.served fd handled.effects =
        fullResync server.config rdbContent := by
  obtain ⟨-, -, slaves⟩ := step_registered mastering.registered ran
  refine ⟨(slaves fd).mpr (.inr psync), ?_⟩
  obtain ⟨parsed, replId, offset, request, asked⟩ := psync
  cases event with
  | receive other data machine =>
    rcases step_receive ran with ⟨absent, rfl⟩ | ⟨client, parsed', lookup, read, request', served⟩
    · rw [requestIn, absent] at request
      cases request
    · rw [request] at request'
      cases request'
      rw [asked] at served
      rcases serve_cases served with ⟨managed, managing, effects, after⟩ | ⟨_, _, _, notManaged, -⟩
      · cases managing
        rw [effects, after]
        have kept : Server.Knows (handlePsync (server.taking fd client parsed) fd
            { client with readBuffer := parsed.readBuffer } machine.rdbFile).server fd →
              server.Knows fd := by
          rw [handlePsync]
          split <;> exact id
        refine ⟨fun stranger held => stranger (kept held), machine.rdbFile.getD emptyRdb, ?_⟩
        rw [handlePsync_effects, appended, List.flatMap_singleton]
        exact if_pos rfl
      · cases notManaged
  | _ => cases request

/-! ## Two replicas -/

/-- Replica streams agree. In every run of a master in which two replicas only
acknowledge behind their PSYNC, and neither was waiting for anything or had
subscribed to a channel when it sent it: the replica registered later is sent
the full resynchronisation, of which the earlier one gets nothing, and from
then on both are sent the same bytes, which are the frames of the requests in
the order the master executed them. -/
theorem replica_streams_agree {start : Server} (starts : Server.Start start)
    (master : start.masterConnection = none) {events : List Event} {turns : List Turn}
    (ran : start.run events = .ok turns) {before between after : List Turn} {first second : Turn}
    (order : turns = before ++ first :: (between ++ second :: after)) {earlier later : Fd}
    (firstPsync : Registers first.before first.event earlier)
    (secondPsync : Registers second.before second.event later)
    (earlierAcks : ∀ turn ∈ between ++ second :: after, OnlyAcks turn.before turn.event earlier)
    (laterAcks : ∀ turn ∈ after, OnlyAcks turn.before turn.event later)
    (earlierIdle : ¬ first.before.Knows earlier) (laterIdle : ¬ second.before.Knows later) :
    (∃ rdbContent, second.sent later = fullResync second.before.config rdbContent) ∧
      second.sent earlier = [] ∧ sentIn after later = sentIn after earlier ∧
      sentIn after earlier = after.flatMap fun turn => turn.before.streamed turn.event := by
  obtain ⟨last, leads⟩ := run_leads ran
  rw [order] at leads
  obtain ⟨server₁, one, rfl, ran₁, leads⟩ := leads_append.mp leads
  obtain ⟨server₂, two, rfl, ran₂, three⟩ := leads_append.mp leads
  have mastering₁ : first.before.Mastering := one.mastering (start_mastering starts master)
  have mastering₂ : second.before.Mastering := two.mastering (mastering₁.step ran₁)
  obtain ⟨registered₁, idle₁, -⟩ := psync_sent mastering₁ firstPsync ran₁
  obtain ⟨registered₂, idle₂, rdbContent, resync⟩ := psync_sent mastering₂ secondPsync ran₂
  obtain ⟨inside, stranger, -⟩ := two.streams (mastering₁.step ran₁) registered₁
    (idle₁ earlierIdle) fun turn member => earlierAcks turn (List.mem_append_left _ member)
  obtain ⟨stranger', sent⟩ := step_sent mastering₂.registered mastering₂.master stranger
    (earlierAcks second (List.mem_append_right _ List.mem_cons_self)) ran₂
  have inside' := ((step_registered mastering₂.registered ran₂).2.2 earlier).mpr
    (.inl inside)
  obtain ⟨-, -, stream⟩ := three.streams (mastering₂.step ran₂) inside' stranger'
    fun turn member => earlierAcks turn (List.mem_append_right _ (List.mem_cons_of_mem _ member))
  obtain ⟨-, -, stream'⟩ := three.streams (mastering₂.step ran₂) registered₂ (idle₂ laterIdle) laterAcks
  refine ⟨⟨rdbContent, resync⟩, ?_, stream'.trans stream.symm, stream⟩
  rw [Turn.sent, sent, if_pos inside, Server.streamed]
  obtain ⟨parsed, replId, offset, request, asked⟩ := secondPsync
  rw [request]
  dsimp only
  rw [asked]
  rfl

/-- Two connections register, and a third one sets a key. -/
def registerThenSet : List Event := [.connect 1, .connect 2, .connect 3] ++
  requests [(1, ["PSYNC", "?", "-1"]), (2, ["PSYNC", "?", "-1"]), (3, ["SET", "k", "v"])]

/-- A connection subscribes before it registers, and is sent a message. -/
def subscribeThenRegister : List Event := [.connect 1, .connect 2, .connect 3] ++
  requests [(1, ["SUBSCRIBE", "c"]), (1, ["PSYNC", "?", "-1"]), (2, ["PSYNC", "?", "-1"]),
    (3, ["PUBLISH", "c", "m"])]

private theorem registers_of_type {server : Server} {event : Event} {fd : Fd}
    (psync : (requestIn server event).map (fun one => (one.1, one.2.command.commandType)) =
      some (fd, .psync)) : Registers server event fd := by
  cases request : requestIn server event with
  | none =>
    rw [request] at psync
    cases psync
  | some one =>
    obtain ⟨other, parsed⟩ := one
    rw [request] at psync
    have both := Option.some.inj psync
    obtain rfl : other = fd := congrArg Prod.fst both
    have type : parsed.command.commandType = .psync := congrArg Prod.snd both
    cases asked : parsed.command <;> rw [asked] at type <;> cases type
    exact ⟨parsed, _, _, request, asked⟩

private theorem onlyAcks_of_others {turns : List Turn} {fd : Fd}
    (others : (turns.all fun turn =>
      (requestIn turn.before turn.event).map Prod.fst ≠ some fd) = true) :
    ∀ turn ∈ turns, OnlyAcks turn.before turn.event fd := by
  intro turn member parsed request
  have other := of_decide_eq_true (List.all_eq_true.mp others turn member)
  exact absurd (congrArg (Option.map Prod.fst) request) other

private theorem split_two {turns : List Turn} {n : Nat} (enough : n + 1 < turns.length) :
    turns = turns.take n ++ turns[n] :: ([] ++ turns[n + 1] :: turns.drop (n + 2)) := by
  rw [List.nil_append, ← List.drop_eq_getElem_cons enough, ← List.drop_eq_getElem_cons (by omega),
    List.take_append_drop]

private theorem registerThenSet_turns : 3 + 1 < (turnsOf registerThenSet).length := by
  decide +kernel

theorem replica_streams_agree_set :
    sentIn ((turnsOf registerThenSet).drop 5) 2 = sentIn ((turnsOf registerThenSet).drop 5) 1 ∧
      sentIn ((turnsOf registerThenSet).drop 5) 1 =
        encodeBulkStringArray [ascii "SET", ascii "k", ascii "v"] :=
  ⟨(replica_streams_agree (.master .empty {}) rfl
    (exec_getD [] (by decide +kernel : (Server.run {} registerThenSet).isOk = true))
    (split_two registerThenSet_turns) (registers_of_type (by decide +kernel))
    (registers_of_type (by decide +kernel)) (onlyAcks_of_others (by decide +kernel))
    (onlyAcks_of_others (by decide +kernel)) (stranger_of_idle (by decide +kernel) 1)
    (stranger_of_idle (by decide +kernel) 2)).2.2.1, by decide +kernel⟩

private theorem subscribeThenRegister_turns : 4 + 1 < (turnsOf subscribeThenRegister).length := by
  decide +kernel

/-- A replica that had subscribed before is sent messages among the frames. -/
theorem replica_streams_differ : ¬ ∀ {start : Server} (_ : Server.Start start)
    (_ : start.masterConnection = none) {events : List Event} {turns : List Turn}
    (_ : start.run events = .ok turns) {before between after : List Turn} {first second : Turn}
    (_ : turns = before ++ first :: (between ++ second :: after)) {earlier later : Fd}
    (_ : Registers first.before first.event earlier)
    (_ : Registers second.before second.event later)
    (_ : ∀ turn ∈ between ++ second :: after, OnlyAcks turn.before turn.event earlier)
    (_ : ∀ turn ∈ after, OnlyAcks turn.before turn.event later),
    sentIn after later = sentIn after earlier := by
  intro claim
  have same : sentIn ((turnsOf subscribeThenRegister).drop 6) 2 =
      sentIn ((turnsOf subscribeThenRegister).drop 6) 1 := claim (.master .empty {}) rfl
    (exec_getD [] (by decide +kernel : (Server.run {} subscribeThenRegister).isOk = true))
    (split_two subscribeThenRegister_turns) (registers_of_type (by decide +kernel))
    (registers_of_type (by decide +kernel)) (onlyAcks_of_others (by decide +kernel))
    (onlyAcks_of_others (by decide +kernel))
  exact absurd same (by decide +kernel)

end CarrotDb
