import CarrotDb.Replication

/-! `server.cpp`: what the event loop does to the state of the server, one
event at a time. A read event hands all bytes that have arrived to the client's
read buffer and then handles one request, unless the end of the file comes
behind the bytes. -/
namespace CarrotDb
open Resp

/-- `isBlocked`. -/
def isBlocked (effects : List Effect) : Bool :=
  effects.any fun
    | .block => true
    | _ => false

/-- `unblocked_client_fd`, which holds the last client it was set to. -/
def unblockedClientFd (effects : List Effect) : Option Fd :=
  (effects.filterMap fun
    | .unblock fd => some fd
    | _ => none).getLast?

/-- `ready_to_write_clients`. -/
def readyToWriteClients (effects : List Effect) : List Fd :=
  effects.filterMap fun
    | .ready fd => some fd
    | _ => none

namespace Server

/-- A client that has connected exists from then on. -/
def alive (server : Server) (fd : Fd) : Bool := (server.clients.lookup fd).isSome

/-- The context `processClientRequest` makes for a client and its command. -/
def context (server : Server) (fd : Fd) (client : Client) (machine : Machine) (command : Command) :
    Context :=
  ⟨fd, client, command, server.acl, { machine.env with alive := server.alive }⟩

/-- The replicas that `propagateAndNotifySlaves` flushes. -/
def pendingSlaves (server : Server) : List Fd :=
  server.slaveConnections.filter fun fd =>
    (server.clients.lookup fd).any fun slave => slave.writeBuffer ≠ []

/-- A request behind the parser: answered by the replication manager, or run
on the database and passed on. -/
def dispatch (server : Server) (fd : Fd) (client : Client) (machine : Machine) (command : Command)
    (bytesProcessed : Nat) : Exec Handled :=
  match server.handle fd client machine command with
  | some handled =>
    pure { handled with
      server.clients := applyToClients fd handled.effects handled.server.clients }
  | none => do
    let queue := machine.queue.map fun env => { env with alive := server.alive }
    let executed ← execute server.db (server.context fd client machine command)
      server.config.rdbFilePath queue
    let (server, propagated) ← handlePropagate
      { server with db := executed.db, acl := executed.acl } executed.command bytesProcessed
    let effects := executed.effects ++ propagated
    let server := { server with clients := applyToClients fd effects server.clients }
    pure ⟨server, effects, server.pendingSlaves⟩

/-- `processClientRequest` behind the parser: the request, and the connections
it flushes at the end. -/
def serve (server : Server) (fd : Fd) (client : Client) (machine : Machine) (command : Command)
    (bytesProcessed : Nat) : Exec Handled := do
  let handled ← server.dispatch fd client machine command bytesProcessed
  let flushed := (if isBlocked handled.effects then [] else [fd]) ++
    ((unblockedClientFd handled.effects).toList ++ readyToWriteClients handled.effects).filter
      handled.server.alive
  pure { handled with flushed := handled.flushed ++ flushed }

/-- `processClientRequest`. -/
def processClientRequest (server : Server) (fd : Fd) (machine : Machine) : Exec Handled :=
  match server.clients.lookup fd with
  | none => pure ⟨server, [], []⟩
  | some client => do
    let parsed ← parseCommand client.readBuffer
    let client := { client with readBuffer := parsed.readBuffer }
    serve { server with clients := server.clients.insert fd client } fd client machine
      parsed.command parsed.bytesProcessed

/-- `TcpConnection::handleRead`, with the bytes it reads before `EAGAIN`. -/
def handleRead (server : Server) (fd : Fd) (data : Bytes) (machine : Machine) : Exec Handled :=
  processClientRequest { server with
    clients := modifyClient server.clients fd fun client =>
      { client with readBuffer := client.readBuffer ++ data } } fd machine

/-- `TcpConnection::handleRead` where the end of the file or an error comes
behind the bytes it reads: the handler is removed, and no request is handled. -/
def handleClose (server : Server) (fd : Fd) (data : Bytes) : Server :=
  { server with
    clients := modifyClient server.clients fd fun client =>
      { client with readBuffer := client.readBuffer ++ data } }

/-- `TcpConnection::handleWrite`, with the number of bytes it writes. -/
def handleWrite (server : Server) (fd : Fd) (count : Nat) : Server :=
  { server with
    clients := modifyClient server.clients fd fun client =>
      { client with writeBuffer := client.writeBuffer.drop count } }

/-- `onNewConnection`. -/
def onNewConnection (server : Server) (fd : Fd) : Server :=
  let isAuthenticated := (server.acl.getUser (ascii "default")).any fun user =>
    user.nopass || user.passwords.isEmpty
  { server with
    clients := server.clients.insert fd { user := some (ascii "default"), isAuthenticated } }

/-- The clients that effects are written to. -/
def writtenTo (effects : List Effect) : List Fd :=
  effects.filterMap fun
    | .write fd _ => some fd
    | _ => none

/-- `handle_expired_blocked_clients`. -/
def handleExpiredBlockedClients (server : Server) (machine : Machine) : Handled :=
  let (db, expired) :=
    checkAndExpireBlockedClients server.db { machine.env with alive := server.alive }
  let (waits, blockedWaitClients) := expireBlockedWaitClients server.clients server.slaveConnections
    machine.env.clock.steady server.blockedWaitClients
  let effects := expired ++ waits
  ⟨{ server with
      db
      clients := applyToClients 0 effects server.clients
      blockedWaitClients }, effects, writtenTo effects⟩

/-- `DB::execute` for a command that the master has sent, at the readings of
one command after another. What it does to clients of its own is kept. A
command that has moved to the queue of a transaction is gone, and its bytes
are counted through a null pointer. -/
def executeReplicated (fd : Fd) (client : Client) (command : Command)
    (state : Server × List Machine × List Effect) :
    Exec (Client × Server × List Machine × List Effect) := do
  let (server, machines, effects) := state
  match machines with
  | [] => throw .undefinedBehaviour
  | machine :: machines =>
    let queue := machine.queue.map fun env => { env with alive := server.alive }
    let executed ← execute server.db (server.context fd client machine command)
      server.config.rdbFilePath queue
    let others := executed.effects.filter fun effect => effect.target fd ≠ some fd
    let _ ← deref executed.command
    pure (applyEffects fd fd executed.effects client,
      { server with
        db := executed.db
        acl := executed.acl
        clients := applyToClients fd executed.effects server.clients }, machines, effects ++ others)

/-- `MasterConnection::handleRead`, with the bytes it reads before `EAGAIN`. -/
def handleMasterRead (server : Server) (data : Bytes) (machines : List Machine) : Exec Handled :=
  match server.masterConnection with
  | none => pure ⟨server, [], []⟩
  | some slave => do
    let (slave, server, _, effects) ←
      slave.handleRead (executeReplicated slave.fd) data (server, machines, [])
    pure ⟨{ server with masterConnection := some slave }, effects, []⟩

/-- `MasterConnection::handleRead` where the end of the file comes behind the
bytes it reads: nothing is processed. -/
def handleMasterEnd (server : Server) (data : Bytes) : Server :=
  { server with
    masterConnection := server.masterConnection.map fun slave =>
      slave.withReadBuffer (slave.client.readBuffer ++ data) }

/-- `MasterConnection::handleWrite`. -/
def handleMasterWrite (server : Server) : Server :=
  { server with masterConnection := server.masterConnection.map SlaveReplicationClient.handleWrite }

end Server

/-! ## Runs -/

/-- What happens to the server. Behind `close` there are no events of the
connection any more; an error of the master's connection ends the process. -/
inductive Event where
  | connect (fd : Fd)
  | receive (fd : Fd) (data : Bytes) (machine : Machine)
  | close (fd : Fd) (data : Bytes)
  | send (fd : Fd) (count : Nat)
  | expire (machine : Machine)
  | receiveMaster (data : Bytes) (machines : List Machine)
  | endMaster (data : Bytes)
  | sendMaster

/-- The connection that an event brings bytes of. -/
def Event.reads : Event → Option Fd
  | .receive fd _ _ | .close fd _ => some fd
  | _ => none

/-- One turn of the event loop. A descriptor is given to one connection only. -/
def Server.step (server : Server) : Event → Exec Handled
  | .connect fd =>
    if server.alive fd then pure ⟨server, [], []⟩ else pure ⟨server.onNewConnection fd, [], []⟩
  | .receive fd data machine => server.handleRead fd data machine
  | .close fd data => pure ⟨server.handleClose fd data, [], []⟩
  | .send fd count => pure ⟨server.handleWrite fd count, [], []⟩
  | .expire machine => pure (server.handleExpiredBlockedClients machine)
  | .receiveMaster data machines => server.handleMasterRead data machines
  | .endMaster data => pure ⟨server.handleMasterEnd data, [], []⟩
  | .sendMaster => pure ⟨server.handleMasterWrite, [], []⟩

/-- The databases that an RDB file leaves. -/
inductive DB.Loaded : DB → Prop where
  | empty : DB.Loaded {}
  | set {db : DB} (key value : Bytes) : DB.Loaded db → DB.Loaded (db.set key value)
  | setWithExpiry {db : DB} (systemNow steadyNow : Int) (key value : Bytes) (expiry : Nat) :
    DB.Loaded db → DB.Loaded (db.setWithExpiry systemNow steadyNow key value expiry)

/-- The states a server starts in: as a master, or as a replica whose
handshake has not gone further than its first line. -/
inductive Server.Start : Server → Prop where
  | master {db : DB} (loaded : DB.Loaded db) (config : ServerConfig) :
    Server.Start { db := db, config := config }
  | replica {db : DB} (loaded : DB.Loaded db) (config : ServerConfig) (fd : Fd) (port : Nat) :
    Server.Start {
      db := db
      config := config
      masterConnection := some (SlaveReplicationClient.prepareHandshakeWrite { fd, port }) }

/-- The states a server can be in. -/
inductive Server.Reachable : Server → Prop where
  | start (starts : Server.Start server) : Reachable server
  | step (before : Reachable server) (ran : server.step event = .ok handled) :
    Reachable handled.server

/-- What has happened in a turn of the event loop. -/
structure Turn where
  before : Server
  event : Event
  handled : Handled

/-- The turns of a run. -/
def Server.run (server : Server) : List Event → Exec (List Turn)
  | [] => pure []
  | event :: events => do
    let handled ← server.step event
    let turns ← handled.server.run events
    pure (⟨server, event, handled⟩ :: turns)

/-- The request that is handled in a turn: the connection it came from, and
what the parser made of it. -/
def requestIn (server : Server) : Event → Option (Fd × Parsed)
  | .receive fd data _ =>
    match server.clients.lookup fd with
    | none => none
    | some client =>
      match parseCommand (client.readBuffer ++ data) with
      | .ok parsed => some (fd, parsed)
      | .error _ => none
  | _ => none

/-- The bytes that effects append to the write buffer of a connection, where
one connection is served. -/
def appended (served fd : Fd) (effects : List Effect) : Bytes :=
  effects.flatMap fun
    | .reply bytes => if served = fd then bytes else []
    | .write other bytes => if other = fd then bytes else []
    | _ => []

/-- The connection that an event serves. -/
def Event.served : Event → Fd
  | .receive fd _ _ => fd
  | _ => 0

/-- The bytes appended to the write buffer of a connection in a turn. -/
def Turn.sent (turn : Turn) (fd : Fd) : Bytes :=
  appended turn.event.served fd turn.handled.effects

/-- The bytes appended to the write buffer of a connection in a run. -/
def sentIn (turns : List Turn) (fd : Fd) : Bytes := turns.flatMap fun turn => turn.sent fd

end CarrotDb
