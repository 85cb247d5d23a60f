import CarrotDb.Clients
import CarrotDb.SlaveReplication

/-! `replication.cpp`: the requests the master answers itself, the clients that
wait for replicas, and the write commands passed on to them. A connection is
never closed by the server, so a client that has connected stays. -/
namespace CarrotDb
open Decimal Resp

/-- `ServerRole`. -/
inductive ServerRole where
  | master
  | slave
  deriving DecidableEq, Repr

/-- `ServerConfig`. -/
structure ServerConfig where
  role : ServerRole := .master
  replicationId : Bytes := ascii "8371b4fb1155b71f4a04d3e1bc3e18c4a990aeeb"
  offset : Nat := 0
  rdbFilePath : Bytes := []

/-- `BlockedWaitClient`. -/
structure BlockedWaitClient where
  clientFd : Fd
  timeoutAt : Int
  numReplicasNeeded : Nat
  masterOffset : Int

/-- The constructor of `BlockedWaitClient`. -/
def BlockedWaitClient.make (now : Int) (fd : Fd) (timeoutMs numReplicas : Nat) (offset : Int) :
    BlockedWaitClient :=
  ⟨fd, if timeoutMs = 0 then timePointMax else afterMilliseconds now (i64 timeoutMs), numReplicas,
    offset⟩

/-- `Server` with its `ReplicationManager`: `active_connections` and what they
lead to, `slave_connections` in the order of their registration, and on a
replica the connection to its master. -/
structure Server where
  db : DB := {}
  acl : ACLManager := .new
  config : ServerConfig := {}
  clients : Map Fd Client := ∅
  slaveConnections : List Fd := []
  blockedWaitClients : List BlockedWaitClient := []
  masterConnection : Option SlaveReplicationClient := none

/-- What the machine decides during a request: its environment, the readings
of the commands of a transaction, and the content of the RDB file if it can be
read. -/
structure Machine where
  env : Env
  queue : List Env
  rdbFile : Option Bytes

/-- `get_empty_rdb`. -/
def emptyRdb : Bytes := ascii "REDIS0011" ++ 255 :: List.replicate 8 0

/-- What a request does: the server it leaves, the bytes it appends and the
other effects on clients, in order, and the connections that `flush` is called
on meanwhile. -/
structure Handled where
  server : Server
  effects : List Effect
  flushed : List Fd

/-- `handle_info`. -/
def handleInfo (config : ServerConfig) : Bytes :=
  encodeBulkString (match config.role with
    | .master => ascii "role:master\r\n" ++ (ascii "master_replid:" ++ config.replicationId ++ crlf) ++
      (ascii "master_repl_offset:" ++ toDecimal config.offset ++ crlf)
    | .slave => ascii "role:slave\r\n")

/-- The replicas whose reported offset has reached an offset. -/
def ackedReplicas (clients : Map Fd Client) (slaves : List Fd) (offset : Int) : Nat :=
  (slaves.filter fun fd => (clients.lookup fd).any fun slave => offset ≤ slave.replicaOffset).length

/-- `check_blocked_wait_clients`: the answers, and who waits on. -/
def checkBlockedWaitClients (clients : Map Fd Client) (slaves : List Fd) :
    List BlockedWaitClient → List Effect × List BlockedWaitClient
  | [] => ([], [])
  | blocked :: rest =>
    let (effects, still) := checkBlockedWaitClients clients slaves rest
    if (clients.lookup blocked.clientFd).isNone then (effects, still)
    else
      let acked := ackedReplicas clients slaves blocked.masterOffset
      if blocked.numReplicasNeeded ≤ acked then
        (.write blocked.clientFd (encodeInteger acked) :: .unblock blocked.clientFd :: effects, still)
      else (effects, blocked :: still)

/-- `handle_replconf`. -/
def handleReplconf (server : Server) (fd : Fd) (subcommand : ReplConfType) (ackOffset : Int) :
    Handled :=
  match subcommand with
  | .ack =>
    let clients := modifyClient server.clients fd fun client =>
      { client with replicaOffset := ackOffset }
    let (effects, blockedWaitClients) :=
      checkBlockedWaitClients clients server.slaveConnections server.blockedWaitClients
    ⟨{ server with clients, blockedWaitClients }, effects, []⟩
  | _ => ⟨server, [.reply (encodeSimpleString (ascii "OK"))], []⟩

/-- The answer to PSYNC: the line of the full resynchronisation, and the RDB
file without a line end behind it. -/
def fullResync (config : ServerConfig) (rdbContent : Bytes) : Bytes :=
  encodeSimpleString (ascii "FULLRESYNC " ++ config.replicationId ++ ascii " 0") ++
    (36 :: toDecimal rdbContent.length ++ crlf) ++ rdbContent

/-- `handle_psync`; a connection is registered once. -/
def handlePsync (server : Server) (fd : Fd) (client : Client) (rdbFile : Option Bytes) : Handled :=
  let effects := [.reply (fullResync server.config (rdbFile.getD emptyRdb))]
  if client.isSlave then ⟨server, effects, []⟩
  else
    ⟨{ server with
        clients := modifyClient server.clients fd fun client => { client with isSlave := true }
        slaveConnections := server.slaveConnections ++ [fd] }, effects, []⟩

/-- `getack_cmd`. -/
def getackCmd : Bytes := Command.respText 3 [ascii "REPLCONF", ascii "GETACK", ascii "*"]

/-- `handle_wait`. -/
def handleWait (server : Server) (fd : Fd) (now : Int) (numReplicasNeeded timeoutMs : Nat) :
    Handled :=
  let offset := i64 server.config.offset
  if server.config.offset = 0 then
    ⟨server, [.reply (encodeInteger server.slaveConnections.length)], []⟩
  else
    let alreadyAcked := ackedReplicas server.clients server.slaveConnections offset
    if numReplicasNeeded ≤ alreadyAcked then
      ⟨server, [.reply (encodeInteger alreadyAcked)], []⟩
    else
      let blocked := BlockedWaitClient.make now fd timeoutMs numReplicasNeeded offset
      ⟨{ server with blockedWaitClients := server.blockedWaitClients ++ [blocked] },
        server.slaveConnections.map (fun slave => .write slave getackCmd) ++ [.block],
        server.slaveConnections⟩

/-- `ReplicationManager::handle`, `none` where the command is left to the
database. -/
def Server.handle (server : Server) (fd : Fd) (client : Client) (machine : Machine) :
    Command → Option Handled
  | .info _ => some ⟨server, [.reply (handleInfo server.config)], []⟩
  | .replConf subcommand _ _ ackOffset => some (handleReplconf server fd subcommand ackOffset)
  | .psync .. => some (handlePsync server fd client machine.rdbFile)
  | .wait numReplica timeout =>
    some (handleWait server fd machine.env.clock.steady numReplica timeout)
  | _ => none

/-- `handle_propagate`. The command is gone if a transaction has queued it. -/
def handlePropagate (server : Server) (command : Option Command) (bytesProcessed : Nat) :
    Exec (Server × List Effect) := do
  match command with
  | none => pure (server, [])
  | some command =>
    if server.slaveConnections = [] ∨ !command.isWriteCommand then pure (server, [])
    else do
      let raw ← command.toResp
      pure ({ server with config.offset := u64 (server.config.offset + bytesProcessed) },
        server.slaveConnections.map fun fd => .write fd raw)

/-- `check_and_expire_blocked_wait_clients`: the answers, and who waits on. -/
def expireBlockedWaitClients (clients : Map Fd Client) (slaves : List Fd) (now : Int) :
    List BlockedWaitClient → List Effect × List BlockedWaitClient
  | [] => ([], [])
  | blocked :: rest =>
    let (effects, still) := expireBlockedWaitClients clients slaves now rest
    if isExpired now blocked.timeoutAt then
      if (clients.lookup blocked.clientFd).isSome then
        let acked := ackedReplicas clients slaves blocked.masterOffset
        (.write blocked.clientFd (encodeInteger acked) :: effects, still)
      else (effects, still)
    else (effects, blocked :: still)

end CarrotDb
