import CarrotDb.Db
import CarrotDb.CommandParser

/-! `slave-replication.cpp`: the replica's side of the replication link. The
replica answers the lines of the handshake, skips the RDB file, and then runs
the commands that arrive one after another. -/
namespace CarrotDb
open Decimal Resp

/-- `ReplicationStatus`. -/
inductive ReplicationStatus where
  | idle
  | pingSent
  | pingSentSuccess
  | replconfPortSent
  | replconfPortSuccess
  | replconfCapaSent
  | replconfCapaSuccess
  | psyncSent
  | handshakeSuccess
  deriving DecidableEq, Repr

/-- `SlaveReplicationClient`, with the descriptor of its connection. -/
structure SlaveReplicationClient where
  fd : Fd
  client : Client := {}
  replicationStatus : ReplicationStatus := .idle
  port : Nat
  isHandshakeCompleted : Bool := false
  replId : Bytes := ascii "?"
  offset : Int := -1
  bytesProcessed : Int := 0

/-- `Parser::parse_simple_string`, `none` where it fails. -/
def parseSimpleString (raw : Bytes) : Option Bytes :=
  match skipCrlf raw with
  | 43 :: line =>
    match line.dropWhile (· ≠ 13) with
    | 13 :: 10 :: _ => some (line.takeWhile (· ≠ 13))
    | _ => none
  | _ => none

/-- `find("\r\n")`. -/
def findCrlf : Bytes → Option Nat
  | [] => none
  | byte :: rest =>
    if byte = 13 ∧ rest.head? = some 10 then some 0 else (findCrlf rest).map (· + 1)

namespace SlaveReplicationClient

/-- The read buffer with another content. -/
def withReadBuffer (slave : SlaveReplicationClient) (readBuffer : Bytes) : SlaveReplicationClient :=
  { slave with client.readBuffer := readBuffer }

/-- Bytes appended to the write buffer, and the next status. -/
def sending (slave : SlaveReplicationClient) (items : List Bytes) (status : ReplicationStatus) :
    SlaveReplicationClient :=
  { slave with
    client.writeBuffer := slave.client.writeBuffer ++ encodeBulkStringArray items
    replicationStatus := status }

/-- `prepare_handshake_write`. -/
def prepareHandshakeWrite (slave : SlaveReplicationClient) : SlaveReplicationClient :=
  match slave.replicationStatus with
  | .idle => slave.sending [ascii "PING"] .pingSent
  | .pingSentSuccess =>
    slave.sending [ascii "REPLCONF", ascii "listening-port", toDecimal slave.port] .replconfPortSent
  | .replconfPortSuccess =>
    slave.sending [ascii "REPLCONF", ascii "capa", ascii "psync2"] .replconfCapaSent
  | .replconfCapaSuccess =>
    slave.sending [ascii "PSYNC", slave.replId, intToDecimal slave.offset] .psyncSent
  | _ => slave

/-- The end of the handshake, with what is left in the read buffer. -/
def completed (slave : SlaveReplicationClient) (readBuffer : Bytes) : SlaveReplicationClient :=
  { slave.withReadBuffer readBuffer with
    replicationStatus := .handshakeSuccess, isHandshakeCompleted := true }

/-- `handle_handshake_read` behind the line of the full resynchronisation: the
RDB file is skipped if it is there. Where a part of it has not come yet, the
line is gone all the same. -/
def skipRdb (slave : SlaveReplicationClient) (buffer : Bytes) : SlaveReplicationClient :=
  match buffer with
  | 36 :: tail =>
    match findCrlf tail with
    | none => slave.withReadBuffer buffer
    | some digits =>
      let (isNumber, rdbLength) := convertPositiveStringToNumber (tail.take digits)
      if isNumber then
        let rdbEnd := u64 (digits + 1 + 2 + rdbLength)
        if rdbEnd > buffer.length then slave.withReadBuffer buffer
        else slave.completed (buffer.drop rdbEnd)
      else slave.completed buffer
  | _ => slave.completed buffer

/-- `handle_handshake_read`. -/
def handleHandshakeRead (slave : SlaveReplicationClient) : SlaveReplicationClient :=
  match parseSimpleString slave.client.readBuffer with
  | none => slave
  | some response =>
    let answered (status : ReplicationStatus) : SlaveReplicationClient :=
      prepareHandshakeWrite { slave.withReadBuffer [] with replicationStatus := status }
    if slave.replicationStatus = .pingSent ∧ isEqual response (ascii "PONG") then
      answered .pingSentSuccess
    else if slave.replicationStatus = .replconfPortSent ∧ isEqual response (ascii "OK") then
      answered .replconfPortSuccess
    else if slave.replicationStatus = .replconfCapaSent ∧ isEqual response (ascii "OK") then
      answered .replconfCapaSuccess
    else if slave.replicationStatus = .psyncSent then
      match findCrlf slave.client.readBuffer with
      | none => slave
      | some fullresyncEnd => slave.skipRdb (slave.client.readBuffer.drop (fullresyncEnd + 2))
    else slave.withReadBuffer []

/-- The answer to GETACK: the bytes processed before it. -/
def acknowledge (slave : SlaveReplicationClient) (parsed : Parsed) : SlaveReplicationClient :=
  { slave with
    client.readBuffer := parsed.readBuffer
    client.writeBuffer := encodeBulkStringArray
      [ascii "REPLCONF", ascii "ACK", intToDecimal slave.bytesProcessed]
    bytesProcessed := i64 (slave.bytesProcessed + parsed.bytesProcessed) }

/-- What is left of a command that has been run and is still there: the replies
are dropped, and its bytes are counted. -/
def processed (slave : SlaveReplicationClient) (client : Client) (parsed : Parsed) :
    SlaveReplicationClient :=
  { slave with
    client := { client with writeBuffer := [] }
    bytesProcessed := i64 (slave.bytesProcessed + parsed.bytesProcessed) }

/-- The loop of `process_commands`, with `DB::execute` as a parameter and a
bound on its rounds: every command that is known takes bytes off the buffer. -/
def processCommandsFrom (execute : Client → Command → σ → Exec (Client × σ)) :
    (rounds : Nat) → SlaveReplicationClient → σ → Exec (SlaveReplicationClient × σ)
  | 0, slave, state => pure (slave, state)
  | rounds + 1, slave, state =>
    if slave.client.readBuffer = [] then pure (slave, state)
    else do
      let parsed ← parseCommand slave.client.readBuffer
      match parsed.command with
      | .unknow => pure (slave.withReadBuffer parsed.readBuffer, state)
      | .replConf .getAck .. =>
        processCommandsFrom execute rounds (slave.acknowledge parsed) state
      | command => do
        let (client, state) ←
          execute { slave.client with readBuffer := parsed.readBuffer } command state
        processCommandsFrom execute rounds (slave.processed client parsed) state

/-- `process_commands`. -/
def processCommands (execute : Client → Command → σ → Exec (Client × σ))
    (slave : SlaveReplicationClient) (state : σ) : Exec (SlaveReplicationClient × σ) :=
  processCommandsFrom execute slave.client.readBuffer.length slave state

/-- `process_read_buffer`. -/
def processReadBuffer (execute : Client → Command → σ → Exec (Client × σ))
    (slave : SlaveReplicationClient) (state : σ) : Exec (SlaveReplicationClient × σ) :=
  if slave.isHandshakeCompleted then slave.processCommands execute state
  else
    let slave := slave.handleHandshakeRead
    if slave.isHandshakeCompleted then slave.processCommands execute state
    else pure (slave, state)

/-- `MasterConnection::handleRead`, with the bytes it reads before `EAGAIN`. -/
def handleRead (execute : Client → Command → σ → Exec (Client × σ)) (data : Bytes)
    (slave : SlaveReplicationClient) (state : σ) : Exec (SlaveReplicationClient × σ) :=
  (slave.withReadBuffer (slave.client.readBuffer ++ data)).processReadBuffer execute state

/-- `MasterConnection::handleWrite`, with all bytes written. -/
def handleWrite (slave : SlaveReplicationClient) : SlaveReplicationClient :=
  { slave with client.writeBuffer := [] }

end SlaveReplicationClient

end CarrotDb
