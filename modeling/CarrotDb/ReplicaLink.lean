import CarrotDb.ClientStreams
import CarrotDb.ReplicaAcks
import CarrotDb.ReplicaStreams

/-! A master and one of its replicas, with the connection between them. Both go
about their business, and what one writes the other reads some time later. Every
update the master puts on its stream reaches the replica, once and in order. -/
namespace CarrotDb
open Decimal Resp

variable {server : Server} {handled : Handled} {event : Event} {fd : Fd} {parsed : Parsed}
  {slave slave' : SlaveReplicationClient} {messages : List Message} {rounds : List Round}

/-- The message that a command is to the replicas: a write command unless a
transaction queues it, and for a WAIT that has to wait a request. -/
def Server.message (server : Server) (multi : Bool) : Command → Option Message
  | .wait numReplica _ =>
    if server.config.offset = 0 ∨
        numReplica ≤ ackedReplicas server.clients server.slaveConnections (i64 server.config.offset)
    then none else some .getAck
  | command => if command.isWriteCommand ∧ !multi then some (.write command) else none

/-- The messages of an event. -/
def Server.passed (server : Server) (event : Event) : List Message :=
  match requestIn server event with
  | none => []
  | some (fd, parsed) =>
    (server.message ((server.clients.lookup fd).any Client.multi) parsed.command).toList

theorem streamOf_single (message : Message) : streamOf [message] = message.frame.bytes := by
  rw [streamOf_cons]
  exact List.append_nil _

theorem streamOf_append (messages others : List Message) :
    streamOf (messages ++ others) = streamOf messages ++ streamOf others := by
  simp [streamOf, bytesOf]

theorem streamOf_flatten (batches : List (List Message)) :
    (batches.map streamOf).flatten = streamOf batches.flatten := by
  induction batches with
  | nil => rfl
  | cons batch batches ih =>
    rw [List.map_cons, List.flatten_cons, ih, List.flatten_cons, streamOf_append]

theorem frame_message (multi : Bool) (command : Command) :
    server.frame multi command = streamOf (server.message multi command).toList := by
  by_cases waits : ∃ numReplica timeout, command = .wait numReplica timeout
  · obtain ⟨numReplica, timeout, rfl⟩ := waits
    rw [Server.frame, Server.message]
    split
    · rfl
    · exact getAck_bytes.symm.trans (streamOf_single .getAck).symm
  · have other : server.frame multi command =
        (if command.isWriteCommand ∧ !multi then command.toResp.toOption.getD [] else []) ∧
        server.message multi command =
          if command.isWriteCommand ∧ !multi then some (.write command) else none := by
      cases command <;> first | exact ⟨rfl, rfl⟩ | exact absurd ⟨_, _, rfl⟩ waits
    rw [other.1, other.2]
    split
    · rename_i passes
      rw [toResp_frame passes.1]
      exact (streamOf_single (.write command)).symm
    · rfl

/-- A request is what the parser makes of the read buffer. -/
theorem requestIn_some (request : requestIn server event = some (fd, parsed)) :
    ∃ data machine client, event = .receive fd data machine ∧
      server.clients.lookup fd = some client ∧
      parseCommand (client.readBuffer ++ data) = .ok parsed := by
  cases event with
  | receive other data machine =>
    rw [requestIn] at request
    split at request
    · cases request
    · rename_i client lookup
      split at request
      · rename_i read
        cases request
        exact ⟨data, machine, client, rfl, lookup, read⟩
      · cases request
  | _ => cases request

theorem streamed_passed (server : Server) (event : Event) :
    server.streamed event = streamOf (server.passed event) := by
  rw [Server.streamed, Server.passed]
  cases requestIn server event with
  | none => rfl
  | some request => exact frame_message _ _

theorem passed_sound : ∀ message ∈ server.passed event, message.Sound := by
  intro message member
  rw [Server.passed] at member
  cases request : requestIn server event with
  | none =>
    rw [request] at member
    cases member
  | some one =>
    obtain ⟨fd, parsed⟩ := one
    rw [request] at member
    obtain ⟨_, _, _, -, -, read⟩ := requestIn_some request
    have sent := Option.mem_toList.mp member
    unfold Server.message at sent
    split at sent
    · split at sent <;> cases sent
      trivial
    · split at sent
      · rename_i passes
        cases sent
        exact ⟨passes.1, _, _, read, rfl⟩
      · cases sent

/-- Acknowledgements of numbers of bytes, one behind the other. -/
def Acks (bytes : Bytes) : Prop :=
  ∃ counts : List Nat, bytes = counts.flatMap fun count : Nat => ackReply (i64 count)

theorem acks_nil : Acks [] := ⟨[], rfl⟩

theorem acks_one (count : Nat) : Acks (ackReply (i64 count)) :=
  ⟨[count], (List.flatMap_singleton _ _).symm⟩

theorem Acks.append {bytes others : Bytes} (acks : Acks bytes) (more : Acks others) :
    Acks (bytes ++ others) := by
  obtain ⟨counts, rfl⟩ := acks
  obtain ⟨counts', rfl⟩ := more
  exact ⟨counts ++ counts', List.flatMap_append.symm⟩

theorem acks_flatten {chunks : List Bytes} (all : ∀ chunk ∈ chunks, Acks chunk) :
    Acks chunks.flatten := by
  induction chunks with
  | nil => exact acks_nil
  | cons chunk chunks ih =>
    exact (all chunk List.mem_cons_self).append
      (ih fun other member => all other (List.mem_cons_of_mem _ member))

/-- The frame of an acknowledgement. -/
def ackFrame (offset : Bytes) : Frame := ⟨ascii "REPLCONF", [ascii "ACK", offset]⟩

theorem ackFrame_bytes (offset : Bytes) : (ackFrame offset).bytes = encodeArrayHeader 3 ++
    (encodeBulkString (ascii "REPLCONF") ++ (encodeBulkString (ascii "ACK") ++
      (encodeBulkString offset ++ []))) := rfl

/-- What it stands for. -/
theorem ackFrame_command (offset : Bytes) : ∃ command, (ackFrame offset).command = .ok command ∧
    command.IsAck := ⟨_, rfl, _, _, _, rfl⟩

theorem ackFrame_fits {offset : Bytes} (short : offset.length < 10 ^ 2) (clean : 13 ∉ offset)
    (rest : Bytes) : (ackFrame offset).Fits rest where
  small := by
    have digits := toDecimal_length_le short (by decide)
    have header : (encodeArrayHeader 3).length = 4 := by decide
    have name : (encodeBulkString (ascii "REPLCONF")).length = 14 := by decide
    have ack : (encodeBulkString (ascii "ACK")).length = 9 := by decide
    rw [ackFrame_bytes, List.length_append, List.length_append, List.length_append,
      List.length_append, header, name, ack, encodeBulkString_length, List.length_nil]
    omega
  clean := by
    intro arg member
    simp only [ackFrame, List.mem_cons, List.not_mem_nil, or_false] at member
    rcases member with rfl | rfl | rfl
    · decide
    · decide
    · exact clean
  taken := by
    have other : ¬ isEqual (ascii "REPLCONF") (ascii "GEOADD") = true := by decide
    exact ⟨show 2 < 2 ^ 31 by decide, fun absent => absurd absent other, 2, rfl, .inl rfl⟩

theorem intToDecimal_i64_length (z : Int) : (intToDecimal (i64 z)).length ≤ 20 := by
  have low : (i64 z).natAbs < 10 ^ 19 := by
    unfold i64
    have := Int.bmod_lt (x := z) (show 0 < 2 ^ 64 by decide)
    have := Int.le_bmod (x := z) (show 0 < 2 ^ 64 by decide)
    omega
  have digits := toDecimal_length_le low (by decide)
  rw [intToDecimal]
  split
  · rw [List.length_cons]
    omega
  · omega

theorem intToDecimal_clean (z : Int) : 13 ∉ intToDecimal z := by
  rw [intToDecimal]
  split
  · exact List.not_mem_cons_of_ne_of_not_mem (by decide) (not_mem_toDecimal (by decide) _)
  · exact not_mem_toDecimal (by decide) _

/-- The master reads one of them at a time. -/
theorem parse_acks {bytes : Bytes} (acks : Acks bytes) (some_ : bytes ≠ []) :
    ∃ parsed, parseCommand bytes = .ok parsed ∧ parsed.command.IsAck ∧ Acks parsed.readBuffer := by
  obtain ⟨counts, rfl⟩ := acks
  cases counts with
  | nil => exact absurd rfl some_
  | cons count counts =>
    have short : (intToDecimal (i64 count)).length < 10 ^ 2 :=
      (intToDecimal_i64_length count).trans_lt (by decide)
    obtain ⟨command, stands, read⟩ := Frame.parse_fits (ackFrame_fits short (intToDecimal_clean _)
      (counts.flatMap fun count : Nat => ackReply (i64 count)))
    obtain ⟨ack, asked, isAck⟩ := ackFrame_command (intToDecimal (i64 count))
    rw [asked] at stands
    cases stands
    exact ⟨_, read, isAck, counts, rfl⟩

/-- A round that does what a message asks for: it acknowledges, or it runs what
is read from the frame of a write command. -/
inductive Message.Done : Message → Round → Prop where
  | acknowledged (reply : Bytes) : Done .getAck (.acknowledged reply)
  | executed {command read : Command} :
    command.reread = .ok read → Done (.write command) (.executed read)

/-- Each message has its round, and what is left to write are acknowledgements. -/
theorem replays_done {before : Nat}
    (replays : SlaveReplicationClient.Replays slave messages rounds slave')
    (sound : ∀ message ∈ messages, message.Sound) (known : ∀ message ∈ messages, message.Known)
    (acks : Acks slave.client.writeBuffer) (counted : slave.bytesProcessed = i64 before) :
    List.Forall₂ Message.Done messages rounds ∧ Acks slave'.client.writeBuffer ∧
      slave'.isHandshakeCompleted = slave.isHandshakeCompleted := by
  induction replays generalizing before with
  | done empty => exact ⟨.nil, acks, rfl⟩
  | stopped stands =>
    exact absurd stands ((known_iff (sound _ List.mem_cons_self)).mp (known _ List.mem_cons_self))
  | @acknowledged slave slave' messages rounds _ ih =>
    obtain ⟨rest, left, completed⟩ := @ih (before + Message.getAck.frame.bytes.length)
      (fun message member => sound message (List.mem_cons_of_mem _ member))
      (fun message member => known message (List.mem_cons_of_mem _ member))
      (by
        show Acks (ackReply slave.bytesProcessed)
        rw [counted]
        exact acks_one before)
      (by
        show i64 (slave.bytesProcessed + _) = _
        rw [counted]
        exact SlaveReplicationClient.i64_advance before _)
    exact ⟨.cons (.acknowledged _) rest, left, completed⟩
  | @executed slave slave' command read messages rounds client stands _ _ _ ih =>
    obtain ⟨rest, left, completed⟩ := @ih (before + command.frame.bytes.length)
      (fun message member => sound message (List.mem_cons_of_mem _ member))
      (fun message member => known message (List.mem_cons_of_mem _ member)) acks_nil
      (by
        show i64 (slave.bytesProcessed + _) = _
        rw [counted]
        exact SlaveReplicationClient.i64_advance before _)
    obtain ⟨write, parsable⟩ := sound _ List.mem_cons_self
    have rereads : command.reread = .ok read := by
      rw [← frame_command write (sendable_of_parsable parsable write).fit]
      exact stands
    exact ⟨.cons (.executed rereads) rest, left, completed⟩
  | jammed many _ _ => exact absurd (sound _ List.mem_cons_self).few (not_lt.mpr many)

theorem fullResync_text (config : ServerConfig) (rdb : Bytes) : fullResync config rdb =
    encodeSimpleString (ascii "FULLRESYNC " ++ config.replicationId ++ ascii " 0") ++ rdbText rdb := by
  rw [fullResync, rdbText, List.append_assoc]

/-- The answer to PSYNC that arrives whole completes the handshake, and what
comes behind it is worked off at once. -/
theorem read_resync {data rdb : Bytes} {machines : List Machine} {config : ServerConfig}
    (connection : server.masterConnection = some slave) (awaiting : slave.Awaiting)
    (empty : slave.client.readBuffer = []) (oneLine : 13 ∉ config.replicationId)
    (arrived : data = fullResync config rdb ++ streamOf messages) (small : data.length < 2 ^ 64)
    (sound : ∀ message ∈ messages, message.Sound)
    (ran : server.step (.receiveMaster data machines) = .ok handled) :
    ∃ slave', handled.server.masterConnection = some slave' ∧
      SlaveReplicationClient.Replays ((slave.withReadBuffer data).completed (streamOf messages)) messages
        (Turn.rounds ⟨server, .receiveMaster data machines, handled⟩) slave' := by
  have line : 13 ∉ ascii "FULLRESYNC " ++ config.replicationId ++ ascii " 0" := by
    intro member
    rcases List.mem_append.mp member with member | member
    · rcases List.mem_append.mp member with member | member
      · exact absurd member (by decide)
      · exact oneLine member
    · exact absurd member (by decide)
  rw [fullResync_text, List.append_assoc] at arrived
  have lengths := congrArg List.length arrived
  rw [List.length_append] at lengths
  have read : (slave.withReadBuffer data).handleHandshakeRead =
      (slave.withReadBuffer data).completed (streamOf messages) := by
    rw [arrived, SlaveReplicationClient.read_line awaiting line,
      SlaveReplicationClient.skipRdb_whole (by omega)]
  have still : ¬ (slave.withReadBuffer data).isHandshakeCompleted = true := by
    show ¬ slave.isHandshakeCompleted = true
    rw [awaiting.open_]
    decide
  rw [Server.step, Server.handleMasterRead, connection] at ran
  dsimp only at ran
  obtain ⟨⟨slave', server', machines', effects⟩, looped, ran⟩ := exec_bind_ok.mp ran
  cases ran
  rw [SlaveReplicationClient.handleRead, empty, List.nil_append,
    SlaveReplicationClient.processReadBuffer, if_neg still, read] at looped
  dsimp only at looped
  rw [if_pos (SlaveReplicationClient.completed_done _ _)] at looped
  refine ⟨slave', rfl, ?_⟩
  have traced : Turn.rounds ⟨server, .receiveMaster data machines,
      ⟨{ server' with masterConnection := some slave' }, effects, []⟩⟩ =
        SlaveReplicationClient.roundsFrom (Server.executeReplicated slave.fd)
          (streamOf messages).length ((slave.withReadBuffer data).completed (streamOf messages))
          (server, machines, []) := by
    rw [Turn.rounds]
    dsimp only
    rw [connection]
    dsimp only
    rw [SlaveReplicationClient.roundsOf]
    rw [empty, List.nil_append, if_neg still, read, if_pos (SlaveReplicationClient.completed_done _ _)]
    rfl
  rw [traced]
  refine SlaveReplicationClient.replays_of_run (executeReplicated_readBuffer slave.fd)
    (fun message member => (sound message member).clean) rfl ?_ le_rfl looped
  rw [List.length_append] at lengths
  omega

/-! ## The connection -/

/-- A master, a replica, and what is on the way between them, as it was
written piece by piece. The write buffer of the master counts as on the way. -/
structure Link where
  master : Server
  replica : Server
  down : List Bytes := []
  up : List Bytes := []

/-- What comes about in a run: what the clients of the master have asked it, and
those of the replica the replica, the messages of the master, and the rounds of
the replica. -/
structure Link.Log where
  asked : List Command := []
  queried : List Command := []
  messages : List Message := []
  rounds : List Round := []

/-- The command an event brings a server from one of its clients. -/
def Server.asked (server : Server) (event : Event) : List Command :=
  (requestIn server event).toList.map fun request => request.2.command

/-- An event of the connection to the master. -/
def Event.Upstream : Event → Prop
  | .receiveMaster .. | .endMaster _ | .sendMaster => True
  | _ => False

/-- A run of both, in any order of their events. What one of them reads has
been written by the other before, and a read ends where a write has ended.
Neither closes the connection. -/
inductive Link.Runs (fd : Fd) (start : Link) : Link.Log → Link → Prop where
  | start : Runs fd start {} start
  | master {log : Link.Log} {link : Link} {event : Event} {handled : Handled} :
    Runs fd start log link → event.reads ≠ some fd → link.master.step event = .ok handled →
    Runs fd start { log with
      asked := log.asked ++ link.master.asked event
      messages := log.messages ++ link.master.passed event } { link with
      master := handled.server
      down := link.down ++ [appended event.served fd handled.effects] }
  | replica {log : Link.Log} {link : Link} {event : Event} {handled : Handled} :
    Runs fd start log link → ¬ event.Upstream → link.replica.step event = .ok handled →
    Runs fd start { log with queried := log.queried ++ link.replica.asked event }
      { link with replica := handled.server }
  | replicaReads {log : Link.Log} {link : Link} {count : Nat} {data : Bytes}
    {machines : List Machine} {handled : Handled} :
    Runs fd start log link → (link.down.take count).flatten = data → data ≠ [] →
    data.length < 2 ^ 64 → link.replica.step (.receiveMaster data machines) = .ok handled →
    Runs fd start { log with
      rounds := log.rounds ++
        Turn.rounds ⟨link.replica, .receiveMaster data machines, handled⟩ } { link with
      replica := handled.server
      down := link.down.drop count }
  | replicaWrites {log : Link.Log} {link : Link} {slave : SlaveReplicationClient}
    {handled : Handled} : Runs fd start log link →
    link.replica.masterConnection = some slave → link.replica.step .sendMaster = .ok handled →
    Runs fd start log { link with
      replica := handled.server
      up := link.up ++ [slave.client.writeBuffer] }
  | masterReads {log : Link.Log} {link : Link} {count : Nat} {data : Bytes} {machine : Machine}
    {handled : Handled} :
    Runs fd start log link → (link.up.take count).flatten = data → data ≠ [] →
    link.master.step (.receive fd data machine) = .ok handled →
    Runs fd start { log with
      asked := log.asked ++ link.master.asked (.receive fd data machine)
      messages := log.messages ++ link.master.passed (.receive fd data machine) } { link with
      master := handled.server
      down := link.down ++ [appended fd fd handled.effects]
      up := link.up.drop count }

/-- The master has answered the PSYNC of a replica that has sent nothing else
yet and waits for the answer. -/
structure Link.Begins (fd : Fd) (link : Link) : Prop where
  master : ∃ start turns before event handled, Server.Start start ∧ start.masterConnection = none ∧
    start.Leads turns before ∧ Registers before event fd ∧ before.step event = .ok handled ∧
    ¬ before.Knows fd ∧ 13 ∉ before.config.replicationId ∧ link.master = handled.server ∧
    link.down = [appended event.served fd handled.effects]
  drained : (link.master.clients.lookup fd).map Client.readBuffer = some []
  up : link.up = []
  replica : ∃ slave, link.replica.masterConnection = some slave ∧ slave.Awaiting ∧
    slave.client.readBuffer = [] ∧ slave.client.writeBuffer = [] ∧ slave.bytesProcessed = 0

/-- The master has its replica registered, of which it hears nothing but
acknowledgements. -/
structure Leading (fd : Fd) (master : Server) (up : List Bytes) : Prop where
  mastering : master.Mastering
  registered : fd ∈ master.slaveConnections
  stranger : ¬ master.Knows fd
  pending : ∃ pending, (master.clients.lookup fd).map Client.readBuffer = some pending ∧ Acks pending
  up : ∀ chunk ∈ up, Acks chunk

/-- An event in which the replica at most acknowledges sends it the messages of
the event. -/
theorem Leading.step {master : Server} {up up' : List Bytes} (leading : Leading fd master up)
    (quiet : OnlyAcks master event fd) (fewer : up' ⊆ up)
    (pending : ∃ pending, (handled.server.clients.lookup fd).map Client.readBuffer = some pending ∧
      Acks pending)
    (ran : master.step event = .ok handled) :
    appended event.served fd handled.effects = streamOf (master.passed event) ∧
      Leading fd handled.server up' := by
  obtain ⟨mastering, registered, stranger, -, acks⟩ := leading
  obtain ⟨stranger', sent⟩ := step_sent mastering.registered mastering.master stranger quiet ran
  obtain ⟨-, -, slaves⟩ := step_registered mastering.registered ran
  rw [if_pos registered, streamed_passed] at sent
  exact ⟨sent, mastering.step ran, (slaves fd).mpr (.inl registered), stranger', pending,
    fun chunk member => acks chunk (fewer member)⟩

/-- So do the events that are no read of its connection. -/
theorem Leading.other {master : Server} {up : List Bytes} (leading : Leading fd master up)
    (elsewhere : event.reads ≠ some fd) (ran : master.step event = .ok handled) :
    appended event.served fd handled.effects = streamOf (master.passed event) ∧
      Leading fd handled.server up := by
  obtain ⟨pending, held, acks⟩ := leading.pending
  obtain ⟨client, lookup, rfl⟩ := Option.map_eq_some_iff.mp held
  refine leading.step ?_ (List.Subset.refl _) ⟨_, step_readBuffer lookup elsewhere ran, acks⟩ ran
  intro parsed request
  obtain ⟨data, machine, _, rfl, -⟩ := requestIn_some request
  exact absurd rfl elsewhere

/-- And so does a read of acknowledgements. -/
theorem Leading.reads {master : Server} {up : List Bytes} {count : Nat} {data : Bytes}
    {machine : Machine} (leading : Leading fd master up) (taken : (up.take count).flatten = data)
    (some_ : data ≠ []) (ran : master.step (.receive fd data machine) = .ok handled) :
    appended fd fd handled.effects = streamOf (master.passed (.receive fd data machine)) ∧
      Leading fd handled.server (up.drop count) := by
  obtain ⟨pending, held, acks⟩ := leading.pending
  have arrived : Acks data := by
    rw [← taken]
    exact acks_flatten fun chunk member => leading.up chunk (List.mem_of_mem_take member)
  obtain ⟨parsed, read, isAck, left⟩ := parse_acks (acks.append arrived)
    fun nothing => some_ (List.append_eq_nil_iff.mp nothing).2
  obtain ⟨client, lookup, rfl⟩ := Option.map_eq_some_iff.mp held
  refine leading.step ?_ (List.drop_subset _ _) ?_ ran
  · intro parsed' request
    obtain ⟨data', machine', client', own, lookup', read'⟩ := requestIn_some request
    cases own
    rw [lookup] at lookup'
    cases lookup'
    rw [read] at read'
    cases read'
    exact isAck
  · rcases step_receive ran with ⟨absent, -⟩ | ⟨client', parsed', lookup', read', -, served⟩
    · rw [absent] at lookup
      cases lookup
    · rw [lookup] at lookup'
      cases lookup'
      rw [read] at read'
      cases read'
      refine ⟨parsed.readBuffer, ?_, left⟩
      rw [serve_readBuffer served, Server.taking]
      dsimp only
      rw [Finmap.lookup_insert]
      rfl

/-- The replica has worked off the stream up to some messages, which are on
their way; in front of all of them is the answer to PSYNC. -/
structure Following (replica : Server) (down : List Bytes) (done queued : List Message) : Prop where
  side : ∃ slave, replica.masterConnection = some slave ∧ slave.client.readBuffer = [] ∧
    Acks slave.client.writeBuffer ∧ slave.bytesProcessed = i64 (streamOf done).length ∧
    ∃ front, ∃ batches : List (List Message),
      down = front ++ batches.map streamOf ∧ batches.flatten = queued ∧
      (slave.isHandshakeCompleted = true ∧ front = [] ∨
        slave.Awaiting ∧ done = [] ∧ ∃ config rdb, 13 ∉ config.replicationId ∧
          front = [fullResync config rdb])

variable {replica : Server} {down : List Bytes} {done queued : List Message}

/-- A message is added to what is on its way. -/
theorem Following.sent (following : Following replica down done queued) (more : List Message) :
    Following replica (down ++ [streamOf more]) done (queued ++ more) := by
  obtain ⟨slave, connection, empty, acks, counted, front, batches, rfl, rfl, phase⟩ := following.side
  refine ⟨slave, connection, empty, acks, counted, front, batches ++ [more], ?_, ?_, phase⟩
  · rw [List.map_append, List.append_assoc]
    rfl
  · rw [List.flatten_append, List.flatten_singleton]

/-- What the replica does besides leaves it as it is. -/
theorem Following.other (following : Following replica down done queued)
    (elsewhere : ¬ event.Upstream ∨ event = .sendMaster) (ran : replica.step event = .ok handled) :
    Following handled.server down done queued := by
  obtain ⟨slave, connection, empty, acks, counted, front, batches, taken, all, phase⟩ := following.side
  rcases step_masterConnection connection ran with ⟨-, kept | written⟩ | ⟨data, rfl, -⟩ |
    ⟨data, machines, _, _, _, rfl, -⟩
  · exact ⟨slave, kept, empty, acks, counted, front, batches, taken, all, phase⟩
  · refine ⟨slave.handleWrite, written, empty, acks_nil, counted, front, batches, taken, all, ?_⟩
    rcases phase with ⟨completed, nothing⟩ | ⟨⟨status, open_⟩, resync⟩
    · exact .inl ⟨completed, nothing⟩
    · exact .inr ⟨⟨status, open_⟩, resync⟩
  · rcases elsewhere with other | same
    · exact absurd trivial other
    · cases same
  · rcases elsewhere with other | same
    · exact absurd trivial other
    · cases same

/-- A read works off messages from the front. -/
theorem Following.reads {count : Nat} {data : Bytes} {machines : List Machine}
    (following : Following replica down done queued) (sound : ∀ message ∈ queued, message.Sound)
    (known : ∀ message ∈ queued, message.Known) (taken : (down.take count).flatten = data)
    (some_ : data ≠ []) (small : data.length < 2 ^ 64)
    (ran : replica.step (.receiveMaster data machines) = .ok handled) :
    ∃ now later, queued = now ++ later ∧
      List.Forall₂ Message.Done now (Turn.rounds ⟨replica, .receiveMaster data machines, handled⟩) ∧
      (Turn.rounds ⟨replica, .receiveMaster data machines, handled⟩).filterMap Round.reply =
        acknowledgements (streamOf done).length now ∧
      Following handled.server (down.drop count) (done ++ now) later := by
  obtain ⟨slave, connection, empty, acks, counted, front, batches, rfl, rfl, phase⟩ := following.side
  -- From here on the two phases of the replica do the same.
  have finish {n : Nat} {slave₁ slave' : SlaveReplicationClient}
      (connected : handled.server.masterConnection = some slave')
      (replays : SlaveReplicationClient.Replays slave₁ (batches.take n).flatten
        (Turn.rounds ⟨replica, .receiveMaster data machines, handled⟩) slave')
      (completed : slave₁.isHandshakeCompleted = true) (left : Acks slave₁.client.writeBuffer)
      (total : slave₁.bytesProcessed = i64 (streamOf done).length)
      (dropped : (front ++ batches.map streamOf).drop count = (batches.drop n).map streamOf) :
      ∃ now later, batches.flatten = now ++ later ∧
        List.Forall₂ Message.Done now (Turn.rounds ⟨replica, .receiveMaster data machines, handled⟩) ∧
        (Turn.rounds ⟨replica, .receiveMaster data machines, handled⟩).filterMap Round.reply =
          acknowledgements (streamOf done).length now ∧
        Following handled.server ((front ++ batches.map streamOf).drop count) (done ++ now) later := by
    have split : batches.flatten = (batches.take n).flatten ++ (batches.drop n).flatten := by
      rw [← List.flatten_append, List.take_append_drop]
    have sound' : ∀ message ∈ (batches.take n).flatten, message.Sound := fun message member =>
      sound message (split ▸ List.mem_append_left _ member)
    have known' : ∀ message ∈ (batches.take n).flatten, message.Known := fun message member =>
      known message (split ▸ List.mem_append_left _ member)
    obtain ⟨each, left', completed'⟩ := replays_done replays sound' known' left total
    obtain ⟨-, ends⟩ := replays.acks
      (fun message member => (known_iff (sound' message member)).mp (known' message member)) total
    rcases ends with ⟨-, message, member, many⟩ | ⟨replied, emptied, total'⟩
    · exact absurd (sound' message member).few (not_lt.mpr many)
    · refine ⟨_, _, split, each, replied, slave', connected, emptied, left', ?_, [], batches.drop n,
        dropped, rfl, .inl ⟨completed'.trans completed, rfl⟩⟩
      rw [total', streamOf_append, List.length_append]
  rcases phase with ⟨completed, rfl⟩ | ⟨awaiting, rfl, config, rdb, oneLine, rfl⟩
  · rw [List.nil_append, ← List.map_take, streamOf_flatten] at taken
    have arrived : slave.client.readBuffer ++ data = streamOf (batches.take count).flatten := by
      rw [empty, List.nil_append, taken]
    obtain ⟨slave', connected, replays⟩ := read_replays connection completed arrived
      (by rw [taken]; exact small)
      (fun message member => sound message
        ((List.take_sublist _ _).flatten.subset member)) ran
    exact finish connected replays completed acks counted List.map_drop.symm
  · cases count with
    | zero => exact absurd taken.symm some_
    | succ n =>
      have arrived : data = fullResync config rdb ++ streamOf (batches.take n).flatten := by
        rw [← taken, List.singleton_append, List.take_succ_cons, List.flatten_cons, ← List.map_take,
          streamOf_flatten]
      obtain ⟨slave', connected, replays⟩ := read_resync connection awaiting empty oneLine arrived small
        (fun message member => sound message
          ((List.take_sublist _ _).flatten.subset member)) ran
      exact finish connected replays rfl acks counted List.map_drop.symm

/-! ## Runs -/

theorem Link.Begins.sides {link : Link} (begins : link.Begins fd) :
    Leading fd link.master link.up ∧ Following link.replica link.down [] [] := by
  obtain ⟨start, turns, before, event, handled, starts, alone, leads, psync, ran, stranger, oneLine,
    master, down⟩ := begins.master
  obtain ⟨slave, connection, awaiting, read, write, counted⟩ := begins.replica
  have mastering : before.Mastering := leads.mastering (start_mastering starts alone)
  obtain ⟨registered, stranger', rdb, resync⟩ := psync_sent mastering psync ran
  refine ⟨⟨?_, ?_, ?_, ⟨[], begins.drained, acks_nil⟩, ?_⟩, slave, connection, read, ?_, ?_,
    [fullResync before.config rdb], [], ?_, rfl, .inr ⟨awaiting, rfl, _, rdb, oneLine, rfl⟩⟩
  · exact master ▸ mastering.step ran
  · exact master ▸ registered
  · exact master ▸ stranger' stranger
  · rw [begins.up]
    exact fun chunk absent => absurd absent List.not_mem_nil
  · exact write ▸ acks_nil
  · exact counted
  · rw [down, resync]
    rfl

/-- Behind any run the replica has done some of the messages of the master, and
the others are on their way. -/
theorem Link.Runs.sides {link link' : Link} {log : Link.Log} (begins : link.Begins fd)
    (runs : link.Runs fd log link') (known : ∀ message ∈ log.messages, message.Known) :
    (∀ message ∈ log.messages, message.Sound) ∧ Leading fd link'.master link'.up ∧
      ∃ done queued, log.messages = done ++ queued ∧ List.Forall₂ Message.Done done log.rounds ∧
        log.rounds.filterMap Round.reply = acknowledgements 0 done ∧
        Following link'.replica link'.down done queued := by
  induction runs with
  | start =>
    obtain ⟨leading, following⟩ := begins.sides
    exact ⟨fun _ absent => absurd absent List.not_mem_nil, leading, [], [], rfl, .nil, rfl, following⟩
  | master _ elsewhere ran ih =>
    obtain ⟨sound, leading, done, queued, split, each, replied, following⟩ :=
      ih fun message member => known message (List.mem_append_left _ member)
    obtain ⟨sent, leading'⟩ := leading.other elsewhere ran
    refine ⟨?_, leading', done, _, ?_, each, replied, sent ▸ following.sent _⟩
    · exact List.forall_mem_append.mpr ⟨sound, passed_sound⟩
    · dsimp only
      rw [split, List.append_assoc]
  | replica _ elsewhere ran ih =>
    obtain ⟨sound, leading, done, queued, split, each, replied, following⟩ := ih known
    exact ⟨sound, leading, done, queued, split, each, replied, following.other (.inl elsewhere) ran⟩
  | replicaReads _ taken some_ small ran ih =>
    obtain ⟨sound, leading, done, queued, split, each, replied, following⟩ := ih known
    dsimp only at known
    rw [split] at sound known
    obtain ⟨now, later, rfl, each', replied', following'⟩ := following.reads
      (fun message member => sound message (List.mem_append_right _ member))
      (fun message member => known message (List.mem_append_right _ member)) taken some_ small ran
    refine ⟨split ▸ sound, leading, done ++ now, later, ?_, List.rel_append each each', ?_, following'⟩
    · dsimp only
      rw [split, List.append_assoc]
    · dsimp only
      rw [List.filterMap_append, replied, replied', acknowledgements_append, Nat.zero_add]
  | replicaWrites _ connection ran ih =>
    obtain ⟨sound, leading, done, queued, split, each, replied, following⟩ := ih known
    refine ⟨sound, ⟨leading.mastering, leading.registered, leading.stranger, leading.pending, ?_⟩,
      done, queued, split, each, replied, following.other (.inr rfl) ran⟩
    obtain ⟨slave, connection', -, acks, -⟩ := following.side
    rw [connection] at connection'
    cases connection'
    exact List.forall_mem_append.mpr ⟨leading.up, List.forall_mem_singleton.mpr acks⟩
  | masterReads _ taken some_ ran ih =>
    obtain ⟨sound, leading, done, queued, split, each, replied, following⟩ :=
      ih fun message member => known message (List.mem_append_left _ member)
    obtain ⟨sent, leading'⟩ := leading.reads taken some_ ran
    refine ⟨?_, leading', done, _, ?_, each, replied, sent ▸ following.sent _⟩
    · exact List.forall_mem_append.mpr ⟨sound, passed_sound⟩
    · dsimp only
      rw [split, List.append_assoc]

/-- What is on the way to the replica are the messages it has not done yet,
behind the answer to PSYNC before it has done any. -/
theorem Following.onTheWay (following : Following replica down done queued) :
    ∃ resync, down.flatten = resync ++ streamOf queued ∧
      (resync = [] ∨ done = [] ∧ ∃ config rdb, resync = fullResync config rdb) := by
  obtain ⟨slave, -, -, -, -, front, batches, taken, all, phase⟩ := following.side
  refine ⟨front.flatten, ?_, ?_⟩
  · rw [taken, List.flatten_append, streamOf_flatten, all]
  · rcases phase with ⟨-, rfl⟩ | ⟨-, nothing, config, rdb, -, rfl⟩
    · exact .inl rfl
    · exact .inr ⟨nothing, config, rdb, List.flatten_singleton⟩

/-- No update is lost, doubled or overtaken. In every run of a master and its
replica from the answer to PSYNC on, in which the master does not pass on a
user, the replica has worked off the messages of the master one by one and in
order up to some point, has acknowledged each request with the number of bytes
in front of it, and the messages behind that point are just what is on the way,
behind the answer to PSYNC if that has not been read. -/
theorem updates_arrive {link link' : Link} {log : Link.Log} (begins : link.Begins fd)
    (runs : link.Runs fd log link') (known : ∀ message ∈ log.messages, message.Known) :
    ∃ done queued, log.messages = done ++ queued ∧ List.Forall₂ Message.Done done log.rounds ∧
      log.rounds.filterMap Round.reply = acknowledgements 0 done ∧
      ∃ resync, link'.down.flatten = resync ++ streamOf queued ∧
        (resync = [] ∨ done = [] ∧ ∃ config rdb, resync = fullResync config rdb) := by
  obtain ⟨-, -, done, queued, split, each, replied, following⟩ := runs.sides begins known
  exact ⟨done, queued, split, each, replied, following.onTheWay⟩

theorem after_ran (runs : (server.step event).isOk = true) :
    server.step event = .ok (server.after event) := exec_getD _ runs

/-- Two connections to a master, of which the first asks to be its replica. -/
def Handled.connectedOnce : Handled := ({} : Server).after (.connect 1)

def Handled.connectedTwice : Handled := Handled.connectedOnce.server.after (.connect 3)

def registering : Event := .receive 1 (encodeBulkStringArray [ascii "PSYNC", ascii "?", ascii "-1"]) .sample

def Handled.registered : Handled := Handled.connectedTwice.server.after registering

/-- The link behind the answer. -/
def Link.sample : Link where
  master := Handled.registered.server
  replica := .replicaAwaiting
  down := [appended 1 1 Handled.registered.effects]

theorem sample_begins : Link.sample.Begins 1 where
  master := ⟨{}, [⟨{}, .connect 1, .connectedOnce⟩, ⟨_, .connect 3, .connectedTwice⟩],
    Handled.connectedTwice.server, registering, .registered, .master .empty {}, rfl,
    ⟨rfl, after_ran (by decide +kernel), rfl, after_ran (by decide +kernel), rfl⟩,
    ⟨_, _, _, rfl, rfl⟩, after_ran (by decide +kernel), stranger_of_idle (by decide +kernel) 1,
    (by decide), rfl, rfl⟩
  drained := by decide +kernel
  up := rfl
  replica := ⟨_, rfl, ⟨rfl, rfl⟩, rfl, rfl, rfl⟩

/-- The second connection sets a key. -/
def setting : Event := .receive 3 (encodeBulkStringArray [ascii "SET", ascii "k", ascii "v"]) .sample

/-- The replica reads it behind the answer, and nothing is on the way any more. -/
theorem updates_arrive_set : ∃ link' log,
    Link.sample.Runs 1 log link' ∧
    log.messages = [.write (.set (ascii "k") (ascii "v") none none)] ∧
    link'.down = [] ∧ ∃ done queued, log.messages = done ++ queued ∧
      List.Forall₂ Message.Done done log.rounds ∧
      log.rounds.filterMap Round.reply = acknowledgements 0 done ∧
      ∃ resync, link'.down.flatten = resync ++ streamOf queued ∧
        (resync = [] ∨ done = [] ∧ ∃ config rdb, resync = fullResync config rdb) := by
  have elsewhere : setting.reads ≠ some 1 := by decide
  have sets := @Link.Runs.master 1 .sample _ _ _ _ .start elsewhere (after_ran (by decide +kernel))
  have reads := @Link.Runs.replicaReads 1 .sample _ _ 2 _ [.sample] _ sets rfl (by decide +kernel)
    (by decide +kernel) (after_ran (by decide +kernel))
  have passed : Link.sample.master.passed setting =
      [.write (.set (ascii "k") (ascii "v") none none)] := rfl
  refine ⟨_, _, reads, ?_, rfl, updates_arrive sample_begins reads ?_⟩
  · rw [passed]
    rfl
  · intro message member
    dsimp only at member
    rw [passed] at member
    rw [List.mem_singleton.mp member]
    exact fun same => CommandType.noConfusion same

end CarrotDb
