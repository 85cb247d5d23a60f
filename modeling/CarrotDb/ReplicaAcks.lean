import CarrotDb.Handshake
import CarrotDb.ReplicaRounds
import Mathlib

/-! A replica behind the handshake, in its own run: what it acknowledges of the
stream of its master, what it executes of it, and what is left of an
acknowledgement when a read event is over. -/
namespace CarrotDb
open Decimal Resp

variable {server : Server} {handled : Handled} {slave slave' : SlaveReplicationClient}

/-- The rounds of `process_commands` in a turn. -/
def Turn.rounds (turn : Turn) : List Round :=
  match turn.event, turn.before.masterConnection with
  | .receiveMaster data machines, some slave =>
    slave.roundsOf (Server.executeReplicated slave.fd) data (turn.before, machines, [])
  | _, _ => []

/-- The acknowledgements that are encoded in a run, in order. -/
def acksIn (turns : List Turn) : List Bytes := (turns.flatMap Turn.rounds).filterMap Round.reply

/-- A read event of a replica behind the handshake is a run of the loop. -/
theorem step_receiveMaster {data : Bytes} {machines : List Machine}
    (connection : server.masterConnection = some slave)
    (completed : slave.isHandshakeCompleted = true)
    (ran : server.step (.receiveMaster data machines) = .ok handled) :
    ∃ slave' state', handled.server.masterConnection = some slave' ∧
      SlaveReplicationClient.processCommandsFrom (Server.executeReplicated slave.fd)
        (slave.client.readBuffer ++ data).length
        (slave.withReadBuffer (slave.client.readBuffer ++ data)) (server, machines, []) =
          .ok (slave', state') ∧
      Turn.rounds ⟨server, .receiveMaster data machines, handled⟩ =
        SlaveReplicationClient.roundsFrom (Server.executeReplicated slave.fd)
          (slave.client.readBuffer ++ data).length
          (slave.withReadBuffer (slave.client.readBuffer ++ data)) (server, machines, []) := by
  rw [Server.step, Server.handleMasterRead, connection] at ran
  dsimp only at ran
  obtain ⟨⟨slave', server', machines', effects⟩, read, ran⟩ := exec_bind_ok.mp ran
  cases ran
  have done : (slave.withReadBuffer (slave.client.readBuffer ++ data)).isHandshakeCompleted = true :=
    completed
  rw [SlaveReplicationClient.handleRead, SlaveReplicationClient.processReadBuffer, if_pos done] at read
  refine ⟨slave', _, rfl, read, ?_⟩
  rw [Turn.rounds]
  dsimp only
  rw [connection]
  dsimp only
  simp only [SlaveReplicationClient.roundsOf, done, if_true]
  rfl

/-- A message of the stream that is acknowledged byte by byte: a GETACK, or
one of seven write commands, with strings free of carriage returns. -/
def Message.Counted : Message → Prop
  | .getAck => True
  | .write command =>
    command.commandType ∈ [CommandType.set, .incr, .rpush, .lpush, .lpop, .xadd, .zrem] ∧
      ∀ text ∈ command.texts, 13 ∉ text

theorem Message.Counted.write {command : Command} (counted : (Message.write command).Counted) :
    command.isWriteCommand = true ∧ command.commandType ≠ .aclSetUser := by
  have kind := counted.1
  cases command with
  | set | incr | rpush | lpush | lpop | xadd | zrem =>
    refine ⟨rfl, ?_⟩
    intro same
    cases same
  | _ => simp [Command.commandType] at kind

theorem Message.Counted.clean {message : Message} (counted : message.Counted) : message.Clean := by
  cases message with
  | getAck => trivial
  | write command => exact ⟨counted.write.1, counted.2⟩

theorem Message.Counted.known {message : Message} (counted : message.Counted) :
    message.frame.command ≠ .ok .unknow := by
  cases message with
  | getAck =>
    intro unknown
    cases unknown
  | write command => exact frame_known counted.write.1 counted.write.2

/-- One read event with whole frames. -/
theorem read_acks {data : Bytes} {machines : List Machine} {messages : List Message} {before : Nat}
    (connection : server.masterConnection = some slave)
    (completed : slave.isHandshakeCompleted = true)
    (arrived : data = streamOf messages) (counted : ∀ message ∈ messages, message.Counted)
    (small : (streamOf messages).length < 2 ^ 64)
    (ran : server.step (.receiveMaster data machines) = .ok handled) :
    ∃ slave', handled.server.masterConnection = some slave' ∧
      slave'.isHandshakeCompleted = true ∧
      (slave.Stuck → slave'.Stuck ∧ acksIn [⟨server, .receiveMaster data machines, handled⟩] = []) ∧
      (slave.client.readBuffer = [] → slave.bytesProcessed = i64 before →
        acksIn [⟨server, .receiveMaster data machines, handled⟩] <+:
          acknowledgements before messages ∧
        (slave'.Stuck ∧ (∃ message ∈ messages, 2 ^ 31 ≤ message.frame.args.length) ∨
          acksIn [⟨server, .receiveMaster data machines, handled⟩] =
            acknowledgements before messages ∧
          slave'.client.readBuffer = [] ∧
          slave'.bytesProcessed = i64 ((before + (streamOf messages).length : Nat) : Int))) := by
  obtain ⟨slave', state', connected, looped, traced⟩ :=
    step_receiveMaster connection completed ran
  refine ⟨slave', connected,
    (SlaveReplicationClient.processCommandsFrom_completed looped).trans completed, ?_, ?_⟩
  · intro stuck
    obtain ⟨still, nothing, -, -⟩ :=
      SlaveReplicationClient.stuck_run (SlaveReplicationClient.stuck_append stuck data) looped
    refine ⟨still, ?_⟩
    rw [acksIn, List.flatMap_singleton, traced, nothing]
    rfl
  · intro empty at_
    rw [empty, List.nil_append, arrived] at looped traced
    have replays := SlaveReplicationClient.replays_of_run
      (executeReplicated_readBuffer slave.fd) (fun message member => (counted message member).clean)
      rfl small le_rfl looped
    rw [acksIn, List.flatMap_singleton, arrived, traced]
    exact replays.acks (fun message member => (counted message member).known) at_

theorem acknowledgements_append (before : Nat) (messages others : List Message) :
    acknowledgements before (messages ++ others) =
      acknowledgements before messages ++
        acknowledgements (before + (streamOf messages).length) others := by
  induction messages generalizing before with
  | nil => rfl
  | cons message messages ih =>
    rw [streamOf_cons, List.length_append, ← Nat.add_assoc]
    cases message with
    | getAck => exact congrArg (List.cons _) (ih _)
    | write command => exact ih _

theorem acksIn_cons (turn : Turn) (turns : List Turn) :
    acksIn (turn :: turns) = acksIn [turn] ++ acksIn turns := by
  rw [acksIn, acksIn, acksIn, List.flatMap_cons, List.flatMap_singleton, List.filterMap_append]

/-- Behind the end of the file there is nothing more to read. -/
def EndsLast : List Event → Prop
  | [] => True
  | .endMaster _ :: events => receivedFromMaster events = [] ∧ EndsLast events
  | _ :: events => EndsLast events

theorem EndsLast.tail {event : Event} {events : List Event} (ends : EndsLast (event :: events)) :
    EndsLast events := by
  cases event with
  | endMaster data => exact ends.2
  | _ => exact ends

theorem acksIn_none {events : List Event} {turns : List Turn}
    (nothing : receivedFromMaster events = []) (ran : server.run events = .ok turns) :
    acksIn turns = [] := by
  induction events generalizing server turns with
  | nil =>
    cases ran
    rfl
  | cons event events ih =>
    rw [Server.run] at ran
    obtain ⟨handled, -, ran⟩ := exec_bind_ok.mp ran
    obtain ⟨turns, following, ran⟩ := exec_bind_ok.mp ran
    cases ran
    cases event with
    | receiveMaster data machines => cases nothing
    | _ => rw [acksIn_cons, ih nothing following]; rfl

/-- From any place in the stream on. -/
theorem run_acks {batches : List (List Message)} {events : List Event} {turns : List Turn}
    {before : Nat} (connection : server.masterConnection = some slave)
    (completed : slave.isHandshakeCompleted = true)
    (reads : receivedFromMaster events = batches.map streamOf)
    (counted : ∀ batch ∈ batches, ∀ message ∈ batch, message.Counted)
    (small : ∀ batch ∈ batches, (streamOf batch).length < 2 ^ 64) (ends : EndsLast events)
    (ran : server.run events = .ok turns) :
    (slave.Stuck → acksIn turns = []) ∧
    (slave.client.readBuffer = [] → slave.bytesProcessed = i64 before →
      acksIn turns <+: acknowledgements before batches.flatten ∧
      ((∀ batch ∈ batches, ∀ message ∈ batch, message.frame.args.length < 2 ^ 31) →
        acksIn turns = acknowledgements before batches.flatten)) := by
  induction events generalizing server slave turns batches before with
  | nil =>
    cases ran
    cases batches with
    | nil => exact ⟨fun _ => rfl, fun _ _ => ⟨List.nil_prefix, fun _ => rfl⟩⟩
    | cons batch batches => cases reads
  | cons event events ih =>
    rw [Server.run] at ran
    obtain ⟨handled, first, ran⟩ := exec_bind_ok.mp ran
    obtain ⟨turns, following, ran⟩ := exec_bind_ok.mp ran
    cases ran
    rw [acksIn_cons]
    rcases step_masterConnection connection first with ⟨elsewhere, kept⟩ |
      ⟨data, rfl, -⟩ | ⟨data, machines, -, -, -, rfl, -, -⟩
    · rw [receivedFromMaster, List.filterMap_cons, elsewhere] at reads
      have quiet : acksIn [⟨server, event, handled⟩] = [] := by
        cases event <;> first | rfl | cases elsewhere
      rw [quiet, List.nil_append]
      rcases kept with connected | connected
      · exact ih connected completed reads counted small ends.tail following
      · exact @ih _ slave.handleWrite _ _ _ connected completed reads counted small ends.tail following
    · have nothing := ends.1
      obtain rfl : batches = [] := List.map_eq_nil_iff.mp (reads.symm.trans nothing)
      rw [acksIn_none nothing following]
      exact ⟨fun _ => rfl, fun _ _ => ⟨List.nil_prefix, fun _ => rfl⟩⟩
    · cases batches with
      | nil => cases reads
      | cons batch batches =>
        obtain ⟨arrived, reads⟩ := List.cons.inj reads
        have others (batch' : List Message) (member : batch' ∈ batches) :=
          List.mem_cons_of_mem batch member
        obtain ⟨slave', connected, done, stays, counts⟩ := @read_acks _ _ _ _ _ _ before connection
          completed arrived (counted batch List.mem_cons_self) (small batch List.mem_cons_self) first
        obtain ⟨stuck, onwards⟩ := @ih _ slave' batches turns
          (before + (streamOf batch).length) connected done reads
          (fun batch' member => counted batch' (others batch' member))
          (fun batch' member => small batch' (others batch' member)) ends.tail following
        constructor
        · intro still
          obtain ⟨still, nothing⟩ := stays still
          rw [nothing, stuck still]
          rfl
        · intro empty at_
          rw [List.flatten_cons, acknowledgements_append]
          obtain ⟨front, ends⟩ := counts empty at_
          rcases ends with ⟨jammed, message, member, many⟩ | ⟨all, empty', total⟩
          · rw [stuck jammed, List.append_nil]
            refine ⟨front.trans (List.prefix_append _ _), fun few => ?_⟩
            exact absurd (few batch List.mem_cons_self message member) (not_lt.mpr many)
          · obtain ⟨later, exactly⟩ := onwards empty' total
            rw [all]
            refine ⟨(List.prefix_append_right_inj _).mpr later, fun few => ?_⟩
            rw [exactly fun batch' member => few batch' (others batch' member)]

/-- In reads that each hold whole frames, the acknowledgements of a replica are
those the stream asks for, in order: each has the length of all frames before
its GETACK. None is missing unless a frame has more arguments than an `int`
counts. -/
theorem acks_count_bytes {batches : List (List Message)} {events : List Event} {turns : List Turn}
    (connection : server.masterConnection = some slave)
    (completed : slave.isHandshakeCompleted = true) (empty : slave.client.readBuffer = [])
    (fresh : slave.bytesProcessed = 0) (reads : receivedFromMaster events = batches.map streamOf)
    (counted : ∀ batch ∈ batches, ∀ message ∈ batch, message.Counted)
    (small : ∀ batch ∈ batches, (streamOf batch).length < 2 ^ 64) (ends : EndsLast events)
    (ran : server.run events = .ok turns) :
    acksIn turns <+: acknowledgements 0 batches.flatten ∧
      ((∀ batch ∈ batches, ∀ message ∈ batch, message.frame.args.length < 2 ^ 31) →
        acksIn turns = acknowledgements 0 batches.flatten) :=
  (run_acks connection completed reads counted small ends ran).2 empty fresh

/-- A replica with a completed handshake. -/
def Server.following : Server where
  config := { role := .slave }
  masterConnection := some
    { fd := 3, port := 6380, replicationStatus := .handshakeSuccess, isHandshakeCompleted := true }

private def setMessage : Message := .write (.set (ascii "k") (ascii "v") none none)

/-- A write and a request in one read, and a request in the next. -/
def acksSample : List Event :=
  [.receiveMaster (streamOf [setMessage, .getAck]) [.sample], .sendMaster,
    .receiveMaster (streamOf [.getAck]) [], .endMaster (ascii "*1")]

private def acksBatches : List (List Message) := [[setMessage, .getAck], [.getAck]]

private theorem acksBatches_counted : ∀ batch ∈ acksBatches, ∀ message ∈ batch, message.Counted := by
  intro batch member message inside
  have set : setMessage.Counted := ⟨by decide, by decide⟩
  simp only [acksBatches, List.mem_cons, List.not_mem_nil, or_false] at member
  rcases member with rfl | rfl
  · simp only [List.mem_cons, List.not_mem_nil, or_false] at inside
    rcases inside with rfl | rfl
    · exact set
    · trivial
  · rw [List.mem_singleton.mp inside]
    trivial

theorem acks_count_bytes_sample :
    acksIn ((Server.following.run acksSample).toOption.getD []) =
      [ackReply (i64 27), ackReply (i64 64)] := by
  have all := (@acks_count_bytes Server.following _ acksBatches acksSample _ rfl rfl rfl rfl rfl
    acksBatches_counted (by decide +kernel) ⟨rfl, trivial⟩ (exec_getD [] (by decide +kernel))).2 (by decide +kernel)
  rw [all]
  decide +kernel

/-! ## One read -/

/-- The loop on messages of a master that arrive in one read. -/
theorem read_replays {data : Bytes} {machines : List Machine} {messages : List Message}
    (connection : server.masterConnection = some slave)
    (completed : slave.isHandshakeCompleted = true)
    (arrived : slave.client.readBuffer ++ data = streamOf messages)
    (small : (streamOf messages).length < 2 ^ 64) (sound : ∀ message ∈ messages, message.Sound)
    (ran : server.step (.receiveMaster data machines) = .ok handled) :
    ∃ slave', handled.server.masterConnection = some slave' ∧
      SlaveReplicationClient.Replays (slave.withReadBuffer (slave.client.readBuffer ++ data))
        messages (Turn.rounds ⟨server, .receiveMaster data machines, handled⟩) slave' := by
  obtain ⟨slave', state', connected, looped, traced⟩ := step_receiveMaster connection completed ran
  refine ⟨slave', connected, ?_⟩
  rw [traced]
  rw [← arrived] at small
  have held : (slave.withReadBuffer (slave.client.readBuffer ++ data)).client.readBuffer =
      streamOf messages := arrived
  refine SlaveReplicationClient.replays_of_run (executeReplicated_readBuffer slave.fd)
    (fun message member => (sound message member).clean) held ?_ ?_ looped
  · rwa [← arrived]
  · rw [← arrived]

/-- The replica has run what each of the commands is read as, one after
another, and its read buffer is empty. -/
def Drained (commands : List Command) (turn : Turn) : Prop :=
  ∃ slave, turn.handled.server.masterConnection = some slave ∧ slave.client.readBuffer = [] ∧
    commands.mapM Command.reread = .ok (turn.rounds.filterMap Round.command)

/-- The encodings of write commands, one behind the other. -/
theorem streamOf_writes {commands : List Command} {texts : List Bytes}
    (writes : ∀ command ∈ commands, command.isWriteCommand = true)
    (encoded : commands.mapM Command.toResp = .ok texts) :
    texts.flatten = streamOf (commands.map .write) := by
  induction commands generalizing texts with
  | nil =>
    cases encoded
    rfl
  | cons command commands ih =>
    rw [List.mapM_cons, toResp_frame (writes command List.mem_cons_self), exec_ok_bind] at encoded
    obtain ⟨others, rest, same⟩ := exec_bind_ok.mp encoded
    cases same
    rw [List.flatten_cons, ih (fun other member => writes other (List.mem_cons_of_mem _ member)) rest]
    rfl

/-- What a step leaves, the server as it was if it faults. -/
def Server.after (server : Server) (event : Event) : Handled :=
  ((server.step event).toOption).getD ⟨server, [], []⟩

private theorem set_parsable : Parsable (.set (ascii "k") (ascii "v") none none) :=
  ⟨encodeBulkStringArray [ascii "SET", ascii "k", ascii "v"], _, rfl, rfl⟩

private theorem user_parsable : Parsable (.aclSetUser (ascii "u") none []) :=
  ⟨encodeBulkStringArray [ascii "ACL", ascii "SETUSER", ascii "u"], _, rfl, rfl⟩

/-- A write and an increment in one read. -/
def drainSample : Event := .receiveMaster
  (encodeBulkStringArray [ascii "SET", ascii "k", ascii "1"] ++
    encodeBulkStringArray [ascii "INCR", ascii "k"]) [.sample, .sample]

/-- A user in front of a write, in one read. -/
def userSample : Event := .receiveMaster
  (encodeBulkStringArray [ascii "ACL", ascii "SETUSER"] ++
    encodeBulkStringArray [ascii "SET", ascii "k", ascii "v"]) [.sample]

/-- The acknowledgement of a GETACK behind `front` messages of a read, or of
a later one, is still in the write buffer when the read is over. -/
def AckSurvives (front : Nat) (turn : Turn) : Prop :=
  ∃ slave earlier offset, turn.handled.server.masterConnection = some slave ∧
    turn.rounds = earlier ++ [.acknowledged (ackReply offset)] ∧ front ≤ earlier.length ∧
    slave.client.writeBuffer = ackReply offset

/-- An acknowledgement survives the read just when a GETACK, that one or a
later one, is the last message in front of the first user or of the end. -/
theorem ack_survives_iff {front back : List Message} {data : Bytes} {machines : List Machine}
    (connection : server.masterConnection = some slave)
    (completed : slave.isHandshakeCompleted = true)
    (sound : ∀ message ∈ front ++ .getAck :: back, message.Sound)
    (arrived : slave.client.readBuffer ++ data = streamOf (front ++ .getAck :: back))
    (small : (streamOf (front ++ .getAck :: back)).length < 2 ^ 64)
    (ran : server.step (.receiveMaster data machines) = .ok handled) :
    AckSurvives front.length ⟨server, .receiveMaster data machines, handled⟩ ↔
      ∃ earlier later, front ++ .getAck :: back = earlier ++ .getAck :: later ∧
        front.length ≤ earlier.length ∧ (∀ message ∈ earlier, message.Known) ∧
        SlaveReplicationClient.Ends later := by
  obtain ⟨slave', connected, replays⟩ := read_replays connection completed arrived small sound ran
  constructor
  · rintro ⟨other, earlier, offset, same, rounds, behind, written⟩
    rw [show handled.server.masterConnection = some other from same] at connected
    cases connected
    obtain ⟨before, after, split, size, known, ends⟩ :=
      (replays.last_iff sound earlier.length).mp ⟨earlier, offset, rounds, rfl, written⟩
    exact ⟨before, after, split, size ▸ behind, known, ends⟩
  · rintro ⟨earlier, later, split, behind, known, ends⟩
    obtain ⟨before, offset, rounds, size, written⟩ :=
      (replays.last_iff sound earlier.length).mpr ⟨earlier, later, split, rfl, known, ends⟩
    exact ⟨slave', before, offset, connected, rounds, size ▸ behind, written⟩

/-- A write and then a request, in one read. -/
def lastSample : Event := .receiveMaster (streamOf [setMessage, .getAck]) [.sample]

theorem ack_survives_iff_last :
    AckSurvives 1 ⟨.following, lastSample, Server.following.after lastSample⟩ :=
  (@ack_survives_iff Server.following _ _ [setMessage] [] _ [.sample] rfl rfl (by
    intro message member
    simp only [List.cons_append, List.nil_append, List.mem_cons, List.not_mem_nil, or_false] at member
    rcases member with rfl | rfl
    · exact ⟨rfl, set_parsable⟩
    · trivial) rfl (by decide +kernel) (exec_getD _ (by decide +kernel))).mpr
    ⟨[setMessage], [], rfl, le_rfl, by
      intro message member
      rw [List.mem_singleton.mp member]
      exact (by decide : CommandType.set ≠ .aclSetUser), trivial⟩

/-- A request and then a write, in one read. -/
def droppedSample : Event := .receiveMaster (streamOf [.getAck, setMessage]) [.sample]

/-- The write that follows a GETACK in the same read takes its acknowledgement
away. -/
theorem ack_dropped_by_write : ¬ ∀ (server : Server) (slave : SlaveReplicationClient)
    (front back : List Message) (data : Bytes) (machines : List Machine) (handled : Handled),
    server.masterConnection = some slave → slave.isHandshakeCompleted = true →
    (∀ message ∈ front ++ .getAck :: back, message.Sound) →
    slave.client.readBuffer ++ data = streamOf (front ++ .getAck :: back) →
    (streamOf (front ++ .getAck :: back)).length < 2 ^ 64 →
    server.step (.receiveMaster data machines) = .ok handled →
    AckSurvives front.length ⟨server, .receiveMaster data machines, handled⟩ := by
  intro claim
  obtain ⟨slave, earlier, offset, connected, -, -, written⟩ := claim .following _ [] [setMessage] _
    [.sample] (Server.following.after droppedSample) rfl rfl (by
      intro message member
      simp only [List.nil_append, List.mem_cons, List.not_mem_nil, or_false] at member
      rcases member with rfl | rfl
      · trivial
      · exact ⟨rfl, set_parsable⟩) rfl (by decide +kernel) (exec_getD _ (by decide +kernel))
  have gone : ((Server.following.after droppedSample).server.masterConnection.map
      fun slave => slave.client.writeBuffer.isEmpty) = some true := by decide +kernel
  rw [connected, Option.map_some, written] at gone
  cases gone

end CarrotDb
