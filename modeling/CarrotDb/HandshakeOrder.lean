import CarrotDb.Handshake

/-! The order of the handshake on a replica. Whatever the master sends, the
replica goes through its commands one after another, each once, and it is done
only behind the last. -/
namespace CarrotDb
open Decimal Resp

/-- The place of a status in the handshake. -/
def ReplicationStatus.rank : ReplicationStatus → Nat
  | .idle => 0
  | .pingSent => 1
  | .pingSentSuccess => 2
  | .replconfPortSent => 3
  | .replconfPortSuccess => 4
  | .replconfCapaSent => 5
  | .replconfCapaSuccess => 6
  | .psyncSent => 7
  | .handshakeSuccess => 8

/-- How many commands have been sent with a status. -/
def ReplicationStatus.commandsSent : ReplicationStatus → Nat
  | .idle => 0
  | .pingSent | .pingSentSuccess => 1
  | .replconfPortSent | .replconfPortSuccess => 2
  | .replconfCapaSent | .replconfCapaSuccess => 3
  | .psyncSent | .handshakeSuccess => 4

/-- The commands of the handshake of a replica that listens on a port. -/
def handshakeCommands (port : Nat) : List (List Bytes) :=
  [[ascii "PING"],
    [ascii "REPLCONF", ascii "listening-port", toDecimal port],
    [ascii "REPLCONF", ascii "capa", ascii "psync2"],
    [ascii "PSYNC", ascii "?", ascii "-1"]]

/-- The bytes of the commands that have been sent with a status. -/
def handshakeSent (port : Nat) (status : ReplicationStatus) : Bytes :=
  ((handshakeCommands port).take status.commandsSent).flatMap encodeBulkStringArray

theorem handshakeSent_next {port : Nat} {status next : ReplicationStatus} {items : List Bytes}
    (count : next.commandsSent = status.commandsSent + 1)
    (command : (handshakeCommands port)[status.commandsSent]? = some items) :
    handshakeSent port next = handshakeSent port status ++ encodeBulkStringArray items := by
  rw [handshakeSent, count, List.take_add_one, command, List.flatMap_append, ← handshakeSent,
    Option.toList_some, List.flatMap_singleton]

namespace SlaveReplicationClient

variable {σ : Type} {execute : Client → Command → σ → Exec (Client × σ)}
  {slave slave' : SlaveReplicationClient} {state state' : σ} {rounds : Nat}

/-- A replica in its handshake: nothing is known of the master yet, and the
handshake is completed with its last status only. -/
structure InOrder (port : Nat) (slave : SlaveReplicationClient) : Prop where
  port : slave.port = port
  replId : slave.replId = ascii "?"
  offset : slave.offset = -1
  completed : slave.isHandshakeCompleted = true ↔ slave.replicationStatus = .handshakeSuccess
  settled : slave.replicationStatus = .pingSent ∨ slave.replicationStatus = .replconfPortSent ∨
    slave.replicationStatus = .replconfCapaSent ∨ slave.replicationStatus = .psyncSent ∨
    slave.replicationStatus = .handshakeSuccess

/-- What the loop over commands leaves alone. -/
theorem processCommandsFrom_inOrder {port : Nat}
    (ran : processCommandsFrom execute rounds slave state = .ok (slave', state'))
    (inOrder : slave.InOrder port) :
    slave'.InOrder port ∧ slave'.replicationStatus = slave.replicationStatus := by
  induction rounds generalizing slave state with
  | zero =>
    cases ran
    exact ⟨inOrder, rfl⟩
  | succ rounds ih =>
    rcases processCommandsFrom_cases ran with ⟨-, rfl, -⟩ | ⟨parsed, -, -, ⟨-, rfl, -⟩ | ⟨-, ran⟩ |
      ⟨-, -, client, state₁, -, ran⟩⟩
    · exact ⟨inOrder, rfl⟩
    · exact ⟨⟨inOrder.port, inOrder.replId, inOrder.offset, inOrder.completed, inOrder.settled⟩, rfl⟩
    · have later := ih ran
        ⟨inOrder.port, inOrder.replId, inOrder.offset, inOrder.completed, inOrder.settled⟩
      exact later
    · have later := ih ran
        ⟨inOrder.port, inOrder.replId, inOrder.offset, inOrder.completed, inOrder.settled⟩
      exact later

/-- The status moves on or stays, and what is sent is what stands between the
two in the order of the commands. -/
structure MovesOn (port : Nat) (slave slave' : SlaveReplicationClient) : Prop where
  inOrder : slave'.InOrder port
  onward : slave.replicationStatus.rank ≤ slave'.replicationStatus.rank
  sent : ∃ more, slave'.client.writeBuffer = slave.client.writeBuffer ++ more ∧
    handshakeSent port slave'.replicationStatus = handshakeSent port slave.replicationStatus ++ more

theorem movesOn_stays {port : Nat} (inOrder : slave.InOrder port) (readBuffer : Bytes) :
    MovesOn port slave (slave.withReadBuffer readBuffer) :=
  ⟨⟨inOrder.port, inOrder.replId, inOrder.offset, inOrder.completed, inOrder.settled⟩, le_rfl,
    [], (List.append_nil _).symm, (List.append_nil _).symm⟩

theorem movesOn_completed {port : Nat} (inOrder : slave.InOrder port)
    (status : slave.replicationStatus = .psyncSent) (readBuffer : Bytes) :
    MovesOn port slave (slave.completed readBuffer) := by
  refine ⟨⟨inOrder.port, inOrder.replId, inOrder.offset, iff_of_true rfl rfl,
    .inr (.inr (.inr (.inr rfl)))⟩, ?_, [], (List.append_nil _).symm, ?_⟩
  · rw [status]
    exact Nat.le_succ 7
  · rw [status, List.append_nil]
    rfl

/-- The next command is sent. -/
theorem movesOn_sending {port : Nat} {before between after : ReplicationStatus} {items : List Bytes}
    (inOrder : slave.InOrder port) (going : slave.isHandshakeCompleted = false)
    (status : slave.replicationStatus = before) (onward : before.rank ≤ after.rank)
    (settled : after = .pingSent ∨ after = .replconfPortSent ∨ after = .replconfCapaSent ∨
      after = .psyncSent) (next : handshakeSent port after =
        handshakeSent port before ++ encodeBulkStringArray items) :
    MovesOn port slave
      (sending { slave.withReadBuffer [] with replicationStatus := between } items after) := by
  have unfinished : after ≠ .handshakeSuccess := by
    rintro rfl
    rcases settled with absent | absent | absent | absent <;> cases absent
  refine ⟨⟨inOrder.port, inOrder.replId, inOrder.offset, ?_, ?_⟩, ?_, _, rfl, ?_⟩
  · exact iff_of_false (going ▸ Bool.false_ne_true) unfinished
  · rcases settled with is | is | is | is
    · exact .inl is
    · exact .inr (.inl is)
    · exact .inr (.inr (.inl is))
    · exact .inr (.inr (.inr (.inl is)))
  · rw [status]
    exact onward
  · rw [status]
    exact next

/-- A file that is skipped, or waited for, or not there. -/
theorem skipRdb_movesOn {port : Nat} (inOrder : slave.InOrder port)
    (status : slave.replicationStatus = .psyncSent) (buffer : Bytes) :
    MovesOn port slave (slave.skipRdb buffer) := by
  unfold skipRdb
  split
  · split
    · exact movesOn_stays inOrder _
    · dsimp only
      split
      · split
        · exact movesOn_stays inOrder _
        · exact movesOn_completed inOrder status _
      · exact movesOn_completed inOrder status _
  · exact movesOn_completed inOrder status _

/-- One answer of the master moves the handshake on or leaves it. -/
theorem handleHandshakeRead_movesOn {port : Nat} (inOrder : slave.InOrder port)
    (going : slave.isHandshakeCompleted = false) : MovesOn port slave slave.handleHandshakeRead := by
  have stays : MovesOn port slave slave := movesOn_stays inOrder slave.client.readBuffer
  have cleared : MovesOn port slave (slave.withReadBuffer []) := movesOn_stays inOrder []
  rw [handleHandshakeRead]
  cases parseSimpleString slave.client.readBuffer with
  | none => exact stays
  | some response =>
    dsimp only
    rcases inOrder.settled with status | status | status | status | status
    · rw [status]
      by_cases pong : isEqual response (ascii "PONG") = true
      · rw [if_pos ⟨rfl, pong⟩]
        exact movesOn_sending inOrder going status (Nat.le_add_right 1 2) (.inr (.inl rfl))
          (handshakeSent_next rfl (by rw [← inOrder.port]; rfl))
      · rw [if_neg fun both => pong both.2, if_neg (by simp), if_neg (by simp), if_neg (by simp)]
        exact cleared
    · rw [status, if_neg (by simp)]
      by_cases accepted : isEqual response (ascii "OK") = true
      · rw [if_pos ⟨rfl, accepted⟩]
        exact movesOn_sending inOrder going status (Nat.le_add_right 3 2) (.inr (.inr (.inl rfl)))
          (handshakeSent_next rfl rfl)
      · rw [if_neg fun both => accepted both.2, if_neg (by simp), if_neg (by simp)]
        exact cleared
    · rw [status, if_neg (by simp), if_neg (by simp)]
      by_cases accepted : isEqual response (ascii "OK") = true
      · rw [if_pos ⟨rfl, accepted⟩]
        refine movesOn_sending inOrder going status (Nat.le_add_right 5 2) (.inr (.inr (.inr rfl)))
          (handshakeSent_next rfl ?_)
        show _ = some [ascii "PSYNC", slave.replId, intToDecimal slave.offset]
        rw [inOrder.replId, inOrder.offset]
        rfl
      · rw [if_neg fun both => accepted both.2, if_neg (by simp)]
        exact cleared
    · rw [status, if_neg (by simp), if_neg (by simp), if_neg (by simp), if_pos rfl]
      split
      · exact stays
      · exact skipRdb_movesOn inOrder status _
    · rw [inOrder.completed.mpr status] at going
      cases going

/-- What one read event of a replica sends of the handshake. -/
def handshakeSentBy (slave : SlaveReplicationClient) (data : Bytes) : Bytes :=
  if slave.isHandshakeCompleted then []
  else (slave.withReadBuffer (slave.client.readBuffer ++ data)).handleHandshakeRead.client.writeBuffer.drop
    slave.client.writeBuffer.length

/-- A read event keeps the order of the handshake. -/
theorem handleRead_inOrder {port : Nat} {data : Bytes} (inOrder : slave.InOrder port)
    (ran : slave.handleRead execute data state = .ok (slave', state')) :
    slave'.InOrder port ∧ slave.replicationStatus.rank ≤ slave'.replicationStatus.rank ∧
      handshakeSent port slave'.replicationStatus =
        handshakeSent port slave.replicationStatus ++ slave.handshakeSentBy data := by
  have started : (slave.withReadBuffer (slave.client.readBuffer ++ data)).InOrder port :=
    ⟨inOrder.port, inOrder.replId, inOrder.offset, inOrder.completed, inOrder.settled⟩
  rw [handleRead, processReadBuffer] at ran
  rw [handshakeSentBy]
  cases going : slave.isHandshakeCompleted with
  | true =>
    have completed : (slave.withReadBuffer (slave.client.readBuffer ++ data)).isHandshakeCompleted =
        true := going
    rw [if_pos completed] at ran
    obtain ⟨kept, same⟩ := processCommandsFrom_inOrder ran started
    have unmoved : slave'.replicationStatus = slave.replicationStatus := same
    rw [unmoved, if_pos rfl, List.append_nil]
    exact ⟨kept, le_rfl, rfl⟩
  | false =>
    have open_ : (slave.withReadBuffer (slave.client.readBuffer ++ data)).isHandshakeCompleted =
        false := going
    rw [open_, if_neg Bool.false_ne_true] at ran
    rw [if_neg Bool.false_ne_true]
    obtain ⟨moved, onward, more, written, sent⟩ := handleHandshakeRead_movesOn started open_
    have appended_ : (slave.withReadBuffer
        (slave.client.readBuffer ++ data)).handleHandshakeRead.client.writeBuffer.drop
          slave.client.writeBuffer.length = more := by
      rw [written]
      exact List.drop_left
    rw [appended_]
    dsimp only at ran
    split at ran
    · obtain ⟨kept, same⟩ := processCommandsFrom_inOrder ran moved
      rw [same]
      exact ⟨kept, onward, sent⟩
    · cases ran
      exact ⟨moved, onward, sent⟩

end SlaveReplicationClient

/-! ## Runs of a replica -/

/-- The commands of the handshake that a turn sends. -/
def Turn.handshake (turn : Turn) : Bytes :=
  match turn.event, turn.before.masterConnection with
  | .receiveMaster data _, some slave => slave.handshakeSentBy data
  | _, _ => []

/-- The status of a replica. -/
def Server.status (server : Server) : Option ReplicationStatus :=
  server.masterConnection.map SlaveReplicationClient.replicationStatus

/-- What stands in the write buffer of the connection to the master. -/
def Server.toMaster (server : Server) : Bytes :=
  (server.masterConnection.map fun slave => slave.client.writeBuffer).getD []

variable {server : Server} {handled : Handled} {event : Event} {slave : SlaveReplicationClient}
  {port : Nat}

theorem step_inOrder (connection : server.masterConnection = some slave)
    (inOrder : slave.InOrder port) (ran : server.step event = .ok handled) :
    ∃ slave', handled.server.masterConnection = some slave' ∧ slave'.InOrder port ∧
      slave.replicationStatus.rank ≤ slave'.replicationStatus.rank ∧
      handshakeSent port slave'.replicationStatus =
        handshakeSent port slave.replicationStatus ++ Turn.handshake ⟨server, event, handled⟩ := by
  rcases step_masterConnection connection ran with ⟨elsewhere, kept⟩ |
    ⟨data, rfl, connected⟩ | ⟨data, machines, slave', state, log, rfl, read, connected⟩
  · have quiet : Turn.handshake ⟨server, event, handled⟩ = [] := by
      cases event <;> first | rfl | cases elsewhere
    rw [quiet]
    simp only [List.append_nil]
    rcases kept with connected | connected
    · exact ⟨slave, connected, inOrder, le_rfl, rfl⟩
    · exact ⟨slave.handleWrite, connected,
        ⟨inOrder.port, inOrder.replId, inOrder.offset, inOrder.completed, inOrder.settled⟩, le_rfl, rfl⟩
  · refine ⟨_, connected,
      ⟨inOrder.port, inOrder.replId, inOrder.offset, inOrder.completed, inOrder.settled⟩, le_rfl, ?_⟩
    exact (List.append_nil _).symm
  · obtain ⟨kept, onward, sent⟩ := SlaveReplicationClient.handleRead_inOrder inOrder read
    have this : Turn.handshake ⟨server, .receiveMaster data machines, handled⟩ =
        slave.handshakeSentBy data := by
      rw [Turn.handshake]
      dsimp only
      rw [connection]
    rw [this]
    exact ⟨slave', connected, kept, onward, sent⟩

/-- From any point of the handshake on. -/
theorem run_inOrder {events : List Event} {turns : List Turn}
    (connection : server.masterConnection = some slave) (inOrder : slave.InOrder port)
    (ran : server.run events = .ok turns) :
    ∃ last slave', server.Leads turns last ∧ last.masterConnection = some slave' ∧
      slave'.InOrder port ∧
      handshakeSent port slave'.replicationStatus =
        handshakeSent port slave.replicationStatus ++ turns.flatMap Turn.handshake ∧
      (slave.replicationStatus :: turns.filterMap fun turn => turn.handled.server.status).Pairwise
        (fun earlier later => earlier.rank ≤ later.rank) := by
  induction events generalizing server slave turns with
  | nil =>
    cases ran
    exact ⟨server, slave, rfl, connection, inOrder, (List.append_nil _).symm,
      List.pairwise_singleton _ _⟩
  | cons event events ih =>
    rw [Server.run] at ran
    obtain ⟨handled, first, ran⟩ := exec_bind_ok.mp ran
    obtain ⟨turns, following, ran⟩ := exec_bind_ok.mp ran
    cases ran
    obtain ⟨slave₁, connected, kept, onward, sent⟩ := step_inOrder connection inOrder first
    obtain ⟨last, slave', leads, ends, settled, later, forward⟩ := ih connected kept following
    have status : handled.server.status = some slave₁.replicationStatus := by
      rw [Server.status, connected]
      rfl
    refine ⟨last, slave', ⟨rfl, first, leads⟩, ends, settled, ?_, ?_⟩
    · rw [later, sent, List.flatMap_cons, List.append_assoc]
    · rw [List.filterMap_cons, status]
      refine List.pairwise_cons.mpr ⟨fun other member => ?_, forward⟩
      rcases List.mem_cons.mp member with rfl | behind
      · exact onward
      · exact onward.trans ((List.pairwise_cons.mp forward).1 other behind)

/-- A replica that has just connected to its master. -/
def Server.connected (db : DB) (config : ServerConfig) (fd : Fd) (port : Nat) : Server where
  db := db
  config := config
  masterConnection := some (SlaveReplicationClient.prepareHandshakeWrite { fd := fd, port := port })

/-- What a replica has in its write buffer when it has connected and what its
read events send are the commands of the handshake in their order, each once;
its status never goes back, and the handshake is completed only behind PSYNC. -/
theorem handshake_in_order (db : DB) (config : ServerConfig) (fd : Fd) (port : Nat)
    {events : List Event} {turns : List Turn}
    (ran : (Server.connected db config fd port).run events = .ok turns) :
    ∃ last slave, (Server.connected db config fd port).Leads turns last ∧
      last.masterConnection = some slave ∧
      (∃ sent, (Server.connected db config fd port).toMaster ++ turns.flatMap Turn.handshake =
          ((handshakeCommands port).take sent).flatMap encodeBulkStringArray ∧
        (slave.isHandshakeCompleted = true → sent = 4)) ∧
      ((Server.connected db config fd port).status.toList ++
        turns.filterMap fun turn => turn.handled.server.status).Pairwise
          (fun earlier later => earlier.rank ≤ later.rank) := by
  have inOrder :
      (SlaveReplicationClient.prepareHandshakeWrite { fd := fd, port := port }).InOrder port :=
    ⟨rfl, rfl, rfl, iff_of_false (by intro absent; cases absent) (by intro absent; cases absent),
      .inl rfl⟩
  obtain ⟨last, slave, leads, connected, kept, sent, forward⟩ := run_inOrder rfl inOrder ran
  refine ⟨last, slave, leads, connected, ⟨_, sent.symm, fun completed => ?_⟩, forward⟩
  rw [kept.completed.mp completed]
  rfl

/-- A handshake whose answers come in pieces. -/
def handshakeSample : List Event := masterReads
  [ascii "+PO", ascii "NG\r\n", ascii "+OK\r\n", ascii "+what\r\n", ascii "+OK\r\n",
    encodeSimpleString (ascii "FULLRESYNC x 0") ++ rdbText emptyRdb]

theorem handshake_in_order_sample : ∃ last slave,
    (Server.connected {} {} 3 6380).Leads
      (((Server.connected {} {} 3 6380).run handshakeSample).toOption.getD []) last ∧
    last.masterConnection = some slave ∧
    (∃ sent, (Server.connected {} {} 3 6380).toMaster ++
        (((Server.connected {} {} 3 6380).run handshakeSample).toOption.getD []).flatMap
          Turn.handshake =
        ((handshakeCommands 6380).take sent).flatMap encodeBulkStringArray ∧
      (slave.isHandshakeCompleted = true → sent = 4)) ∧
    ((Server.connected {} {} 3 6380).status.toList ++
      (((Server.connected {} {} 3 6380).run handshakeSample).toOption.getD []).filterMap
        fun turn => turn.handled.server.status).Pairwise
          (fun earlier later => earlier.rank ≤ later.rank) :=
  handshake_in_order {} {} 3 6380 (exec_getD [] (by decide +kernel))

end CarrotDb
