import CarrotDb.Server

/-! The write buffers of the two kinds of connections. A call of `handleWrite`
offers the buffer to the socket again and again, behind a counter of its own,
and trims the buffer only when it returns. -/
namespace CarrotDb

/-- What a call of `write` comes to: a socket with room for so many bytes
takes as many of those it is offered; it would block; or it fails. -/
inductive WriteReply where
  | accepted (room : Nat)
  | again
  | failed
  deriving DecidableEq, Repr

/-- How the loop of `handleWrite` is left. -/
inductive WriteExit where
  | completed
  | again
  | failed
  deriving DecidableEq, Repr

/-- What a connection asks of the event loop. -/
inductive LoopCall where
  | updateEventHandler (read write : Bool)
  | removeEventHandler
  deriving DecidableEq, Repr

/-- The bytes that the socket has taken, the counter, and the way out. -/
structure WriteLoop where
  accepted : Bytes
  writtenTotal : Nat
  exit : WriteExit

/-- The loop of `handleWrite`. The socket answers the calls one after another;
a call that takes nothing is simply made again. -/
def writeLoop (buffer : Bytes) (replies : Nat → WriteReply) :
    (rounds calls writtenTotal : Nat) → (accepted : Bytes) → Option WriteLoop
  | 0, _, _, _ => none
  | rounds + 1, calls, writtenTotal, accepted =>
    if writtenTotal < buffer.length then
      match replies calls with
      | .accepted room =>
        let taken := (buffer.drop writtenTotal).take room
        writeLoop buffer replies rounds (calls + 1) (writtenTotal + taken.length) (accepted ++ taken)
      | .again => some ⟨accepted, writtenTotal, .again⟩
      | .failed => some ⟨accepted, writtenTotal, .failed⟩
    else some ⟨accepted, writtenTotal, .completed⟩

/-- What a call of `handleWrite` leaves: the write buffer, the bytes that the
socket has taken, and the calls on the event loop. -/
structure Written where
  buffer : Bytes
  accepted : Bytes
  calls : List LoopCall

/-- `TcpConnection::handleWrite`. Calls that take a byte or more are never more
than there are bytes. -/
def TcpConnection.handleWrite (writeBuffer : Bytes) (replies : Nat → WriteReply) : Option Written :=
  let first := if writeBuffer = [] then [LoopCall.updateEventHandler true false] else []
  (writeLoop writeBuffer replies (writeBuffer.length + 1) 0 0 []).map fun loop =>
    match loop.exit with
    | .completed => ⟨[], loop.accepted, first ++ [.updateEventHandler true false]⟩
    | .again => ⟨writeBuffer.drop loop.writtenTotal, loop.accepted, first⟩
    | .failed => ⟨writeBuffer, loop.accepted, first ++ [.removeEventHandler]⟩

/-- `MasterConnection::handleWrite` of a connection that has a client. -/
def MasterConnection.handleWrite (writeBuffer : Bytes) (replies : Nat → WriteReply) :
    Option Written :=
  if writeBuffer = [] then some ⟨[], [], [.updateEventHandler true false]⟩
  else
    (writeLoop writeBuffer replies (writeBuffer.length + 1) 0 0 []).map fun loop =>
      match loop.exit with
      | .completed => ⟨[], loop.accepted, [.updateEventHandler true false]⟩
      | .again => ⟨writeBuffer.drop loop.writtenTotal, loop.accepted, []⟩
      | .failed => ⟨writeBuffer, loop.accepted, []⟩

/-- The socket takes at least one byte, or it would block. -/
def WriteReply.Regular : WriteReply → Prop
  | .accepted room => 0 < room
  | .again => True
  | .failed => False

variable {buffer accepted : Bytes} {replies : Nat → WriteReply}
  {rounds calls writtenTotal : Nat} {loop : WriteLoop} {written : Written}

/-- The counter is a place in the buffer, and the bytes in front of it are
those that the socket has. -/
structure WriteLoop.Sound (loop : WriteLoop) (buffer : Bytes) : Prop where
  accepted : loop.accepted = buffer.take loop.writtenTotal
  inside : loop.writtenTotal ≤ buffer.length
  completed : loop.exit = .completed → loop.writtenTotal = buffer.length
  again : loop.exit = .again → loop.writtenTotal < buffer.length

theorem writeLoop_sound (taken : accepted = buffer.take writtenTotal)
    (inside : writtenTotal ≤ buffer.length)
    (ran : writeLoop buffer replies rounds calls writtenTotal accepted = some loop) :
    loop.Sound buffer := by
  induction rounds generalizing calls writtenTotal accepted with
  | zero => cases ran
  | succ rounds ih =>
    rw [writeLoop] at ran
    split at ran
    · rename_i more
      cases reply : replies calls with
      | accepted room =>
        simp only [reply] at ran
        refine ih ?_ ?_ ran
        · rw [taken, List.length_take, List.length_drop, List.take_add]
          congr 1
          rw [← List.length_drop, List.take_eq_take_min, Nat.min_comm]
        · rw [List.length_take, List.length_drop]
          omega
      | again =>
        simp only [reply] at ran
        cases ran
        exact ⟨taken, inside, fun wrong => WriteExit.noConfusion wrong, fun _ => more⟩
      | failed =>
        simp only [reply] at ran
        cases ran
        exact ⟨taken, inside, fun wrong => WriteExit.noConfusion wrong,
          fun wrong => WriteExit.noConfusion wrong⟩
    · rename_i done
      cases ran
      exact ⟨taken, inside, fun _ => Nat.le_antisymm inside (Nat.le_of_not_lt done),
        fun wrong => WriteExit.noConfusion wrong⟩

/-- Every call on a regular socket uses up a byte or is the last. -/
theorem writeLoop_returns (regular : ∀ call, (replies call).Regular)
    (inside : writtenTotal ≤ buffer.length) (enough : buffer.length < rounds + writtenTotal) :
    ∃ loop, writeLoop buffer replies rounds calls writtenTotal accepted = some loop ∧
      loop.exit ≠ .failed := by
  induction rounds generalizing calls writtenTotal accepted with
  | zero => omega
  | succ rounds ih =>
    rw [writeLoop]
    split
    · rename_i more
      have fair := regular calls
      cases reply : replies calls with
      | accepted room =>
        rw [reply] at fair
        have positive : 0 < room := fair
        apply ih
        · rw [List.length_take, List.length_drop]
          omega
        · rw [List.length_take, List.length_drop]
          omega
      | again => exact ⟨_, rfl, fun wrong => WriteExit.noConfusion wrong⟩
      | failed =>
        rw [reply] at fair
        exact fair.elim
    · exact ⟨_, rfl, fun wrong => WriteExit.noConfusion wrong⟩

/-- The loop as both connections start it. -/
theorem writeLoop_starts (buffer : Bytes) (regular : ∀ call, (replies call).Regular) :
    ∃ loop, writeLoop buffer replies (buffer.length + 1) 0 0 [] = some loop ∧
      loop.Sound buffer ∧ loop.exit ≠ .failed := by
  have start : 0 ≤ buffer.length := Nat.zero_le _
  obtain ⟨loop, ran, exit⟩ := @writeLoop_returns buffer [] replies (buffer.length + 1) 0 0 regular
    start (Nat.lt_succ_self _)
  exact ⟨loop, ran, writeLoop_sound rfl start ran, exit⟩

/-- A call returns, and splits the buffer into the bytes that are gone and
those that are left. -/
def ConservesBytes (handleWrite : Bytes → (Nat → WriteReply) → Option Written) : Prop :=
  ∀ (buffer : Bytes) (replies : Nat → WriteReply), (∀ call, (replies call).Regular) →
    ∃ written, handleWrite buffer replies = some written ∧
      written.accepted ++ written.buffer = buffer

theorem WriteLoop.Sound.completes (sound : loop.Sound buffer) (exit : loop.exit = .completed) :
    loop.accepted ++ [] = buffer := by
  rw [sound.accepted, sound.completed exit, List.take_length, List.append_nil]

theorem WriteLoop.Sound.stops (sound : loop.Sound buffer) :
    loop.accepted ++ buffer.drop loop.writtenTotal = buffer := by
  rw [sound.accepted, List.take_append_drop]

theorem TcpConnection.conserves : ConservesBytes TcpConnection.handleWrite := by
  intro buffer replies regular
  obtain ⟨loop, ran, sound, exit⟩ := writeLoop_starts buffer regular
  rw [TcpConnection.handleWrite, ran]
  cases left : loop.exit with
  | completed =>
    refine ⟨_, rfl, ?_⟩
    simp only [left]
    exact sound.completes left
  | again =>
    refine ⟨_, rfl, ?_⟩
    simp only [left]
    exact sound.stops
  | failed => exact absurd left exit

theorem MasterConnection.conserves : ConservesBytes MasterConnection.handleWrite := by
  intro buffer replies regular
  obtain ⟨loop, ran, sound, exit⟩ := writeLoop_starts buffer regular
  rw [MasterConnection.handleWrite]
  split
  · rename_i empty
    exact ⟨_, rfl, empty.symm⟩
  · rw [ran]
    cases left : loop.exit with
    | completed =>
      refine ⟨_, rfl, ?_⟩
      simp only [left]
      exact sound.completes left
    | again =>
      refine ⟨_, rfl, ?_⟩
      simp only [left]
      exact sound.stops
    | failed => exact absurd left exit

/-- What happens to a write buffer. -/
inductive BufferEvent where
  | append (data : Bytes)
  | handleWrite (replies : Nat → WriteReply)

/-- The write buffer, and all that the socket has taken so far. -/
structure BufferState where
  buffer : Bytes := []
  accepted : Bytes := []

def BufferState.step (handleWrite : Bytes → (Nat → WriteReply) → Option Written)
    (state : BufferState) : BufferEvent → Option BufferState
  | .append data => some { state with buffer := state.buffer ++ data }
  | .handleWrite replies => (handleWrite state.buffer replies).map fun written =>
    { buffer := written.buffer, accepted := state.accepted ++ written.accepted }

/-- The events one after another. -/
def BufferState.run (handleWrite : Bytes → (Nat → WriteReply) → Option Written) :
    BufferState → List BufferEvent → Option BufferState
  | state, [] => some state
  | state, event :: events => (state.step handleWrite event).bind fun state =>
    state.run handleWrite events

/-- The bytes that an event appends. -/
def BufferEvent.appended : BufferEvent → Bytes
  | .append data => data
  | .handleWrite _ => []

/-- The socket is regular in all of its replies. -/
def BufferEvent.Regular : BufferEvent → Prop
  | .append _ => True
  | .handleWrite replies => ∀ call, (replies call).Regular

variable {handleWrite : Bytes → (Nat → WriteReply) → Option Written} {event : BufferEvent}
  {events : List BufferEvent}

/-- A step adds to the stream what it appends to the buffer. -/
theorem ConservesBytes.step (conserves : ConservesBytes handleWrite) (state : BufferState)
    (regular : event.Regular) : ∃ state', state.step handleWrite event = some state' ∧
      state'.accepted ++ state'.buffer = state.accepted ++ state.buffer ++ event.appended := by
  cases event with
  | append data => exact ⟨_, rfl, (List.append_assoc ..).symm⟩
  | handleWrite replies =>
    obtain ⟨written, ran, split⟩ := conserves state.buffer replies regular
    refine ⟨_, by rw [BufferState.step, ran]; rfl, ?_⟩
    rw [BufferEvent.appended, List.append_nil, List.append_assoc, split]

/-- So does a run. -/
theorem ConservesBytes.run (conserves : ConservesBytes handleWrite) (state : BufferState)
    (regular : ∀ event ∈ events, event.Regular) :
    ∃ state', state.run handleWrite events = some state' ∧
      state'.accepted ++ state'.buffer =
        state.accepted ++ state.buffer ++ events.flatMap BufferEvent.appended := by
  induction events generalizing state with
  | nil => exact ⟨state, rfl, by simp⟩
  | cons event events ih =>
    obtain ⟨middle, first, moved⟩ := conserves.step state (regular event List.mem_cons_self)
    obtain ⟨final, others, stream⟩ :=
      ih middle fun other member => regular other (List.mem_cons_of_mem _ member)
    refine ⟨final, ?_, ?_⟩
    · rw [BufferState.run, first]
      exact others
    · rw [stream, moved, List.flatMap_cons, List.append_assoc]

/-- Whatever is appended to a new connection goes out once and in order: after
any run of appends and calls, the bytes that the socket has taken and those in
the buffer are the bytes that were appended. -/
theorem writeBuffer_stream (events : List BufferEvent) (regular : ∀ event ∈ events, event.Regular) :
    (∃ state, BufferState.run TcpConnection.handleWrite {} events = some state ∧
      state.accepted ++ state.buffer = events.flatMap BufferEvent.appended) ∧
    (∃ state, BufferState.run MasterConnection.handleWrite {} events = some state ∧
      state.accepted ++ state.buffer = events.flatMap BufferEvent.appended) :=
  ⟨TcpConnection.conserves.run {} regular, MasterConnection.conserves.run {} regular⟩

/-- A socket that takes two bytes and then would block. -/
def twoBytes (call : Nat) : WriteReply := if call = 0 then .accepted 2 else .again

theorem twoBytes_regular (call : Nat) : (twoBytes call).Regular := by
  unfold twoBytes
  split
  · exact Nat.two_pos
  · trivial

theorem writeBuffer_stream_twoBytes :
    ∃ state, BufferState.run TcpConnection.handleWrite {}
        [.append (ascii "abc"), .handleWrite twoBytes, .append (ascii "de"), .handleWrite twoBytes] =
          some state ∧ state.accepted ++ state.buffer = ascii "abcde" := by
  refine (writeBuffer_stream _ ?_).1
  simp only [List.mem_cons, List.not_mem_nil, or_false, forall_eq_or_imp, forall_eq]
  exact ⟨trivial, twoBytes_regular, trivial, twoBytes_regular⟩

/-! ## The event loop -/

/-- The events of the server see the call as a number of bytes that it drops. -/
theorem handleWrite_drop (conserves : ConservesBytes handleWrite)
    (regular : ∀ call, (replies call).Regular) (ran : handleWrite buffer replies = some written) :
    written.buffer = buffer.drop written.accepted.length := by
  obtain ⟨written', ran', split⟩ := conserves buffer replies regular
  rw [ran] at ran'
  cases ran'
  rw [← split, List.drop_left]

theorem Server.handleWrite_written {server : Server} {fd : Fd} {client : Client}
    (connected : server.clients.lookup fd = some client) (regular : ∀ call, (replies call).Regular)
    (ran : TcpConnection.handleWrite client.writeBuffer replies = some written) :
    (server.handleWrite fd written.accepted.length).clients.lookup fd =
      some { client with writeBuffer := written.buffer } := by
  rw [Server.handleWrite, lookup_modifyClient, connected, if_pos rfl,
    handleWrite_drop TcpConnection.conserves regular ran]
  rfl

end CarrotDb
