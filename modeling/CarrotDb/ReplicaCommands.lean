import CarrotDb.CommandStreams
import CarrotDb.SlaveReplication

/-! The commands of a replica. A read event runs the loop over what the read
buffer holds; a batch of frames that each fit leaves nothing in the buffer, and
runs its commands one after another. -/
namespace CarrotDb
open Decimal Resp

/-- The request for an acknowledgement, which the replica answers itself. -/
def Command.isGetAck : Command → Bool
  | .replConf .getAck .. => true
  | _ => false

/-- Frames that fit one behind the other, of commands that are known. -/
def Batch : List Frame → Prop
  | [] => True
  | frame :: rest =>
    frame.Fits (bytesOf rest) ∧ (∀ command, frame.command = .ok command → command ≠ .unknow) ∧
      Batch rest

namespace SlaveReplicationClient

variable {σ : Type} {execute : Client → Command → σ → Exec (Client × σ)}
  {slave slave' : SlaveReplicationClient} {state state' : σ} {rounds : Nat}

section Rounds
variable {parsed : Parsed} (some_ : slave.client.readBuffer ≠ [])
  (read : parseCommand slave.client.readBuffer = .ok parsed)
include some_ read

theorem round_getAck (getAck : parsed.command.isGetAck = true) :
    processCommandsFrom execute (rounds + 1) slave state =
      processCommandsFrom execute rounds (slave.acknowledge parsed) state := by
  rw [processCommandsFrom, if_neg some_, read, exec_ok_bind]
  cases command : parsed.command with
  | replConf subcommand port capability offset =>
    cases subcommand with
    | getAck => rfl
    | _ =>
      rw [command] at getAck
      cases getAck
  | _ =>
    rw [command] at getAck
    cases getAck

theorem round_unknown (unknown : parsed.command = .unknow) :
    processCommandsFrom execute (rounds + 1) slave state =
      .ok (slave.withReadBuffer parsed.readBuffer, state) := by
  rw [processCommandsFrom, if_neg some_, read, exec_ok_bind, unknown]
  rfl

theorem round_command (other : parsed.command.isGetAck = false) (known : parsed.command ≠ .unknow) :
    processCommandsFrom execute (rounds + 1) slave state = (do
      let (client, state) ←
        execute { slave.client with readBuffer := parsed.readBuffer } parsed.command state
      processCommandsFrom execute rounds (slave.processed client parsed) state) := by
  rw [processCommandsFrom, if_neg some_, read, exec_ok_bind]
  cases command : parsed.command with
  | unknow => exact absurd command known
  | replConf subcommand port capability offset =>
    cases subcommand with
    | getAck =>
      rw [command] at other
      cases other
    | _ => rfl
  | _ => rfl

end Rounds

/-- What a round amounts to. -/
theorem processCommandsFrom_cases
    (ran : processCommandsFrom execute (rounds + 1) slave state = .ok (slave', state')) :
    (slave.client.readBuffer = [] ∧ slave' = slave ∧ state' = state) ∨
    ∃ parsed, slave.client.readBuffer ≠ [] ∧ parseCommand slave.client.readBuffer = .ok parsed ∧
      (parsed.command = .unknow ∧ slave' = slave.withReadBuffer parsed.readBuffer ∧ state' = state ∨
      parsed.command.isGetAck = true ∧
        processCommandsFrom execute rounds (slave.acknowledge parsed) state = .ok (slave', state') ∨
      parsed.command.isGetAck = false ∧ parsed.command ≠ .unknow ∧ ∃ client state₁,
        execute { slave.client with readBuffer := parsed.readBuffer } parsed.command state =
          .ok (client, state₁) ∧
        processCommandsFrom execute rounds (slave.processed client parsed) state₁ =
          .ok (slave', state')) := by
  by_cases empty : slave.client.readBuffer = []
  · rw [processCommandsFrom, if_pos empty] at ran
    cases ran
    exact .inl ⟨empty, rfl, rfl⟩
  · cases read : parseCommand slave.client.readBuffer with
    | error fault =>
      rw [processCommandsFrom, if_neg empty, read] at ran
      cases ran
    | ok parsed =>
      refine .inr ⟨parsed, empty, rfl, ?_⟩
      by_cases unknown : parsed.command = .unknow
      · rw [round_unknown empty read unknown] at ran
        cases ran
        exact .inl ⟨unknown, rfl, rfl⟩
      · cases getAck : parsed.command.isGetAck with
        | true =>
          rw [round_getAck empty read getAck] at ran
          exact .inr (.inl ⟨rfl, ran⟩)
        | false =>
          rw [round_command empty read getAck unknown] at ran
          obtain ⟨⟨client, state₁⟩, executed, ran⟩ := exec_bind_ok.mp ran
          exact .inr (.inr ⟨rfl, unknown, client, state₁, executed, ran⟩)

/-- What every command keeps of the state, the loop keeps. -/
theorem processCommandsFrom_keeps {invariant : σ → Prop}
    (step : ∀ client command state client' state', invariant state →
      execute client command state = .ok (client', state') → invariant state')
    (ran : processCommandsFrom execute rounds slave state = .ok (slave', state'))
    (held : invariant state) : invariant state' := by
  induction rounds generalizing slave state with
  | zero =>
    cases ran
    exact held
  | succ rounds ih =>
    rcases processCommandsFrom_cases ran with ⟨-, -, rfl⟩ | ⟨parsed, -, -, ⟨-, -, rfl⟩ | ⟨-, ran⟩ |
      ⟨-, -, client, state₁, executed, ran⟩⟩
    · exact held
    · exact held
    · exact ih ran held
    · exact ih ran (step _ _ _ _ _ held executed)

theorem processReadBuffer_keeps {invariant : σ → Prop}
    (step : ∀ client command state client' state', invariant state →
      execute client command state = .ok (client', state') → invariant state')
    (ran : slave.processReadBuffer execute state = .ok (slave', state'))
    (held : invariant state) : invariant state' := by
  rw [processReadBuffer] at ran
  dsimp only at ran
  split at ran
  · exact processCommandsFrom_keeps step ran held
  · split at ran
    · exact processCommandsFrom_keeps step ran held
    · cases ran
      exact held

/-- Where every command does the same over another state, the loop does. -/
theorem processCommandsFrom_alike {change : σ → σ}
    (alike : ∀ client command state client' state',
      execute client command state = .ok (client', state') →
      execute client command (change state) = .ok (client', change state'))
    (ran : processCommandsFrom execute rounds slave state = .ok (slave', state')) :
    processCommandsFrom execute rounds slave (change state) = .ok (slave', change state') := by
  induction rounds generalizing slave state with
  | zero =>
    cases ran
    rfl
  | succ rounds ih =>
    rcases processCommandsFrom_cases ran with ⟨empty, rfl, rfl⟩ | ⟨parsed, nonempty, read,
      ⟨unknown, rfl, rfl⟩ | ⟨getAck, ran⟩ | ⟨getAck, known, client, state₁, executed, ran⟩⟩
    · rw [processCommandsFrom, if_pos empty]
      rfl
    · exact round_unknown nonempty read unknown
    · rw [round_getAck nonempty read getAck]
      exact ih ran
    · rw [round_command nonempty read getAck known, alike _ _ _ _ _ executed]
      exact ih ran

theorem processReadBuffer_alike {change : σ → σ}
    (alike : ∀ client command state client' state',
      execute client command state = .ok (client', state') →
      execute client command (change state) = .ok (client', change state'))
    (ran : slave.processReadBuffer execute state = .ok (slave', state')) :
    slave.processReadBuffer execute (change state) = .ok (slave', change state') := by
  rw [processReadBuffer] at ran ⊢
  dsimp only at ran ⊢
  split at ran
  · rw [if_pos ‹_›]
    exact processCommandsFrom_alike alike ran
  · rw [if_neg ‹_›]
    split at ran
    · rw [if_pos ‹_›]
      exact processCommandsFrom_alike alike ran
    · rw [if_neg ‹_›]
      cases ran
      rfl

/-- The loop is only run behind a completed handshake, and leaves it so. -/
theorem processCommandsFrom_completed
    (ran : processCommandsFrom execute rounds slave state = .ok (slave', state')) :
    slave'.isHandshakeCompleted = slave.isHandshakeCompleted := by
  induction rounds generalizing slave state with
  | zero =>
    cases ran
    rfl
  | succ rounds ih =>
    rcases processCommandsFrom_cases ran with ⟨-, rfl, -⟩ | ⟨parsed, -, -, ⟨-, rfl, -⟩ | ⟨-, ran⟩ |
      ⟨-, -, client, state₁, -, ran⟩⟩
    · rfl
    · rfl
    · have same := ih ran
      exact same
    · have same := ih ran
      exact same

/-! ## The commands that are run -/

/-- An `execute` that keeps a record of its commands. -/
def logged (execute : Client → Command → σ → Exec (Client × σ)) (client : Client)
    (command : Command) (state : σ × List Command) : Exec (Client × σ × List Command) := do
  let (client, after) ← execute client command state.1
  pure (client, after, state.2 ++ [command])

/-- The record changes nothing else. -/
theorem processCommandsFrom_logged {log : List Command}
    (ran : processCommandsFrom execute rounds slave state = .ok (slave', state')) :
    ∃ log', processCommandsFrom (logged execute) rounds slave (state, log) =
      .ok (slave', state', log') := by
  induction rounds generalizing slave state log with
  | zero =>
    cases ran
    exact ⟨log, rfl⟩
  | succ rounds ih =>
    rcases processCommandsFrom_cases ran with ⟨empty, rfl, rfl⟩ | ⟨parsed, some_, read,
      ⟨unknown, rfl, rfl⟩ | ⟨getAck, ran⟩ | ⟨other, known, client, state₁, executed, ran⟩⟩
    · exact ⟨log, by rw [processCommandsFrom, if_pos empty]; rfl⟩
    · exact ⟨log, round_unknown some_ read unknown⟩
    · rw [round_getAck some_ read getAck]
      exact ih ran
    · obtain ⟨log', later⟩ := @ih _ _ (log ++ [parsed.command]) ran
      refine ⟨log', ?_⟩
      rw [round_command some_ read other known, logged, executed]
      exact later

theorem processReadBuffer_logged (ran : slave.processReadBuffer execute state = .ok (slave', state')) :
    ∃ log, slave.processReadBuffer (logged execute) (state, []) = .ok (slave', state', log) := by
  rw [processReadBuffer] at ran ⊢
  dsimp only at ran ⊢
  by_cases completed : slave.isHandshakeCompleted = true
  · rw [if_pos completed] at ran ⊢
    exact processCommandsFrom_logged ran
  · rw [if_neg completed] at ran ⊢
    by_cases ready : slave.handleHandshakeRead.isHandshakeCompleted = true
    · rw [if_pos ready] at ran ⊢
      exact processCommandsFrom_logged ran
    · rw [if_neg ready] at ran ⊢
      cases ran
      exact ⟨[], rfl⟩

theorem i64_add (x y : Int) : i64 (i64 x + y) = i64 (x + y) := by
  unfold i64
  exact Int.bmod_add_bmod

/-- A batch is run command by command and leaves nothing in the read buffer. -/
theorem processCommandsFrom_batch {frames : List Frame} {log log' : List Command}
    (keeps : ∀ client command state client' state',
      execute client command state = .ok (client', state') →
      client'.readBuffer = client.readBuffer)
    (batch : Batch frames) (held : slave.client.readBuffer = bytesOf frames)
    (enough : frames.length ≤ rounds)
    (ran : processCommandsFrom (logged execute) rounds slave (state, log) =
      .ok (slave', state', log')) :
    ∃ commands, commandsOf frames = .ok commands ∧
      log' = log ++ commands.filter (fun command => !command.isGetAck) ∧
      slave'.client.readBuffer = [] ∧
      slave'.isHandshakeCompleted = slave.isHandshakeCompleted ∧
      i64 slave'.bytesProcessed = i64 (slave.bytesProcessed + (bytesOf frames).length) := by
  induction frames generalizing rounds slave state log with
  | nil =>
    have empty : slave.client.readBuffer = [] := held
    have same : (slave', state', log') = (slave, state, log) := by
      cases rounds with
      | zero =>
        cases ran
        rfl
      | succ rounds =>
        rw [processCommandsFrom, if_pos empty] at ran
        cases ran
        rfl
    cases same
    refine ⟨[], rfl, (List.append_nil _).symm, empty, rfl, ?_⟩
    rw [bytesOf, List.flatMap_nil, List.length_nil, Int.natCast_zero, Int.add_zero]
  | cons frame frames ih =>
    obtain ⟨fits, known, batch⟩ := batch
    obtain ⟨command, stands, read⟩ := Frame.parse_fits fits
    have front : bytesOf (frame :: frames) = frame.bytes ++ bytesOf frames := List.flatMap_cons
    rw [front] at held
    have some_ : slave.client.readBuffer ≠ [] := by
      rw [held]
      exact fun absent => frame.bytes_ne_nil (List.append_eq_nil_iff.mp absent).1
    have total : ((bytesOf (frame :: frames)).length : Int) =
        frame.bytes.length + (bytesOf frames).length := by
      rw [front, List.length_append, Int.natCast_add]
    rw [← held] at read
    cases rounds with
    | zero => exact absurd enough (Nat.not_succ_le_zero _)
    | succ rounds =>
      have later := Nat.le_of_succ_le_succ enough
      cases getAck : command.isGetAck with
      | true =>
        rw [round_getAck some_ read getAck] at ran
        obtain ⟨commands, rest, recorded, emptied, completed, counted⟩ := ih batch rfl later ran
        refine ⟨command :: commands, commandsOf_cons stands rest, ?_, emptied, completed, ?_⟩
        · rw [recorded, List.filter_cons_of_neg (by rw [getAck]; decide)]
        · rw [counted, total, acknowledge]
          dsimp only
          rw [i64_add, Int.add_assoc]
      | false =>
        rw [round_command some_ read getAck (known command stands)] at ran
        obtain ⟨⟨client, state₁, log₁⟩, executed, ran⟩ := exec_bind_ok.mp ran
        rw [logged] at executed
        obtain ⟨⟨client₁, after⟩, inner, same⟩ := exec_bind_ok.mp executed
        cases same
        have kept : (slave.processed client ⟨command, frame.bytes.length, bytesOf frames⟩).client.readBuffer =
            bytesOf frames := keeps _ _ _ _ _ inner
        obtain ⟨commands, rest, recorded, emptied, completed, counted⟩ := ih batch kept later ran
        refine ⟨command :: commands, commandsOf_cons stands rest, ?_, emptied, completed, ?_⟩
        · rw [recorded, List.filter_cons_of_pos (by rw [getAck]; rfl), List.append_assoc]
          rfl
        · rw [counted, total, processed]
          dsimp only
          rw [i64_add, Int.add_assoc]

end SlaveReplicationClient

end CarrotDb
