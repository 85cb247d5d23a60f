import CarrotDb.Handshake

/-! The stream of a client. A read event hands everything that has arrived to
the parser, which runs one command of it; so the commands that are run are the
ones that were sent as long as each read event completes the next frame. What
comes together with the end of the stream is not parsed any more. -/
namespace CarrotDb
open Resp

variable {server : Server} {handled : Handled} {event : Event} {machine : Machine} {fd other : Fd}

private theorem handle_readBuffer {client : Client} {command : Command} {managed : Handled}
    (managing : server.handle fd client machine command = some managed) :
    (managed.server.clients.lookup other).map Client.readBuffer =
      (server.clients.lookup other).map Client.readBuffer := by
  cases command <;> cases managing
  case info => rfl
  case replConf subcommand _ _ _ =>
    cases subcommand with
    | ack => exact view_modifyClient (by intro client; rfl) _ _ _
    | _ => rfl
  case psync =>
    rw [handlePsync]
    split
    · rfl
    · exact view_modifyClient (by intro client; rfl) _ _ _
  case wait =>
    rw [handleWait]
    dsimp only
    split
    · rfl
    · split <;> rfl

/-- A request leaves every read buffer as the parser left it. -/
theorem serve_readBuffer {client : Client} {command : Command} {bytesProcessed : Nat}
    (ran : server.serve fd client machine command bytesProcessed = .ok handled) :
    (handled.server.clients.lookup other).map Client.readBuffer =
      (server.clients.lookup other).map Client.readBuffer := by
  rcases serve_cases ran with ⟨managed, managing, -, after⟩ |
    ⟨executed, server₁, propagated, -, -, passing, -, after⟩
  · rw [after]
    exact (view_applyToClients Effect.apply_readBuffer _ _ _ _).trans (handle_readBuffer managing)
  · rw [after]
    refine (view_applyToClients Effect.apply_readBuffer _ _ _ _).trans ?_
    rcases handlePropagate_cases passing with ⟨rfl, -, -⟩ | ⟨one, raw, -, -, -, -, rfl, -⟩ <;> rfl

/-- Only its own read events touch the read buffer of a client. -/
theorem step_readBuffer {client : Client} (connected : server.clients.lookup fd = some client)
    (elsewhere : event.reads ≠ some fd)
    (ran : server.step event = .ok handled) :
    (handled.server.clients.lookup fd).map Client.readBuffer = some client.readBuffer := by
  have before : (server.clients.lookup fd).map Client.readBuffer = some client.readBuffer := by
    rw [connected]
    rfl
  cases event with
  | connect new =>
    rw [Server.step] at ran
    split at ran
    · cases ran
      exact before
    · rename_i fresh
      cases ran
      have different : fd ≠ new := by
        rintro rfl
        exact fresh (by rw [Server.alive, connected]; rfl)
      rw [Server.onNewConnection]
      dsimp only
      rwa [Finmap.lookup_insert_of_ne _ different]
  | receive asking data machine =>
    rcases step_receive ran with ⟨-, rfl⟩ | ⟨asker, parsed, -, -, -, served⟩
    · exact before
    · have different : fd ≠ asking := fun same => elsewhere (congrArg some same.symm)
      rw [serve_readBuffer served, Server.taking]
      dsimp only
      rwa [Finmap.lookup_insert_of_ne _ different]
  | close closing data =>
    cases ran
    have different : closing ≠ fd := fun same => elsewhere (congrArg some same)
    rw [Server.handleClose, lookup_modifyClient, if_neg different, Option.map_id]
    exact before
  | send writing count =>
    cases ran
    rw [Server.handleWrite]
    dsimp only
    rwa [view_modifyClient]
    exact fun _ => rfl
  | expire machine =>
    cases ran
    exact (view_applyToClients Effect.apply_readBuffer 0 _ _ _).trans before
  | receiveMaster data machines =>
    refine receiveMaster_keeps (fun server => (server.clients.lookup fd).map Client.readBuffer =
      some client.readBuffer) (fun server db acl served effects held => ?_)
      (fun _ _ held => held) ran before
    exact (view_applyToClients Effect.apply_readBuffer _ _ _ _).trans held
  | endMaster data =>
    cases ran
    exact before
  | sendMaster =>
    cases ran
    exact before

/-! ## Reads in step with the frames -/

/-- The read events of a client that are handled. -/
def received (fd : Fd) (events : List Event) : List Bytes :=
  events.filterMap fun
    | .receive asking data _ => if asking = fd then some data else none
    | _ => none

/-- The command that a turn runs for a client. -/
def Turn.executed (turn : Turn) (fd : Fd) : Option Command :=
  match requestIn turn.before turn.event with
  | some (asking, parsed) => if asking = fd then some parsed.command else none
  | none => none

/-- Each read event completes the next frame, and brings what stands behind it
from then on; with the last read event the last frame is complete. -/
def InStep : (pending : Bytes) → List Frame → (chunks : List Bytes) → Prop
  | pending, [], [] => pending = []
  | pending, frame :: frames, chunk :: chunks =>
    ∃ rest, pending ++ chunk = frame.bytes ++ rest ∧ frame.Readable rest ∧ InStep rest frames chunks
  | _, _, _ => False

theorem executed_elsewhere (elsewhere : event.reads ≠ some fd) :
    Turn.executed ⟨server, event, handled⟩ fd = none := by
  rw [Turn.executed]
  cases event with
  | receive asking data machine =>
    have different : asking ≠ fd := fun same => elsewhere (congrArg some same)
    cases request : requestIn server (.receive asking data machine) with
    | none => rfl
    | some one =>
      have same : one.1 = asking := by
        rw [requestIn] at request
        cases lookup : server.clients.lookup asking with
        | none =>
          rw [lookup] at request
          cases request
        | some client =>
          rw [lookup] at request
          dsimp only at request
          split at request
          · cases request
            rfl
          · cases request
      exact if_neg (same ▸ different)
  | _ => rfl

/-- One event, seen from a client: a read event of its own runs one command of
what its read buffer holds then, and the last one leaves the bytes there; any
other leaves the read buffer alone. -/
theorem executed_step {pending : Bytes}
    (connected : (server.clients.lookup fd).map Client.readBuffer = some pending)
    (ran : server.step event = .ok handled) :
    (∃ data parsed, parseCommand (pending ++ data) = .ok parsed ∧
      (∀ events, received fd (event :: events) = data :: received fd events) ∧
      Turn.executed ⟨server, event, handled⟩ fd = some parsed.command ∧
      (handled.server.clients.lookup fd).map Client.readBuffer = some parsed.readBuffer) ∨
    (∀ events, received fd (event :: events) = received fd events) ∧
      Turn.executed ⟨server, event, handled⟩ fd = none ∧
      ∃ data, (event = .close fd data ∨ data = []) ∧
        (handled.server.clients.lookup fd).map Client.readBuffer = some (pending ++ data) := by
  obtain ⟨client, lookup, rfl⟩ := Option.map_eq_some_iff.mp connected
  by_cases own : event.reads = some fd
  · cases event with
    | receive asking data machine =>
      obtain rfl : asking = fd := Option.some.inj own
      rcases step_receive ran with ⟨absent, -⟩ | ⟨client', parsed, lookup', read, request, served⟩
      · rw [absent] at lookup
        cases lookup
      · rw [lookup] at lookup'
        cases lookup'
        refine .inl ⟨data, parsed, read, fun events => ?_, ?_, ?_⟩
        · rw [received, List.filterMap_cons]
          dsimp only
          rw [if_pos rfl]
          rfl
        · rw [Turn.executed]
          dsimp only
          rw [request]
          exact if_pos rfl
        · rw [serve_readBuffer served, Server.taking]
          dsimp only
          rw [Finmap.lookup_insert]
          rfl
    | close closing data =>
      obtain rfl : closing = fd := Option.some.inj own
      cases ran
      refine .inr ⟨fun events => rfl, rfl, data, .inl rfl, ?_⟩
      rw [Server.handleClose, lookup_modifyClient, lookup, if_pos rfl]
      rfl
    | _ => cases own
  · refine .inr ⟨fun events => ?_, executed_elsewhere own, [], .inr rfl, ?_⟩
    · rw [received, List.filterMap_cons]
      cases event with
      | receive asking data machine =>
        have different : asking ≠ fd := fun same => own (congrArg some same)
        dsimp only
        rw [if_neg different]
        rfl
      | _ => rfl
    · rw [List.append_nil]
      exact step_readBuffer lookup own ran

/-- What a client in step has had run: the frames, one with each read event. -/
theorem run_inStep {pending : Bytes} {frames : List Frame} {events : List Event}
    {turns : List Turn} (connected : (server.clients.lookup fd).map Client.readBuffer = some pending)
    (inStep : InStep pending frames (received fd events))
    (bare : ∀ data, Event.close fd data ∈ events → data = []) (ran : server.run events = .ok turns) :
    commandsOf frames = .ok (turns.filterMap fun turn => turn.executed fd) := by
  induction events generalizing server pending frames turns with
  | nil =>
    cases ran
    cases frames with
    | nil => rfl
    | cons frame frames => exact inStep.elim
  | cons event events ih =>
    rw [Server.run] at ran
    obtain ⟨handled, first, ran⟩ := exec_bind_ok.mp ran
    obtain ⟨turns, following, ran⟩ := exec_bind_ok.mp ran
    cases ran
    have bare' : ∀ data, Event.close fd data ∈ events → data = [] := fun data held =>
      bare data (List.mem_cons_of_mem _ held)
    rcases executed_step connected first with ⟨data, parsed, read, arrived, one, left⟩ |
      ⟨elsewhere, none_, data, ending, left⟩
    · rw [arrived] at inStep
      cases frames with
      | nil => exact inStep.elim
      | cons frame frames =>
        obtain ⟨rest, whole, readable, later⟩ := inStep
        obtain ⟨command, count, stands, read'⟩ := Frame.parse_readable readable
        rw [whole, read'] at read
        cases read
        rw [List.filterMap_cons, one]
        exact commandsOf_cons stands (ih left later bare' following)
    · rw [elsewhere] at inStep
      rw [List.filterMap_cons, none_]
      have nothing : data = [] := by
        rcases ending with rfl | nothing
        · exact bare data List.mem_cons_self
        · exact nothing
      rw [nothing, List.append_nil] at left
      exact ih left inStep bare' following

/-- One command is run with each read event, whatever has arrived. -/
theorem executed_length {pending : Bytes} {events : List Event} {turns : List Turn}
    (connected : (server.clients.lookup fd).map Client.readBuffer = some pending)
    (ran : server.run events = .ok turns) :
    (turns.filterMap fun turn => turn.executed fd).length = (received fd events).length := by
  induction events generalizing server pending turns with
  | nil =>
    cases ran
    rfl
  | cons event events ih =>
    rw [Server.run] at ran
    obtain ⟨handled, first, ran⟩ := exec_bind_ok.mp ran
    obtain ⟨turns, following, ran⟩ := exec_bind_ok.mp ran
    cases ran
    rcases executed_step connected first with ⟨data, parsed, -, arrived, one, left⟩ |
      ⟨elsewhere, none_, data, -, left⟩
    · rw [List.filterMap_cons, one, arrived, List.length_cons, List.length_cons, ih left following]
    · rw [List.filterMap_cons, none_, elsewhere]
      exact ih left following

/-- Reads in step with the frames run what was sent, if no bytes come with the
end of the file. Otherwise this needs as many read events as frames at least,
since each runs one command. -/
theorem reads_in_step {frames : List Frame} {events : List Event} {turns : List Turn}
    (connected : (server.clients.lookup fd).map Client.readBuffer = some [])
    (ran : server.run events = .ok turns) :
    ((∀ data, Event.close fd data ∈ events → data = []) → InStep [] frames (received fd events) →
      commandsOf frames = .ok (turns.filterMap fun turn => turn.executed fd)) ∧
    (commandsOf frames = .ok (turns.filterMap fun turn => turn.executed fd) →
      (received fd events).length = frames.length) := by
  refine ⟨fun bare inStep => run_inStep connected inStep bare ran, fun same => ?_⟩
  rw [← executed_length connected ran]
  exact commandsOf_length same

private def pingFrame : Frame := ⟨ascii "PING", []⟩

/-- Two frames in two read events, the first of which brings one whole and
some of the other, and the end of the file. -/
def inStepSample : List Event :=
  [.receive 1 (pingFrame.bytes ++ ascii "*1\r\n$4") .sample,
    .receive 1 (ascii "\r\nPING\r\n") .sample, .close 1 []]

private theorem pingFrame_fits (rest : Bytes) : pingFrame.Fits rest :=
  ⟨by decide, by decide, ⟨by decide, fun absent => absurd absent (by decide), 0, rfl, .inl rfl⟩⟩

theorem reads_in_step_pings :
    commandsOf [pingFrame, pingFrame] =
      .ok ((((Server.onNewConnection {} 1).run inStepSample).toOption.getD []).filterMap
        fun turn => turn.executed 1) := by
  have both := @reads_in_step (Server.onNewConnection {} 1) 1 [pingFrame, pingFrame] inStepSample
    _ rfl (exec_getD [] (by decide +kernel))
  refine both.1 (fun data closed => ?_) ⟨ascii "*1\r\n$4", by decide, .inl (pingFrame_fits _), [],
    by decide, .inl (pingFrame_fits _), rfl⟩
  simpa [inStepSample] using closed

/-- Two frames in one read event. -/
def mergedSample : List Event := [.receive 1 (bytesOf [pingFrame, pingFrame]) .sample]

theorem merged_frames_lost : ¬ ∀ (server : Server) (fd : Fd) (frames : List Frame)
    (events : List Event) (turns : List Turn),
    (server.clients.lookup fd).map Client.readBuffer = some [] →
    (received fd events).flatten = bytesOf frames →
    (∀ data, Event.close fd data ∈ events → data = []) → server.run events = .ok turns →
    commandsOf frames = .ok (turns.filterMap fun turn => turn.executed fd) := by
  intro claim
  have ran : (Server.onNewConnection {} 1).run mergedSample =
      .ok (((Server.onNewConnection {} 1).run mergedSample).toOption.getD []) :=
    exec_getD [] (by decide +kernel)
  have stands := claim _ 1 [pingFrame, pingFrame] mergedSample _ rfl (by decide)
    (fun data closed => by simp [mergedSample] at closed) ran
  have count := commandsOf_length stands
  exact absurd count (by decide +kernel)

end CarrotDb
