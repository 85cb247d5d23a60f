import CarrotDb.ClientStreams
import CarrotDb.WakeUps

/-! The answers to WAIT. A WAIT is answered at once, or it is registered and
answered by the acknowledgement or the sweep that takes it out of the list. -/
namespace CarrotDb
open Resp Ledger

/-- The WAITs that were registered, known by their position, and those that
were taken out, with the count each was answered with. A removal is served by
an acknowledgement, or given up on. -/
abbrev WaitLog := History BlockedWaitClient Nat

namespace WaitLog

/-- All WAITs wait in one list. -/
def home (_ : BlockedWaitClient) : Unit := ()

/-- The WAITs that still wait. -/
def pending (log : WaitLog) : List BlockedWaitClient := (log.waiting home ()).map Prod.fst

end WaitLog

variable {log : WaitLog}

theorem pending_register (exact_ : log.Exact) (blocked : BlockedWaitClient) :
    WaitLog.pending (log.register blocked) = log.pending ++ [blocked] := by
  have here : WaitLog.home blocked = () := rfl
  rw [WaitLog.pending, History.waiting_register exact_, if_pos here, List.map_append]
  rfl

/-- The removals of those WAITs that a test picks. -/
def WaitLog.picked (log : WaitLog) (served : Bool) (gone : BlockedWaitClient → Bool)
    (count : BlockedWaitClient → Nat) : List (Removal BlockedWaitClient Nat) :=
  History.gone served count ((log.waiting home ()).filter fun entry => gone entry.1)

/-- Taking out the WAITs that a test picks leaves the others. -/
theorem picked_removed (exact_ : log.Exact) (served : Bool) (gone : BlockedWaitClient → Bool)
    (count : BlockedWaitClient → Nat) :
    (log.remove (log.picked served gone count)).Exact ∧
      WaitLog.pending (log.remove (log.picked served gone count)) =
        log.pending.filter fun blocked => !gone blocked := by
  have part : History.taken (log.picked served gone count) =
      (log.waiting WaitLog.home ()).filter fun entry => gone entry.1 := History.taken_gone _ _ _
  refine ⟨exact_.remove (part ▸ List.filter_sublist), ?_⟩
  rw [WaitLog.pending, History.waiting_remove_filter part, WaitLog.pending, List.filter_map]
  rfl

/-- A removal takes an entry that the test picks, and is labelled as asked. -/
theorem mem_picked {served : Bool} {gone : BlockedWaitClient → Bool}
    {count : BlockedWaitClient → Nat} {removal : Removal BlockedWaitClient Nat}
    (member : removal ∈ log.picked served gone count) :
    gone removal.entry = true ∧ removal.served = served ∧ removal.reply = count removal.entry := by
  obtain ⟨entry, inside, rfl⟩ := List.mem_map.mp member
  exact ⟨(List.mem_filter.mp inside).2, rfl, rfl⟩

/-- The answers of removals, to the clients that sent the WAITs. -/
def answersOf (removals : List (Removal BlockedWaitClient Nat)) : List (Fd × Bytes) :=
  removals.map fun removal => (removal.entry.clientFd, encodeInteger removal.reply)

theorem answersOf_picked (served : Bool) (gone : BlockedWaitClient → Bool)
    (count : BlockedWaitClient → Nat) :
    answersOf (log.picked served gone count) = (log.pending.filter gone).map fun blocked =>
      (blocked.clientFd, encodeInteger (count blocked)) := by
  rw [answersOf, WaitLog.picked, History.gone, List.map_map, WaitLog.pending, List.filter_map,
    List.map_map]
  rfl

variable {clients : Map Fd Client} {slaves : List Fd} {waiting : List BlockedWaitClient}

/-- An acknowledgement answers the WAITs that enough replicas have reached. -/
theorem checkBlockedWaitClients_eq
    (alive : ∀ blocked ∈ waiting, (clients.lookup blocked.clientFd).isSome = true) :
    checkBlockedWaitClients clients slaves waiting =
      (handOver ((waiting.filter fun blocked =>
          blocked.numReplicasNeeded ≤ ackedReplicas clients slaves blocked.masterOffset).map
        fun blocked => (blocked.clientFd,
          encodeInteger (ackedReplicas clients slaves blocked.masterOffset))),
      waiting.filter fun blocked =>
        !decide (blocked.numReplicasNeeded ≤ ackedReplicas clients slaves blocked.masterOffset)) := by
  induction waiting with
  | nil => rfl
  | cons blocked rest ih =>
    have later := ih fun other member => alive other (List.mem_cons_of_mem _ member)
    have there : ¬ (clients.lookup blocked.clientFd).isNone = true := by
      rw [← Option.not_isSome, alive blocked List.mem_cons_self]
      decide
    rw [checkBlockedWaitClients, later]
    dsimp only
    rw [if_neg there, List.filter_cons, List.filter_cons]
    by_cases enough : blocked.numReplicasNeeded ≤ ackedReplicas clients slaves blocked.masterOffset
    · rw [if_pos enough, decide_eq_true enough, if_pos rfl]
      rfl
    · rw [if_neg enough, decide_eq_false enough, if_neg Bool.false_ne_true]
      rfl

/-- The sweep answers the WAITs whose time is up. -/
theorem expireBlockedWaitClients_eq (now : Int)
    (alive : ∀ blocked ∈ waiting, (clients.lookup blocked.clientFd).isSome = true) :
    expireBlockedWaitClients clients slaves now waiting =
      (((waiting.filter fun blocked => isExpired now blocked.timeoutAt).map fun blocked =>
        .write blocked.clientFd (encodeInteger (ackedReplicas clients slaves blocked.masterOffset))),
      waiting.filter fun blocked => !isExpired now blocked.timeoutAt) := by
  induction waiting with
  | nil => rfl
  | cons blocked rest ih =>
    have later := ih fun other member => alive other (List.mem_cons_of_mem _ member)
    rw [expireBlockedWaitClients, later]
    dsimp only
    rw [if_pos (alive blocked List.mem_cons_self), List.filter_cons, List.filter_cons]
    cases expired : isExpired now blocked.timeoutAt
    · rfl
    · rfl

/-- The offset that a command acknowledges. -/
def Command.acknowledged : Command → Option Int
  | .replConf .ack _ _ ackOffset => some ackOffset
  | _ => none

/-- The offset that a connection acknowledges in an event. -/
def acknowledgedIn (server : Server) (event : Event) (fd : Fd) : Option Int :=
  (requestIn server event).bind fun asked =>
    if asked.1 = fd then asked.2.command.acknowledged else none

/-- The offset that a connection acknowledged last in a run. Who has not
acknowledged any is at the start. -/
def lastAck (turns : List Turn) (fd : Fd) : Int :=
  ((turns.filterMap fun turn => acknowledgedIn turn.before turn.event fd).getLast?).getD 0

theorem lastAck_append (turns : List Turn) (turn : Turn) (fd : Fd) :
    lastAck (turns ++ [turn]) fd =
      (acknowledgedIn turn.before turn.event fd).getD (lastAck turns fd) := by
  rw [lastAck, List.filterMap_append, List.filterMap_cons, List.filterMap_nil]
  cases acknowledgedIn turn.before turn.event fd with
  | none =>
    dsimp only
    rw [List.append_nil]
    rfl
  | some offset =>
    dsimp only
    rw [List.getLast?_concat]
    rfl

/-- How many of the replicas have acknowledged an offset. -/
def reached (turns : List Turn) (slaves : List Fd) (offset : Int) : Nat :=
  (slaves.filter fun fd => offset ≤ lastAck turns fd).length

/-! ## One turn -/

/-- The request of a connection that a turn handles. -/
def Turn.Asks (turn : Turn) (fd : Fd) (command : Command) : Prop :=
  ∃ parsed, requestIn turn.before turn.event = some (fd, parsed) ∧ parsed.command = command

def Server.withWaits (server : Server) (waiting : List BlockedWaitClient) : Server :=
  { server with blockedWaitClients := waiting }

def Handled.withWaits (handled : Handled) (waiting : List BlockedWaitClient) : Handled :=
  { handled with server := handled.server.withWaits waiting }

/-- What a turn does to the WAITs, behind other turns. A WAIT is answered at
once by one integer, or it is registered with the offset of the master and not
answered. An acknowledgement answers WAITs that enough replicas have reached,
and takes them out of the list; the sweep does so with those whose time is up.
No other turn touches them, and whoever waits, it does the same. -/
inductive Settles (past : List Turn) (turn : Turn) : WaitLog → Prop where
  | answered {fd numReplica timeout count : Nat} (asks : turn.Asks fd (.wait numReplica timeout))
    (effects : turn.handled.effects = [.reply (encodeInteger count)]) : Settles past turn {}
  | registered {fd numReplica timeout : Nat} {blocked : BlockedWaitClient}
    (asks : turn.Asks fd (.wait numReplica timeout))
    (client : blocked.clientFd = fd) (needed : blocked.numReplicasNeeded = numReplica)
    (offset : blocked.masterOffset = i64 turn.before.config.offset)
    (effects : turn.handled.effects = turn.before.slaveConnections.map (.write · getackCmd) ++ [.block]) :
    Settles past turn { registered := [blocked] }
  | acknowledged {fd : Fd} {listeningPort capability : Bytes} {ackOffset : Int}
    {removals : List (Removal BlockedWaitClient Nat)}
    (asks : turn.Asks fd (.replConf .ack listeningPort capability ackOffset))
    (effects : turn.handled.effects = handOver (answersOf removals))
    (enough : ∀ removal ∈ removals, removal.served = true ∧
      removal.entry.numReplicasNeeded ≤ removal.reply ∧
      removal.reply = reached (past ++ [turn]) turn.handled.server.slaveConnections
        removal.entry.masterOffset) :
    Settles past turn { removals := removals }
  | expired {machine : Machine} {removals : List (Removal BlockedWaitClient Nat)}
    (event : turn.event = .expire machine)
    (effects : turn.handled.effects = (checkAndExpireBlockedClients turn.before.db
      { machine.env with alive := turn.before.alive }).2 ++
        (answersOf removals).map fun one => .write one.1 one.2)
    (late : ∀ removal ∈ removals, removal.served = false ∧
      isExpired machine.env.clock.steady removal.entry.timeoutAt = true ∧
      removal.reply = reached (past ++ [turn]) turn.handled.server.slaveConnections
        removal.entry.masterOffset) :
    Settles past turn { removals := removals }
  | other (noWait : ∀ fd numReplica timeout, ¬ turn.Asks fd (.wait numReplica timeout))
    (noAck : ∀ fd listeningPort capability ackOffset,
      ¬ turn.Asks fd (.replConf .ack listeningPort capability ackOffset))
    (noSweep : ∀ machine, turn.event ≠ .expire machine)
    (alike : ∀ waiting, (turn.before.withWaits waiting).step turn.event =
      .ok (turn.handled.withWaits waiting)) : Settles past turn {}

variable {server : Server} {handled : Handled} {event : Event} {machine : Machine} {fd other : Fd}
  {client : Client} {command : Command}

/-- The offset that a connection has acknowledged. -/
def Server.offsetOf (server : Server) (fd : Fd) : Int :=
  ((server.clients.lookup fd).map Client.replicaOffset).getD 0

private theorem replicaOffset_subscribed (client : Client) (channels : Nat) :
    ({ client with totalSubscribedChannels := channels } : Client).replicaOffset =
      client.replicaOffset := rfl

theorem Effect.apply_replicaOffset (effect : Effect) (client : Client) :
    (effect.apply client).replicaOffset = client.replicaOffset := by
  cases effect with
  | unsubscribe => exact replicaOffset_subscribed client _
  | subscribe => exact replicaOffset_subscribed { client with pubSub := true } _
  | _ => rfl

private theorem offsets_applyToClients (served fd : Fd) (effects : List Effect)
    (clients : Map Fd Client) :
    ((applyToClients served effects clients).lookup fd).map Client.replicaOffset =
      (clients.lookup fd).map Client.replicaOffset :=
  view_applyToClients Effect.apply_replicaOffset served effects clients fd

/-- Only an acknowledgement changes an offset. -/
theorem handle_offsetOf {managed : Handled} (connected : server.alive fd = true)
    (managing : server.handle fd client machine command = some managed) :
    managed.server.offsetOf other =
      (if fd = other then command.acknowledged else none).getD (server.offsetOf other) := by
  have calm (kept : managed.server.offsetOf other = server.offsetOf other)
      (quiet : command.acknowledged = none) : managed.server.offsetOf other =
        (if fd = other then command.acknowledged else none).getD (server.offsetOf other) := by
    rw [kept, quiet, ite_self]
    rfl
  cases command <;> cases managing
  case info => exact calm rfl rfl
  case replConf subcommand _ _ ackOffset =>
    cases subcommand with
    | ack =>
      obtain ⟨acker, lookup⟩ := Option.isSome_iff_exists.mp connected
      rw [Server.offsetOf, handleReplconf]
      dsimp only
      rw [lookup_modifyClient]
      by_cases same : fd = other
      · subst same
        rw [if_pos rfl, if_pos rfl, lookup]
        rfl
      · rw [if_neg same, if_neg same, Option.map_id]
        rfl
    | _ => exact calm rfl rfl
  case psync =>
    refine calm ?_ rfl
    rw [handlePsync]
    split
    · rfl
    · exact congrArg (Option.getD · 0) (view_modifyClient (by intro client; rfl) _ _ _)
  case wait =>
    refine calm ?_ rfl
    rw [handleWait]
    dsimp only
    split
    · rfl
    · split <;> rfl

theorem serve_offsetOf {bytesProcessed : Nat} (connected : server.alive fd = true)
    (ran : server.serve fd client machine command bytesProcessed = .ok handled) :
    handled.server.offsetOf other =
      (if fd = other then command.acknowledged else none).getD (server.offsetOf other) := by
  rcases serve_cases ran with ⟨managed, managing, -, after⟩ |
    ⟨executed, server₁, propagated, notManaged, -, passing, -, after⟩
  · rw [after, Server.offsetOf]
    dsimp only
    rw [offsets_applyToClients]
    exact handle_offsetOf connected managing
  · have quiet : command.acknowledged = none := by
      cases command <;> first | rfl | cases notManaged
    rw [after, Server.offsetOf, quiet, ite_self]
    dsimp only
    rw [offsets_applyToClients]
    rcases handlePropagate_cases passing with ⟨rfl, -, -⟩ | ⟨one, raw, -, -, -, -, rfl, -⟩ <;> rfl

/-- The offsets of a run are those acknowledged last. -/
theorem step_offsetOf (ran : server.step event = .ok handled) (fd : Fd) :
    handled.server.offsetOf fd = (acknowledgedIn server event fd).getD (server.offsetOf fd) := by
  cases event with
  | connect new =>
    rw [Server.step] at ran
    split at ran
    · cases ran
      rfl
    · rename_i fresh
      cases ran
      by_cases same : fd = new
      · subst same
        have absent : server.clients.lookup fd = none := by
          simpa [Server.alive] using fresh
        rw [Server.offsetOf, Server.onNewConnection, acknowledgedIn, Server.offsetOf, absent]
        dsimp only
        rw [Finmap.lookup_insert]
        rfl
      · rw [Server.offsetOf, Server.onNewConnection]
        dsimp only
        rw [Finmap.lookup_insert_of_ne _ same]
        rfl
  | receive asking data machine =>
    rcases step_receive ran with ⟨absent, rfl⟩ | ⟨client, parsed, lookup, read, request, served⟩
    · rw [acknowledgedIn, requestIn, absent]
      rfl
    · have connected : (server.taking asking client parsed).alive asking = true := by
        rw [Server.alive, Server.taking]
        dsimp only
        rw [Finmap.lookup_insert]
        rfl
      have taken : (server.taking asking client parsed).offsetOf fd = server.offsetOf fd := by
        rw [Server.offsetOf, Server.taking, Server.offsetOf]
        dsimp only
        by_cases same : fd = asking
        · subst same
          rw [Finmap.lookup_insert, lookup]
          rfl
        · rw [Finmap.lookup_insert_of_ne _ same]
      rw [serve_offsetOf connected served, taken, acknowledgedIn, request]
      rfl
  | close closing data =>
    cases ran
    exact congrArg (Option.getD · 0) (view_modifyClient (by intro client; rfl) _ _ _)
  | send writing count =>
    cases ran
    exact congrArg (Option.getD · 0) (view_modifyClient (by intro client; rfl) _ _ _)
  | expire machine =>
    cases ran
    exact congrArg (Option.getD · 0) (offsets_applyToClients 0 fd _ _)
  | receiveMaster data machines =>
    exact receiveMaster_keeps (fun after => after.offsetOf fd = server.offsetOf fd)
      (fun after db acl served effects held =>
        (congrArg (Option.getD · 0) (offsets_applyToClients served fd effects _)).trans held)
      (fun _ _ held => held) ran rfl
  | endMaster data =>
    cases ran
    rfl
  | sendMaster =>
    cases ran
    rfl

theorem taking_alive {parsed : Parsed} (lookup : server.clients.lookup fd = some client) :
    (server.taking fd client parsed).alive other = server.alive other := by
  rw [Server.alive, Server.taking, Server.alive]
  dsimp only
  by_cases same : other = fd
  · rw [same, Finmap.lookup_insert, lookup]
    rfl
  · rw [Finmap.lookup_insert_of_ne _ same]

/-- A connection stays. -/
theorem step_alive (ran : server.step event = .ok handled) (alive : server.alive fd = true) :
    handled.server.alive fd = true := by
  cases event with
  | connect new =>
    rw [Server.step] at ran
    split at ran
    · cases ran
      exact alive
    · cases ran
      rw [Server.alive, Server.onNewConnection]
      dsimp only
      by_cases same : fd = new
      · rw [same, Finmap.lookup_insert]
        rfl
      · rwa [Finmap.lookup_insert_of_ne _ same]
  | receive asking data machine =>
    rcases step_receive ran with ⟨-, rfl⟩ | ⟨client, parsed, lookup, -, -, served⟩
    · exact alive
    · rwa [serve_alive served, taking_alive lookup]
  | close closing data =>
    cases ran
    exact (alive_modifyClient _ _ _ _).trans alive
  | send writing count =>
    cases ran
    exact (alive_modifyClient _ _ _ _).trans alive
  | expire machine =>
    cases ran
    exact (alive_applyToClients 0 fd _ _).trans alive
  | receiveMaster data machines =>
    exact receiveMaster_keeps (fun after => after.alive fd = true)
      (fun after db acl served effects held => (alive_applyToClients served fd effects _).trans held)
      (fun _ _ held => held) ran alive
  | endMaster data =>
    cases ran
    exact alive
  | sendMaster =>
    cases ran
    exact alive

/-- The counts depend on the offsets of the clients only. -/
theorem ackedReplicas_congr {before after : Map Fd Client}
    (same : ∀ fd, (after.lookup fd).map Client.replicaOffset =
      (before.lookup fd).map Client.replicaOffset) (slaves : List Fd) (offset : Int) :
    ackedReplicas after slaves offset = ackedReplicas before slaves offset := by
  have each (fd : Fd) : ((after.lookup fd).any fun slave => decide (offset ≤ slave.replicaOffset)) =
      (before.lookup fd).any fun slave => decide (offset ≤ slave.replicaOffset) := by
    have mapped (found : Option Client) : (found.any fun slave => decide (offset ≤ slave.replicaOffset)) =
        (found.map Client.replicaOffset).any fun reached => decide (offset ≤ reached) := by
      rw [Option.any_map]
    rw [mapped, mapped, same]
  rw [ackedReplicas, ackedReplicas]
  exact congrArg List.length (List.filter_congr fun fd _ => each fd)

/-- What the server counts is how many replicas have acknowledged an offset. -/
theorem ackedReplicas_reached (registered : server.Registered) {turns : List Turn}
    (offsets : ∀ fd, server.offsetOf fd = lastAck turns fd) (offset : Int) :
    ackedReplicas server.clients server.slaveConnections offset =
      reached turns server.slaveConnections offset := by
  rw [ackedReplicas, reached]
  refine congrArg List.length (List.filter_congr fun fd member => ?_)
  have flagged := (registered.flagged fd).mp member
  rw [← offsets fd, Server.offsetOf]
  cases lookup : server.clients.lookup fd with
  | none =>
    rw [lookup] at flagged
    cases flagged
  | some client => rfl

theorem BlockedWaitClient.make_masterOffset (now : Int) (fd : Fd) (timeoutMs numReplicas : Nat)
    (offset : Int) : (make now fd timeoutMs numReplicas offset).masterOffset = offset := rfl

/-- What a request does to the WAITs. -/
theorem serve_waits {bytesProcessed : Nat}
    (ran : server.serve fd client machine command bytesProcessed = .ok handled) :
    (∃ numReplica timeout, command = .wait numReplica timeout ∧
      ((∃ count : Nat, handled.effects = [.reply (encodeInteger count)] ∧
          handled.server.blockedWaitClients = server.blockedWaitClients) ∨
        ∃ blocked : BlockedWaitClient, blocked.clientFd = fd ∧
          blocked.numReplicasNeeded = numReplica ∧
          blocked.masterOffset = i64 server.config.offset ∧
          handled.effects = server.slaveConnections.map (.write · getackCmd) ++ [.block] ∧
          handled.server.blockedWaitClients = server.blockedWaitClients ++ [blocked])) ∨
    (∃ listeningPort capability ackOffset,
      command = .replConf .ack listeningPort capability ackOffset ∧
      ∃ clients : Map Fd Client, (∀ other, (handled.server.clients.lookup other).map
          Client.replicaOffset = (clients.lookup other).map Client.replicaOffset) ∧
        (∀ other, (clients.lookup other).isSome = server.alive other) ∧
        handled.server.slaveConnections = server.slaveConnections ∧
        checkBlockedWaitClients clients server.slaveConnections server.blockedWaitClients =
          (handled.effects, handled.server.blockedWaitClients)) ∨
    ((∀ numReplica timeout, command ≠ .wait numReplica timeout) ∧
      (∀ listeningPort capability ackOffset,
        command ≠ .replConf .ack listeningPort capability ackOffset) ∧
      handled.server.blockedWaitClients = server.blockedWaitClients) := by
  rcases serve_cases ran with ⟨managed, managing, effects, after⟩ |
    ⟨executed, server₁, propagated, notManaged, -, passing, -, after⟩
  · cases command
    case info =>
      cases managing
      refine .inr (.inr ⟨fun _ _ same => (by cases same), fun _ _ _ same => (by cases same), ?_⟩)
      rw [after]
    case replConf subcommand listeningPort capability ackOffset =>
      cases managing
      cases subcommand with
      | ack =>
        refine .inr (.inl ⟨listeningPort, capability, ackOffset, rfl,
          modifyClient server.clients fd fun client => { client with replicaOffset := ackOffset },
          fun other => ?_, fun other => alive_modifyClient _ _ _ _, ?_, ?_⟩)
        · rw [after]
          exact offsets_applyToClients _ _ _ _
        · rw [after]
          rfl
        · rw [effects, after]
          rfl
      | _ =>
        refine .inr (.inr ⟨fun _ _ same => (by cases same), fun _ _ _ same => (by cases same), ?_⟩)
        rw [after]
        rfl
    case psync =>
      cases managing
      refine .inr (.inr ⟨fun _ _ same => (by cases same), fun _ _ _ same => (by cases same), ?_⟩)
      rw [after, handlePsync]
      split <;> rfl
    case wait numReplica timeout =>
      cases managing
      refine .inl ⟨numReplica, timeout, rfl, ?_⟩
      rw [effects, after, handleWait]
      dsimp only
      split
      · exact .inl ⟨_, rfl, rfl⟩
      · split
        · exact .inl ⟨_, rfl, rfl⟩
        · exact .inr ⟨.make machine.env.clock.steady fd timeout numReplica
            (i64 server.config.offset), rfl, rfl, BlockedWaitClient.make_masterOffset .., rfl, rfl⟩
    all_goals cases managing
  · refine .inr (.inr ⟨?_, ?_, ?_⟩)
    · rintro numReplica timeout rfl
      cases notManaged
    · rintro listeningPort capability ackOffset rfl
      cases notManaged
    · rw [after]
      rcases handlePropagate_cases passing with ⟨rfl, -, -⟩ | ⟨one, raw, -, -, -, -, rfl, -⟩ <;> rfl

theorem handlePropagate_withWaits {passed : Option Command} {bytesProcessed : Nat}
    {after : Server} {propagated : List Effect} (waiting : List BlockedWaitClient)
    (passing : handlePropagate server passed bytesProcessed = .ok (after, propagated)) :
    handlePropagate (server.withWaits waiting) passed bytesProcessed =
      .ok (after.withWaits waiting, propagated) := by
  cases passed with
  | none =>
    cases passing
    rfl
  | some command =>
    rw [handlePropagate] at passing ⊢
    by_cases idle : server.slaveConnections = [] ∨ !command.isWriteCommand
    · rw [if_pos idle] at passing
      cases passing
      exact if_pos idle
    · rw [if_neg idle] at passing
      obtain ⟨raw, sent, passing⟩ := exec_bind_ok.mp passing
      cases passing
      refine (if_neg idle).trans ?_
      rw [sent]
      rfl

/-- A request that is neither WAIT nor an acknowledgement is served alike,
whoever waits. -/
theorem serve_withWaits {bytesProcessed : Nat} (waiting : List BlockedWaitClient)
    (noWait : ∀ numReplica timeout, command ≠ .wait numReplica timeout)
    (noAck : ∀ listeningPort capability ackOffset,
      command ≠ .replConf .ack listeningPort capability ackOffset)
    (ran : server.serve fd client machine command bytesProcessed = .ok handled) :
    (server.withWaits waiting).serve fd client machine command bytesProcessed =
      .ok (handled.withWaits waiting) := by
  have managed : (server.withWaits waiting).handle fd client machine command =
      (server.handle fd client machine command).map fun managed => managed.withWaits waiting := by
    cases command <;> try rfl
    case replConf subcommand listeningPort capability ackOffset =>
      cases subcommand with
      | ack => exact absurd rfl (noAck listeningPort capability ackOffset)
      | _ => rfl
    case psync =>
      simp only [Server.handle, handlePsync, Option.map_some]
      split <;> rfl
    case wait numReplica timeout => exact absurd rfl (noWait numReplica timeout)
  rw [Server.serve] at ran ⊢
  obtain ⟨inner, dispatched, ran⟩ := exec_bind_ok.mp ran
  cases ran
  have alike : (server.withWaits waiting).dispatch fd client machine command bytesProcessed =
      .ok (inner.withWaits waiting) := by
    rw [Server.dispatch] at dispatched ⊢
    rw [managed]
    cases handles : server.handle fd client machine command with
    | some one =>
      rw [handles] at dispatched
      cases dispatched
      rfl
    | none =>
      rw [handles] at dispatched
      dsimp only [Option.map_none] at dispatched ⊢
      obtain ⟨executed, run, dispatched⟩ := exec_bind_ok.mp dispatched
      obtain ⟨⟨server₁, propagated⟩, passing, dispatched⟩ := exec_bind_ok.mp dispatched
      cases dispatched
      have passed := handlePropagate_withWaits waiting passing
      have again : execute (server.withWaits waiting).db
          ((server.withWaits waiting).context fd client machine command)
          (server.withWaits waiting).config.rdbFilePath
          (machine.queue.map fun env => { env with alive := (server.withWaits waiting).alive }) =
            .ok executed := run
      rw [again, exec_ok_bind]
      rw [Server.withWaits] at passed ⊢
      dsimp only at passed ⊢
      rw [passed]
      rfl
  rw [alike]
  rfl

/-- So is what the master sends. -/
theorem receiveMaster_withWaits {machines : List Machine} (waiting : List BlockedWaitClient)
    (ran : server.step (.receiveMaster data machines) = .ok handled) :
    (server.withWaits waiting).step (.receiveMaster data machines) =
      .ok (handled.withWaits waiting) := by
  rw [Server.step, Server.handleMasterRead] at ran ⊢
  have master : (server.withWaits waiting).masterConnection = server.masterConnection := rfl
  rw [master]
  cases connection : server.masterConnection with
  | none =>
    rw [connection] at ran
    cases ran
    rfl
  | some slave =>
    rw [connection] at ran
    dsimp only at ran ⊢
    obtain ⟨⟨slave', server', machines', effects⟩, read, ran⟩ := exec_bind_ok.mp ran
    cases ran
    have alike := @SlaveReplicationClient.processReadBuffer_alike _ _ _ _ _ _
      (fun state : Server × List Machine × List Effect => (state.1.withWaits waiting, state.2))
      (fun client command state client' state' executing => ?_) read
    · rw [SlaveReplicationClient.handleRead, alike]
      rfl
    · obtain ⟨server, machines, effects⟩ := state
      unfold Server.executeReplicated at executing ⊢
      cases machines with
      | nil => cases executing
      | cons machine machines =>
        obtain ⟨executed, run, executing⟩ := exec_bind_ok.mp executing
        obtain ⟨there, asked, executing⟩ := exec_bind_ok.mp executing
        cases executing
        have again : execute (server.withWaits waiting).db
            ((server.withWaits waiting).context slave.fd client machine command)
            (server.withWaits waiting).config.rdbFilePath
            (machine.queue.map fun env => { env with alive := (server.withWaits waiting).alive }) =
              .ok executed := run
        dsimp only
        rw [again, exec_ok_bind, asked]
        rfl

/-! ## Runs -/

/-- A log tells what waits on the server behind a run. -/
structure Server.Logged (server : Server) (past : List Turn) (log : WaitLog) : Prop where
  exact_ : log.Exact
  waits : server.blockedWaitClients = log.pending
  alive : ∀ blocked ∈ server.blockedWaitClients, server.alive blocked.clientFd = true
  registered : server.Registered
  offsets : ∀ fd, server.offsetOf fd = lastAck past fd

/-- What a piece of a history adds to another one. -/
theorem join_pair (log piece : WaitLog) :
    History.join [log, piece] =
      ⟨log.registered ++ piece.registered, log.removals ++ piece.removals⟩ := by
  rw [History.join]
  simp

/-- Every turn settles some WAITs, and the log goes on. -/
theorem step_logged {past : List Turn} (logged : server.Logged past log)
    (ran : server.step event = .ok handled) :
    ∃ piece : WaitLog, Settles past ⟨server, event, handled⟩ piece ∧
      handled.server.Logged (past ++ [⟨server, event, handled⟩]) (History.join [log, piece]) := by
  have offsets (fd : Fd) : handled.server.offsetOf fd = lastAck (past ++ [⟨server, event, handled⟩]) fd := by
    rw [step_offsetOf ran, lastAck_append, logged.offsets]
  have registered : handled.server.Registered := (step_registered logged.registered ran).1
  -- a turn that leaves the list alone
  have idle (waits : handled.server.blockedWaitClients = server.blockedWaitClients) :
      handled.server.Logged (past ++ [⟨server, event, handled⟩]) (History.join [log, {}]) := by
    have same : History.join [log, {}] = log := by
      rw [join_pair, List.append_nil, List.append_nil]
    rw [same]
    exact ⟨logged.exact_, waits.trans logged.waits,
      fun blocked member => step_alive ran (logged.alive blocked (waits ▸ member)), registered, offsets⟩
  -- a turn that takes out the WAITs that a test picks
  have swept (served : Bool) (gone : BlockedWaitClient → Bool) (count : BlockedWaitClient → Nat)
      (waits : handled.server.blockedWaitClients =
        server.blockedWaitClients.filter fun blocked => !gone blocked) :
      handled.server.Logged (past ++ [⟨server, event, handled⟩])
        (History.join [log, { removals := log.picked served gone count }]) := by
    have same : History.join [log, { removals := log.picked served gone count }] =
        log.remove (log.picked served gone count) := by
      rw [join_pair, List.append_nil]
      rfl
    obtain ⟨exact_, left⟩ := picked_removed logged.exact_ served gone count
    rw [same]
    refine ⟨exact_, ?_, fun blocked member => ?_, registered, offsets⟩
    · rw [waits, left, logged.waits]
    · rw [waits] at member
      exact step_alive ran (logged.alive blocked (List.mem_filter.mp member).1)
  have calm (quiet : requestIn server event = none) (noSweep : ∀ machine, event ≠ .expire machine)
      (waits : handled.server.blockedWaitClients = server.blockedWaitClients)
      (alike : ∀ waiting, (server.withWaits waiting).step event = .ok (handled.withWaits waiting)) :
      ∃ piece : WaitLog, Settles past ⟨server, event, handled⟩ piece ∧
        handled.server.Logged (past ++ [⟨server, event, handled⟩]) (History.join [log, piece]) := by
    refine ⟨{}, .other ?_ ?_ noSweep alike, idle waits⟩
    · rintro fd numReplica timeout ⟨parsed, request, -⟩
      rw [quiet] at request
      cases request
    · rintro fd listeningPort capability ackOffset ⟨parsed, request, -⟩
      rw [quiet] at request
      cases request
  cases event with
  | connect fd =>
    rw [Server.step] at ran
    split at ran
    · rename_i there
      cases ran
      exact calm rfl (fun _ same => by cases same) rfl fun waiting => if_pos there
    · rename_i fresh
      cases ran
      exact calm rfl (fun _ same => by cases same) rfl fun waiting => if_neg fresh
  | close fd data =>
    cases ran
    exact calm rfl (fun _ same => by cases same) rfl fun _ => rfl
  | send fd count =>
    cases ran
    exact calm rfl (fun _ same => by cases same) rfl fun _ => rfl
  | receiveMaster data machines =>
    exact calm rfl (fun _ same => by cases same)
      (receiveMaster_keeps (fun after => after.blockedWaitClients = server.blockedWaitClients)
        (fun _ _ _ _ _ held => held) (fun _ _ held => held) ran rfl)
      fun waiting => receiveMaster_withWaits waiting ran
  | endMaster data =>
    cases ran
    exact calm rfl (fun _ same => by cases same) rfl fun _ => rfl
  | sendMaster =>
    cases ran
    exact calm rfl (fun _ same => by cases same) rfl fun _ => rfl
  | expire machine =>
    cases ran
    have sweep := @expireBlockedWaitClients_eq _ server.slaveConnections _
      machine.env.clock.steady logged.alive
    have effects : (server.handleExpiredBlockedClients machine).effects =
        (checkAndExpireBlockedClients server.db { machine.env with alive := server.alive }).2 ++
          (expireBlockedWaitClients server.clients server.slaveConnections machine.env.clock.steady
            server.blockedWaitClients).1 := rfl
    have waits : (server.handleExpiredBlockedClients machine).server.blockedWaitClients =
        (expireBlockedWaitClients server.clients server.slaveConnections machine.env.clock.steady
            server.blockedWaitClients).2 := rfl
    rw [sweep] at effects waits
    refine ⟨_, .expired rfl (effects.trans (congrArg _ ?_)) fun removal member => ?_,
      swept false (fun blocked => isExpired machine.env.clock.steady blocked.timeoutAt)
        (fun blocked => ackedReplicas server.clients server.slaveConnections blocked.masterOffset)
        waits⟩
    · rw [answersOf_picked, logged.waits, List.map_map]
      rfl
    · obtain ⟨late, given, count⟩ := mem_picked member
      refine ⟨given, late, count.trans ?_⟩
      rw [← ackedReplicas_reached registered offsets]
      exact (ackedReplicas_congr (fun other => offsets_applyToClients 0 other _ _) _ _).symm
  | receive fd data machine =>
    rcases step_receive ran with ⟨absent, rfl⟩ | ⟨client, parsed, lookup, read, request, served⟩
    · refine calm ?_ (fun _ same => by cases same) rfl fun waiting => ?_
      · rw [requestIn, absent]
      · exact step_absent absent
    · have asks : Turn.Asks ⟨server, .receive fd data machine, handled⟩ fd parsed.command :=
        ⟨parsed, request, rfl⟩
      rcases serve_waits served with ⟨numReplica, timeout, command, waits⟩ |
        ⟨listeningPort, capability, ackOffset, command, clients, same, present, slaves, checked⟩ |
        ⟨noWait, noAck, waits⟩
      · rw [command] at asks
        rcases waits with ⟨count, effects, waits⟩ | ⟨blocked, client, needed, offset, effects, waits⟩
        · exact ⟨{}, .answered asks effects, idle waits⟩
        · refine ⟨{ registered := [blocked] }, .registered asks client needed offset effects, ?_⟩
          have pieced : History.join [log, { registered := [blocked] }] = log.register blocked := by
            rw [join_pair, List.append_nil]
            rfl
          rw [pieced]
          refine ⟨logged.exact_.register blocked, ?_, fun other member => ?_, registered, offsets⟩
          · rw [waits, pending_register logged.exact_, ← logged.waits]
            rfl
          · rw [waits] at member
            rcases List.mem_append.mp member with old | new
            · exact step_alive ran (logged.alive other old)
            · rw [List.mem_singleton.mp new, client]
              refine step_alive ran ?_
              rw [Server.alive, lookup]
              rfl
      · rw [command] at asks
        have sweep := @checkBlockedWaitClients_eq clients server.slaveConnections
          server.blockedWaitClients fun blocked member =>
            ((present blocked.clientFd).trans (taking_alive lookup)).trans (logged.alive blocked member)
        obtain ⟨effects, waits⟩ := Prod.mk.inj (checked.symm.trans sweep)
        refine ⟨_, .acknowledged asks (effects.trans (congrArg _ ?_)) fun removal member => ?_,
          swept true (fun blocked => blocked.numReplicasNeeded ≤
              ackedReplicas clients server.slaveConnections blocked.masterOffset)
            (fun blocked => ackedReplicas clients server.slaveConnections blocked.masterOffset)
            waits⟩
        · rw [answersOf_picked, logged.waits]
        · obtain ⟨enough, given, count⟩ := mem_picked member
          refine ⟨given, count ▸ of_decide_eq_true enough, count.trans ?_⟩
          rw [← ackedReplicas_reached registered offsets, slaves]
          exact (ackedReplicas_congr same _ _).symm
      · refine ⟨{}, .other ?_ ?_ (fun _ same => by cases same) fun waiting => ?_, idle waits⟩
        · rintro asking numReplica timeout ⟨parsed', request', command⟩
          rw [request] at request'
          cases request'
          exact noWait _ _ command
        · rintro asking listeningPort capability ackOffset ⟨parsed', request', command⟩
          rw [request] at request'
          cases request'
          exact noAck _ _ _ command
        · have again : (server.withWaits waiting).step (.receive fd data machine) = _ :=
            @step_taking (server.withWaits waiting) fd machine data client parsed lookup read
          exact again.trans (serve_withWaits waiting noWait noAck served)

private theorem run_logged {past : List Turn} (logged : server.Logged past log) {events : List Event}
    {turns : List Turn} (ran : server.run events = .ok turns) :
    ∃ pieces : List WaitLog, pieces.length = turns.length ∧
      (History.join (log :: pieces)).Exact ∧
      ∀ front turn back, turns = front ++ turn :: back → ∃ piece, pieces[front.length]? = some piece ∧
        Settles (past ++ front) turn piece ∧ turn.handled.server.slaveConnections.Nodup ∧
        turn.handled.server.blockedWaitClients =
          WaitLog.pending (History.join (log :: pieces.take (front.length + 1))) := by
  induction events generalizing server past log turns with
  | nil =>
    cases ran
    refine ⟨[], rfl, ?_, fun front turn back split => ?_⟩
    · have same : History.join [log] = log := by
        rw [History.join]
        simp
      rw [same]
      exact logged.exact_
    · cases front <;> cases split
  | cons event events ih =>
    rw [Server.run] at ran
    obtain ⟨handled, first, ran⟩ := exec_bind_ok.mp ran
    obtain ⟨turns, following, ran⟩ := exec_bind_ok.mp ran
    cases ran
    obtain ⟨piece, settles, logged₁⟩ := step_logged logged first
    obtain ⟨pieces, length, exact_, later⟩ := ih logged₁ following
    have joined (pieces : List WaitLog) :
        History.join (History.join [log, piece] :: pieces) = History.join (log :: piece :: pieces) := by
      rw [History.join, join_pair, History.join]
      simp
    refine ⟨piece :: pieces, congrArg Nat.succ length, joined pieces ▸ exact_, ?_⟩
    intro front turn back split
    cases front with
    | nil =>
      cases split
      refine ⟨piece, rfl, ?_, logged₁.registered.nodup, logged₁.waits⟩
      rwa [List.append_nil]
    | cons one front =>
      obtain ⟨rfl, tail⟩ := List.cons.inj split
      obtain ⟨found, here, settled, nodup, waits⟩ := later front turn back tail
      refine ⟨found, here, ?_, nodup, ?_⟩
      · rwa [List.append_assoc] at settled
      · rw [waits, joined]
        rfl

/-- In every run of a server, from any of its starts, the WAITs have a history
with a piece for each turn. It tells what the turn answered and with which
counts, no WAIT is taken out of it twice, and behind each turn the list of the
server holds those that were registered and not yet taken out. -/
theorem waits_answered_once {start : Server} (starts : Server.Start start) {events : List Event}
    {turns : List Turn} (ran : start.run events = .ok turns) :
    ∃ pieces : List WaitLog, pieces.length = turns.length ∧ (History.join pieces).Exact ∧
      ∀ front turn back, turns = front ++ turn :: back → ∃ piece, pieces[front.length]? = some piece ∧
        Settles front turn piece ∧ turn.handled.server.slaveConnections.Nodup ∧
        turn.handled.server.blockedWaitClients =
          WaitLog.pending (History.join (pieces.take (front.length + 1))) := by
  have idle : start.Logged [] {} := by
    cases starts <;>
      exact ⟨History.exact_nil, rfl, fun _ absent => absurd absent List.not_mem_nil,
        ⟨List.nodup_nil, fun fd => iff_of_false List.not_mem_nil Bool.false_ne_true⟩, fun _ => rfl⟩
  obtain ⟨pieces, length, exact_, each⟩ := run_logged idle ran
  exact ⟨pieces, length, exact_, each⟩

/-- A client waits for a replica, which then acknowledges the write. -/
def waitSample : List Event := [.connect 1, .connect 2] ++
  requests [(2, ["PSYNC", "?", "-1"]), (1, ["SET", "k", "v"]), (1, ["WAIT", "1", "0"]),
    (2, ["REPLCONF", "ACK", "100"])]

theorem waits_answered_once_sample :
    (turnsOf waitSample).map (fun turn => turn.sent 1) =
      [[], [], [], encodeSimpleString (ascii "OK"), [], encodeInteger 1] ∧
    ∃ pieces : List WaitLog, pieces.length = (turnsOf waitSample).length ∧
      (History.join pieces).Exact ∧
      ∀ front turn back, turnsOf waitSample = front ++ turn :: back →
        ∃ piece, pieces[front.length]? = some piece ∧
          Settles front turn piece ∧ turn.handled.server.slaveConnections.Nodup ∧
          turn.handled.server.blockedWaitClients =
            WaitLog.pending (History.join (pieces.take (front.length + 1))) :=
  ⟨by decide +kernel,
    waits_answered_once (.master .empty {}) (exec_getD [] (by decide +kernel : _ = true))⟩

end CarrotDb
