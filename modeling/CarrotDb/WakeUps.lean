import CarrotDb.ReplicaStreams

/-! Who is flushed after a request. The clients that a request wakes are told
to the server through one slot, which keeps the last of them only. -/
namespace CarrotDb
open Resp

/-- The effects wake these clients, and block the served one or not. -/
structure Account (effects : List Effect) (woken : List Fd) (waits : Bool) : Prop where
  unblocked : unblockedClients effects = woken
  blocked : isBlocked effects = waits
  written : ∀ one ∈ writes effects,
    one.2 ≠ [] ∧ (one.1 ∈ woken ∨ one.1 ∈ readyClients effects)
  sent : ∀ fd ∈ woken, fd ∈ (writes effects).map Prod.fst
  ready : woken ≠ [] → readyClients effects = []

variable {db db' : DB} {c : Context} {effects first second : List Effect} {woken : List Fd}
  {fd other : Fd}

theorem isBlocked_append (first second : List Effect) :
    isBlocked (first ++ second) = (isBlocked first || isBlocked second) := List.any_append

theorem unblockedClients_append (first second : List Effect) :
    unblockedClients (first ++ second) = unblockedClients first ++ unblockedClients second :=
  List.filterMap_append

theorem readyClients_append (first second : List Effect) :
    readyClients (first ++ second) = readyClients first ++ readyClients second :=
  List.filterMap_append

theorem isBlocked_of_blocks (calm : blocks effects = 0) : isBlocked effects = false := by
  rw [isBlocked, List.any_eq_false]
  exact List.countP_eq_zero.mp calm

theorem Own.account (own : Own effects) : Account effects [] false := by
  obtain ⟨written, unblocked, -, calm⟩ := own.calm
  refine ⟨unblocked, isBlocked_of_blocks calm, fun one member => ?_, fun _ absent => (nomatch absent),
    fun some_ => absurd rfl some_⟩
  rw [written] at member
  cases member

theorem account_handOver (handed : List (Fd × Bytes)) (each : ∀ one ∈ handed, Reply one.2) :
    Account (handOver handed) (handed.map Prod.fst) false ∧ readyClients (handOver handed) = [] := by
  have quiet : unblockedClients (handOver handed) = handed.map Prod.fst ∧
      isBlocked (handOver handed) = false ∧ readyClients (handOver handed) = [] := by
    induction handed with
    | nil => exact ⟨rfl, rfl, rfl⟩
    | cons one rest ih =>
      obtain ⟨unblocked, blocked, ready⟩ := ih fun other member => each other (List.mem_cons_of_mem _ member)
      have shape : handOver (one :: rest) = [.write one.1 one.2, .unblock one.1] ++ handOver rest := rfl
      rw [shape, unblockedClients_append, isBlocked_append, readyClients_append, unblocked, blocked,
        ready]
      exact ⟨rfl, rfl, rfl⟩
  refine ⟨⟨quiet.1, quiet.2.1, fun one member => ?_, fun fd member => ?_, fun _ => quiet.2.2⟩, quiet.2.2⟩
  · rw [writes_handOver] at member
    exact ⟨reply_ne_nil (each one member), .inl (List.mem_map_of_mem member)⟩
  · rwa [writes_handOver]

/-- Effects behind one another, as long as no channel is served. -/
theorem Account.append {later : List Fd} {waits waits' : Bool} (one : Account first woken waits)
    (two : Account second later waits') (quiet : readyClients first = [])
    (quiet' : readyClients second = []) :
    Account (first ++ second) (woken ++ later) (waits || waits') where
  unblocked := by rw [unblockedClients_append, one.unblocked, two.unblocked]
  blocked := by rw [isBlocked_append, one.blocked, two.blocked]
  written each member := by
    rw [writes_append] at member
    rcases List.mem_append.mp member with old | new
    · obtain ⟨nonempty, told⟩ := one.written each old
      rw [quiet] at told
      exact ⟨nonempty, .inl (List.mem_append_left _ (told.resolve_right List.not_mem_nil))⟩
    · obtain ⟨nonempty, told⟩ := two.written each new
      rw [quiet'] at told
      exact ⟨nonempty, .inl (List.mem_append_right _ (told.resolve_right List.not_mem_nil))⟩
  sent fd member := by
    rw [writes_append, List.map_append]
    rcases List.mem_append.mp member with old | new
    · exact List.mem_append_left _ (one.sent fd old)
    · exact List.mem_append_right _ (two.sent fd new)
  ready _ := by rw [readyClients_append, quiet, quiet']; rfl

theorem deliver_calm (env : Env) (frame : Bytes) (subscribers : List Fd) :
    unblockedClients (deliver env frame subscribers) = [] ∧
      isBlocked (deliver env frame subscribers) = false ∧
      readyClients (deliver env frame subscribers) = subscribers := by
  induction subscribers with
  | nil => exact ⟨rfl, rfl, rfl⟩
  | cons fd rest ih =>
    obtain ⟨unblocked, blocked, ready⟩ := ih
    have shape : deliver env frame (fd :: rest) =
        (if env.alive fd then [.write fd frame, .ready fd] else [.ready fd]) ++ deliver env frame rest := rfl
    rw [shape, unblockedClients_append, isBlocked_append, readyClients_append, unblocked, blocked,
      ready]
    split <;> exact ⟨rfl, rfl, rfl⟩

theorem Conduct.account {command : Command} (conduct : Conduct db c command effects) :
    Account effects (command.wakes db c) (command.waits db c) := by
  cases conduct with
  | answer own answer wakes waits =>
    rw [wakes, waits]
    exact own.account
  | wait wakes waits =>
    rw [wakes, waits]
    exact ⟨rfl, rfl, fun _ absent => (nomatch absent), fun _ absent => (nomatch absent),
      fun some_ => absurd rfl some_⟩
  | wake ownBefore ownAfter answer each wakes waits =>
    rename_i before after handed
    obtain ⟨middle, quiet⟩ := account_handOver handed each
    have left := ownBefore.account.append middle ownBefore.calm.2.2.1 quiet
    have quiet' : readyClients (before ++ handOver handed) = [] := by
      rw [readyClients_append, ownBefore.calm.2.2.1, quiet]
      rfl
    have whole := left.append ownAfter.account quiet' ownAfter.calm.2.2.1
    rw [wakes, waits]
    simpa using whole
  | publish asked wakes waits =>
    rename_i channelName message
    obtain ⟨unblocked, blocked, ready⟩ := deliver_calm c.env
      (encodeBulkStringArray [ascii "message", channelName, message])
      (queueOf db.pubsubClients channelName)
    rw [wakes, waits]
    refine ⟨?_, ?_, fun one member => ?_, fun _ absent => (nomatch absent), fun some_ => absurd rfl some_⟩
    · rw [unblockedClients_append, unblocked]
      rfl
    · rw [isBlocked_append, blocked]
      rfl
    · rw [writes_append, writes_deliver] at member
      rcases List.mem_append.mp member with sent | replied
      · obtain ⟨subscriber, inside, rfl⟩ := List.mem_map.mp sent
        refine ⟨reply_ne_nil (reply_bulkStringArray _), .inr ?_⟩
        rw [readyClients_append, ready]
        exact List.mem_append_left _ (List.mem_filter.mp inside).1
      · cases replied

/-- The commands of a transaction, each with the state and the context it is
run in. -/
def transactionSteps (c : Context) : DB → List Command → List Env → List (DB × Context × Command)
  | db, command :: commands, env :: envs =>
    (db, { c with env }, command) ::
      match callSimple db { c with env } command with
      | .ok (db, _) => transactionSteps c db commands envs
      | .error _ => []
  | _, _, _ => []

/-- The clients that a request to the database wakes. -/
def requestWakes (db : DB) (c : Context) (envs : List Env) : List Fd :=
  match c.command with
  | .exec =>
    if c.client.multi && !c.client.pubSub then
      (transactionSteps c db c.client.queuedCommands envs).flatMap fun step =>
        step.2.2.wakes step.1 step.2.1
    else []
  | command => if c.client.multi || c.client.pubSub then [] else command.wakes db c

/-- Whether a request to the database makes its client wait. -/
def requestWaits (db : DB) (c : Context) (envs : List Env) : Bool :=
  match c.command with
  | .exec =>
    c.client.multi && !c.client.pubSub &&
      (transactionSteps c db c.client.queuedCommands envs).any fun step =>
        step.2.2.waits step.1 step.2.1
  | command => !c.client.multi && !c.client.pubSub && command.waits db c

theorem runQueue_account {commands : List Command} {envs : List Env} (exec : c.command = .exec)
    (ran : runQueue db c commands envs = .ok (db', effects)) :
    Account effects
      ((transactionSteps c db commands envs).flatMap fun step => step.2.2.wakes step.1 step.2.1)
      ((transactionSteps c db commands envs).any fun step => step.2.2.waits step.1 step.2.1) ∧
    readyClients effects = [] := by
  induction commands generalizing db envs effects with
  | nil =>
    cases ran
    exact ⟨own_nil.account, rfl⟩
  | cons command rest ih =>
    cases envs with
    | nil => cases ran
    | cons env envs =>
      rw [runQueue] at ran
      obtain ⟨⟨db₁, first⟩, one, ran⟩ := exec_bind_ok.mp ran
      obtain ⟨⟨db₂, later⟩, following, ran⟩ := exec_bind_ok.mp ran
      cases ran
      obtain ⟨tail, quiet'⟩ := ih following
      have conduct := callSimple_conduct one
      have quiet : readyClients first = [] := by
        cases conduct with
        | answer own => exact own.calm.2.2.1
        | wait => rfl
        | wake ownBefore ownAfter answer each =>
          rw [readyClients_append, readyClients_append, ownBefore.calm.2.2.1,
            ownAfter.calm.2.2.1, (account_handOver _ each).2]
          rfl
        | publish asked =>
          have same : c.command = _ := asked
          rw [exec] at same
          cases same
      have both := conduct.account.append tail quiet quiet'
      rw [transactionSteps, one]
      refine ⟨both, ?_⟩
      rw [readyClients_append, quiet, quiet']
      rfl

/-- Away from EXEC, a request wakes what its command wakes, if it is run. -/
theorem requestWakes_command {envs : List Env} (notExec : c.command ≠ .exec) :
    requestWakes db c envs =
        (if c.client.multi || c.client.pubSub then [] else c.command.wakes db c) ∧
      requestWaits db c envs = (!c.client.multi && !c.client.pubSub && c.command.waits db c) := by
  constructor
  · unfold requestWakes
    split
    · exact absurd ‹_› notExec
    · rfl
  · unfold requestWaits
    split
    · exact absurd ‹_› notExec
    · rfl

private theorem request_held {envs : List Env} (held : c.client.pubSub = true ∨
      c.client.multi = true ∧ c.command ≠ .exec) :
    requestWakes db c envs = [] ∧ requestWaits db c envs = false := by
  by_cases exec : c.command = .exec
  · have mode : c.client.pubSub = true := held.elim id fun both => absurd exec both.2
    rw [requestWakes, requestWaits, exec]
    dsimp only
    rw [mode, Bool.not_true, Bool.and_false]
    exact ⟨rfl, rfl⟩
  · obtain ⟨wakes, waits⟩ := @requestWakes_command db c envs exec
    rw [wakes, waits]
    rcases held with mode | ⟨mode, -⟩ <;> rw [mode] <;> simp

private theorem request_quiet {envs : List Env} (notExec : c.command ≠ .exec)
    (wakes : c.command.wakes db c = []) (waits : c.command.waits db c = false) :
    requestWakes db c envs = [] ∧ requestWaits db c envs = false := by
  obtain ⟨wakes', waits'⟩ := @requestWakes_command db c envs notExec
  rw [wakes', waits', wakes, waits, Bool.and_false]
  exact ⟨ite_self _, rfl⟩

/-- What a command that is run wakes, and whether its client waits. -/
theorem call_account {envs : List Env} (mode : c.client.pubSub = false)
    (plain : c.client.multi = true → c.command = .exec ∨ c.command = .discard)
    (ran : call db c envs c.command = .ok (db', effects)) :
    Account effects (requestWakes db c envs) (requestWaits db c envs) := by
  by_cases exec : c.command = .exec
  · rw [exec] at ran
    have shape : requestWakes db c envs = (if c.client.multi && !c.client.pubSub then
          (transactionSteps c db c.client.queuedCommands envs).flatMap fun step =>
            step.2.2.wakes step.1 step.2.1
        else []) ∧ requestWaits db c envs = (c.client.multi && !c.client.pubSub &&
          (transactionSteps c db c.client.queuedCommands envs).any fun step =>
            step.2.2.waits step.1 step.2.1) := by
      rw [requestWakes, requestWaits, exec]
      exact ⟨rfl, rfl⟩
    rw [shape.1, shape.2, mode]
    replace ran : handleExec db c envs = .ok (db', effects) := ran
    rw [handleExec] at ran
    cases multi : c.client.multi with
    | false =>
      rw [multi] at ran
      cases ran
      exact (own_reply _).account
    | true =>
      rw [multi] at ran
      obtain ⟨⟨db₁, inner⟩, queue, ran⟩ := exec_bind_ok.mp ran
      cases ran
      obtain ⟨account, quiet⟩ := runQueue_account exec queue
      have header : Own [.reply (encodeArrayHeader c.client.queuedCommands.length)] := own_reply _
      have closing : Own [.endTransaction] := fun _ member => (List.mem_singleton.mp member) ▸ trivial
      have whole := (header.account.append account rfl quiet).append closing.account
        (by rw [readyClients_append, quiet]; rfl) rfl
      simpa using whole
  · have direct : callSimple db c c.command = .ok (db', effects) := by
      unfold call at ran
      split at ran
      · exact absurd ‹_› exec
      · exact ran
    obtain ⟨wakes, waits⟩ := @requestWakes_command db c envs exec
    have account := (callSimple_conduct direct).account
    cases multi : c.client.multi with
    | false =>
      rw [wakes, waits, multi, mode]
      exact account
    | true =>
      have discard := (plain multi).resolve_left exec
      rw [wakes, waits, multi]
      rw [discard] at account
      exact account

theorem handleAuth_own (c : Context) (username password : Bytes) :
    Own (handleAuth c username password) := by
  have accepted : Own [.authenticate username, .reply (encodeSimpleString (ascii "OK"))] := by
    intro effect member
    rcases List.mem_pair.mp member with rfl | rfl <;> trivial
  unfold handleAuth
  dsimp only
  split
  · exact own_reply _
  · split
    · exact own_reply _
    · split
      · exact accepted
      · split
        · exact accepted
        · exact own_reply _

/-- A request is answered without other clients, or its command is called. -/
theorem execute_cases {rdbFilePath : Bytes} {envs : List Env} {executed : Executed}
    (ran : execute db c rdbFilePath envs = .ok executed) :
    (Own executed.effects ∧ requestWakes db c envs = [] ∧ requestWaits db c envs = false) ∨
    (c.client.pubSub = false ∧ (c.client.multi = true → c.command = .exec ∨ c.command = .discard) ∧
      call db c envs c.command = .ok (executed.db, executed.effects)) := by
  rw [execute] at ran
  dsimp only at ran
  split at ran
  · rename_i refused
    cases ran
    cases named : c.command <;> rw [named] at refused <;> cases refused.1
    exact .inl ⟨own_reply _, request_quiet (by rw [named]; intro same; cases same) (by rw [named]; rfl)
      (by rw [named]; rfl)⟩
  · split at ran
    · rename_i queued
      cases ran
      refine .inl ⟨fun effect member => ?_, request_held (.inr ⟨queued.1, fun exec => ?_⟩)⟩
      · rcases List.mem_pair.mp member with rfl | rfl <;> trivial
      · rw [exec] at queued
        exact queued.2.1 rfl
    · rename_i notQueued
      split at ran
      · rename_i mode
        obtain ⟨⟨db', effects⟩, handled, ran⟩ := exec_bind_ok.mp ran
        cases ran
        exact .inl ⟨(handlePubSub_within handled).2, request_held (.inl mode)⟩
      · rename_i mode
        have plain : c.client.multi = true → c.command = .exec ∨ c.command = .discard := by
          intro multi
          cases named : c.command <;> rw [named] at notQueued <;>
            first
              | exact .inl rfl
              | exact .inr rfl
              | exact absurd ⟨multi, (by intro same; cases same), by intro same; cases same⟩ notQueued
        split at ran
        · rename_i named
          obtain ⟨⟨db', effects⟩, handled, ran⟩ := exec_bind_ok.mp ran
          cases ran
          cases handled
          refine .inl ⟨fun effect member => ?_, request_quiet (by rw [named]; intro same; cases same)
            (by rw [named]; rfl) (by rw [named]; rfl)⟩
          obtain ⟨parameter, -, rfl⟩ := List.mem_map.mp member
          trivial
        · rename_i named
          cases ran
          exact .inl ⟨own_reply _, request_quiet (by rw [named]; intro same; cases same) (by rw [named]; rfl)
            (by rw [named]; rfl)⟩
        · rename_i named
          cases ran
          exact .inl ⟨handleAuth_own c _ _, request_quiet (by rw [named]; intro same; cases same)
            (by rw [named]; rfl) (by rw [named]; rfl)⟩
        · obtain ⟨⟨db', effects⟩, handled, ran⟩ := exec_bind_ok.mp ran
          cases ran
          exact .inr ⟨Bool.eq_false_iff.mpr mode, plain, handled⟩

/-- What a request to the database wakes, and whether its client waits. -/
theorem execute_account {rdbFilePath : Bytes} {envs : List Env} {executed : Executed}
    (ran : execute db c rdbFilePath envs = .ok executed) :
    Account executed.effects (requestWakes db c envs) (requestWaits db c envs) := by
  rcases execute_cases ran with ⟨own, wakes, waits⟩ | ⟨mode, plain, called⟩
  · rw [wakes, waits]
    exact own.account
  · exact call_account mode plain called

/-- A client that is made to wait gets no reply, but for the header of a
transaction. -/
theorem execute_blocks {rdbFilePath : Bytes} {envs : List Env} {executed : Executed}
    (waits : requestWaits db c envs = true) (ran : execute db c rdbFilePath envs = .ok executed) :
    (c.command ≠ .exec → requestWakes db c envs = [] ∧ repliedBytes executed.effects = []) ∧
      (c.command = .exec → repliedBytes executed.effects ≠ [] ∧
        readyClients executed.effects = []) := by
  rcases execute_cases ran with ⟨-, -, goesOn⟩ | ⟨mode, plain, called⟩
  · rw [goesOn] at waits
    cases waits
  · constructor
    · intro notExec
      have direct : callSimple db c c.command = .ok (executed.db, executed.effects) := by
        unfold call at called
        split at called
        · exact absurd ‹_› notExec
        · exact called
      obtain ⟨wakes, held⟩ := @requestWakes_command db c envs notExec
      rw [held, Bool.and_eq_true] at waits
      rw [wakes]
      generalize executed.effects = effects at direct
      cases callSimple_conduct direct with
      | answer _ _ _ goesOn => exact absurd (goesOn.symm.trans waits.2) Bool.false_ne_true
      | wait nobody _ => exact ⟨by rw [nobody]; exact ite_self _, rfl⟩
      | wake _ _ _ _ _ goesOn => exact absurd (goesOn.symm.trans waits.2) Bool.false_ne_true
      | publish _ _ goesOn => exact absurd (goesOn.symm.trans waits.2) Bool.false_ne_true
    · intro exec
      rw [exec] at called
      replace called : handleExec db c envs = .ok (executed.db, executed.effects) := called
      rw [handleExec] at called
      cases multi : c.client.multi with
      | false =>
        rw [requestWaits, exec] at waits
        dsimp only at waits
        rw [multi] at waits
        cases waits
      | true =>
        rw [multi] at called
        obtain ⟨⟨db₁, inner⟩, queue, called⟩ := exec_bind_ok.mp called
        have effects : executed.effects = .reply (encodeArrayHeader c.client.queuedCommands.length) ::
            inner ++ [.endTransaction] := (congrArg Prod.snd (Except.ok.inj called)).symm
        rw [effects]
        refine ⟨List.cons_ne_nil _ _, ?_⟩
        have quiet : readyClients inner = [] := (runQueue_account exec queue).2
        show readyClients (inner ++ [.endTransaction]) = []
        rw [readyClients_append, quiet]
        rfl

variable {server : Server} {handled : Handled} {client : Client} {machine : Machine}
  {command : Command} {bytesProcessed : Nat}

/-- The waiting clients that an acknowledged offset satisfies, in order. -/
def Server.acknowledges (server : Server) (fd : Fd) (ackOffset : Int) : List Fd :=
  let clients := modifyClient server.clients fd fun client =>
    { client with replicaOffset := ackOffset }
  (server.blockedWaitClients.filter fun blocked => server.alive blocked.clientFd &&
    blocked.numReplicasNeeded ≤ ackedReplicas clients server.slaveConnections blocked.masterOffset).map
      BlockedWaitClient.clientFd

/-- The clients that a request wakes through the slot of its context. -/
def Server.wakes (server : Server) (fd : Fd) (client : Client) (machine : Machine) :
    Command → List Fd
  | .replConf .ack _ _ ackOffset => server.acknowledges fd ackOffset
  | command => requestWakes server.db (server.context fd client machine command)
    (machine.queue.map fun env => { env with alive := server.alive })

/-- Whether a request is a transaction that makes its client wait. -/
def Server.stalls (server : Server) (fd : Fd) (client : Client) (machine : Machine) :
    Command → Bool
  | .exec => requestWaits server.db (server.context fd client machine .exec)
    (machine.queue.map fun env => { env with alive := server.alive })
  | _ => false

/-- All clients that a request wakes fit into the slot: each is the last one
of them, or the requester, or a replica that is flushed anyway; and if a
transaction makes its client wait, that client is the last one woken, or a
replica. -/
structure Server.WakesOne (server : Server) (fd : Fd) (client : Client) (machine : Machine)
    (command : Command) : Prop where
  others : ∀ other ∈ server.wakes fd client machine command, other = fd ∨
    (server.wakes fd client machine command).getLast? = some other ∨
    ¬ command.IsAck ∧ other ∈ server.slaveConnections
  requester : server.stalls fd client machine command = true →
    (server.wakes fd client machine command).getLast? = some fd ∨ fd ∈ server.slaveConnections

/-- The connections that the end of a request flushes. -/
def Handled.told (handled : Handled) (fd : Fd) : List Fd :=
  (if isBlocked handled.effects then [] else [fd]) ++
    ((unblockedClientFd handled.effects).toList ++ readyToWriteClients handled.effects).filter
      handled.server.alive

theorem mem_told : other ∈ handled.told fd ↔
    (isBlocked handled.effects = false ∧ other = fd) ∨
    (((unblockedClients handled.effects).getLast? = some other ∨
      other ∈ readyClients handled.effects) ∧ handled.server.alive other = true) := by
  rw [Handled.told, List.mem_append, List.mem_filter, List.mem_append, Option.mem_toList]
  refine or_congr ?_ (and_congr Iff.rfl Iff.rfl)
  cases isBlocked handled.effects
  · simp
  · simp

theorem serve_flushed
    (ran : server.serve fd client machine command bytesProcessed = .ok handled) :
    (∃ managed, server.handle fd client machine command = some managed ∧
      handled.flushed = managed.flushed ++ handled.told fd) ∨
    (server.handle fd client machine command = none ∧
      handled.flushed = handled.server.pendingSlaves ++ handled.told fd) := by
  rw [Server.serve] at ran
  obtain ⟨inner, dispatched, ran⟩ := exec_bind_ok.mp ran
  cases ran
  rw [Server.dispatch] at dispatched
  split at dispatched
  · rename_i managed managing
    cases dispatched
    exact .inl ⟨managed, managing, rfl⟩
  · rename_i notManaged
    dsimp only at dispatched
    obtain ⟨executed, -, dispatched⟩ := exec_bind_ok.mp dispatched
    obtain ⟨⟨server₁, propagated⟩, -, dispatched⟩ := exec_bind_ok.mp dispatched
    cases dispatched
    exact .inr ⟨notManaged, rfl⟩

/-- A connection that no bytes are appended for. -/
theorem appended_eq_nil {served : Fd} : appended served other effects = [] ↔
    (served = other → repliedBytes effects = []) ∧
      ∀ one ∈ writes effects, one.1 = other → one.2 = [] := by
  rw [appended, repliedBytes, List.flatMap_eq_nil_iff, List.flatMap_eq_nil_iff]
  constructor
  · intro all
    refine ⟨fun same effect member => ?_, fun one member same => ?_⟩
    · have here := all effect member
      cases effect <;> first | rfl | skip
      exact (if_pos same).symm.trans here
    · obtain ⟨effect, inside, told⟩ := List.mem_filterMap.mp member
      have here := all effect inside
      cases effect <;> cases told
      exact (if_pos same).symm.trans here
  · rintro ⟨replied, written⟩ effect member
    cases effect with
    | reply bytes =>
      dsimp only
      split
      · exact replied ‹_› _ member
      · rfl
    | write fd bytes =>
      dsimp only
      split
      · exact written (fd, bytes) (List.mem_filterMap.mpr ⟨_, member, rfl⟩) ‹_›
      · rfl
    | _ => rfl

theorem alive_applyToClients (served fd : Fd) (effects : List Effect) (clients : Map Fd Client) :
    ((applyToClients served effects clients).lookup fd).isSome = (clients.lookup fd).isSome := by
  rw [lookup_applyToClients, Option.isSome_map]

theorem alive_modifyClient (clients : Map Fd Client) (fd other : Fd) (change : Client → Client) :
    ((modifyClient clients fd change).lookup other).isSome = (clients.lookup other).isSome := by
  rw [lookup_modifyClient, Option.isSome_map]

/-- Nobody comes or goes in a request. -/
theorem serve_alive (ran : server.serve fd client machine command bytesProcessed = .ok handled) :
    handled.server.alive other = server.alive other := by
  rcases serve_cases ran with ⟨managed, managing, -, after⟩ | ⟨executed, server₁, propagated, -, -, passing, -, after⟩
  · rw [after, Server.alive, Server.alive]
    dsimp only
    rw [alive_applyToClients]
    cases command <;> cases managing
    · rfl
    · rename_i subcommand _ _ _
      cases subcommand <;> first | rfl | exact alive_modifyClient _ _ _ _
    · rw [handlePsync]
      split
      · rfl
      · exact alive_modifyClient _ _ _ _
    · rw [handleWait]
      dsimp only
      split
      · rfl
      · split <;> rfl
  · rw [after, Server.alive, Server.alive]
    dsimp only
    rw [alive_applyToClients]
    rcases handlePropagate_cases passing with ⟨rfl, -, -⟩ | ⟨_, _, -, -, -, -, rfl, -⟩ <;> rfl

private theorem writeBuffer_subscribed (client : Client) (channels : Nat) :
    ({ client with totalSubscribedChannels := channels } : Client).writeBuffer =
      client.writeBuffer := rfl

/-- An effect appends what it is about, behind what was there. -/
theorem Effect.apply_writeBuffer (effect : Effect) (client : Client) :
    (effect.apply client).writeBuffer = client.writeBuffer ++
      match effect with
      | .reply bytes | .write _ bytes => bytes
      | _ => [] := by
  cases effect with
  | reply bytes => rfl
  | write fd bytes => rfl
  | unsubscribe => exact (writeBuffer_subscribed client _).trans (List.append_nil _).symm
  | subscribe =>
    exact (writeBuffer_subscribed { client with pubSub := true } _).trans (List.append_nil _).symm
  | _ => exact (List.append_nil _).symm

theorem applyEffects_writeBuffer (served fd : Fd) (effects : List Effect) (client : Client) :
    (applyEffects served fd effects client).writeBuffer =
      client.writeBuffer ++ appended served fd effects := by
  induction effects generalizing client with
  | nil => exact (List.append_nil _).symm
  | cons effect rest ih =>
    have step : applyEffects served fd (effect :: rest) client = applyEffects served fd rest
        (if effect.target served = some fd then effect.apply client else client) := rfl
    have shape : appended served fd (effect :: rest) =
        appended served fd [effect] ++ appended served fd rest := appended_append _ _ [effect] rest
    have here : (if effect.target served = some fd then effect.apply client else client).writeBuffer =
        client.writeBuffer ++ appended served fd [effect] := by
      rw [appended, List.flatMap_singleton]
      split
      · rename_i aimed
        rw [effect.apply_writeBuffer]
        cases effect with
        | reply bytes => exact congrArg _ (if_pos (Option.some.inj aimed)).symm
        | write other bytes => exact congrArg _ (if_pos (Option.some.inj aimed)).symm
        | _ => rfl
      · rename_i aside
        cases effect with
        | reply bytes =>
          have different : served ≠ fd := fun same => aside (congrArg some same)
          exact (List.append_nil _).symm.trans (congrArg _ (if_neg different).symm)
        | write other bytes =>
          have different : other ≠ fd := fun same => aside (congrArg some same)
          exact (List.append_nil _).symm.trans (congrArg _ (if_neg different).symm)
        | _ => exact (List.append_nil _).symm
    rw [step, ih, here, shape, List.append_assoc]

/-- A replica that bytes have been appended for is pending. -/
theorem pendingSlaves_of_appended {served : Fd} {clients : Map Fd Client}
    (inside : other ∈ server.slaveConnections)
    (clients_eq : server.clients = applyToClients served effects clients)
    (alive : server.alive other = true) (sent : appended served other effects ≠ []) :
    other ∈ server.pendingSlaves := by
  refine List.mem_filter.mpr ⟨inside, ?_⟩
  rw [Server.alive, clients_eq, lookup_applyToClients, Option.isSome_map] at alive
  obtain ⟨client, lookup⟩ := Option.isSome_iff_exists.mp alive
  rw [clients_eq, lookup_applyToClients, lookup, Option.map_some, Option.any_some,
    applyEffects_writeBuffer]
  exact decide_eq_true fun empty => sent (List.append_eq_nil_iff.mp empty).2

/-! ## The requests that the replication manager answers -/

theorem checkBlockedWaitClients_account (server : Server) (fd : Fd) (ackOffset : Int) :
    Account (checkBlockedWaitClients
      (modifyClient server.clients fd fun client => { client with replicaOffset := ackOffset })
      server.slaveConnections server.blockedWaitClients).1 (server.acknowledges fd ackOffset) false ∧
    readyClients (checkBlockedWaitClients
      (modifyClient server.clients fd fun client => { client with replicaOffset := ackOffset })
      server.slaveConnections server.blockedWaitClients).1 = [] := by
  rw [Server.acknowledges]
  generalize clients_eq : (modifyClient server.clients fd fun client =>
    { client with replicaOffset := ackOffset }) = clients
  have present (other : Fd) : (clients.lookup other).isSome = server.alive other := by
    rw [← clients_eq, alive_modifyClient]
    rfl
  induction server.blockedWaitClients with
  | nil => exact ⟨own_nil.account, rfl⟩
  | cons blocked rest ih =>
    obtain ⟨later, quiet⟩ := ih
    rw [checkBlockedWaitClients, List.filter_cons]
    dsimp only
    split
    · rename_i gone
      have absent : server.alive blocked.clientFd = false := by
        rw [← present]
        simpa using gone
      rw [absent, Bool.false_and, if_neg Bool.false_ne_true]
      exact ⟨later, quiet⟩
    · rename_i there
      have alive : server.alive blocked.clientFd = true := by
        rw [← present]
        simpa [Option.isSome_iff_ne_none] using there
      rw [alive, Bool.true_and]
      split
      · rename_i enough
        rw [decide_eq_true enough, if_pos rfl, List.map_cons]
        obtain ⟨here, quiet'⟩ := account_handOver [(blocked.clientFd, encodeInteger
          (ackedReplicas clients server.slaveConnections blocked.masterOffset))]
          fun one member => (List.mem_singleton.mp member) ▸ reply_integer _
        have both := here.append later quiet' quiet
        refine ⟨both, ?_⟩
        exact (readyClients_append (handOver [_]) _).trans (by rw [quiet', quiet]; rfl)
      · rename_i few
        rw [decide_eq_false few, if_neg Bool.false_ne_true]
        exact ⟨later, quiet⟩

/-- Every connection that a request has appended bytes for is flushed. -/
def Handled.Flushes (handled : Handled) (served : Fd) : Prop :=
  ∀ other, handled.server.alive other = true → appended served other handled.effects ≠ [] →
    other ∈ handled.flushed

/-- A request that only replies flushes its client. -/
theorem flushes_reply {bytes : Bytes} (effects : handled.effects = [.reply bytes])
    (told : ∀ other ∈ handled.told fd, other ∈ handled.flushed) : handled.Flushes fd := by
  intro other _ sent
  refine told other (mem_told.mpr (.inl ⟨?_, ?_⟩))
  · rw [effects]
    rfl
  · rw [effects] at sent
    by_contra different
    exact sent (appended_reply (Ne.symm different) bytes)

/-- Somebody woken is sent something. -/
theorem Account.sent_ne_nil {served : Fd} {waits : Bool} (account : Account effects woken waits)
    (member : other ∈ woken) : appended served other effects ≠ [] := by
  obtain ⟨one, inside, same⟩ := List.mem_map.mp (account.sent other member)
  exact fun empty => (account.written one inside).1 ((appended_eq_nil.mp empty).2 one inside same)

theorem acknowledge_flushes_iff {listeningPort capability : Bytes} {ackOffset : Int}
    (effects : handled.effects = (handleReplconf server fd .ack ackOffset).effects)
    (flushed : handled.flushed = [] ++ handled.told fd)
    (alive : ∀ other, handled.server.alive other = server.alive other) :
    handled.Flushes fd ↔
      server.WakesOne fd client machine (.replConf .ack listeningPort capability ackOffset) := by
  obtain ⟨account, quiet⟩ := checkBlockedWaitClients_account server fd ackOffset
  have silent := checkBlockedWaitClients_silent
    (modifyClient server.clients fd fun client => { client with replicaOffset := ackOffset })
    server.slaveConnections server.blockedWaitClients
  replace effects : handled.effects = (checkBlockedWaitClients
    (modifyClient server.clients fd fun client => { client with replicaOffset := ackOffset })
    server.slaveConnections server.blockedWaitClients).1 := effects
  rw [← effects] at account quiet silent
  have ack : Command.IsAck (.replConf .ack listeningPort capability ackOffset) := ⟨_, _, _, rfl⟩
  have wakes : server.wakes fd client machine (.replConf .ack listeningPort capability ackOffset) =
      server.acknowledges fd ackOffset := rfl
  constructor
  · intro flushes
    refine ⟨fun other member => ?_, fun stalls => nomatch stalls⟩
    rw [wakes] at member ⊢
    have there : server.alive other = true := by
      obtain ⟨blocked, inside, rfl⟩ := List.mem_map.mp member
      exact (Bool.and_eq_true _ _ ▸ (List.mem_filter.mp inside).2).1
    have reached := flushes other ((alive other).trans there) (account.sent_ne_nil member)
    rw [flushed, List.nil_append, mem_told, quiet, account.unblocked] at reached
    rcases reached with ⟨-, same⟩ | ⟨last | absent, -⟩
    · exact .inl same
    · exact .inr (.inl last)
    · cases absent
  · intro one other there sent
    have member : other ∈ server.acknowledges fd ackOffset := by
      by_contra outside
      refine sent (appended_eq_nil.mpr ⟨fun _ => silent, fun sending inside same => ?_⟩)
      rcases (account.written sending inside).2 with woken | ready
      · exact absurd (same ▸ woken) outside
      · rw [quiet] at ready
        cases ready
    rw [flushed, List.nil_append, mem_told, account.unblocked, account.blocked]
    rcases one.others other member with same | last | ⟨notAck, -⟩
    · exact .inl ⟨rfl, same⟩
    · exact .inr ⟨.inl last, there⟩
    · exact absurd ack notAck

theorem handle_flushes_iff {managed : Handled}
    (managing : server.handle fd client machine command = some managed)
    (effects : handled.effects = managed.effects)
    (flushed : handled.flushed = managed.flushed ++ handled.told fd)
    (alive : ∀ other, handled.server.alive other = server.alive other) :
    handled.Flushes fd ↔ server.WakesOne fd client machine command := by
  have told : ∀ other ∈ handled.told fd, other ∈ handled.flushed := fun other member => by
    rw [flushed]
    exact List.mem_append_right _ member
  have harmless (wakes : server.wakes fd client machine command = [])
      (goesOn : server.stalls fd client machine command = false) (flushes : handled.Flushes fd) :
      handled.Flushes fd ↔ server.WakesOne fd client machine command := by
    refine iff_of_true flushes ⟨fun other member => ?_, fun stalls => ?_⟩
    · rw [wakes] at member
      cases member
    · rw [goesOn] at stalls
      cases stalls
  have nothing (reads : command.wakes server.db (server.context fd client machine command) = [])
      (notExec : command ≠ .exec)
      (goesOn : command.waits server.db (server.context fd client machine command) = false) :
      requestWakes server.db (server.context fd client machine command)
        (machine.queue.map fun env => { env with alive := server.alive }) = [] :=
    (request_quiet notExec reads goesOn).1
  cases command <;> cases managing
  case info =>
    exact harmless (nothing rfl nofun rfl) rfl (flushes_reply effects told)
  case replConf subcommand listeningPort capability ackOffset =>
    cases subcommand with
    | ack => exact acknowledge_flushes_iff effects flushed alive
    | _ => exact harmless (nothing rfl nofun rfl) rfl (flushes_reply effects told)
  case psync =>
    exact harmless (nothing rfl nofun rfl) rfl
      (flushes_reply (effects.trans (handlePsync_effects _ _ _ _)) told)
  case wait numReplica timeout =>
    have quiet := nothing rfl nofun rfl
    rw [handleWait] at effects flushed
    dsimp only at effects flushed
    split at effects
    · exact harmless quiet rfl (flushes_reply effects told)
    · rename_i used
      rw [if_neg used] at flushed
      split at effects
      · exact harmless quiet rfl (flushes_reply effects told)
      · rename_i few
        rw [if_neg few] at flushed
        dsimp only at effects flushed
        refine harmless quiet rfl fun other _ sent => ?_
        rw [flushed]
        refine List.mem_append_left _ ?_
        by_contra outside
        refine sent (appended_eq_nil.mpr ⟨fun _ => ?_, fun one member same => ?_⟩)
        · rw [effects, repliedBytes_append, repliedBytes_map_write]
          rfl
        · rw [effects, writes_append, writes_map_write] at member
          rcases List.mem_append.mp member with asked | blocked
          · obtain ⟨slave, inside, rfl⟩ := List.mem_map.mp asked
            exact absurd (same ▸ inside) outside
          · cases blocked

/-! ## The requests that the database answers -/

theorem wakes_alive {command : Command} (member : other ∈ command.wakes db c) :
    c.env.alive other = true := by
  cases command <;> first | exact absurd member List.not_mem_nil | skip
  all_goals
    rw [Command.wakes] at member
    split at member
    · first | exact absurd member List.not_mem_nil | exact (List.mem_filter.mp member).2
    · first | exact absurd member List.not_mem_nil | exact (List.mem_filter.mp member).2

theorem transactionSteps_alive {alive : Fd → Bool} {commands : List Command} {envs : List Env}
    (all : ∀ env ∈ envs, env.alive = alive) {step : DB × Context × Command}
    (member : step ∈ transactionSteps c db commands envs) : step.2.1.env.alive = alive := by
  induction commands generalizing db envs with
  | nil => cases member
  | cons command rest ih =>
    cases envs with
    | nil => cases member
    | cons env envs =>
      rw [transactionSteps] at member
      rcases List.mem_cons.mp member with rfl | later
      · exact all env List.mem_cons_self
      · split at later
        · exact ih (fun other inside => all other (List.mem_cons_of_mem _ inside)) later
        · cases later

theorem requestWakes_alive {envs : List Env} (all : ∀ env ∈ envs, env.alive = c.env.alive)
    (member : other ∈ requestWakes db c envs) : c.env.alive other = true := by
  unfold requestWakes at member
  split at member
  · split at member
    · obtain ⟨step, inside, woken⟩ := List.mem_flatMap.mp member
      rw [← transactionSteps_alive all inside]
      exact wakes_alive woken
    · cases member
  · split at member
    · cases member
    · exact wakes_alive member

theorem propagated_calm {slaves : List Fd} {raw : Bytes} :
    unblockedClients (slaves.map fun fd => .write fd raw) = [] ∧
      isBlocked (slaves.map fun fd => .write fd raw) = false ∧
      readyClients (slaves.map fun fd => .write fd raw) = [] := by
  induction slaves with
  | nil => exact ⟨rfl, rfl, rfl⟩
  | cons slave rest ih => exact ih

theorem execute_flushes_iff {executed : Executed} {propagated : List Effect} {clients : Map Fd Client}
    (notManaged : server.handle fd client machine command = none) (present : server.alive fd = true)
    (run : execute server.db (server.context fd client machine command) server.config.rdbFilePath
      (machine.queue.map fun env => { env with alive := server.alive }) = .ok executed)
    (passing : propagated = [] ∨
      ∃ raw, propagated = server.slaveConnections.map fun slave => .write slave raw)
    (effects : handled.effects = executed.effects ++ propagated)
    (flushed : handled.flushed = handled.server.pendingSlaves ++ handled.told fd)
    (slaves : handled.server.slaveConnections = server.slaveConnections)
    (clients_eq : handled.server.clients = applyToClients fd handled.effects clients)
    (alive : ∀ other, handled.server.alive other = server.alive other) :
    handled.Flushes fd ↔ server.WakesOne fd client machine command := by
  have wakes : server.wakes fd client machine command =
      requestWakes server.db (server.context fd client machine command)
        (machine.queue.map fun env => { env with alive := server.alive }) := by
    unfold Server.wakes
    split
    · cases notManaged
    · rfl
  have notAck : ¬ command.IsAck := by
    rintro ⟨_, _, _, rfl⟩
    cases notManaged
  have account := execute_account run
  rw [← wakes] at account
  have quiet : unblockedClients propagated = [] ∧ isBlocked propagated = false ∧
      readyClients propagated = [] := by
    rcases passing with rfl | ⟨raw, rfl⟩
    · exact ⟨rfl, rfl, rfl⟩
    · exact propagated_calm
  have unblocked : unblockedClients handled.effects = server.wakes fd client machine command := by
    rw [effects, unblockedClients_append, quiet.1, account.unblocked, List.append_nil]
  have blocked : isBlocked handled.effects = requestWaits server.db
      (server.context fd client machine command)
      (machine.queue.map fun env => { env with alive := server.alive }) := by
    rw [effects, isBlocked_append, quiet.2.1, account.blocked, Bool.or_false]
  have ready : readyClients handled.effects = readyClients executed.effects := by
    rw [effects, readyClients_append, quiet.2.2, List.append_nil]
  have pending (other : Fd) (inside : other ∈ server.slaveConnections)
      (there : handled.server.alive other = true)
      (sent : appended fd other handled.effects ≠ []) : other ∈ handled.flushed := by
    rw [flushed]
    exact List.mem_append_left _ (pendingSlaves_of_appended (slaves ▸ inside) clients_eq there sent)
  have told (other : Fd) (member : other ∈ handled.told fd) : other ∈ handled.flushed := by
    rw [flushed]
    exact List.mem_append_right _ member
  have pending_slave (other : Fd) (member : other ∈ handled.server.pendingSlaves) :
      other ∈ server.slaveConnections := slaves ▸ (List.mem_filter.mp member).1
  have behind (other : Fd) (outside : other ∉ server.slaveConnections) :
      appended fd other handled.effects = appended fd other executed.effects := by
    rw [effects, appended_append]
    rcases passing with rfl | ⟨raw, rfl⟩
    · exact List.append_nil _
    · rw [appended_nothing (fun _ => repliedBytes_map_write _ _), List.append_nil]
      intro one member same
      rw [writes_map_write] at member
      obtain ⟨slave, inside, rfl⟩ := List.mem_map.mp member
      exact outside (same ▸ inside)
  constructor
  · intro flushes
    have reached (other : Fd) (there : server.alive other = true)
        (sent : appended fd other executed.effects ≠ []) (nobody : readyClients executed.effects = []) :
        (isBlocked handled.effects = false ∧ other = fd) ∨
          (server.wakes fd client machine command).getLast? = some other ∨
          other ∈ server.slaveConnections := by
      have whole : appended fd other handled.effects ≠ [] := by
        rw [effects, appended_append]
        exact fun empty => sent (List.append_eq_nil_iff.mp empty).1
      have member := flushes other ((alive other).trans there) whole
      rw [flushed] at member
      rcases List.mem_append.mp member with pends | telling
      · exact .inr (.inr (pending_slave other pends))
      · rw [mem_told, unblocked, ready, nobody] at telling
        rcases telling with here | ⟨last | absent, -⟩
        · exact .inl here
        · exact .inr (.inl last)
        · cases absent
    refine ⟨fun other member => ?_, fun stalls => ?_⟩
    · have there : server.alive other = true := by
        rw [wakes] at member
        refine requestWakes_alive (fun env inside => ?_) member
        obtain ⟨one, -, rfl⟩ := List.mem_map.mp inside
        rfl
      have nobody := account.ready fun empty => by
        rw [empty] at member
        cases member
      rcases reached other there (account.sent_ne_nil member) nobody with ⟨-, same⟩ | last | slave
      · exact .inl same
      · exact .inr (.inl last)
      · exact .inr (.inr ⟨notAck, slave⟩)
    · obtain ⟨exec, waits⟩ : command = .exec ∧ requestWaits server.db
          (server.context fd client machine command)
          (machine.queue.map fun env => { env with alive := server.alive }) = true := by
        cases command <;> first | cases stalls | skip
        exact ⟨rfl, stalls⟩
      obtain ⟨replied, nobody⟩ := (execute_blocks waits run).2 exec
      have sent : appended fd fd executed.effects ≠ [] := fun empty =>
        replied ((appended_eq_nil.mp empty).1 rfl)
      rcases reached fd present sent nobody with ⟨goesOn, -⟩ | last | slave
      · rw [blocked, waits] at goesOn
        cases goesOn
      · exact .inl last
      · exact .inr slave
  · intro one other there sent
    by_cases slave : other ∈ server.slaveConnections
    · exact pending other slave there sent
    · rw [behind other slave] at sent
      -- a client that is not blocked is flushed, one that a transaction blocks is told of
      have requester (same : other = fd) (odd : command ≠ .exec → requestWaits server.db
          (server.context fd client machine command)
          (machine.queue.map fun env => { env with alive := server.alive }) = false) :
          other ∈ handled.flushed := by
        refine told other (mem_told.mpr ?_)
        rw [blocked, unblocked]
        cases waits : requestWaits server.db (server.context fd client machine command)
            (machine.queue.map fun env => { env with alive := server.alive }) with
        | false => exact .inl ⟨rfl, same⟩
        | true =>
          have exec : command = .exec := by
            by_contra notExec
            rw [odd notExec] at waits
            cases waits
          have stalls : server.stalls fd client machine command = true := by
            rw [exec] at waits ⊢
            exact waits
          rcases one.requester stalls with last | inside
          · exact .inr ⟨.inl (same ▸ last), there⟩
          · exact absurd (same ▸ inside) slave
      by_cases replies : fd = other ∧ repliedBytes executed.effects ≠ []
      · refine requester replies.1.symm fun notExec => ?_
        by_contra waits
        rw [Bool.not_eq_false] at waits
        exact replies.2 ((execute_blocks waits run).1 notExec).2
      · obtain ⟨sending, inside, same, nonempty⟩ : ∃ one ∈ writes executed.effects,
            one.1 = other ∧ one.2 ≠ [] := by
          by_contra none_
          refine sent (appended_eq_nil.mpr ⟨fun same => ?_, fun one member same => ?_⟩)
          · by_contra replied
            exact replies ⟨same, replied⟩
          · by_contra nonempty
            exact none_ ⟨one, member, same, nonempty⟩
        rcases (account.written sending inside).2 with woken | served
        · rw [same] at woken
          rcases one.others other woken with here | last | ⟨-, elsewhere⟩
          · refine requester here fun notExec => ?_
            by_contra waits
            rw [Bool.not_eq_false] at waits
            have nobody := ((execute_blocks waits run).1 notExec).1
            rw [← wakes] at nobody
            rw [nobody] at woken
            cases woken
          · exact told other (mem_told.mpr (.inr ⟨.inl (by rw [unblocked]; exact last), there⟩))
          · exact absurd elsewhere slave
        · rw [same] at served
          exact told other (mem_told.mpr (.inr ⟨.inr (by rw [ready]; exact served), there⟩))

/-! ## No wake-up is lost, if it fits into the slot -/

/-- In every state, after every request every connection that bytes have been
appended for is flushed, exactly when the clients that the request wakes fit
into the one slot they are told through. -/
theorem wakeups_flushed_iff {data : Bytes} {parsed : Parsed}
    (lookup : server.clients.lookup fd = some client)
    (read : parseCommand (client.readBuffer ++ data) = .ok parsed)
    (ran : server.step (.receive fd data machine) = .ok handled) :
    handled.Flushes fd ↔ (server.taking fd client parsed).WakesOne fd
      { client with readBuffer := parsed.readBuffer } machine parsed.command := by
  rcases step_receive ran with ⟨absent, -⟩ | ⟨client', parsed', lookup', read', -, served⟩
  · rw [lookup] at absent
    cases absent
  · rw [lookup] at lookup'
    cases lookup'
    rw [read] at read'
    cases read'
    have present : (server.taking fd client parsed).alive fd = true := by
      rw [Server.alive, Server.taking]
      dsimp only
      rw [Finmap.lookup_insert]
      rfl
    have alive (other : Fd) := @serve_alive _ other _ _ _ _ _ _ served
    rcases serve_flushed served with ⟨managed, managing, flushed⟩ | ⟨notManaged, flushed⟩
    · rcases serve_cases served with ⟨managed', managing', effects, -⟩ | ⟨_, _, _, notManaged, -⟩
      · rw [managing] at managing'
        cases managing'
        exact handle_flushes_iff managing effects flushed alive
      · rw [managing] at notManaged
        cases notManaged
    · rcases serve_cases served with ⟨managed, managing, -⟩ |
        ⟨executed, server₁, propagated, -, run, passing, effects, after⟩
      · rw [notManaged] at managing
        cases managing
      · have passed : propagated = [] ∨ ∃ raw, propagated =
            (server.taking fd client parsed).slaveConnections.map fun slave => .write slave raw := by
          rcases handlePropagate_cases passing with ⟨-, none_, -⟩ | ⟨_, raw, -, -, -, -, -, some_⟩
          · exact .inl none_
          · exact .inr ⟨raw, some_⟩
        have slaves : handled.server.slaveConnections = (server.taking fd client parsed).slaveConnections := by
          rw [after]
          rcases handlePropagate_cases passing with ⟨rfl, -, -⟩ | ⟨_, _, -, -, -, -, rfl, -⟩ <;> rfl
        have clients_eq : handled.server.clients = applyToClients fd handled.effects server₁.clients := by
          rw [after, effects]
        exact execute_flushes_iff notManaged present run passed effects flushed slaves clients_eq alive

/-- A client waits for a replica, which acknowledges. -/
def waitOnce : List Event := [.connect 1, .connect 2] ++
  requests [(1, ["PSYNC", "?", "-1"]), (2, ["SET", "k", "v"]), (2, ["WAIT", "1", "0"]),
    (1, ["REPLCONF", "ACK", "31"])]

private theorem waitOnce_turns : 5 < (turnsOf waitOnce).length := by decide +kernel

/-- The acknowledgement flushes the client that it answers. -/
theorem wakeups_flushed_iff_ack : ∃ (server : Server) (handled : Handled), server.Reachable ∧
    server.step (.receive 1 (encodeBulkStringArray [ascii "REPLCONF", ascii "ACK", ascii "31"])
      .sample) = .ok handled ∧
    appended 1 2 handled.effects = encodeInteger 1 ∧ handled.Flushes 1 := by
  obtain ⟨reached, ran⟩ := turnsOf_reachable (by decide +kernel) (List.getElem_mem waitOnce_turns)
  let turn := (turnsOf waitOnce)[5]
  let client := (turn.before.clients.lookup 1).getD {}
  have lookup : turn.before.clients.lookup 1 = some client := by
    have connected : (turn.before.clients.lookup 1).isSome = true := by decide +kernel
    obtain ⟨found, same⟩ := Option.isSome_iff_exists.mp connected
    simp only [client, same, Option.getD_some]
  have read := exec_getD ⟨.unknow, 0, []⟩ (by decide +kernel : (parseCommand (client.readBuffer ++
    encodeBulkStringArray [ascii "REPLCONF", ascii "ACK", ascii "31"])).isOk = true)
  generalize same : (parseCommand _).toOption.getD _ = parsed at read
  have woken : (turn.before.taking 1 client parsed).wakes 1
      { client with readBuffer := parsed.readBuffer } .sample parsed.command = [2] := by
    rw [← same]
    decide +kernel
  have goesOn : (turn.before.taking 1 client parsed).stalls 1
      { client with readBuffer := parsed.readBuffer } .sample parsed.command = false := by
    rw [← same]
    decide +kernel
  refine ⟨turn.before, turn.handled, reached, ran, by decide +kernel,
    (wakeups_flushed_iff lookup read ran).mpr ⟨fun other member => ?_, fun stalls => ?_⟩⟩
  · rw [woken] at member ⊢
    rw [List.mem_singleton.mp member]
    exact .inr (.inl rfl)
  · rw [goesOn] at stalls
    cases stalls
/-- Two clients wait for a replica that acknowledges. -/
def waitTwice : List Event := [.connect 1, .connect 2, .connect 3] ++
  requests [(1, ["PSYNC", "?", "-1"]), (2, ["SET", "k", "v"]), (2, ["WAIT", "1", "0"]),
    (3, ["WAIT", "1", "0"]), (1, ["REPLCONF", "ACK", "31"])]

private theorem waitTwice_turns : 7 < (turnsOf waitTwice).length := by decide +kernel

/-- The first of two woken clients is not flushed. -/
theorem wakeup_lost : ¬ ∀ server : Server, server.Reachable → ∀ fd data machine handled,
    server.step (.receive fd data machine) = .ok handled → handled.Flushes fd := by
  intro claim
  obtain ⟨reached, ran⟩ := turnsOf_reachable (by decide +kernel)
    (List.getElem_mem waitTwice_turns)
  have flushed := claim _ reached 1 (encodeBulkStringArray [ascii "REPLCONF", ascii "ACK", ascii "31"])
    .sample _ ran 2 (by decide +kernel) (by decide +kernel)
  exact absurd flushed (by decide +kernel)

end CarrotDb
