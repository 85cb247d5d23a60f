import CarrotDb.UnseenMarks

/-! A transaction that is discarded. Between MULTI and DISCARD the commands of
its client are only queued, so nobody can tell afterwards, and no other client
meanwhile, that they were ever sent. -/
namespace CarrotDb
open Resp Lockstep Session

variable {session first second next : Session} {rdbFilePath : Bytes} {request : Request} {fd : Fd}
  {client client' : Client}

/-- A client in a transaction, as it would be without. -/
def Client.left (client : Client) : Client :=
  { client.veil true with multi := false, queuedCommands := [] }

/-- Two sessions, of which the first has a client in a transaction that it is
not in in the second. -/
structure Session.Queueing (fd : Fd) (first second : Session) : Prop where
  db : first.db.unwatched = second.db.unwatched
  acl : first.acl = second.acl
  others : ∀ other ≠ fd, (first.clients.lookup other).map (Client.veil false) =
    (second.clients.lookup other).map (Client.veil false)
  own : ∃ client client', first.clients.lookup fd = some client ∧
    second.clients.lookup fd = some client' ∧ client.multi = true ∧ client.pubSub = false ∧
    client.left = client'.veil true

/-- A client that is in no transaction and listens to no channel. -/
structure Client.Outside (client : Client) : Prop where
  multi : client.multi = false
  pubSub : client.pubSub = false
  queue : client.queuedCommands = []

theorem Client.Outside.left (outside : client.Outside) : client.left = client.veil true := by
  obtain ⟨multi, pubSub, queue⟩ := outside
  cases client
  simp_all [Client.left, Client.veil]

/-- To a client that is not served, bytes are written and marks are set. -/
theorem applyEffects_foreign {served : Fd} (foreign : served ≠ fd) (effects : List Effect)
    (client : Client) : (applyEffects served fd effects client).veil true = client.veil true := by
  induction effects generalizing client with
  | nil => rfl
  | cons effect rest ih =>
    rw [applyEffects_cons, ih]
    split
    · rename_i target
      cases effect <;> first | exact absurd (Option.some.inj target) foreign | rfl
    · rfl

theorem left_of_veil (same : client.veil true = client'.veil true) : client.left = client'.left :=
  congrArg (fun client : Client => { client with multi := false, queuedCommands := [] }) same

theorem Session.Queueing.foreign (queueing : first.Queueing fd second) (rdbFilePath : Bytes)
    (foreign : request.fd ≠ fd) :
    Agree (Session.Queueing fd) (first.shown rdbFilePath request)
      (second.shown rdbFilePath request) := by
  obtain ⟨unwatched, acl, others, client, client', held, held', multi, pubSub, same⟩ := queueing
  have here := others request.fd foreign
  cases one : first.clients.lookup request.fd with
  | none =>
    cases other : second.clients.lookup request.fd with
    | none =>
      simp only [shown, Session.step, one, other]
      exact .output [] ⟨unwatched, acl, others, client, client', held, held', multi, pubSub, same⟩
    | some served' =>
      rw [one, other] at here
      cases here
  | some served =>
    cases other : second.clients.lookup request.fd with
    | none =>
      rw [one, other] at here
      cases here
    | some served' =>
      rw [one, other] at here
      have veiled : served.veil false = served'.veil false := Option.some.inj here
      have bare := congrArg (Client.veil true) veiled
      refine shown_alike unwatched acl one other bare ?_
      intro db db' acl effects effects' unwatched' alike
      have kept := applyEffects_foreign foreign effects client
      have kept' := applyEffects_foreign foreign effects' client'
      refine ⟨unwatched', rfl, fun other different => ?_,
        applyEffects request.fd fd effects client, applyEffects request.fd fd effects' client',
        ?_, ?_, ?_, ?_, ?_⟩
      · rw [lookup_applyToClients, lookup_applyToClients]
        exact applied_veil alike (others other different)
      · rw [lookup_applyToClients, held]
        rfl
      · rw [lookup_applyToClients, held']
        rfl
      · exact (congrArg Client.multi kept).trans multi
      · exact (congrArg Client.pubSub kept).trans pubSub
      · rw [left_of_veil kept, same, kept']

/-- Effects on the client that is served leave the others alone. -/
theorem applyEffects_elsewhere {served other : Fd} {effects : List Effect}
    (own : ∀ effect ∈ effects, effect.target served = some served) (different : other ≠ served)
    (client : Client) : applyEffects served other effects client = client := by
  induction effects generalizing client with
  | nil => rfl
  | cons effect rest ih =>
    have here := own effect List.mem_cons_self
    have elsewhere : effect.target served ≠ some other := fun same =>
      different (Option.some.inj (same.symm.trans here))
    rw [applyEffects_cons, if_neg elsewhere]
    exact ih (fun effect member => own effect (List.mem_cons_of_mem _ member)) client

theorem applyEffects_own {served : Fd} {effects : List Effect}
    (own : ∀ effect ∈ effects, effect.target served = some served) (client : Client) :
    applyEffects served served effects client =
      effects.foldl (fun client effect => effect.apply client) client := by
  induction effects generalizing client with
  | nil => rfl
  | cons effect rest ih =>
    rw [applyEffects_cons, if_pos (own effect List.mem_cons_self)]
    exact ih (fun effect member => own effect (List.mem_cons_of_mem _ member)) _

/-- A request whose effects are on its own client. -/
theorem shown_own {executed : Executed} (served : session.clients.lookup request.fd = some client)
    (ran : execute session.db (session.context client request) rdbFilePath request.queue =
      .ok executed)
    (own : ∀ effect ∈ executed.effects, effect.target request.fd = some request.fd) :
    ∃ told next, session.shown rdbFilePath request = .ok (told, next) ∧
      next.db = executed.db ∧ next.acl = executed.acl ∧
      next.clients.lookup request.fd =
        some (executed.effects.foldl (fun client effect => effect.apply client) client) ∧
      ∀ other ≠ request.fd, next.clients.lookup other = session.clients.lookup other := by
  refine ⟨visible executed.effects, {
    db := executed.db
    acl := executed.acl
    clients := applyToClients request.fd executed.effects session.clients }, ?_, rfl, rfl, ?_, ?_⟩
  · simp only [shown, Session.step, served, ran, exec_ok_bind, exec_pure]
    rfl
  · rw [lookup_applyToClients, served, ← applyEffects_own own]
    rfl
  · intro other different
    rw [lookup_applyToClients]
    cases session.clients.lookup other with
    | none => rfl
    | some client => exact congrArg some (applyEffects_elsewhere own different client)

/-- MULTI opens a transaction. -/
theorem begins (rdbFilePath : Bytes) (connected : session.clients.lookup fd = some client)
    (outside : client.Outside) (env : Env) (queue : List Env) : ∃ told next,
      session.shown rdbFilePath ⟨fd, .multi, env, queue⟩ = .ok (told, next) ∧
        next.Queueing fd session := by
  obtain ⟨multi, pubSub, empty⟩ := outside
  have ran : execute session.db (session.context client ⟨fd, .multi, env, queue⟩) rdbFilePath
      queue = .ok ⟨session.db, session.acl,
        [.beginTransaction, .reply (encodeSimpleString (ascii "OK"))], some .multi⟩ := by
    simp [execute, context, multi, pubSub, Command.commandType, call, callSimple, handleMulti]
  obtain ⟨told, next, shown, db, acl, held, others⟩ :=
    @shown_own _ _ ⟨fd, .multi, env, queue⟩ _ _ connected ran (by simp [Effect.target])
  refine ⟨told, next, shown, by rw [db], acl, fun other different => by rw [others other different],
    _, client, held, connected, rfl, pubSub, ?_⟩
  have left : client.left = client.veil true := Client.Outside.left ⟨multi, pubSub, empty⟩
  rw [← left]
  rfl

/-- What is done to a client in its transaction keeps it there. -/
structure Effect.Stays (effect : Effect) : Prop where
  left : ∀ client : Client, (effect.apply client).left = client.left
  multi : ∀ client : Client, (effect.apply client).multi = client.multi
  pubSub : ∀ client : Client, (effect.apply client).pubSub = client.pubSub

theorem stays_reply (bytes : Bytes) : Effect.Stays (.reply bytes) :=
  ⟨fun _ => rfl, fun _ => rfl, fun _ => rfl⟩

theorem stays_queue (command : Command) : Effect.Stays (.queue command) :=
  ⟨fun _ => rfl, fun _ => rfl, fun _ => rfl⟩

theorem stays_all {effects : List Effect} (each : ∀ effect ∈ effects, effect.Stays)
    (client : Client) :
    (effects.foldl (fun client effect => effect.apply client) client).left = client.left ∧
      (effects.foldl (fun client effect => effect.apply client) client).multi = client.multi ∧
      (effects.foldl (fun client effect => effect.apply client) client).pubSub = client.pubSub := by
  induction effects generalizing client with
  | nil => exact ⟨rfl, rfl, rfl⟩
  | cons effect rest ih =>
    obtain ⟨left, multi, pubSub⟩ := each effect List.mem_cons_self
    obtain ⟨left', multi', pubSub'⟩ :=
      ih (fun effect member => each effect (List.mem_cons_of_mem _ member)) (effect.apply client)
    exact ⟨left'.trans (left client), multi'.trans (multi client), pubSub'.trans (pubSub client)⟩

/-- A command in a transaction is queued, or refused. -/
theorem execute_queues {db : DB} {c : Context} (multi : c.client.multi = true)
    (stays : c.command.commandType ≠ .exec ∧ c.command.commandType ≠ .discard)
    (rdbFilePath : Bytes) (envs : List Env) : ∃ db' effects command,
      execute db c rdbFilePath envs = .ok ⟨db', c.acl, effects, command⟩ ∧
        db'.unwatched = db.unwatched ∧
        ∀ effect ∈ effects, effect.target c.fd = some c.fd ∧ effect.Stays := by
  simp only [execute]
  split
  · refine ⟨_, _, _, rfl, rfl, fun effect member => ?_⟩
    obtain rfl := List.mem_singleton.mp member
    exact ⟨rfl, stays_reply _⟩
  · rw [if_pos ⟨multi, stays⟩]
    refine ⟨_, _, _, rfl, rfl, fun effect member => ?_⟩
    rcases List.mem_pair.mp member with rfl | rfl
    · exact ⟨rfl, stays_queue _⟩
    · exact ⟨rfl, stays_reply _⟩

theorem Session.Queueing.queues (queueing : first.Queueing fd second) (rdbFilePath : Bytes)
    (own : request.fd = fd)
    (stays : request.command.commandType ≠ .exec ∧ request.command.commandType ≠ .discard) :
    ∃ told next, first.shown rdbFilePath request = .ok (told, next) ∧
      next.Queueing fd second := by
  obtain ⟨unwatched, acl, others, client, client', held, held', multi, pubSub, same⟩ := queueing
  subst own
  obtain ⟨db', effects, command, ran, alike, each⟩ := @execute_queues first.db
    (first.context client request) multi stays rdbFilePath request.queue
  obtain ⟨told, next, shown, db, users, now, elsewhere⟩ :=
    shown_own held ran fun effect member => (each effect member).1
  obtain ⟨left, multi', pubSub'⟩ := stays_all (fun effect member => (each effect member).2) client
  refine ⟨told, next, shown, ?_, users.trans acl, fun other different => ?_, _, client', now, held',
    multi'.trans multi, pubSub'.trans pubSub, left.trans same⟩
  · rw [db, ← unwatched]
    exact alike
  · rw [elsewhere other different]
    exact others other different

/-- DISCARD leaves the client as if it had sent nothing. -/
theorem Session.Queueing.discards (queueing : first.Queueing fd second) (rdbFilePath : Bytes)
    (env : Env) (queue : List Env) : ∃ told next,
      first.shown rdbFilePath ⟨fd, .discard, env, queue⟩ = .ok (told, next) ∧
        Veils (· == fd) next second := by
  obtain ⟨unwatched, acl, others, client, client', held, held', multi, pubSub, same⟩ := queueing
  have ran : execute first.db (first.context client ⟨fd, .discard, env, queue⟩) rdbFilePath
      queue = .ok ⟨first.db, first.acl,
        [.endTransaction, .reply (encodeSimpleString (ascii "OK"))], some .discard⟩ := by
    simp [execute, context, multi, pubSub, Command.commandType, call, callSimple, handleDiscard]
  obtain ⟨told, next, shown, db, users, now, elsewhere⟩ :=
    @shown_own _ _ ⟨fd, .discard, env, queue⟩ _ _ held ran (by simp [Effect.target])
  refine ⟨told, next, shown, by rw [db]; exact unwatched, users.trans acl, fun other => ?_⟩
  by_cases here : other = fd
  · subst here
    rw [now, held', beq_self_eq_true, Option.map_some, Option.map_some, ← same]
    have quiet : client.left = { client.left with pubSub := false } := by
      rw [← pubSub]
      rfl
    rw [quiet]
    rfl
  · have loud : (other == fd) = false := beq_false_of_ne here
    rw [elsewhere other here, loud]
    exact others other here

/-! ## The whole transaction -/

/-- What requests of the other clients were answered. -/
def toOthers (fd : Fd) (requests : List Request) (told : List (List Effect)) : List (List Effect) :=
  ((requests.zip told).filter fun answered => answered.1.fd ≠ fd).map Prod.snd

/-- The requests of the other clients. -/
def ofOthers (fd : Fd) (requests : List Request) : List Request :=
  requests.filter fun request => request.fd ≠ fd

theorem Session.Queueing.run_discards (queueing : first.Queueing fd second)
    {during rest : List Request} {env : Env} {queue : List Env}
    (queues : ∀ request ∈ during, request.fd = fd →
      request.command.commandType ≠ .exec ∧ request.command.commandType ≠ .discard)
    {outputs : List (List Effect)} {last : Session}
    (ran : run (shown rdbFilePath) first (during ++ ⟨fd, .discard, env, queue⟩ :: rest) =
      .ok (outputs, last)) :
    ∃ told ended later last', outputs = told ++ ended :: later ∧ told.length = during.length ∧
      run (shown rdbFilePath) second (ofOthers fd during ++ rest) =
        .ok (toOthers fd during told ++ later, last') ∧ Veils (· == fd) last last' := by
  induction during generalizing first second outputs with
  | nil =>
    obtain ⟨ended, next, later, stepped, following, rfl⟩ := run_cons_ok.mp ran
    obtain ⟨_, next', discarded, veils⟩ := queueing.discards rdbFilePath env queue
    rw [discarded] at stepped
    cases stepped
    have alike : Agree (Veils (· == fd)) (run (shown rdbFilePath) _ rest)
        (run (shown rdbFilePath) second rest) :=
      run_alike (fun _ _ request veils => veils.step request) veils
    rw [following] at alike
    cases other : run (shown rdbFilePath) second rest with
    | error fault =>
      rw [other] at alike
      cases alike
    | ok result =>
      rw [other] at alike
      cases alike with
      | output value relates => exact ⟨[], ended, later, _, rfl, rfl, other, relates⟩
  | cons request during ih =>
    have later := fun one member => queues one (List.mem_cons_of_mem request member)
    obtain ⟨output, next, outputs, stepped, following, rfl⟩ := run_cons_ok.mp ran
    by_cases own : request.fd = fd
    · -- the second session does not see this request
      obtain ⟨_, next', queued, queueing'⟩ := queueing.queues rdbFilePath own
        (queues request List.mem_cons_self own)
      rw [queued] at stepped
      cases stepped
      obtain ⟨rest_, ended, end_, last', rfl, sized, ran', veils⟩ := ih queueing' later following
      refine ⟨output :: rest_, ended, end_, last', rfl, congrArg (· + 1) sized, ?_, veils⟩
      simpa [ofOthers, toOthers, own] using ran'
    · have agree := queueing.foreign rdbFilePath own
      rw [stepped] at agree
      cases other : second.shown rdbFilePath request with
      | error fault =>
        rw [other] at agree
        cases agree
      | ok result =>
        rw [other] at agree
        cases agree with
        | output value queueing' =>
          obtain ⟨told, ended, end_, last', rfl, sized, ran', veils⟩ := ih queueing' later following
          refine ⟨output :: told, ended, end_, last', rfl, congrArg (· + 1) sized, ?_, veils⟩
          have answered : toOthers fd (request :: during) (output :: told) =
              output :: toOthers fd during told := by simp [toOthers, own]
          have asked : ofOthers fd (request :: during) = request :: ofOthers fd during := by
            simp [ofOthers, own]
          rw [asked, answered]
          exact run_cons_ok.mpr ⟨output, _, _, other, ran', rfl⟩

/-- A transaction that ends in DISCARD, whatever was queued in it and whatever
others sent meanwhile, might as well not have been sent: everyone else is
answered the same, during it and behind it, and so is its own client behind
it; what is left differs in watchers, marks and the bytes it was sent. -/
theorem discarded_unseen (connected : session.clients.lookup fd = some client)
    (outside : client.Outside) {during rest : List Request} {env env' : Env} {queue queue' : List Env}
    (queues : ∀ request ∈ during, request.fd = fd →
      request.command.commandType ≠ .exec ∧ request.command.commandType ≠ .discard)
    {outputs : List (List Effect)} {last : Session}
    (ran : run (shown rdbFilePath) session
      (⟨fd, .multi, env, queue⟩ :: during ++ ⟨fd, .discard, env', queue'⟩ :: rest) =
        .ok (outputs, last)) :
    ∃ began told ended later last', outputs = began :: told ++ ended :: later ∧
      told.length = during.length ∧
      run (shown rdbFilePath) session (ofOthers fd during ++ rest) =
        .ok (toOthers fd during told ++ later, last') ∧ Veils (· == fd) last last' := by
  rw [List.cons_append] at ran
  obtain ⟨began, next, outputs, stepped, following, rfl⟩ := run_cons_ok.mp ran
  obtain ⟨_, next', begun, queueing⟩ := begins rdbFilePath connected outside env queue
  rw [begun] at stepped
  cases stepped
  obtain ⟨told', ended, later, last', rfl, sized, ran', veils⟩ := queueing.run_discards queues following
  exact ⟨began, told', ended, later, last', rfl, sized, ran', veils⟩

/-- Two clients that have sent nothing yet. -/
def Session.fresh : Session where
  db := {}
  acl := .new
  clients := (Finmap.singleton 5 {}).insert 6 {}

/-- A command of one of them, outside of EXEC. -/
def Request.plain (fd : Fd) (command : Command) : Request := ⟨fd, command, Context.sample.env, []⟩

/-- One client sets a key in a transaction it gives up, the other one
increments it meanwhile and reads it afterwards. -/
theorem discarded_unseen_set : ∃ outputs last later last',
    run (shown []) .fresh ([.plain 5 .multi, .plain 5 (.set (ascii "k") (ascii "9") none none),
      .plain 6 (.incr (ascii "k")), .plain 5 .discard, .plain 6 (.get (ascii "k"))]) =
      .ok (outputs, last) ∧
    run (shown []) .fresh [.plain 6 (.incr (ascii "k")), .plain 6 (.get (ascii "k"))] =
      .ok (later, last') ∧ Veils (· == 5) last last' := by
  obtain ⟨⟨outputs, last⟩, ran⟩ := @exec_of_isOk _ (run (shown []) .fresh
    ([.plain 5 .multi, .plain 5 (.set (ascii "k") (ascii "9") none none),
      .plain 6 (.incr (ascii "k")), .plain 5 .discard, .plain 6 (.get (ascii "k"))]))
    (by decide +kernel)
  have connected : Session.fresh.clients.lookup 5 = some {} :=
    (Finmap.lookup_insert_of_ne _ (by decide)).trans Finmap.lookup_singleton_eq
  obtain ⟨_, _, _, _, last', -, -, ran', veils⟩ :=
    @discarded_unseen .fresh [] 5 {} connected ⟨rfl, rfl, rfl⟩
      [.plain 5 (.set (ascii "k") (ascii "9") none none), .plain 6 (.incr (ascii "k"))]
      [.plain 6 (.get (ascii "k"))] _ _ _ _ (by simp [Request.plain, Command.commandType]) _ _ ran
  exact ⟨outputs, last, _, last', ran, ran', veils⟩

end CarrotDb
