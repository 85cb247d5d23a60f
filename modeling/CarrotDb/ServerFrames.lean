import CarrotDb.DbAnswers
import CarrotDb.DbSound
import CarrotDb.Server

/-! Which connections an event can write to: the one it serves, the replicas,
and those that wait for something or have subscribed to a channel. Nobody but
the served connection starts to wait. -/
namespace CarrotDb
open Resp

/-- The database keeps a client in one of its queues or channels. -/
def DB.Knows (db : DB) (fd : Fd) : Prop :=
  (∃ key, ∃ blocked ∈ queueOf db.blockedKeys key, blocked.clientFd = fd) ∨
  (∃ key, ∃ blocked ∈ queueOf db.blockedXreadKeys key, blocked.clientFd = fd) ∨
  ∃ channel, fd ∈ queueOf db.pubsubClients channel

/-- What a command for a client does to others stays among the clients that
are known, and makes nobody else known. -/
structure Within (db db' : DB) (fd : Fd) (effects : List Effect) : Prop where
  knows : ∀ other, db'.Knows other → db.Knows other ∨ other = fd
  written : ∀ one ∈ writes effects, db.Knows one.1 ∨ one.1 = fd

variable {db db' db₁ : DB} {c : Context} {effects first second : List Effect} {fd other : Fd}

theorem within_own (own : Own effects) : Within db db fd effects where
  knows _ held := .inl held
  written one member := by
    rw [own.calm.1] at member
    cases member

theorem Within.trans (one : Within db db₁ fd first) (two : Within db₁ db' fd second) :
    Within db db' fd (first ++ second) where
  knows other held := (two.knows other held).elim (one.knows other) .inr
  written sent member := by
    rw [writes_append] at member
    rcases List.mem_append.mp member with old | new
    · exact one.written sent old
    · exact (two.written sent new).elim (one.knows sent.1) .inr

theorem knows_congr (lists : db'.blockedKeys = db.blockedKeys)
    (streams : db'.blockedXreadKeys = db.blockedXreadKeys)
    (channels : ∀ channel, queueOf db'.pubsubClients channel = queueOf db.pubsubClients channel) :
    db'.Knows other ↔ db.Knows other := by
  rw [DB.Knows, DB.Knows, lists, streams]
  simp only [channels]

/-- Queues that only lose entries, or gain one of the served client. -/
private theorem queueOf_subset_insert {β : Type} {queues : Map Bytes (List β)} {key place : Bytes}
    {blocked waiting : β} (member : waiting ∈ queueOf (queues.insert key (queueOf queues key ++ [blocked])) place) :
    waiting ∈ queueOf queues place ∨ waiting = blocked := by
  by_cases same : place = key
  · subst same
    rw [queueOf_insert] at member
    rcases List.mem_append.mp member with old | new
    · exact .inl old
    · exact .inr (List.mem_singleton.mp new)
  · rw [queueOf_insert_ne _ same] at member
    exact .inl member

private theorem queueOf_subset_popFront {β : Type} {queues : Map Bytes (List β)} {key place : Bytes}
    {front waiting : β} {rest : List β} (queue : queueOf queues key = front :: rest)
    (member : waiting ∈ queueOf (popFront queues key rest) place) :
    waiting ∈ queueOf queues place := by
  by_cases same : place = key
  · subst same
    rw [queueOf_popFront] at member
    rw [queue]
    exact List.mem_cons_of_mem _ member
  · rwa [queueOf_popFront_ne _ same] at member

private theorem queueOf_subset_erase {β : Type} {queues : Map Bytes (List β)} {key place : Bytes}
    {waiting : β} (member : waiting ∈ queueOf (queues.erase key) place) :
    waiting ∈ queueOf queues place := by
  by_cases same : place = key
  · subst same
    rw [queueOf, Finmap.lookup_erase] at member
    cases member
  · rwa [queueOf, Finmap.lookup_erase_ne same] at member

theorem handlePush_knows {isPrepend : Bool} {key : Bytes} {values : List Bytes}
    (ran : handlePush db c isPrepend key values = .ok (db', effects)) (held : db'.Knows other) :
    db.Knows other := by
  by_cases plain : queueOf db.blockedKeys key = [] ∨ values = []
  · rw [handlePush_plain plain] at ran
    obtain ⟨⟨db₁, len⟩, pushed, ran⟩ := exec_bind_ok.mp ran
    obtain ⟨store, rfl, -⟩ := pushValues_frame pushed
    cases ran
    exact held
  · obtain ⟨busy, nonempty⟩ := not_or.mp plain
    obtain ⟨blocked, queue, waiting⟩ := List.exists_cons_of_ne_nil busy
    obtain ⟨first, rest, rfl⟩ := List.exists_cons_of_ne_nil nonempty
    rw [handlePush_waiter waiting] at ran
    obtain ⟨⟨db₁, len⟩, pushed, ran⟩ := exec_bind_ok.mp ran
    obtain ⟨store, rfl, -⟩ := pushValues_frame pushed
    cases ran
    rcases held with ⟨place, one, member, same⟩ | elsewhere
    · exact .inl ⟨place, one, queueOf_subset_popFront waiting member, same⟩
    · exact .inr elsewhere

theorem handleBlpop_knows {keys : List Bytes} {timeout : Float}
    (ran : handleBlpop db c keys timeout = .ok (db', effects)) (held : db'.Knows other) :
    db.Knows other ∨ other = c.fd := by
  have waited {key : Bytes} (ran : (do
      let blocked ← BlockedClient.make c.env.clock.steady c.fd timeout
      let queue := (db.blockedKeys.lookup key).getD [] ++ [blocked]
      pure ({ db with blockedKeys := db.blockedKeys.insert key queue }, [.block]) : Outcome) =
        .ok (db', effects)) : db.Knows other ∨ other = c.fd := by
    obtain ⟨blocked, made, ran⟩ := exec_bind_ok.mp ran
    cases ran
    rcases held with ⟨place, one, member, same⟩ | elsewhere
    · rcases queueOf_subset_insert member with old | rfl
      · exact .inl (.inl ⟨place, one, old, same⟩)
      · exact .inr (same.symm.trans (BlockedClient.make_fd made))
    · exact .inl (.inr elsewhere)
  rw [handleBlpop] at ran
  dsimp only at ran
  split at ran
  · exact waited ran
  · split at ran
    · obtain ⟨found, -, ran⟩ := exec_bind_ok.mp ran
      split at ran
      · exact waited ran
      · obtain ⟨value, -, ran⟩ := exec_bind_ok.mp ran
        obtain ⟨deleted, -, ran⟩ := exec_bind_ok.mp ran
        cases ran
        exact .inl held
    · cases ran
      exact .inl held

theorem handleXread_knows {block : Option Float} {keys ids : List Bytes}
    (ran : handleXread db c block keys ids = .ok (db', effects)) (held : db'.Knows other) :
    db.Knows other ∨ other = c.fd := by
  rw [handleXread] at ran
  split at ran
  · cases ran
    exact .inl held
  · obtain ⟨collected, found, ran⟩ := exec_bind_ok.mp ran
    split at ran
    · cases ran
      obtain ⟨key, streamId, timeout, marked⟩ := collectReplies_blocks found
      rw [markClientBlocking] at marked
      obtain ⟨blocked, made, marked⟩ := exec_bind_ok.mp marked
      cases marked
      rcases held with elsewhere | ⟨place, one, member, same⟩ | elsewhere
      · exact .inl (.inl elsewhere)
      · rcases queueOf_subset_insert member with old | rfl
        · exact .inl (.inr (.inl ⟨place, one, old, same⟩))
        · exact .inr (same.symm.trans (BlockedXreadClient.make_fields made).1)
      · exact .inl (.inr (.inr elsewhere))
    · cases ran
      exact .inl held
    · obtain ⟨bytes, -, ran⟩ := exec_bind_ok.mp ran
      cases ran
      exact .inl held

theorem handleXadd_knows {key streamId : Bytes} {fieldValues : List (Bytes × Bytes)}
    (ran : handleXadd db c key streamId fieldValues = .ok (db', effects)) (held : db'.Knows other) :
    db.Knows other := by
  rw [handleXadd] at ran
  dsimp only at ran
  have opened : (openStream db key).1.Knows other → db.Knows other := by
    rw [openStream]
    split <;> exact id
  split at ran
  · cases ran
    exact opened held
  · obtain ⟨stream, -, ran⟩ := exec_bind_ok.mp ran
    split at ran
    · cases ran
      exact opened held
    · obtain ⟨⟨db₁, served⟩, woken, ran⟩ := exec_bind_ok.mp ran
      cases ran
      rcases handleBlockedXreadClients_frame woken with rfl | rfl
      · exact opened held
      · refine opened ?_
        rcases held with elsewhere | ⟨place, one, member, same⟩ | elsewhere
        · exact .inl elsewhere
        · exact .inr (.inl ⟨place, one, queueOf_subset_erase member, same⟩)
        · exact .inr (.inr elsewhere)

theorem callSimple_knows {command : Command} (ran : callSimple db c command = .ok (db', effects))
    (held : db'.Knows other) : db.Knows other ∨ other = c.fd := by
  by_cases moves : MovesQueues command
  · cases command <;> first | exact False.elim moves | skip
    case rpush => exact .inl (handlePush_knows ran held)
    case lpush => exact .inl (handlePush_knows ran held)
    case blpop => exact handleBlpop_knows ran held
    case xadd => exact .inl (handleXadd_knows ran held)
    case xread => exact handleXread_knows ran held
  · by_cases published : ∃ channelName message, command = .publish channelName message
    · obtain ⟨channelName, message, rfl⟩ := published
      obtain ⟨lists, streams, -⟩ := handlePublish_queues ran
      exact .inl ((knows_congr lists streams (@handlePublish_conduct _ _ _ _ channelName message ran).2).mp held)
    · have published : ∀ channelName message, command ≠ .publish channelName message :=
        fun channelName message same => published ⟨channelName, message, same⟩
      obtain ⟨lists, streams, -, -⟩ := callSimple_quiet moves published ran
      by_cases subscribed : ∃ channelName, command = .subscribe channelName
      · obtain ⟨channelName, rfl⟩ := subscribed
        rw [DB.Knows, lists, streams] at held
        rcases held with elsewhere | elsewhere | ⟨channel, member⟩
        · exact .inl (.inl elsewhere)
        · exact .inl (.inr (.inl elsewhere))
        · rcases (@handleSubscribe_conduct _ _ _ _ channelName ran).2 channel other member with old | new
          · exact .inl (.inr (.inr ⟨channel, old⟩))
          · exact .inr new
      · have ordinary := callSimple_ordinary moves published
          (fun channelName same => subscribed ⟨channelName, same⟩) ran
        refine .inl ((knows_congr lists streams fun channel => ?_).mp held)
        rw [ordinary.pubsubClients]

theorem wakes_known {command : Command} (member : other ∈ command.wakes db c) : db.Knows other := by
  cases command <;> first | exact absurd member List.not_mem_nil | skip
  case xadd key streamId fieldValues =>
    rw [Command.wakes] at member
    split at member
    · obtain ⟨blocked, inside, rfl⟩ := List.mem_map.mp (List.mem_filter.mp member).1
      exact .inr (.inl ⟨key, blocked, inside, rfl⟩)
    · cases member
  all_goals
    rename_i key values
    rw [Command.wakes] at member
    split at member
    · cases member
    · obtain ⟨blocked, inside, rfl⟩ := List.mem_map.mp (List.mem_filter.mp member).1
      exact .inl ⟨key, blocked, List.mem_of_mem_take inside, rfl⟩

theorem writes_handOver (handed : List (Fd × Bytes)) : writes (handOver handed) = handed := by
  induction handed with
  | nil => rfl
  | cons one rest ih =>
    rw [handOver, List.flatMap_cons, writes_append]
    exact congrArg (one :: ·) ih

theorem writes_deliver (env : Env) (frame : Bytes) (subscribers : List Fd) :
    writes (deliver env frame subscribers) = (subscribers.filter env.alive).map (·, frame) := by
  induction subscribers with
  | nil => rfl
  | cons fd rest ih =>
    rw [deliver, List.flatMap_cons, writes_append]
    rw [deliver] at ih
    rw [ih, List.filter_cons]
    split <;> rfl

/-- A command writes to clients that are known only. -/
theorem Conduct.written_known {command : Command} (conduct : Conduct db c command effects)
    {one : Fd × Bytes} (member : one ∈ writes effects) : db.Knows one.1 := by
  cases conduct with
  | answer own =>
    rw [own.calm.1] at member
    cases member
  | wait => cases member
  | wake ownBefore ownAfter answer each wakes waits =>
    rw [writes_append, writes_append, ownBefore.calm.1, ownAfter.calm.1, writes_handOver,
      List.nil_append, List.append_nil] at member
    exact wakes_known (wakes ▸ List.mem_map_of_mem member)
  | publish asked wakes waits =>
    rename_i channelName message
    rw [writes_append, writes_deliver] at member
    rcases List.mem_append.mp member with sent | replied
    · obtain ⟨subscriber, inside, rfl⟩ := List.mem_map.mp sent
      exact .inr (.inr ⟨channelName, (List.mem_filter.mp inside).1⟩)
    · cases replied

theorem callSimple_within {command : Command} (ran : callSimple db c command = .ok (db', effects)) :
    Within db db' c.fd effects where
  knows _ held := callSimple_knows ran held
  written _ member := .inl ((callSimple_conduct ran).written_known member)

theorem runQueue_within {commands : List Command} {envs : List Env}
    (ran : runQueue db c commands envs = .ok (db', effects)) : Within db db' c.fd effects := by
  induction commands generalizing db envs effects with
  | nil =>
    cases ran
    exact within_own own_nil
  | cons command rest ih =>
    cases envs with
    | nil => cases ran
    | cons env envs =>
      rw [runQueue] at ran
      obtain ⟨⟨db₁, first⟩, one, ran⟩ := exec_bind_ok.mp ran
      obtain ⟨⟨db₂, later⟩, following, ran⟩ := exec_bind_ok.mp ran
      cases ran
      have head : Within db db₁ c.fd first := @callSimple_within _ _ { c with env } _ _ one
      exact head.trans (ih following)

theorem call_within {command : Command} {envs : List Env}
    (ran : call db c envs command = .ok (db', effects)) : Within db db' c.fd effects := by
  unfold call at ran
  split at ran
  · rw [handleExec] at ran
    split at ran
    · cases ran
      exact within_own (own_reply _)
    · obtain ⟨⟨db₁, inner⟩, queue, ran⟩ := exec_bind_ok.mp ran
      cases ran
      have header : Within db db c.fd [.reply (encodeArrayHeader c.client.queuedCommands.length)] :=
        within_own (own_reply _)
      have closing : Within db' db' c.fd [.endTransaction] :=
        within_own fun _ member => (List.mem_singleton.mp member) ▸ trivial
      exact (header.trans (runQueue_within queue)).trans closing
  · exact callSimple_within ran

theorem removeSubscriber_sublist {env : Env} {subscribers left : List Fd}
    (ran : removeSubscriber env fd subscribers = .ok (some left)) : left ⊆ subscribers := by
  induction subscribers generalizing left with
  | nil => cases ran
  | cons first rest ih =>
    rw [removeSubscriber] at ran
    split at ran
    · cases ran
    · split at ran
      · cases ran
        exact List.subset_cons_self _ _
      · obtain ⟨found, following, ran⟩ := exec_bind_ok.mp ran
        cases found with
        | none => cases ran
        | some kept =>
          cases ran
          exact List.cons_subset_cons _ (ih following)

theorem handleUnSubscribe_within {channelName : Bytes}
    (ran : handleUnSubscribe db c channelName = .ok (db', effects)) :
    Within db db' c.fd effects ∧ Own effects := by
  rw [handleUnSubscribe] at ran
  obtain ⟨remaining, removed, ran⟩ := exec_bind_ok.mp ran
  cases ran
  have own (reply : Bytes) :
      Own ((if remaining.isSome = true then [Effect.unsubscribe] else []) ++ [.reply reply]) := by
    refine own_append ?_ (own_reply _)
    split
    · exact fun _ member => (List.mem_singleton.mp member) ▸ trivial
    · exact own_nil
  refine ⟨⟨fun other held => ?_, (@within_own db _ _ (own _)).written⟩, own _⟩
  rcases held with elsewhere | elsewhere | ⟨channel, member⟩
  · exact .inl (.inl elsewhere)
  · exact .inl (.inr (.inl elsewhere))
  · refine .inl (.inr (.inr ⟨channel, ?_⟩))
    by_cases same : channel = channelName
    · subst same
      rw [queueOf_insert] at member
      cases remaining with
      | none => exact member
      | some left => exact removeSubscriber_sublist removed member
    · rwa [queueOf_insert_ne _ same] at member

theorem handlePubSub_within (ran : handlePubSub db c = .ok (db', effects)) :
    Within db db' c.fd effects ∧ Own effects := by
  rw [handlePubSub] at ran
  split at ran
  · rename_i channelName asked
    have subscribed : callSimple db c (.subscribe channelName) = .ok (db', effects) := ran
    refine ⟨callSimple_within subscribed, ?_⟩
    rw [handleSubscribe] at ran
    split at ran
    · cases ran
      intro effect member
      rcases List.mem_pair.mp member with rfl | rfl <;> trivial
    · cases ran
  · exact handleUnSubscribe_within ran
  · cases ran
    have own : Own (Effect.reply (encodeArrayHeader 2) :: [.reply (if c.client.pubSub = true then
        encodeBulkString (ascii "pong") else encodeSimpleString (ascii "PONG"))] ++
        [.reply (encodeBulkString [])]) := by
      intro effect member
      rcases List.mem_cons.mp member with rfl | member
      · trivial
      · rcases List.mem_pair.mp member with rfl | rfl <;> trivial
    exact ⟨within_own own, own⟩
  · cases ran
    exact ⟨within_own (own_reply _), own_reply _⟩

/-- What a request does in the database stays among the clients it knows. -/
theorem execute_within {rdbFilePath : Bytes} {envs : List Env} {executed : Executed}
    (ran : execute db c rdbFilePath envs = .ok executed) :
    Within db executed.db c.fd executed.effects := by
  rw [execute] at ran
  dsimp only at ran
  split at ran
  · cases ran
    exact within_own (own_reply _)
  · split at ran
    · cases ran
      exact ⟨fun _ held => .inl held, fun _ absent => absurd absent List.not_mem_nil⟩
    · split at ran
      · obtain ⟨⟨db', effects⟩, handled, ran⟩ := exec_bind_ok.mp ran
        cases ran
        exact (handlePubSub_within handled).1
      · split at ran
        · obtain ⟨⟨db', effects⟩, handled, ran⟩ := exec_bind_ok.mp ran
          cases ran
          cases handled
          refine within_own fun effect member => ?_
          obtain ⟨parameter, -, rfl⟩ := List.mem_map.mp member
          trivial
        · cases ran
          exact within_own (own_reply _)
        · cases ran
          refine ⟨fun _ held => .inl held, fun one member => ?_⟩
          rw [handleAuth] at member
          dsimp only at member
          repeat' split at member
          all_goals cases member
        · obtain ⟨⟨db', effects⟩, handled, ran⟩ := exec_bind_ok.mp ran
          cases ran
          exact call_within handled

/-- Everyone a sweep gives up on was in one of the queues. -/
theorem expireQueues_gone {β : Type} {now : Int} {timeoutAt : β → Int} {clientFd : β → Fd}
    {queues : Map Bytes (List β)} {keys : List Bytes}
    (gone : fd ∈ (expireQueues now timeoutAt clientFd queues keys).2) :
    ∃ key, ∃ blocked ∈ queueOf queues key, clientFd blocked = fd := by
  unfold expireQueues at gone
  refine @List.foldlRecOn _ _ (fun state : Map Bytes (List β) × List Fd =>
    fd ∈ state.2 → ∃ key, ∃ blocked ∈ queueOf queues key, clientFd blocked = fd) keys _ _
      (fun absent => absurd absent List.not_mem_nil) ?_ gone
  intro state ih key _ member
  rcases List.mem_append.mp member with old | new
  · exact ih old
  · obtain ⟨blocked, inside, same⟩ := List.mem_map.mp new
    exact ⟨key, blocked, (List.mem_filter.mp inside).1, same⟩

/-- What a sweep leaves of a queue was in it. -/
private theorem expireQueues_left {β : Type} {now : Int} {timeoutAt : β → Int} {clientFd : β → Fd}
    {queues : Map Bytes (List β)} {keys : List Bytes} {key : Bytes} {blocked : β}
    (member : blocked ∈ queueOf (expireQueues now timeoutAt clientFd queues keys).1 key) :
    blocked ∈ queueOf queues key := by
  rw [queueOf] at member
  cases lookup : (expireQueues now timeoutAt clientFd queues keys).1.lookup key with
  | none =>
    rw [lookup] at member
    cases member
  | some queue =>
    rw [lookup] at member
    obtain ⟨found, held, part⟩ := expireQueues_lookup keys lookup
    rw [queueOf, held]
    exact part member

/-- The sweep answers clients it knows, and makes nobody known. -/
theorem sweep_knows (env : Env) :
    (∀ other, (checkAndExpireBlockedClients db env).1.Knows other → db.Knows other) ∧
      ∀ one ∈ writes (checkAndExpireBlockedClients db env).2, db.Knows one.1 := by
  constructor
  · rintro other (⟨key, blocked, member, same⟩ | ⟨key, blocked, member, same⟩ | elsewhere)
    · exact .inl ⟨key, blocked, expireQueues_left member, same⟩
    · exact .inr (.inl ⟨key, blocked, expireQueues_left member, same⟩)
    · exact .inr (.inr elsewhere)
  · intro one member
    obtain ⟨effect, inside, same⟩ := List.mem_filterMap.mp member
    obtain ⟨fd, expired, rfl⟩ := List.mem_map.mp inside
    cases same
    rcases List.mem_append.mp (List.mem_filter.mp expired).1 with lists | streams
    · exact .inl (expireQueues_gone lists)
    · exact .inr (.inl (expireQueues_gone streams))

/-! ## The server -/

/-- The server may write to a connection without being asked by it. -/
def Server.Knows (server : Server) (fd : Fd) : Prop :=
  server.db.Knows fd ∨ ∃ blocked ∈ server.blockedWaitClients, blocked.clientFd = fd

theorem writes_map_write (fds : List Fd) (bytes : Bytes) :
    writes (fds.map fun fd => .write fd bytes) = fds.map (·, bytes) := by
  rw [writes, List.filterMap_map]
  exact congrFun List.filterMap_eq_map fds

theorem checkBlockedWaitClients_subset (clients : Map Fd Client) (slaves : List Fd)
    (waiting : List BlockedWaitClient) :
    (checkBlockedWaitClients clients slaves waiting).2 ⊆ waiting ∧
      ∀ one ∈ writes (checkBlockedWaitClients clients slaves waiting).1,
        ∃ blocked ∈ waiting, blocked.clientFd = one.1 := by
  induction waiting with
  | nil => exact ⟨List.Subset.refl _, fun _ absent => nomatch absent⟩
  | cons blocked rest ih =>
    have later : ∀ one ∈ writes (checkBlockedWaitClients clients slaves rest).1,
        ∃ waiting ∈ blocked :: rest, waiting.clientFd = one.1 := fun one member =>
      let ⟨waiting, inside, same⟩ := ih.2 one member
      ⟨waiting, List.mem_cons_of_mem _ inside, same⟩
    rw [checkBlockedWaitClients]
    dsimp only
    split
    · exact ⟨List.subset_cons_of_subset _ ih.1, later⟩
    · split
      · refine ⟨List.subset_cons_of_subset _ ih.1, fun one member => ?_⟩
        rcases List.mem_cons.mp member with rfl | member
        · exact ⟨blocked, List.mem_cons_self, rfl⟩
        · exact later one member
      · exact ⟨List.cons_subset_cons _ ih.1, later⟩

theorem expireBlockedWaitClients_subset (clients : Map Fd Client) (slaves : List Fd) (now : Int)
    (waiting : List BlockedWaitClient) :
    (expireBlockedWaitClients clients slaves now waiting).2 ⊆ waiting ∧
      ∀ one ∈ writes (expireBlockedWaitClients clients slaves now waiting).1,
        ∃ blocked ∈ waiting, blocked.clientFd = one.1 := by
  induction waiting with
  | nil => exact ⟨List.Subset.refl _, fun _ absent => nomatch absent⟩
  | cons blocked rest ih =>
    have later : ∀ one ∈ writes (expireBlockedWaitClients clients slaves now rest).1,
        ∃ waiting ∈ blocked :: rest, waiting.clientFd = one.1 := fun one member =>
      let ⟨waiting, inside, same⟩ := ih.2 one member
      ⟨waiting, List.mem_cons_of_mem _ inside, same⟩
    rw [expireBlockedWaitClients]
    dsimp only
    split
    · split
      · refine ⟨List.subset_cons_of_subset _ ih.1, fun one member => ?_⟩
        rcases List.mem_cons.mp member with rfl | member
        · exact ⟨blocked, List.mem_cons_self, rfl⟩
        · exact later one member
      · exact ⟨List.subset_cons_of_subset _ ih.1, later⟩
    · exact ⟨List.cons_subset_cons _ ih.1, later⟩

/-- The server behind the parser: the bytes of the request are taken. -/
def Server.taking (server : Server) (fd : Fd) (client : Client) (parsed : Parsed) : Server :=
  { server with
    clients := server.clients.insert fd { client with readBuffer := parsed.readBuffer } }

variable {server : Server} {handled : Handled} {event : Event} {machine : Machine} {data : Bytes}

/-- A read event of nobody does nothing; one of a client serves its request. -/
theorem step_receive (ran : server.step (.receive fd data machine) = .ok handled) :
    (server.clients.lookup fd = none ∧ handled = ⟨server, [], []⟩) ∨
    ∃ client parsed, server.clients.lookup fd = some client ∧
      parseCommand (client.readBuffer ++ data) = .ok parsed ∧
      requestIn server (.receive fd data machine) = some (fd, parsed) ∧
      (server.taking fd client parsed).serve fd { client with readBuffer := parsed.readBuffer } machine
        parsed.command parsed.bytesProcessed = .ok handled := by
  rw [Server.step, Server.handleRead, modifyClient] at ran
  cases lookup : server.clients.lookup fd with
  | none =>
    rw [lookup] at ran
    dsimp only at ran
    rw [Server.processClientRequest, lookup] at ran
    cases ran
    exact .inl ⟨rfl, rfl⟩
  | some client =>
    rw [lookup] at ran
    dsimp only at ran
    rw [Server.processClientRequest, Finmap.lookup_insert] at ran
    dsimp only at ran
    obtain ⟨parsed, read, ran⟩ := exec_bind_ok.mp ran
    rw [Finmap.insert_insert] at ran
    refine .inr ⟨client, parsed, rfl, read, ?_, ran⟩
    rw [requestIn, lookup]
    dsimp only
    rw [read]

/-- What serving a request amounts to: the replication manager handles it, or
the database does and it is passed on. -/
theorem serve_cases {client : Client} {command : Command} {bytesProcessed : Nat}
    (ran : server.serve fd client machine command bytesProcessed = .ok handled) :
    (∃ managed, server.handle fd client machine command = some managed ∧
      handled.effects = managed.effects ∧
      handled.server = { managed.server with
        clients := applyToClients fd managed.effects managed.server.clients }) ∨
    ∃ executed server₁ propagated, server.handle fd client machine command = none ∧
      execute server.db (server.context fd client machine command) server.config.rdbFilePath
        (machine.queue.map fun env => { env with alive := server.alive }) = .ok executed ∧
      handlePropagate { server with db := executed.db, acl := executed.acl } executed.command
        bytesProcessed = .ok (server₁, propagated) ∧
      handled.effects = executed.effects ++ propagated ∧
      handled.server = { server₁ with
        clients := applyToClients fd (executed.effects ++ propagated) server₁.clients } := by
  rw [Server.serve] at ran
  obtain ⟨inner, dispatched, ran⟩ := exec_bind_ok.mp ran
  cases ran
  rw [Server.dispatch] at dispatched
  split at dispatched
  · rename_i managed managing
    cases dispatched
    exact .inl ⟨managed, managing, rfl, rfl⟩
  · rename_i notManaged
    dsimp only at dispatched
    obtain ⟨executed, run, dispatched⟩ := exec_bind_ok.mp dispatched
    obtain ⟨⟨server₁, propagated⟩, passing, dispatched⟩ := exec_bind_ok.mp dispatched
    cases dispatched
    exact .inr ⟨executed, server₁, propagated, notManaged, run, passing, rfl, rfl⟩

/-- What propagation does: nothing, or one frame to every replica. -/
theorem handlePropagate_cases {command : Option Command} {bytesProcessed : Nat} {server₁ : Server}
    {propagated : List Effect}
    (ran : handlePropagate server command bytesProcessed = .ok (server₁, propagated)) :
    (server₁ = server ∧ propagated = [] ∧
      (server.slaveConnections = [] ∨ ∀ one, command = some one → one.isWriteCommand = false)) ∨
    ∃ one raw, command = some one ∧ one.isWriteCommand = true ∧ one.toResp = .ok raw ∧
      server.slaveConnections ≠ [] ∧
      server₁ = { server with config.offset := u64 (server.config.offset + bytesProcessed) } ∧
      propagated = server.slaveConnections.map fun fd => .write fd raw := by
  unfold handlePropagate at ran
  split at ran
  · cases ran
    exact .inl ⟨rfl, rfl, .inr fun _ absent => nomatch absent⟩
  · rename_i one
    split at ran
    · rename_i idle
      cases ran
      refine .inl ⟨rfl, rfl, idle.imp id fun reads other same => ?_⟩
      cases same
      exact Bool.not_eq_true' _ ▸ reads
    · rename_i busy
      obtain ⟨raw, encoded, ran⟩ := exec_bind_ok.mp ran
      cases ran
      obtain ⟨some_, writes⟩ := not_or.mp busy
      refine .inr ⟨one, raw, rfl, ?_, encoded, some_, rfl, rfl⟩
      simpa using writes

/-- A command that has been run is passed on, unless a transaction queued it. -/
theorem execute_command {rdbFilePath : Bytes} {envs : List Env} {executed : Executed}
    (ran : execute db c rdbFilePath envs = .ok executed) :
    executed.command = some c.command ∨
      executed.command = none ∧ c.client.multi = true ∧ executed.db.store = db.store := by
  rw [execute] at ran
  dsimp only at ran
  split at ran
  · cases ran
    exact .inl rfl
  · split at ran
    · rename_i queued
      cases ran
      exact .inr ⟨rfl, queued.1, rfl⟩
    · split at ran
      · obtain ⟨outcome, -, ran⟩ := exec_bind_ok.mp ran
        cases ran
        exact .inl rfl
      · split at ran
        · obtain ⟨outcome, -, ran⟩ := exec_bind_ok.mp ran
          cases ran
          exact .inl rfl
        · cases ran
          exact .inl rfl
        · cases ran
          exact .inl rfl
        · obtain ⟨outcome, -, ran⟩ := exec_bind_ok.mp ran
          cases ran
          exact .inl rfl

theorem isWriteCommand_type {command : Command} (isWrite : command.isWriteCommand = true) :
    command.commandType ≠ .aclWhoami ∧ command.commandType ≠ .exec ∧
      command.commandType ≠ .discard := by
  cases command <;> first | exact absurd isWrite Bool.false_ne_true | exact ⟨nofun, nofun, nofun⟩

/-- Inside a transaction a write command is queued and not passed on. -/
theorem execute_write {rdbFilePath : Bytes} {envs : List Env} {executed : Executed}
    (isWrite : c.command.isWriteCommand = true)
    (ran : execute db c rdbFilePath envs = .ok executed) :
    executed.command = if c.client.multi then none else some c.command := by
  obtain ⟨notWhoami, plain⟩ := isWriteCommand_type isWrite
  have known : ¬ (c.command.commandType = .aclWhoami ∧ (!c.client.isAuthenticated) = true) :=
    fun both => notWhoami both.1
  cases multi : c.client.multi with
  | true =>
    rw [execute, if_neg known, if_pos ⟨multi, plain⟩] at ran
    cases ran
    rfl
  | false =>
    rcases execute_command ran with passed | ⟨-, inside, -⟩
    · exact passed
    · rw [multi] at inside
      cases inside

theorem handlePsync_effects (server : Server) (fd : Fd) (client : Client) (rdbFile : Option Bytes) :
    (handlePsync server fd client rdbFile).effects =
      [.reply (fullResync server.config (rdbFile.getD emptyRdb))] := by
  rw [handlePsync]
  split <;> rfl

/-- What the replication manager does stays among the clients that wait for
replicas, the replicas and the client that asks. -/
theorem handle_within {client : Client} {command : Command} {managed : Handled}
    (managing : server.handle fd client machine command = some managed) :
    (∀ other, managed.server.Knows other → server.Knows other ∨ other = fd) ∧
      ∀ one ∈ writes managed.effects, server.Knows one.1 ∨ one.1 ∈ server.slaveConnections := by
  cases command <;> cases managing
  case info => exact ⟨fun _ held => .inl held, fun _ absent => nomatch absent⟩
  case replConf subcommand listeningPort capability ackOffset =>
    cases subcommand with
    | ack =>
      obtain ⟨left, sent⟩ := checkBlockedWaitClients_subset
        (modifyClient server.clients fd fun client => { client with replicaOffset := ackOffset })
        server.slaveConnections server.blockedWaitClients
      refine ⟨fun other held => .inl (held.imp id ?_), fun one member => .inl (.inr (sent one member))⟩
      exact fun ⟨blocked, inside, same⟩ => ⟨blocked, left inside, same⟩
    | _ => exact ⟨fun _ held => .inl held, fun _ absent => nomatch absent⟩
  case psync =>
    rw [handlePsync]
    split <;> exact ⟨fun _ held => .inl held, fun _ absent => nomatch absent⟩
  case wait numReplica timeout =>
    rw [handleWait]
    dsimp only
    split
    · exact ⟨fun _ held => .inl held, fun _ absent => nomatch absent⟩
    · split
      · exact ⟨fun _ held => .inl held, fun _ absent => nomatch absent⟩
      · constructor
        · rintro other (known | ⟨blocked, inside, same⟩)
          · exact .inl (.inl known)
          · rcases List.mem_append.mp inside with old | new
            · exact .inl (.inr ⟨blocked, old, same⟩)
            · rw [List.mem_singleton.mp new] at same
              exact .inr same.symm
        · intro one member
          rw [writes_append, writes_map_write] at member
          rcases List.mem_append.mp member with sent | blocked
          · obtain ⟨slave, inside, rfl⟩ := List.mem_map.mp sent
            exact .inr inside
          · cases blocked

/-- A request writes to clients that are known, to the replicas and to its
own client, and makes nobody else known. -/
theorem serve_within {client : Client} {command : Command} {bytesProcessed : Nat}
    (ran : server.serve fd client machine command bytesProcessed = .ok handled) :
    (∀ other, handled.server.Knows other → server.Knows other ∨ other = fd) ∧
      ∀ one ∈ writes handled.effects,
        server.Knows one.1 ∨ one.1 = fd ∨ one.1 ∈ server.slaveConnections := by
  rcases serve_cases ran with ⟨managed, managing, effects, after⟩ |
    ⟨executed, server₁, propagated, -, run, passing, effects, after⟩
  · obtain ⟨knows, written⟩ := handle_within managing
    rw [effects, after]
    exact ⟨knows, fun one member => (written one member).imp id .inr⟩
  · obtain ⟨knows, written⟩ := execute_within run
    rw [effects, after]
    have kept : server₁.db = executed.db ∧ server₁.blockedWaitClients = server.blockedWaitClients := by
      rcases handlePropagate_cases passing with ⟨rfl, -, -⟩ | ⟨one, raw, -, -, -, -, rfl, -⟩ <;>
        exact ⟨rfl, rfl⟩
    constructor
    · rintro other (held | held)
      · rw [kept.1] at held
        exact (knows other held).imp .inl id
      · rw [kept.2] at held
        exact .inl (.inr held)
    · intro one member
      rw [writes_append] at member
      rcases List.mem_append.mp member with sent | passed
      · exact (written one sent).imp .inl .inl
      · rcases handlePropagate_cases passing with ⟨-, rfl, -⟩ | ⟨command, raw, -, -, -, -, -, rfl⟩
        · cases passed
        · rw [writes_map_write] at passed
          obtain ⟨slave, inside, rfl⟩ := List.mem_map.mp passed
          exact .inr (.inr inside)

/-- Turns that follow one another, from one server to another. -/
def Server.Leads (server : Server) : List Turn → Server → Prop
  | [], last => last = server
  | turn :: turns, last =>
    turn.before = server ∧ server.step turn.event = .ok turn.handled ∧
      turn.handled.server.Leads turns last

theorem run_leads {events : List Event} {turns : List Turn}
    (ran : server.run events = .ok turns) : ∃ last, server.Leads turns last := by
  induction events generalizing server turns with
  | nil =>
    cases ran
    exact ⟨server, rfl⟩
  | cons event events ih =>
    rw [Server.run] at ran
    obtain ⟨handled, first, ran⟩ := exec_bind_ok.mp ran
    obtain ⟨turns, following, ran⟩ := exec_bind_ok.mp ran
    cases ran
    obtain ⟨last, leads⟩ := ih following
    exact ⟨last, rfl, first, leads⟩

theorem leads_append {front back : List Turn} {last : Server} :
    server.Leads (front ++ back) last ↔
      ∃ middle, server.Leads front middle ∧ middle.Leads back last := by
  induction front generalizing server with
  | nil => exact ⟨fun leads => ⟨server, rfl, leads⟩, fun ⟨_, same, leads⟩ => same ▸ leads⟩
  | cons turn front ih =>
    constructor
    · rintro ⟨same, ran, leads⟩
      obtain ⟨middle, one, two⟩ := ih.mp leads
      exact ⟨middle, ⟨same, ran, one⟩, two⟩
    · rintro ⟨middle, ⟨same, ran, one⟩, two⟩
      exact ⟨same, ran, ih.mpr ⟨middle, one, two⟩⟩

/-- The server behind turns. -/
def Server.behind (server : Server) : List Turn → Server
  | [] => server
  | turn :: turns => turn.handled.server.behind turns

theorem Server.Leads.last_eq {turns : List Turn} {last : Server}
    (leads : server.Leads turns last) : last = server.behind turns := by
  induction turns generalizing server with
  | nil => exact leads
  | cons turn turns ih => exact ih leads.2.2

/-- What every step keeps holds at the end of a run. -/
theorem Server.Leads.keeps {invariant : Server → Prop}
    (step : ∀ server event handled, invariant server → server.step event = .ok handled →
      invariant handled.server) {turns : List Turn} {last : Server}
    (leads : server.Leads turns last) (first : invariant server) : invariant last := by
  induction turns generalizing server with
  | nil => exact leads ▸ first
  | cons turn turns ih => exact ih leads.2.2 (step server _ _ first leads.2.1)

/-- Every turn of a run is a step from a state the server can be in. -/
theorem run_reachable {events : List Event} {turns : List Turn} (reached : server.Reachable)
    (ran : server.run events = .ok turns) {turn : Turn} (member : turn ∈ turns) :
    turn.before.Reachable ∧ turn.before.step turn.event = .ok turn.handled := by
  induction events generalizing server turns with
  | nil =>
    cases ran
    cases member
  | cons event events ih =>
    rw [Server.run] at ran
    obtain ⟨handled, first, ran⟩ := exec_bind_ok.mp ran
    obtain ⟨later, following, ran⟩ := exec_bind_ok.mp ran
    cases ran
    rcases List.mem_cons.mp member with rfl | inside
    · exact ⟨reached, first⟩
    · exact ih (reached.step first) following inside

/-- A machine on which nothing happens but requests. -/
def Machine.sample : Machine := ⟨Context.sample.env, [], none⟩

/-- Requests of connections, one after another. -/
def requests (asked : List (Fd × List String)) : List Event :=
  asked.map fun one => .receive one.1 (encodeBulkStringArray (one.2.map ascii)) .sample

/-- The turns of a run of a fresh master, none if it faults. -/
def turnsOf (events : List Event) : List Turn := ((Server.run {} events).toOption).getD []

/-- Each of them is a step from a state a master can be in. -/
theorem turnsOf_reachable {events : List Event} (ran : (Server.run {} events).isOk = true)
    {turn : Turn} (member : turn ∈ turnsOf events) :
    turn.before.Reachable ∧ turn.before.step turn.event = .ok turn.handled :=
  run_reachable (.start (.master .empty {})) (exec_getD [] ran) member

/-- Nobody waits and nobody has subscribed. -/
def Server.idle (server : Server) : Bool :=
  server.db.blockedKeys.keys = ∅ && server.db.blockedXreadKeys.keys = ∅ &&
    server.db.pubsubClients.keys = ∅ && server.blockedWaitClients.isEmpty

private theorem queueOf_empty {β : Type} {queues : Map Bytes (List β)} (empty : queues.keys = ∅)
    (key : Bytes) : queueOf queues key = [] := by
  have absent : key ∉ queues := fun inside => by
    rw [← Finmap.mem_keys, empty] at inside
    exact absurd inside (Finset.notMem_empty key)
  rw [queueOf, Finmap.lookup_eq_none.mpr absent]
  rfl

theorem stranger_of_idle (idle : server.idle = true) (fd : Fd) : ¬ server.Knows fd := by
  rw [Server.idle] at idle
  simp only [Bool.and_eq_true, decide_eq_true_eq, List.isEmpty_iff] at idle
  obtain ⟨⟨⟨lists, streams⟩, channels⟩, waits⟩ := idle
  rintro ((⟨key, blocked, inside, -⟩ | ⟨key, blocked, inside, -⟩ | ⟨channel, inside⟩) |
    ⟨blocked, inside, -⟩)
  · rw [queueOf_empty lists] at inside
    cases inside
  · rw [queueOf_empty streams] at inside
    cases inside
  · rw [queueOf_empty channels] at inside
    cases inside
  · rw [waits] at inside
    cases inside

end CarrotDb
