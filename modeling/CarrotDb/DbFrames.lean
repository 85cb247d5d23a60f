import CarrotDb.DbExecute
import CarrotDb.DbListProofs

/-! What each handler leaves alone. A handler that reads returns the database
it was given; the others change the maps they are about. -/
namespace CarrotDb
open Resp Listpack

theorem replying_ok {db db' : DB} {bytes : Bytes} {effects : List Effect}
    (ran : replying db bytes = .ok (db', effects)) : db' = db ∧ effects = [.reply bytes] := by
  cases ran
  exact ⟨rfl, rfl⟩

theorem withSortedSet_frame {db db' : DB} {key missing : Bytes} {reply : SortedSet → Exec Bytes}
    {effects : List Effect} (ran : withSortedSet db key missing reply = .ok (db', effects)) :
    db' = db := by
  rw [withSortedSet] at ran
  split at ran
  · exact (replying_ok ran).1
  · split at ran
    · exact (replying_ok ran).1
    · obtain ⟨set, -, ran⟩ := exec_bind_ok.mp ran
      obtain ⟨bytes, -, ran⟩ := exec_bind_ok.mp ran
      exact (replying_ok ran).1

/-- The commands whose handlers only read. -/
def ReadsOnly : Command → Prop
  | .ping | .echo _ | .aclWhoami | .aclGetUser _ | .xrange .. | .multi | .discard | .keys _
  | .zrank .. | .zrange .. | .zcard _ | .zscore .. | .geoPos .. | .geoDist .. | .geoSearch ..
  | .unSubscribe _ | .unknow | .aclSetUser .. | .auth .. | .info _ | .replConf .. | .psync ..
  | .wait .. | .getConfig _ => True
  | _ => False

private theorem handlePing_frame {db db' : DB} {c : Context} {effects : List Effect}
    (ran : handlePing db c = .ok (db', effects)) : db' = db := (replying_ok ran).1

theorem handleXrange_frame {db db' : DB} {key start stop : Bytes} {effects : List Effect}
    (ran : handleXrange db key start stop = .ok (db', effects)) : db' = db := by
  rw [handleXrange] at ran
  split at ran
  · exact (replying_ok ran).1
  · split at ran
    · split at ran
      · exact (replying_ok ran).1
      · exact (replying_ok ran).1
      · obtain ⟨bytes, -, ran⟩ := exec_bind_ok.mp ran
        exact (replying_ok ran).1
    · exact (replying_ok ran).1

/-- A handler that reads returns the database it was given. -/
theorem readsOnly_frame {db db' : DB} {c : Context} {command : Command} {effects : List Effect}
    (reads : ReadsOnly command) (ran : callSimple db c command = .ok (db', effects)) : db' = db := by
  cases command <;> first | exact False.elim reads | skip
  case ping | unSubscribe | unknow | aclSetUser | auth | info | replConf | psync | wait | getConfig =>
    exact handlePing_frame ran
  case echo | aclWhoami => exact (replying_ok ran).1
  case multi =>
    cases ran
    rfl
  case xrange => exact handleXrange_frame ran
  case aclGetUser =>
    rw [callSimple, handleAclGetuser] at ran
    split at ran
    · exact (replying_ok ran).1
    · cases ran
  case discard =>
    rw [callSimple, handleDiscard] at ran
    split at ran
    · exact (replying_ok ran).1
    · cases ran
      rfl
  case keys =>
    rw [callSimple, handleKeys] at ran
    split at ran
    · split at ran <;> exact (replying_ok ran).1
    · cases ran
      rfl
  all_goals
    rw [callSimple] at ran
    first
      | rw [handleZrank] at ran | rw [handleZrange] at ran | rw [handleZcard] at ran
      | rw [handleZscore] at ran | rw [handleGeopos] at ran | rw [handleGeodist] at ran
      | rw [handleGeosearch] at ran
    split at ran
    · exact withSortedSet_frame ran
    · exact (replying_ok ran).1

theorem repliedBytes_append (first second : List Effect) :
    repliedBytes (first ++ second) = repliedBytes first ++ repliedBytes second :=
  List.flatMap_append

theorem repliedBytes_dirty (db : DB) (env : Env) (key : Bytes) :
    repliedBytes (markWatchingClientsDirty db env key) = [] := by
  rw [markWatchingClientsDirty, repliedBytes, List.flatMap_map]
  exact List.flatMap_eq_nil_iff.mpr fun _ _ => rfl

/-- A reading that blocks marks the client as waiting for one of the keys, behind
the identifier that was sent with it or the last one of its stream. -/
theorem collectReplies_asks {db : DB} {c : Context} {block : Option Float}
    {asked : List (Bytes × Bytes)} {replies : List (Bytes × List (Bytes × Bytes))}
    {outcome : DB × List Effect}
    (ran : collectReplies db c block asked replies = .ok (.inr outcome)) :
    ∃ key id timeout, (key, id) ∈ asked ∧ block = some timeout ∧
      markClientBlocking db c key (if id = ascii "$" then blockOnId db key id else id) timeout =
        .ok outcome := by
  induction asked generalizing replies with
  | nil => cases ran
  | cons one rest ih =>
    obtain ⟨key, startId⟩ := one
    have blocking {streamId : Bytes} {timeout : Float} (same : block = some timeout)
        (from_ : streamId = if startId = ascii "$" then blockOnId db key startId else startId)
        (ran : (do pure (.inr (← markClientBlocking db c key streamId timeout)) :
          Exec (List (Bytes × List (Bytes × Bytes)) ⊕ (DB × List Effect))) = .ok (.inr outcome)) :
        ∃ name id timeout, (name, id) ∈ (key, startId) :: rest ∧ block = some timeout ∧
          markClientBlocking db c name (if id = ascii "$" then blockOnId db name id else id)
            timeout = .ok outcome := by
      obtain ⟨result, marked, ran⟩ := exec_bind_ok.mp ran
      cases ran
      exact ⟨key, startId, timeout, List.mem_cons_self, same, from_ ▸ marked⟩
    have later (ran : ∃ name id timeout, (name, id) ∈ rest ∧ block = some timeout ∧
        markClientBlocking db c name (if id = ascii "$" then blockOnId db name id else id)
          timeout = .ok outcome) :
        ∃ name id timeout, (name, id) ∈ (key, startId) :: rest ∧ block = some timeout ∧
          markClientBlocking db c name (if id = ascii "$" then blockOnId db name id else id)
            timeout = .ok outcome := by
      obtain ⟨name, id, timeout, member, marked⟩ := ran
      exact ⟨name, id, timeout, List.mem_cons_of_mem _ member, marked⟩
    unfold collectReplies at ran
    dsimp only at ran
    split at ran
    · exact blocking rfl rfl ran
    · cases ran
    · split at ran
      · rename_i newest
        obtain ⟨timeout, some_⟩ := Option.isSome_iff_exists.mp newest.1
        refine blocking some_ (if_pos newest.2).symm ?_
        rwa [some_] at ran
      · rename_i given
        split at ran
        · split at ran
          · exact later (ih ran)
          · refine blocking rfl ?_ ran
            rw [if_neg fun newest => given ⟨rfl, newest⟩]
          · exact later (ih ran)
        · exact later (ih ran)

theorem collectReplies_blocks {db : DB} {c : Context} {block : Option Float}
    {asked : List (Bytes × Bytes)} {replies : List (Bytes × List (Bytes × Bytes))}
    {outcome : DB × List Effect} (ran : collectReplies db c block asked replies = .ok (.inr outcome)) :
    ∃ key streamId timeout, markClientBlocking db c key streamId timeout = .ok outcome := by
  obtain ⟨key, id, timeout, -, -, marked⟩ := collectReplies_asks ran
  exact ⟨key, _, timeout, marked⟩

/-- One push binds its key again and touches nothing else. -/
theorem pushValueToList_frame {db db' : DB} {ndebug isPrepend : Bool} {key value : Bytes} {len : Nat}
    (ran : pushValueToList db ndebug key value isPrepend = .ok (db', len)) :
    ∃ object, db' = { db with store := db.store.insert key object } := by
  rw [pushValueToList] at ran
  split at ran
  · rw [createNewList] at ran
    obtain ⟨lp, -, ran⟩ := exec_bind_ok.mp ran
    obtain ⟨listPack, -, ran⟩ := exec_bind_ok.mp ran
    cases ran
    exact ⟨_, rfl⟩
  · rw [appendToExistingList] at ran
    obtain ⟨-, -, ran⟩ := exec_bind_ok.mp ran
    obtain ⟨lp, -, ran⟩ := exec_bind_ok.mp ran
    obtain ⟨listPack, -, ran⟩ := exec_bind_ok.mp ran
    obtain ⟨lp', -, ran⟩ := exec_bind_ok.mp ran
    obtain ⟨count, -, ran⟩ := exec_bind_ok.mp ran
    cases ran
    exact ⟨_, rfl⟩

theorem pushValues_frame {db db' : DB} {ndebug isPrepend : Bool} {key : Bytes}
    {values : List Bytes} {start len : Nat}
    (ran : pushValues db ndebug key isPrepend values start = .ok (db', len)) :
    ∃ store, db' = { db with store } ∧
      ∀ other, other ≠ key → store.lookup other = db.store.lookup other := by
  induction values generalizing db start with
  | nil =>
    cases ran
    exact ⟨_, rfl, fun _ _ => rfl⟩
  | cons value rest ih =>
    obtain ⟨⟨db₁, len₁⟩, pushed, ran⟩ := exec_bind_ok.mp ran
    obtain ⟨object, rfl⟩ := pushValueToList_frame pushed
    obtain ⟨store, rfl, same⟩ := ih ran
    refine ⟨store, rfl, fun other different => ?_⟩
    rw [same other different]
    exact Finmap.lookup_insert_of_ne _ different

/-- The queue of a key. -/
def queueOf {β : Type} (queues : Map Bytes (List β)) (key : Bytes) : List β :=
  (queues.lookup key).getD []

theorem queueOf_insert {β : Type} (queues : Map Bytes (List β)) (key : Bytes) (queue : List β) :
    queueOf (queues.insert key queue) key = queue := by
  rw [queueOf, Finmap.lookup_insert]
  rfl

theorem queueOf_insert_ne {β : Type} {queues : Map Bytes (List β)} {key other : Bytes}
    (queue : List β) (different : other ≠ key) :
    queueOf (queues.insert key queue) other = queueOf queues other := by
  rw [queueOf, Finmap.lookup_insert_of_ne _ different, queueOf]

theorem queueOf_popFront {β : Type} (queues : Map Bytes (List β)) (key : Bytes) (rest : List β) :
    queueOf (popFront queues key rest) key = rest := by
  rw [popFront]
  split
  · rename_i empty
    rw [queueOf, Finmap.lookup_erase, empty]
    rfl
  · exact queueOf_insert queues key rest

theorem queueOf_popFront_ne {β : Type} {queues : Map Bytes (List β)} {key other : Bytes}
    (rest : List β) (different : other ≠ key) :
    queueOf (popFront queues key rest) other = queueOf queues other := by
  rw [popFront]
  split
  · rw [queueOf, Finmap.lookup_erase_ne different, queueOf]
  · exact queueOf_insert_ne rest different

/-- A push to a key that a client waits for. -/
theorem handlePush_waiter {db : DB} {c : Context} {isPrepend : Bool} {key first : Bytes}
    {rest : List Bytes} {blocked : BlockedClient} {queue : List BlockedClient}
    (waits : queueOf db.blockedKeys key = blocked :: queue) :
    handlePush db c isPrepend key (first :: rest) = (do
      let db' := { db with blockedKeys := popFront db.blockedKeys key queue }
      let served :=
        if c.env.alive blocked.clientFd then
          [.write blocked.clientFd (encodeBulkStringArray [key, first]), .unblock blocked.clientFd]
        else []
      let (db', _) ← pushValues db' c.env.ndebug key isPrepend rest 0
      pure (db', served ++ [.reply (encodeInteger (first :: rest).length)])) := by
  have lookup : db.blockedKeys.lookup key = some (blocked :: queue) := by
    rw [queueOf] at waits
    cases found : db.blockedKeys.lookup key <;> rw [found] at waits <;> cases waits
    rfl
  unfold handlePush
  rw [lookup]

/-- A push to a key that nobody waits for. -/
theorem handlePush_plain {db : DB} {c : Context} {isPrepend : Bool} {key : Bytes}
    {values : List Bytes} (idle : queueOf db.blockedKeys key = [] ∨ values = []) :
    handlePush db c isPrepend key values = (do
      let (db, len) ← pushValues db c.env.ndebug key isPrepend values 0
      pure (db, markWatchingClientsDirty db c.env key ++ [.reply (encodeInteger len)])) := by
  unfold handlePush
  split
  · rename_i lookup
    rcases idle with empty | empty
    · rw [queueOf, lookup] at empty
      cases empty
    · cases empty
  · rfl

/-! ## Whole requests -/

/-- What GET and TYPE leave is what the deadline of the key leaves. -/
theorem handleGetOrType_expires {db db' : DB} {c : Context} {isTypeCommand : Bool} {key : Bytes}
    {effects : List Effect} (ran : handleGetOrType db c isTypeCommand key = .ok (db', effects)) :
    expireIfDue db c.env.clock.steady key = .ok db' := by
  rw [handleGetOrType] at ran
  obtain ⟨db₁, expired, ran⟩ := exec_bind_ok.mp ran
  rw [expired]
  split at ran
  · split at ran
    · split at ran
      · rw [(replying_ok ran).1]
      · obtain ⟨text, -, ran⟩ := exec_bind_ok.mp ran
        rw [(replying_ok ran).1]
    · split at ran
      · rw [(replying_ok ran).1]
      · cases ran
        rfl
    · cases ran
      rfl
  · rw [(replying_ok ran).1]

theorem handlePubSub_frame {db db' : DB} {c : Context} {effects : List Effect}
    (ran : handlePubSub db c = .ok (db', effects)) :
    db'.store = db.store ∧ db'.expiration = db.expiration ∧
      db'.blockedXreadKeys = db.blockedXreadKeys := by
  rw [handlePubSub] at ran
  split at ran
  · rw [handleSubscribe] at ran
    split at ran <;> cases ran
    exact ⟨rfl, rfl, rfl⟩
  · obtain ⟨remaining, -, ran⟩ := exec_bind_ok.mp ran
    cases ran
    exact ⟨rfl, rfl, rfl⟩
  · obtain ⟨⟨db₁, ping⟩, pinged, ran⟩ := exec_bind_ok.mp ran
    cases ran
    exact (replying_ok pinged).1 ▸ ⟨rfl, rfl, rfl⟩
  · exact (replying_ok ran).1 ▸ ⟨rfl, rfl, rfl⟩

/-- The commands that a request runs: its own, or for EXEC those of its queue. -/
def Context.calls (c : Context) : List Command :=
  if c.client.multi ∧ c.command.commandType ≠ .exec ∧ c.command.commandType ≠ .discard ∨
    c.client.pubSub then []
  else if c.command.commandType = .exec then
    if c.client.multi then c.client.queuedCommands else []
  else [c.command]

/-- What every command of a queue keeps, the queue keeps. -/
theorem runQueue_carries {db db' : DB} {c : Context} {effects : List Effect} {holds : DB → Prop}
    {commands : List Command} {envs : List Env}
    (each : ∀ command ∈ commands, ∀ db db' env effects,
      callSimple db { c with env } command = .ok (db', effects) → holds db → holds db')
    (held : holds db) (ran : runQueue db c commands envs = .ok (db', effects)) : holds db' := by
  induction commands generalizing db envs effects with
  | nil =>
    cases ran
    exact held
  | cons command commands ih =>
    cases envs with
    | nil => cases ran
    | cons env envs =>
      obtain ⟨⟨db₁, first⟩, called, ran⟩ := exec_bind_ok.mp ran
      obtain ⟨⟨db₂, rest⟩, queue, ran⟩ := exec_bind_ok.mp ran
      cases ran
      exact ih (fun other member => each other (List.mem_cons_of_mem _ member))
        (each command List.mem_cons_self _ _ _ _ called held) queue

theorem call_cases {db : DB} {c : Context} {command : Command} {envs : List Env} :
    command = .exec ∧ call db c envs command = handleExec db c envs ∨
    command.commandType ≠ .exec ∧ call db c envs command = callSimple db c command := by
  unfold call
  split
  · exact .inl ⟨rfl, rfl⟩
  · rename_i other
    refine .inr ⟨fun same => ?_, rfl⟩
    cases command with
    | exec => exact other rfl
    | _ => cases same

/-- What every command of a request keeps, the request keeps. -/
theorem execute_carries {db : DB} {c : Context} {holds : DB → Prop}
    (bindings : ∀ db db', db'.store = db.store → db'.expiration = db.expiration →
      db'.blockedXreadKeys = db.blockedXreadKeys → holds db → holds db')
    (each : ∀ command ∈ c.calls, ∀ db db' env effects,
      callSimple db { c with env } command = .ok (db', effects) → holds db → holds db')
    (held : holds db) {rdbFilePath : Bytes} {envs : List Env} {executed : Executed}
    (ran : execute db c rdbFilePath envs = .ok executed) : holds executed.db := by
  rw [execute] at ran
  dsimp only at ran
  split at ran
  · cases ran
    exact held
  · split at ran
    · cases ran
      exact bindings db _ rfl rfl rfl held
    · rename_i apart
      split at ran
      · obtain ⟨⟨db₁, effects⟩, handled, ran⟩ := exec_bind_ok.mp ran
        cases ran
        obtain ⟨store, deadlines, queues⟩ := handlePubSub_frame handled
        exact bindings db _ store deadlines queues held
      · rename_i listening
        have here : c.calls = if c.command.commandType = .exec then
            if c.client.multi then c.client.queuedCommands else [] else [c.command] :=
          if_neg (not_or.mpr ⟨apart, listening⟩)
        split at ran
        · obtain ⟨⟨db₁, effects⟩, handled, ran⟩ := exec_bind_ok.mp ran
          cases ran
          cases handled
          exact held
        · cases ran
          exact held
        · cases ran
          exact held
        · obtain ⟨⟨db₁, effects⟩, called, ran⟩ := exec_bind_ok.mp ran
          cases ran
          rcases @call_cases db c c.command envs with ⟨exec, same⟩ | ⟨other, same⟩
          · rw [same, handleExec] at called
            split at called
            · exact (replying_ok called).1 ▸ held
            · rename_i inMulti
              obtain ⟨⟨db₂, queue⟩, run, called⟩ := exec_bind_ok.mp called
              cases called
              rw [here, if_pos (by rw [exec]; rfl), if_pos (by simpa using inMulti)] at each
              exact runQueue_carries each held run
          · rw [same] at called
            rw [here, if_neg other] at each
            exact each c.command (List.mem_singleton_self _) _ _ c.env _ called held

end CarrotDb
