import CarrotDb.DbAnswers
import CarrotDb.DbSound
import CarrotDb.StreamIds
import CarrotDb.Clients

/-! The marks that a change of a key leaves on the clients that watch it. Each
handler has to ask for them itself, and some forget to. -/
namespace CarrotDb
open Resp Listpack

variable {db db' : DB} {c : Context} {env : Env} {key : Bytes} {marks : Prop}
  {effects first second : List Effect}

/-- Every client that watches a key and still exists is marked dirty. -/
def WatchersDirty (db : DB) (env : Env) (clients : Map Fd Client) (key : Bytes) : Prop :=
  ∀ fd ∈ (db.watchingKeys.lookup key).getD [], env.alive fd = true →
    ∀ client, clients.lookup fd = some client → client.dirty = true

/-- The commands that write. -/
def Command.Writing : Command → Prop
  | .set .. | .incr _ | .rpush .. | .lpush .. | .lpop .. | .blpop .. | .xadd .. | .zadd .. | .zrem ..
  | .geoAdd .. => True
  | _ => False

/-- Where a command that changes a key marks its watchers: not when a waiting
client takes the first value of a push, and not when XADD binds a missing key
to a stream that refuses the identifier. BLPOP and the commands of sorted sets
never do. -/
def Command.Marks (db : DB) (c : Context) (key : Bytes) : Command → Prop
  | .set .. | .incr _ | .lpop .. => True
  | .rpush .. | .lpush .. => queueOf db.blockedKeys key = []
  | .xadd _ streamId _ => db.store.lookup key ≠ none ∨
    ∃ id, Stream.new.fromString c.env.clock.system streamId = some id ∧ StreamID.Lt ⟨0, 0⟩ id
  | _ => False

/-- The clients that effects mark dirty. -/
def dirtied (effects : List Effect) : List Fd :=
  effects.filterMap fun
    | .dirty fd => some fd
    | _ => none

theorem dirtied_append (first second : List Effect) :
    dirtied (first ++ second) = dirtied first ++ dirtied second := List.filterMap_append

theorem dirtied_marks (db : DB) (env : Env) (key : Bytes) :
    dirtied (markWatchingClientsDirty db env key) =
      ((db.watchingKeys.lookup key).getD []).filter env.alive := by
  rw [dirtied, markWatchingClientsDirty, List.filterMap_map]
  exact List.filterMap_some

theorem dirtied_handOver (handed : List (Fd × Bytes)) : dirtied (handOver handed) = [] := by
  induction handed with
  | nil => rfl
  | cons one rest ih => exact ih

/-- Effects that mark no client and take no mark away. -/
def Markless (effects : List Effect) : Prop :=
  dirtied effects = [] ∧ Effect.endTransaction ∉ effects

theorem markless_nil : Markless [] := ⟨rfl, List.not_mem_nil⟩

theorem markless_reply (bytes : Bytes) : Markless [.reply bytes] := ⟨rfl, by simp⟩

theorem markless_handOver (handed : List (Fd × Bytes)) : Markless (handOver handed) :=
  ⟨dirtied_handOver handed, by simp [handOver]⟩

theorem markless_append (one : Markless first) (two : Markless second) :
    Markless (first ++ second) := by
  constructor
  · simp [dirtied_append, one.1, two.1]
  · simp [one.2, two.2]

/-- The effects of a change: they mark the living watchers of the key, or
nobody. -/
structure Marked (db : DB) (env : Env) (key : Bytes) (marks : Prop) (effects : List Effect) :
    Prop where
  told : marks → dirtied effects = ((db.watchingKeys.lookup key).getD []).filter env.alive
  untold : ¬ marks → dirtied effects = []
  lasting : Effect.endTransaction ∉ effects

theorem marked_markless (markless : Markless effects) (never : ¬ marks) :
    Marked db env key marks effects :=
  ⟨fun holds => absurd holds never, fun _ => markless.1, markless.2⟩

theorem marked_between (one : Markless first) (two : Markless second) (holds : marks) :
    Marked db env key marks (first ++ markWatchingClientsDirty db env key ++ second) := by
  constructor
  · simp [dirtied_append, dirtied_marks, one.1, two.1]
  · exact fun never => absurd holds never
  · simp [one.2, two.2, markWatchingClientsDirty]

theorem marked_reply (bytes : Bytes) (holds : marks) :
    Marked db env key marks (markWatchingClientsDirty db env key ++ [.reply bytes]) :=
  @marked_between db env key marks [] _ markless_nil (markless_reply bytes) holds

private theorem dirty_counted (client : Client) (channels : Nat) :
    ({ client with totalSubscribedChannels := channels } : Client).dirty = client.dirty := rfl

theorem Effect.apply_dirty (effect : Effect) (client : Client) (marks : ∀ fd, effect ≠ .dirty fd)
    (lasting : Effect.endTransaction ≠ effect) : (effect.apply client).dirty = client.dirty := by
  cases effect with
  | dirty fd => exact absurd rfl (marks fd)
  | endTransaction => exact absurd rfl lasting
  | unsubscribe => exact dirty_counted client _
  | subscribe => exact dirty_counted { client with pubSub := true } _
  | _ => rfl

/-- A mark stays on its client. -/
theorem applyEffects_dirty (lasting : Effect.endTransaction ∉ effects) (served fd : Fd)
    (client : Client) :
    (applyEffects served fd effects client).dirty = true ↔
      client.dirty = true ∨ fd ∈ dirtied effects := by
  induction effects generalizing client with
  | nil => simp [applyEffects, dirtied]
  | cons effect rest ih =>
    obtain ⟨here, later⟩ := not_or.mp (List.mem_cons.not.mp lasting)
    have step : applyEffects served fd (effect :: rest) client = applyEffects served fd rest
        (if effect.target served = some fd then effect.apply client else client) := rfl
    rw [step, ih later, ← List.singleton_append, dirtied_append, List.mem_append, ← or_assoc]
    apply or_congr_left
    cases effect with
    | dirty marked =>
      by_cases same : marked = fd
      · simp [Effect.target, Effect.apply, dirtied, same]
      · simp [Effect.target, dirtied, same, Ne.symm same]
    | endTransaction => exact absurd rfl here
    | _ =>
      rw [show dirtied [_] = [] from rfl, or_iff_left List.not_mem_nil]
      split
      · rw [Effect.apply_dirty _ client (by simp) here]
      · exact Iff.rfl

/-- A change marks all living watchers exactly where it asks for it, or where
they were marked before. -/
theorem watchersDirty_iff {clients : Map Fd Client} (marked : Marked db env key marks effects)
    (watching : db'.watchingKeys = db.watchingKeys) (served : Fd) :
    WatchersDirty db' env (applyToClients served effects clients) key ↔
      WatchersDirty db env clients key ∨ marks := by
  unfold WatchersDirty
  rw [watching]
  by_cases holds : marks
  · simp only [holds, or_true, iff_true]
    intro fd watches lives client lookup
    rw [lookup_applyToClients] at lookup
    obtain ⟨before, -, rfl⟩ := Option.map_eq_some_iff.mp lookup
    apply (applyEffects_dirty marked.lasting served fd before).mpr
    right
    rw [marked.told holds]
    exact List.mem_filter.mpr ⟨watches, lives⟩
  · have kept (fd : Fd) (client : Client) :
        (applyEffects served fd effects client).dirty = true ↔ client.dirty = true := by
      simp [applyEffects_dirty marked.lasting, marked.untold holds]
    simp only [holds, or_false, lookup_applyToClients, Option.map_eq_some_iff,
      forall_exists_index, and_imp, forall_apply_eq_imp_iff₂, kept]

/-- A handler that writes at most one key, told with the marks of a change. -/
structure WritesAt (db db' : DB) (env : Env) (key : Bytes) (marks : Prop) (effects : List Effect) :
    Prop where
  watching : db'.watchingKeys = db.watchingKeys
  others : ∀ other, other ≠ key → db'.store.lookup other = db.store.lookup other
  marked : db'.store.lookup key ≠ db.store.lookup key → Marked db env key marks effects

theorem writesAt_same (watching : db'.watchingKeys = db.watchingKeys)
    (same : db'.store = db.store) : WritesAt db db' env key marks effects :=
  ⟨watching, fun _ _ => by rw [same], fun changed => absurd (by rw [same]) changed⟩

theorem writesAt_replying {bytes : Bytes} (ran : replying db bytes = .ok (db', effects)) :
    WritesAt db db' env key marks effects := by
  cases ran
  exact writesAt_same rfl rfl

theorem writesAt_insert {object : RedisObject} (watching : db'.watchingKeys = db.watchingKeys)
    (store : db'.store = db.store.insert key object)
    (marked : db'.store.lookup key ≠ db.store.lookup key → Marked db env key marks effects) :
    WritesAt db db' env key marks effects := by
  refine ⟨watching, fun other different => ?_, marked⟩
  rw [store]
  exact Finmap.lookup_insert_of_ne _ different

theorem handleSet_writes {value : Bytes} {ex px : Option Nat}
    (ran : handleSet db c key value ex px = .ok (db', effects)) :
    WritesAt db db' c.env key True effects := by
  cases ran
  refine writesAt_insert rfl rfl fun _ => ?_
  exact @marked_reply db c.env key True _ trivial

theorem handleIncr_writes (ran : handleIncr db c key = .ok (db', effects)) :
    WritesAt db db' c.env key True effects := by
  rw [handleIncr] at ran
  split at ran
  · cases ran
    refine writesAt_insert rfl rfl fun _ => ?_
    exact @marked_reply db c.env key True _ trivial
  · dsimp only at ran
    split at ran
    · obtain ⟨text, -, ran⟩ := exec_bind_ok.mp ran
      split at ran
      · obtain ⟨value, -, ran⟩ := exec_bind_ok.mp ran
        cases ran
        refine writesAt_insert rfl rfl fun _ => ?_
        have marked := @marked_between db c.env key True _ [] (markless_reply (encodeInteger value))
          markless_nil trivial
        rwa [List.append_nil] at marked
      · exact writesAt_replying ran
    · exact writesAt_replying ran

/-- Nothing popped, nothing changed. -/
theorem popElements_nil {ndebug : Bool} {totalCount : Nat} {listPack left : Option Bytes}
    (ran : popElements ndebug totalCount listPack = .ok ([], left)) : left = listPack := by
  cases totalCount with
  | zero =>
    cases ran
    rfl
  | succ totalCount =>
    rw [popElements] at ran
    obtain ⟨lp, -, ran⟩ := exec_bind_ok.mp ran
    obtain ⟨p, -, ran⟩ := exec_bind_ok.mp ran
    cases p with
    | none =>
      cases ran
      rfl
    | some p =>
      dsimp only at ran
      obtain ⟨value, -, ran⟩ := exec_bind_ok.mp ran
      obtain ⟨deleted, -, ran⟩ := exec_bind_ok.mp ran
      obtain ⟨rest, -, ran⟩ := exec_bind_ok.mp ran
      cases ran

theorem handleLpop_writes {count : Option Nat}
    (ran : handleLpop db c key count = .ok (db', effects)) :
    WritesAt db db' c.env key True effects := by
  rw [handleLpop] at ran
  split at ran
  · exact writesAt_replying ran
  · rename_i object lookup
    split at ran
    · rename_i lp tag pointer
      obtain ⟨⟨result, left⟩, popped, ran⟩ := exec_bind_ok.mp ran
      cases ran
      refine writesAt_insert rfl rfl fun changed => ?_
      cases result with
      | nil =>
        have kept : left = object.listPack := (popElements_nil popped).trans pointer.symm
        rw [Finmap.lookup_insert, kept, lookup] at changed
        exact absurd rfl changed
      | cons value rest =>
        exact @marked_reply db c.env key True _ trivial
    · exact writesAt_replying ran

theorem handlePush_writes {isPrepend : Bool} {values : List Bytes}
    (ran : handlePush db c isPrepend key values = .ok (db', effects)) :
    WritesAt db db' c.env key (queueOf db.blockedKeys key = []) effects := by
  cases waits : queueOf db.blockedKeys key with
  | nil =>
    rw [handlePush_plain (.inl waits)] at ran
    obtain ⟨⟨db₁, len⟩, pushes, ran⟩ := exec_bind_ok.mp ran
    cases ran
    obtain ⟨store, rfl, others⟩ := pushValues_frame pushes
    refine ⟨rfl, others, fun _ => ?_⟩
    exact @marked_reply db c.env key _ _ rfl
  | cons blocked queue =>
    cases values with
    | nil =>
      rw [handlePush_plain (.inr rfl)] at ran
      cases ran
      exact writesAt_same rfl rfl
    | cons first rest =>
      rw [handlePush_waiter waits] at ran
      obtain ⟨⟨db₁, len⟩, pushes, ran⟩ := exec_bind_ok.mp ran
      cases ran
      obtain ⟨store, rfl, others⟩ := pushValues_frame pushes
      refine ⟨rfl, others, fun _ => marked_markless (markless_append ?_ (markless_reply _)) ?_⟩
      · split
        · exact markless_handOver [(blocked.clientFd, encodeBulkStringArray [key, first])]
        · exact markless_handOver []
      · exact List.cons_ne_nil _ _

/-- A stream takes an entry just when its identifier can be read and is greater
than the last one. -/
theorem insert_accepts_iff {stream : Stream} {systemMs : Nat} {streamId value : Bytes} :
    (stream.insert systemMs streamId value).2.error = .ok ↔
      ∃ id, stream.fromString systemMs streamId = some id ∧
        StreamID.Lt stream.lastInsertStreamID id := by
  constructor
  · intro accepted
    cases read : stream.fromString systemMs streamId with
    | none => simp [Stream.insert, read] at accepted
    | some id =>
      refine ⟨id, rfl, (StreamID.lt_iff _ _).mpr ?_⟩
      by_cases zero : id.ms = 0 ∧ id.seq = 0
      · simp [Stream.insert, read, zero] at accepted
      · by_cases refused : (stream.lastInsertStreamID.ms ≠ 0 ∨ stream.lastInsertStreamID.seq ≠ 0) ∧
            id.isGreater stream.lastInsertStreamID = false
        · rw [Stream.insert, read] at accepted
          dsimp only at accepted
          rw [if_neg zero, if_pos refused] at accepted
          cases accepted
        · have order := StreamID.lt_iff stream.lastInsertStreamID id
          rw [StreamID.Lt] at order
          by_cases greater : id.isGreater stream.lastInsertStreamID = true
          · exact order.mp greater
          · have fresh : ¬ (stream.lastInsertStreamID.ms ≠ 0 ∨ stream.lastInsertStreamID.seq ≠ 0) :=
              fun old => refused ⟨old, Bool.not_eq_true _ ▸ greater⟩
            omega
  · rintro ⟨id, read, greater⟩
    obtain ⟨_, reported, -⟩ := (@grows_iff stream ⟨systemMs, streamId, value⟩ id read).mpr greater
    exact congrArg StreamStatus.error reported

/-- What XADD does with an entry the stream has taken. -/
private theorem xadd_told (opened : DB) {object : RedisObject} {bytes : Bytes}
    (watching : opened.watchingKeys = db.watchingKeys)
    (others : ∀ other, other ≠ key → opened.store.lookup other = db.store.lookup other)
    (holds : marks) (ran : (do
      let stored := { opened with store := opened.store.insert key object }
      let (served, effects) ← handleBlockedXreadClients stored env key
      pure (served, .reply bytes :: markWatchingClientsDirty stored env key ++ effects) :
        Outcome) = .ok (db', effects)) : WritesAt db db' env key marks effects := by
  obtain ⟨⟨served, woken⟩, waking, ran⟩ := exec_bind_ok.mp ran
  have kept : served.watchingKeys = opened.watchingKeys ∧
      served.store = opened.store.insert key object := by
    rcases handleBlockedXreadClients_frame waking with rfl | rfl <;> exact ⟨rfl, rfl⟩
  obtain ⟨⟨handed, rfl, -⟩, -⟩ := handleBlockedXreadClients_hands waking
  cases ran
  refine ⟨kept.1.trans watching, fun other different => ?_, fun _ => ?_⟩
  · rw [kept.2]
    exact (Finmap.lookup_insert_of_ne _ different).trans (others other different)
  · have same : markWatchingClientsDirty
          { opened with store := opened.store.insert key object } env key =
        markWatchingClientsDirty db env key := by
      simp [markWatchingClientsDirty, watching]
    rw [same]
    exact marked_between (markless_reply bytes) (markless_handOver handed) holds

theorem handleXadd_writes {streamId : Bytes} {fieldValues : List (Bytes × Bytes)}
    (ran : handleXadd db c key streamId fieldValues = .ok (db', effects)) :
    WritesAt db db' c.env key ((Command.xadd key streamId fieldValues).Marks db c key) effects := by
  cases lookup : db.store.lookup key with
  | none =>
    rw [handleXadd, openStream, lookup] at ran
    dsimp only at ran
    rw [if_neg (by simp), deref, exec_pure, exec_ok_bind] at ran
    split at ran
    · rename_i refused
      cases ran
      refine writesAt_insert rfl rfl fun _ => marked_markless (markless_reply _) ?_
      rintro (bound | accepts)
      · exact bound lookup
      · exact refused (insert_accepts_iff.mpr accepts)
    · rename_i taken
      have accepts := insert_accepts_iff.mp (not_not.mp taken)
      refine xadd_told
        { db with store := db.store.insert key { type := .stream, streamPtr := some Stream.new } }
        rfl ?_ (.inr accepts) ran
      exact fun other different => Finmap.lookup_insert_of_ne _ different
  | some object =>
    have bound : (Command.xadd key streamId fieldValues).Marks db c key := .inl (by simp [lookup])
    rw [handleXadd, openStream, lookup] at ran
    dsimp only at ran
    split at ran
    · exact writesAt_replying ran
    · obtain ⟨stream, -, ran⟩ := exec_bind_ok.mp ran
      split at ran
      · exact writesAt_replying ran
      · exact xadd_told db rfl (fun _ _ => rfl) bound ran

/-! ## Handlers that mark nobody -/

/-- A handler that leaves the watchers and their marks alone. -/
def Unmarking (db db' : DB) (effects : List Effect) : Prop :=
  db'.watchingKeys = db.watchingKeys ∧ Markless effects

theorem unmarking_replying {start : DB} {bytes : Bytes}
    (ran : replying start bytes = .ok (db', effects))
    (watching : start.watchingKeys = db.watchingKeys) : Unmarking db db' effects := by
  cases ran
  exact ⟨watching, markless_reply bytes⟩

theorem handleBlpop_unmarking {keys : List Bytes} {timeout : Float}
    (ran : handleBlpop db c keys timeout = .ok (db', effects)) : Unmarking db db' effects := by
  have waited (ran : (do
      let blocked ← BlockedClient.make c.env.clock.steady c.fd timeout
      let queue := (db.blockedKeys.lookup (keys.headD [])).getD [] ++ [blocked]
      pure ({ db with blockedKeys := db.blockedKeys.insert (keys.headD []) queue }, [.block]) :
        Outcome) = .ok (db', effects)) : Unmarking db db' effects := by
    obtain ⟨blocked, -, ran⟩ := exec_bind_ok.mp ran
    cases ran
    exact ⟨rfl, rfl, by simp⟩
  rw [handleBlpop] at ran
  dsimp only at ran
  split at ran
  · exact waited ran
  · split at ran
    · obtain ⟨first, -, ran⟩ := exec_bind_ok.mp ran
      split at ran
      · exact waited ran
      · obtain ⟨value, -, ran⟩ := exec_bind_ok.mp ran
        obtain ⟨deleted, -, ran⟩ := exec_bind_ok.mp ran
        exact unmarking_replying ran rfl
    · exact unmarking_replying ran rfl

theorem openSortedSet_watching (db : DB) (key : Bytes) :
    (openSortedSet db key).1.watchingKeys = db.watchingKeys := by
  rw [openSortedSet]
  split <;> rfl

theorem handleZadd_unmarking (ran : handleZadd db c = .ok (db', effects)) :
    Unmarking db db' effects := by
  rw [handleZadd] at ran
  split at ran
  · rename_i key scoreMembers asked
    have opened := openSortedSet_watching db key
    dsimp only at ran
    split at ran
    · exact unmarking_replying ran opened
    · obtain ⟨set, -, ran⟩ := exec_bind_ok.mp ran
      obtain ⟨⟨set', added⟩, -, ran⟩ := exec_bind_ok.mp ran
      exact unmarking_replying ran opened
  · exact unmarking_replying ran rfl

theorem handleZrem_unmarking (ran : handleZrem db c = .ok (db', effects)) :
    Unmarking db db' effects := by
  rw [handleZrem] at ran
  split at ran
  · split at ran
    · exact unmarking_replying ran rfl
    · split at ran
      · exact unmarking_replying ran rfl
      · obtain ⟨set, -, ran⟩ := exec_bind_ok.mp ran
        obtain ⟨⟨set', removed⟩, -, ran⟩ := exec_bind_ok.mp ran
        exact unmarking_replying ran rfl
  · exact unmarking_replying ran rfl

theorem handleGeoadd_unmarking (ran : handleGeoadd db c = .ok (db', effects)) :
    Unmarking db db' effects := by
  rw [handleGeoadd] at ran
  split at ran
  · rename_i key longitude latitude score member invalid asked
    have opened := openSortedSet_watching db key
    split at ran
    · exact unmarking_replying ran rfl
    · dsimp only at ran
      split at ran
      · exact unmarking_replying ran opened
      · obtain ⟨set, -, ran⟩ := exec_bind_ok.mp ran
        obtain ⟨⟨set', existed⟩, -, ran⟩ := exec_bind_ok.mp ran
        exact unmarking_replying ran opened
  · exact unmarking_replying ran rfl

/-! ## Every command -/

theorem callSimple_marked {command : Command} (writes : command.Writing)
    (ran : callSimple db c command = .ok (db', effects))
    (changed : db'.store.lookup key ≠ db.store.lookup key) :
    db'.watchingKeys = db.watchingKeys ∧
      Marked db c.env key (command.Marks db c key) effects := by
  have at_ {name : Bytes} {marks : Bytes → Prop}
      (written : WritesAt db db' c.env name (marks name) effects) :
      db'.watchingKeys = db.watchingKeys ∧ Marked db c.env key (marks key) effects := by
    by_cases same : key = name
    · subst same
      exact ⟨written.watching, written.marked changed⟩
    · exact absurd (written.others key same) changed
  have never (unmarking : Unmarking db db' effects) :
      db'.watchingKeys = db.watchingKeys ∧ Marked db c.env key False effects :=
    ⟨unmarking.1, marked_markless unmarking.2 id⟩
  cases command with
  | set name value ex px => exact @at_ name (fun _ => True) (handleSet_writes ran)
  | incr name => exact @at_ name (fun _ => True) (handleIncr_writes ran)
  | lpop name count => exact @at_ name (fun _ => True) (handleLpop_writes ran)
  | rpush name values | lpush name values =>
    exact @at_ name (fun name => queueOf db.blockedKeys name = []) (handlePush_writes ran)
  | xadd name streamId fieldValues =>
    exact @at_ name (fun key => (Command.xadd name streamId fieldValues).Marks db c key)
      (handleXadd_writes ran)
  | blpop names timeout => exact never (handleBlpop_unmarking ran)
  | zadd => exact never (handleZadd_unmarking ran)
  | zrem => exact never (handleZrem_unmarking ran)
  | geoAdd => exact never (handleGeoadd_unmarking ran)
  | _ => exact writes.elim

/-- After a change of a key its watchers are all dirty just when they were
before, or the command marks them. -/
theorem change_marks_iff {command : Command} {clients : Map Fd Client} (writes : command.Writing)
    (ran : callSimple db c command = .ok (db', effects))
    (changed : db'.store.lookup key ≠ db.store.lookup key) :
    WatchersDirty db' c.env (applyToClients c.fd effects clients) key ↔
      WatchersDirty db c.env clients key ∨ command.Marks db c key := by
  obtain ⟨watching, marked⟩ := callSimple_marked writes ran changed
  exact watchersDirty_iff marked watching c.fd

/-- One client watches one key. -/
def oneWatcher : DB := { watchingKeys := Finmap.singleton (ascii "k") [7] }

theorem change_marks_iff_set : ∃ db' effects,
    callSimple oneWatcher .sample (.set (ascii "k") (ascii "v") none none) = .ok (db', effects) ∧
      (WatchersDirty db' Context.sample.env (applyToClients 5 effects (Finmap.singleton 7 {}))
          (ascii "k") ↔
        WatchersDirty oneWatcher Context.sample.env (Finmap.singleton 7 {}) (ascii "k") ∨
          (Command.set (ascii "k") (ascii "v") none none).Marks oneWatcher .sample (ascii "k")) := by
  refine ⟨_, _, rfl, change_marks_iff trivial rfl ?_⟩
  simp [oneWatcher]

/-- RPUSH of one value, a transaction of client 7 that reads the key, and BLPOP
of another client: the database in front of the last and what that leaves. -/
def watchedPop : Exec (DB × DB × List Effect) := do
  let pushed ← execute {} { Context.sample with command := .rpush (ascii "k") [ascii "v"] } [] []
  let queued ← execute pushed.db
    { Context.sample with fd := 7, client := { multi := true }, command := .get (ascii "k") } [] []
  let popped ← callSimple queued.db .sample (.blpop [ascii "k"] 0.0)
  pure (queued.db, popped)

/-- BLPOP takes the value, and the client of the transaction is not told. -/
theorem blpop_unmarked : ¬ ∀ db db' c command effects clients key, DB.Reachable db →
    Command.Writing command → callSimple db c command = .ok (db', effects) →
    db'.store.lookup key ≠ db.store.lookup key →
    WatchersDirty db' c.env (applyToClients c.fd effects clients) key := by
  intro all
  have computed : watchedPop.toOption.any (fun run =>
      decide ((run.2.1.store.lookup (ascii "k")).map RedisObject.listPack ≠
        (run.1.store.lookup (ascii "k")).map RedisObject.listPack) &&
      decide (7 ∈ (run.2.1.watchingKeys.lookup (ascii "k")).getD []) &&
      decide (((applyToClients 5 run.2.2 (Finmap.singleton 7 { multi := true })).lookup 7).map
        Client.dirty = some false)) = true := by decide +kernel
  cases ran : watchedPop with
  | error fault =>
    rw [ran] at computed
    cases computed
  | ok run =>
    simp only [ran, Except.toOption, Option.any_some, Bool.and_eq_true, decide_eq_true_eq]
      at computed
    obtain ⟨⟨changed, watches⟩, clean⟩ := computed
    obtain ⟨pushed, pushes, ran⟩ := exec_bind_ok.mp ran
    obtain ⟨queued, queues, ran⟩ := exec_bind_ok.mp ran
    obtain ⟨⟨db', effects⟩, popped, ran⟩ := exec_bind_ok.mp ran
    cases ran
    have reached : DB.Reachable queued.db := .executed (.executed .empty pushes) queues
    obtain ⟨client, lookup, unmarked⟩ := Option.map_eq_some_iff.mp clean
    have differs : db'.store.lookup (ascii "k") ≠ queued.db.store.lookup (ascii "k") :=
      fun same => changed (congrArg (Option.map RedisObject.listPack) same)
    have writes : (Command.blpop [ascii "k"] 0.0).Writing := trivial
    have marked := all _ _ .sample _ _ (Finmap.singleton 7 { multi := true }) _ reached writes popped
      differs 7 watches rfl client lookup
    rw [unmarked] at marked
    cases marked

end CarrotDb
