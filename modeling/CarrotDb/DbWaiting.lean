import CarrotDb.DbFrames
import CarrotDb.Lib.Ledger

/-! Clients that wait for a list or a stream, over whole runs. Every
registration is either still in the queue it was put into, or was taken out
once: served by a push or an XADD, or given up on by the sweep. The queues of
the database are those of a history of registrations and removals. -/
namespace CarrotDb
open Resp Ledger

/-- What a client waits for. -/
inductive Place where
  | list (key : Bytes)
  | stream (key : Bytes)
  deriving DecidableEq

/-- A registration of a waiting client. -/
inductive Waiter where
  | list (key : Bytes) (blocked : BlockedClient)
  | stream (key : Bytes) (blocked : BlockedXreadClient)

def Waiter.place : Waiter → Place
  | .list key _ => .list key
  | .stream key _ => .stream key

def Waiter.fd : Waiter → Fd
  | .list _ blocked => blocked.clientFd
  | .stream _ blocked => blocked.clientFd

def Waiter.timeoutAt : Waiter → Int
  | .list _ blocked => blocked.timeoutAt
  | .stream _ blocked => blocked.timeoutAt

/-- Registrations, and the replies they were answered with. -/
abbrev WaitHistory := History Waiter Bytes

/-- One of the two maps of queues, in terms of registrations. -/
structure Kind (β : Type) where
  place : Bytes → Place
  wrap : Bytes → β → Waiter
  place_injective : Function.Injective place
  home : ∀ key blocked, (wrap key blocked).place = place key

def listKind : Kind BlockedClient := ⟨.list, .list, fun _ _ => Place.list.inj, fun _ _ => rfl⟩

def streamKind : Kind BlockedXreadClient :=
  ⟨.stream, .stream, fun _ _ => Place.stream.inj, fun _ _ => rfl⟩

/-- The queues of a map are what a history says is waiting. -/
def Kind.Queues {β : Type} (kind : Kind β) (queues : Map Bytes (List β)) (h : WaitHistory) : Prop :=
  ∀ key, (h.waiting Waiter.place (kind.place key)).map Prod.fst =
    (queueOf queues key).map (kind.wrap key)

/-- The queues of the database hold what a history says is waiting. -/
structure DB.Waits (db : DB) (h : WaitHistory) : Prop where
  sound : h.Sound Waiter.place
  lists : listKind.Queues db.blockedKeys h
  streams : streamKind.Queues db.blockedXreadKeys h

/-- One step of a run: a command of some client, or a sweep. -/
inductive WaitStep where
  | request (c : Context) (command : Command)
  | sweep (env : Env)

def WaitStep.env : WaitStep → Env
  | .request c _ => c.env
  | .sweep env => env

def WaitStep.run (db : DB) : WaitStep → Outcome
  | .request c command => callSimple db c command
  | .sweep env => pure (checkAndExpireBlockedClients db env)

def runWaits (db : DB) : List WaitStep → Exec (DB × List (List Effect))
  | [] => pure (db, [])
  | step :: rest => do
    let (db, effects) ← step.run db
    let (db, later) ← runWaits db rest
    pure (db, effects :: later)

/-- The bytes sent to clients other than the one that is served. -/
def writes (effects : List Effect) : List (Fd × Bytes) :=
  effects.filterMap fun
    | .write fd bytes => some (fd, bytes)
    | _ => none

/-- How often the client that is served starts to wait. -/
def blocks (effects : List Effect) : Nat :=
  effects.countP fun
    | .block => true
    | _ => false

/-- What a step sends to clients that waited. PUBLISH writes to subscribers. -/
def WaitStep.answers : WaitStep → List Effect → List (Fd × Bytes)
  | .request _ (.publish ..), _ => []
  | _, effects => writes effects

/-- What a step adds to the history. -/
structure WaitRecord where
  registered : List Waiter := []
  removals : List (Removal Waiter Bytes) := []

/-- One write to each removed client that still exists. -/
def answersTo (env : Env) (removals : List (Removal Waiter Bytes)) : List (Fd × Bytes) :=
  removals.filterMap fun removal =>
    if env.alive removal.entry.fd then some (removal.entry.fd, removal.reply) else none

/-- The registration that a request asks for: with the first key of a BLPOP, or
with one of the keys of an XREAD and the identifier it is read from. -/
inductive Waiter.Asked (db : DB) (c : Context) : Command → Waiter → Prop where
  | blpop {keys : List Bytes} {timeout : Float} {blocked : BlockedClient} :
    BlockedClient.make c.env.clock.steady c.fd timeout = .ok blocked →
    Asked db c (.blpop keys timeout) (.list (keys.headD []) blocked)
  | xread {keys ids : List Bytes} {timeout : Float} {key id : Bytes} {blocked : BlockedXreadClient} :
    (key, id) ∈ keys.zip ids →
    BlockedXreadClient.make c.env.clock.steady c.fd timeout
      (if id = ascii "$" then blockOnId db key id else id) key = .ok blocked →
    Asked db c (.xread (some timeout) keys ids) (.stream key blocked)

/-- A sweep gave up on these registrations. -/
def GivenUp (env : Env) (removals : List (Removal Waiter Bytes)) : Prop :=
  ∀ removal ∈ removals, removal.served = false ∧
    isExpired env.clock.steady removal.entry.timeoutAt = true ∧ removal.reply = encodeNullArray

/-- What a record comes from. A request asks for a registration; a push hands
its first value to a client that waits for its key; an XADD answers all that
wait for its key with what they read then; a sweep gives up on some. -/
inductive WaitRecord.From (db db' : DB) : WaitStep → WaitRecord → Prop where
  | asked {c : Context} {command : Command} {waiter : Waiter} :
    waiter.Asked db c command → From db db' (.request c command) { registered := [waiter] }
  | handedOver {c : Context} {command : Command} {key first : Bytes} {rest : List Bytes}
    {label : Nat} {blocked : BlockedClient} :
    command = .rpush key (first :: rest) ∨ command = .lpush key (first :: rest) →
    From db db' (.request c command) { removals :=
      [⟨label, .list key blocked, true, encodeBulkStringArray [key, first]⟩] }
  | read {c : Context} {key streamId : Bytes} {fieldValues : List (Bytes × Bytes)}
    {removals : List (Removal Waiter Bytes)} :
    (∀ removal ∈ removals, removal.served = true ∧ ∃ blocked, removal.entry = .stream key blocked ∧
      (c.env.alive blocked.clientFd = true →
        xreadResponse db' blocked.streamKey blocked.streamId = .ok removal.reply)) →
    From db db' (.request c (.xadd key streamId fieldValues)) { removals }
  | gaveUp {env : Env} {removals : List (Removal Waiter Bytes)} :
    GivenUp env removals → From db db' (.sweep env) { removals }
  | nothing {step : WaitStep} : From db db' step {}

/-- A record tells what a step did: a client that starts to wait is registered
once, and every removal whose client still exists is answered by one write. -/
structure WaitRecord.Tells (record : WaitRecord) (db : DB) (step : WaitStep) (db' : DB)
    (effects : List Effect) : Prop where
  registered : record.registered.length = blocks effects
  answered : step.answers effects = answersTo step.env record.removals
  origin : record.From db db' step

def extend (h : WaitHistory) (record : WaitRecord) : WaitHistory :=
  ⟨h.registered ++ record.registered, h.removals ++ record.removals⟩

/-- A run with the records of its steps. Behind every step the queues are those
of the history so far. -/
inductive Recorded : DB → WaitHistory → List WaitStep → List (List Effect) → List WaitRecord →
    DB → WaitHistory → Prop where
  | nil {db : DB} {h : WaitHistory} : db.Waits h → Recorded db h [] [] [] db h
  | cons {db db₁ db' : DB} {h h' : WaitHistory} {step : WaitStep} {steps : List WaitStep}
    {effects : List Effect} {outputs : List (List Effect)} {record : WaitRecord}
    {records : List WaitRecord} : db.Waits h → step.run db = .ok (db₁, effects) →
    record.Tells db step db₁ effects →
    Recorded db₁ (extend h record) steps outputs records db' h' →
    Recorded db h (step :: steps) (effects :: outputs) (record :: records) db' h'

/-- Neither queue changes, nobody starts to wait, and nobody else is written to. -/
structure Quiet (db db' : DB) (effects : List Effect) : Prop where
  blockedKeys : db'.blockedKeys = db.blockedKeys
  blockedXreadKeys : db'.blockedXreadKeys = db.blockedXreadKeys
  blocks : blocks effects = 0
  writes : writes effects = []

variable {db db' : DB} {c : Context} {effects : List Effect}

theorem quiet_replying {bytes : Bytes} (ran : replying db bytes = .ok (db', effects)) :
    Quiet db db' effects := by
  cases ran
  exact ⟨rfl, rfl, rfl, rfl⟩

/-- A reply behind another database whose queues are the same. -/
theorem Quiet.from (quiet : Quiet db db' effects) {start : DB}
    (lists : db.blockedKeys = start.blockedKeys) (streams : db.blockedXreadKeys = start.blockedXreadKeys) :
    Quiet start db' effects :=
  ⟨quiet.blockedKeys.trans lists, quiet.blockedXreadKeys.trans streams, quiet.blocks, quiet.writes⟩

theorem writes_append (first second : List Effect) :
    writes (first ++ second) = writes first ++ writes second := List.filterMap_append

theorem blocks_append (first second : List Effect) :
    blocks (first ++ second) = blocks first + blocks second := List.countP_append

theorem writes_dirty (db : DB) (env : Env) (key : Bytes) :
    writes (markWatchingClientsDirty db env key) = [] := by
  rw [markWatchingClientsDirty, writes, List.filterMap_map]
  exact List.filterMap_eq_nil_iff.mpr fun _ _ => rfl

theorem blocks_dirty (db : DB) (env : Env) (key : Bytes) :
    blocks (markWatchingClientsDirty db env key) = 0 := by
  rw [markWatchingClientsDirty, blocks, List.countP_map]
  exact List.countP_eq_zero.mpr fun _ _ => Bool.false_ne_true

/-- Marking watchers and replying, in either order. -/
theorem quiet_dirty_reply {env : Env} {key bytes : Bytes} {watched : DB}
    (lists : db'.blockedKeys = db.blockedKeys) (streams : db'.blockedXreadKeys = db.blockedXreadKeys) :
    Quiet db db' (markWatchingClientsDirty watched env key ++ [.reply bytes]) where
  blockedKeys := lists
  blockedXreadKeys := streams
  blocks := by rw [blocks_append, blocks_dirty]; rfl
  writes := by rw [writes_append, writes_dirty]; rfl

theorem quiet_reply_dirty {env : Env} {key bytes : Bytes} {watched : DB}
    (lists : db'.blockedKeys = db.blockedKeys) (streams : db'.blockedXreadKeys = db.blockedXreadKeys) :
    Quiet db db' (.reply bytes :: markWatchingClientsDirty watched env key) where
  blockedKeys := lists
  blockedXreadKeys := streams
  blocks := blocks_dirty watched env key
  writes := writes_dirty watched env key

theorem handleGetOrType_quiet {isTypeCommand : Bool} {key : Bytes}
    (ran : handleGetOrType db c isTypeCommand key = .ok (db', effects)) : Quiet db db' effects := by
  rw [handleGetOrType] at ran
  obtain ⟨db₁, expired, ran⟩ := exec_bind_ok.mp ran
  have same : db₁.blockedKeys = db.blockedKeys ∧ db₁.blockedXreadKeys = db.blockedXreadKeys := by
    rw [expireIfDue] at expired
    split at expired
    · split at expired
      · split at expired
        · cases expired
          exact ⟨rfl, rfl⟩
        · cases expired
      · cases expired
        exact ⟨rfl, rfl⟩
    · cases expired
      exact ⟨rfl, rfl⟩
  suffices quiet : Quiet db₁ db' effects from quiet.from same.1 same.2
  split at ran
  · split at ran
    · split at ran
      · exact quiet_replying ran
      · obtain ⟨text, -, ran⟩ := exec_bind_ok.mp ran
        exact quiet_replying ran
    · split at ran
      · exact quiet_replying ran
      · cases ran
        exact ⟨rfl, rfl, rfl, rfl⟩
    · cases ran
      exact ⟨rfl, rfl, rfl, rfl⟩
  · exact quiet_replying ran

theorem handleIncr_quiet {key : Bytes} (ran : handleIncr db c key = .ok (db', effects)) :
    Quiet db db' effects := by
  rw [handleIncr] at ran
  split at ran
  · cases ran
    exact quiet_dirty_reply rfl rfl
  · dsimp only at ran
    split at ran
    · obtain ⟨text, -, ran⟩ := exec_bind_ok.mp ran
      split at ran
      · obtain ⟨value, -, ran⟩ := exec_bind_ok.mp ran
        cases ran
        exact quiet_reply_dirty rfl rfl
      · exact quiet_replying ran
    · exact quiet_replying ran

theorem handleLpop_quiet {key : Bytes} {count : Option Nat}
    (ran : handleLpop db c key count = .ok (db', effects)) : Quiet db db' effects := by
  rw [handleLpop] at ran
  split at ran
  · exact quiet_replying ran
  · split at ran
    · obtain ⟨⟨result, left⟩, -, ran⟩ := exec_bind_ok.mp ran
      cases ran
      refine ⟨rfl, rfl, ?_, ?_⟩
      · rw [blocks_append]
        split
        · rfl
        · rw [blocks_dirty]
          rfl
      · rw [writes_append]
        split
        · rfl
        · rw [writes_dirty]
          rfl
    · exact quiet_replying ran

theorem handleLlen_quiet {key : Bytes} (ran : handleLlen db c key = .ok (db', effects)) :
    Quiet db db' effects := by
  rw [handleLlen] at ran
  split at ran
  · exact quiet_replying ran
  · split at ran
    · obtain ⟨⟨length, lp'⟩, -, ran⟩ := exec_bind_ok.mp ran
      exact (quiet_replying ran).from rfl rfl
    · exact quiet_replying ran

theorem handleLrange_quiet {key : Bytes} {start stop : Int}
    (ran : handleLrange db c key start stop = .ok (db', effects)) : Quiet db db' effects := by
  rw [handleLrange] at ran
  split at ran
  · exact quiet_replying ran
  · split at ran
    · obtain ⟨⟨count, lp'⟩, -, ran⟩ := exec_bind_ok.mp ran
      dsimp only at ran
      generalize (if (if start < 0 then _ else start) < 0 then _ else _ : Int) = first at ran
      generalize (if stop < 0 then _ else stop : Int) = last at ran
      split at ran
      · exact (quiet_replying ran).from rfl rfl
      · split at ran
        · exact (quiet_replying ran).from rfl rfl
        · obtain ⟨result, -, ran⟩ := exec_bind_ok.mp ran
          exact (quiet_replying ran).from rfl rfl
    · exact quiet_replying ran

theorem withSortedSet_quiet {key missing : Bytes} {reply : SortedSet → Exec Bytes}
    (ran : withSortedSet db key missing reply = .ok (db', effects)) : Quiet db db' effects := by
  rw [withSortedSet] at ran
  split at ran
  · exact quiet_replying ran
  · split at ran
    · exact quiet_replying ran
    · obtain ⟨set, -, ran⟩ := exec_bind_ok.mp ran
      obtain ⟨bytes, -, ran⟩ := exec_bind_ok.mp ran
      exact quiet_replying ran

theorem openSortedSet_queues (db : DB) (key : Bytes) :
    (openSortedSet db key).1.blockedKeys = db.blockedKeys ∧
      (openSortedSet db key).1.blockedXreadKeys = db.blockedXreadKeys := by
  rw [openSortedSet]
  split <;> exact ⟨rfl, rfl⟩

theorem handleZadd_quiet (ran : handleZadd db c = .ok (db', effects)) : Quiet db db' effects := by
  rw [handleZadd] at ran
  split at ran
  · rename_i key scoreMembers asked
    obtain ⟨lists, streams⟩ := openSortedSet_queues db key
    dsimp only at ran
    split at ran
    · exact (quiet_replying ran).from lists streams
    · obtain ⟨set, -, ran⟩ := exec_bind_ok.mp ran
      obtain ⟨⟨set', added⟩, -, ran⟩ := exec_bind_ok.mp ran
      exact (quiet_replying ran).from lists streams
  · exact quiet_replying ran

theorem handleZrem_quiet (ran : handleZrem db c = .ok (db', effects)) : Quiet db db' effects := by
  rw [handleZrem] at ran
  split at ran
  · split at ran
    · exact quiet_replying ran
    · split at ran
      · exact quiet_replying ran
      · obtain ⟨set, -, ran⟩ := exec_bind_ok.mp ran
        obtain ⟨⟨set', removed⟩, -, ran⟩ := exec_bind_ok.mp ran
        exact (quiet_replying ran).from rfl rfl
  · exact quiet_replying ran

theorem handleGeoadd_quiet (ran : handleGeoadd db c = .ok (db', effects)) : Quiet db db' effects := by
  rw [handleGeoadd] at ran
  split at ran
  · rename_i key longitude latitude score member invalid asked
    obtain ⟨lists, streams⟩ := openSortedSet_queues db key
    split at ran
    · exact quiet_replying ran
    · dsimp only at ran
      split at ran
      · exact (quiet_replying ran).from lists streams
      · obtain ⟨set, -, ran⟩ := exec_bind_ok.mp ran
        obtain ⟨⟨set', existed⟩, -, ran⟩ := exec_bind_ok.mp ran
        exact (quiet_replying ran).from lists streams
  · exact quiet_replying ran

theorem handleSubscribe_quiet (ran : handleSubscribe db c = .ok (db', effects)) :
    Quiet db db' effects := by
  rw [handleSubscribe] at ran
  split at ran
  · cases ran
    exact ⟨rfl, rfl, rfl, rfl⟩
  · cases ran

theorem handleXrange_quiet {key start stop : Bytes}
    (ran : handleXrange db key start stop = .ok (db', effects)) : Quiet db db' effects := by
  rw [handleXrange] at ran
  split at ran
  · exact quiet_replying ran
  · split at ran
    · split at ran
      · exact quiet_replying ran
      · exact quiet_replying ran
      · obtain ⟨bytes, -, ran⟩ := exec_bind_ok.mp ran
        exact quiet_replying ran
    · exact quiet_replying ran

/-- PUBLISH leaves the queues alone too, but writes to its subscribers. -/
theorem handlePublish_queues (ran : handlePublish db c = .ok (db', effects)) :
    db'.blockedKeys = db.blockedKeys ∧ db'.blockedXreadKeys = db.blockedXreadKeys ∧
      blocks effects = 0 := by
  rw [handlePublish] at ran
  split at ran
  · cases ran
    refine ⟨rfl, rfl, List.countP_eq_zero.mpr fun effect member => ?_⟩
    rcases List.mem_append.mp member with sent | replied
    · obtain ⟨fd, -, inside⟩ := List.mem_flatMap.mp sent
      split at inside <;> simp at inside <;> rcases inside with rfl | rfl <;> exact Bool.false_ne_true
    · rw [List.mem_singleton.mp replied]
      exact Bool.false_ne_true
  · cases ran

/-- The commands that make a client wait or serve one that does. -/
def MovesQueues : Command → Prop
  | .rpush .. | .lpush .. | .blpop .. | .xadd .. | .xread .. => True
  | _ => False

/-- Every other command leaves the queues alone. -/
theorem callSimple_quiet {command : Command} (stays : ¬ MovesQueues command)
    (published : ∀ channelName message, command ≠ .publish channelName message)
    (ran : callSimple db c command = .ok (db', effects)) : Quiet db db' effects := by
  cases command <;> first | exact absurd trivial stays | skip
  case publish => exact absurd rfl (published _ _)
  case exec => cases ran
  case ping | unSubscribe | unknow | aclSetUser | auth | info | replConf | psync | wait | getConfig
      | echo | aclWhoami =>
    exact quiet_replying ran
  case multi =>
    cases ran
    exact ⟨rfl, rfl, rfl, rfl⟩
  case aclGetUser =>
    rw [callSimple, handleAclGetuser] at ran
    split at ran
    · exact quiet_replying ran
    · cases ran
  case discard =>
    rw [callSimple, handleDiscard] at ran
    split at ran
    · exact quiet_replying ran
    · cases ran
      exact ⟨rfl, rfl, rfl, rfl⟩
  case keys =>
    rw [callSimple, handleKeys] at ran
    split at ran
    · split at ran <;> exact quiet_replying ran
    · cases ran
      exact ⟨rfl, rfl, rfl, rfl⟩
  case set =>
    cases ran
    exact quiet_dirty_reply rfl rfl
  case get => exact handleGetOrType_quiet ran
  case type => exact handleGetOrType_quiet ran
  case incr => exact handleIncr_quiet ran
  case lrange => exact handleLrange_quiet ran
  case llen => exact handleLlen_quiet ran
  case lpop => exact handleLpop_quiet ran
  case xrange => exact handleXrange_quiet ran
  case subscribe => exact handleSubscribe_quiet ran
  case zadd => exact handleZadd_quiet ran
  case zrem => exact handleZrem_quiet ran
  case geoAdd => exact handleGeoadd_quiet ran
  all_goals
    rw [callSimple] at ran
    first
      | rw [handleZrank] at ran | rw [handleZrange] at ran | rw [handleZcard] at ran
      | rw [handleZscore] at ran | rw [handleGeopos] at ran | rw [handleGeodist] at ran
      | rw [handleGeosearch] at ran
    split at ran
    · exact withSortedSet_quiet ran
    · exact quiet_replying ran

section Moves
variable {β γ : Type} {kind : Kind β} {other : Kind γ} {queues : Map Bytes (List β)}
  {others : Map Bytes (List γ)} {h : WaitHistory} {key : Bytes}

/-- A registration joins the end of its queue. -/
theorem Kind.Queues.register (held : kind.Queues queues h) (sound : h.Sound Waiter.place)
    (blocked : β) : kind.Queues (queues.insert key (queueOf queues key ++ [blocked]))
      (h.register (kind.wrap key blocked)) := by
  intro place
  rw [History.waiting_register sound.exact, List.map_append, held place, kind.home]
  by_cases same : place = key
  · subst same
    rw [if_pos rfl, queueOf_insert, List.map_append]
    rfl
  · rw [if_neg fun equal => same (kind.place_injective equal).symm, queueOf_insert_ne _ same]
    exact List.append_nil _

theorem Kind.Queues.register_other (held : other.Queues others h) (sound : h.Sound Waiter.place)
    (apart : ∀ one two, other.place one ≠ kind.place two) (blocked : β) :
    other.Queues others (h.register (kind.wrap key blocked)) := by
  intro place
  rw [History.waiting_register sound.exact, kind.home, if_neg (apart place key).symm, List.append_nil]
  exact held place

theorem Kind.Queues.remove_other {removals : List (Removal Waiter Bytes)}
    (held : other.Queues others h) (apart : ∀ one two, other.place one ≠ kind.place two)
    (part : History.taken removals ⊆ h.waiting Waiter.place (kind.place key)) :
    other.Queues others (h.remove removals) := by
  intro place
  rw [History.waiting_remove_other part (apart place key)]
  exact held place

/-- The entries in front of a queue, with their labels. -/
theorem Kind.Queues.labels (held : kind.Queues queues h) {front rest : List β}
    (queue : queueOf queues key = front ++ rest) :
    ∃ ahead behind, h.waiting Waiter.place (kind.place key) = ahead ++ behind ∧
      ahead.map Prod.fst = front.map (kind.wrap key) ∧
      behind.map Prod.fst = rest.map (kind.wrap key) := by
  have whole := held key
  rw [queue, List.map_append] at whole
  exact List.map_eq_append_iff.mp whole

/-- Removals from one queue leave the rest of it. -/
theorem Kind.Queues.remove (held : kind.Queues queues h) {removals : List (Removal Waiter Bytes)}
    (part : History.taken removals ⊆ h.waiting Waiter.place (kind.place key)) {rest : List β}
    (left : ((h.remove removals).waiting Waiter.place (kind.place key)).map Prod.fst =
      rest.map (kind.wrap key)) :
    kind.Queues (popFront queues key rest) (h.remove removals) := by
  intro place
  by_cases same : place = key
  · subst same
    rw [left, queueOf_popFront]
  · rw [queueOf_popFront_ne _ same, ← held place,
      History.waiting_remove_other part fun equal => same (kind.place_injective equal)]

/-- One reply to each client that still exists. -/
def repliesTo (env : Env) (reply : Waiter → Bytes) (waiters : List Waiter) : List (Fd × Bytes) :=
  waiters.filterMap fun waiter =>
    if env.alive waiter.fd then some (waiter.fd, reply waiter) else none

theorem repliesTo_cons (env : Env) (reply : Waiter → Bytes) (waiter : Waiter) (rest : List Waiter) :
    repliesTo env reply (waiter :: rest) =
      (if env.alive waiter.fd then [(waiter.fd, reply waiter)] else []) ++ repliesTo env reply rest := by
  rw [repliesTo, List.filterMap_cons]
  split
  · rename_i gone
    split at gone
    · cases gone
    · rw [if_neg ‹_›]
      rfl
  · rename_i sent
    split at sent
    · cases sent
      rw [if_pos ‹_›]
      rfl
    · cases sent

theorem answersTo_gone (env : Env) (served : Bool) (reply : Waiter → Bytes)
    (entries : List (Waiter × Nat)) :
    answersTo env (History.gone served reply entries) =
      repliesTo env reply (entries.map Prod.fst) := by
  rw [answersTo, History.gone, repliesTo, List.filterMap_map, List.filterMap_map]
  rfl

/-- Serving the front of a queue: who is answered, and the queues behind. -/
theorem Kind.Queues.serve (held : kind.Queues queues h) (sound : h.Sound Waiter.place)
    (env : Env) (reply : Waiter → Bytes) {front rest : List β}
    (queue : queueOf queues key = front ++ rest) :
    ∃ removals : List (Removal Waiter Bytes),
      (∀ removal ∈ removals, removal.served = true ∧ removal.reply = reply removal.entry) ∧
      removals.map Removal.entry = front.map (kind.wrap key) ∧
      History.taken removals ⊆ h.waiting Waiter.place (kind.place key) ∧
      answersTo env removals = repliesTo env reply (front.map (kind.wrap key)) ∧
      (h.remove removals).Sound Waiter.place ∧
      kind.Queues (popFront queues key rest) (h.remove removals) := by
  obtain ⟨ahead, behind, shape, same, left⟩ := held.labels queue
  have taken := History.taken_gone true reply ahead
  have part : History.taken (History.gone true reply ahead) ⊆
      h.waiting Waiter.place (kind.place key) := by
    rw [taken, shape]
    exact List.subset_append_left _ _
  refine ⟨History.gone true reply ahead, ?_, ?_, part, ?_, ?_, ?_⟩
  · intro removal member
    obtain ⟨entry, -, rfl⟩ := List.mem_map.mp member
    exact ⟨rfl, rfl⟩
  · rw [← same, History.gone, List.map_map]
    rfl
  · rw [answersTo_gone, same]
  · exact History.serve_sound sound (by rw [taken]; exact shape)
  · refine held.remove part ?_
    rw [History.waiting_remove_front (by rw [taken]; exact shape), left]

/-- Giving up on the clients of one queue whose time is up. -/
theorem Kind.Queues.expire (held : kind.Queues queues h) (sound : h.Sound Waiter.place)
    {up : β → Bool} {gone : Waiter → Bool} (agree : ∀ blocked, gone (kind.wrap key blocked) = up blocked) :
    ∃ removals : List (Removal Waiter Bytes),
      (∀ removal ∈ removals, removal.served = false ∧ gone removal.entry = true ∧
        removal.reply = encodeNullArray) ∧
      History.taken removals ⊆ h.waiting Waiter.place (kind.place key) ∧
      removals.map Removal.entry = ((queueOf queues key).filter up).map (kind.wrap key) ∧
      (h.remove removals).Sound Waiter.place ∧
      kind.Queues (popFront queues key ((queueOf queues key).filter fun blocked => !up blocked))
        (h.remove removals) := by
  have taken := History.taken_gone false (fun _ => encodeNullArray)
    ((h.waiting Waiter.place (kind.place key)).filter fun entry => gone entry.1)
  have chosen : ∀ p : Bool → Bool,
      ((h.waiting Waiter.place (kind.place key)).filter fun entry => p (gone entry.1)).map Prod.fst =
        ((queueOf queues key).filter fun blocked => p (up blocked)).map (kind.wrap key) := by
    intro p
    rw [show (fun entry : Waiter × Nat => p (gone entry.1)) = (fun waiter => p (gone waiter)) ∘ Prod.fst
      from rfl, ← List.filter_map, held key, List.filter_map]
    congr 1
    refine List.filter_congr fun blocked _ => ?_
    rw [Function.comp_apply, agree]
  have part : History.taken (History.gone false (fun _ => encodeNullArray)
      ((h.waiting Waiter.place (kind.place key)).filter fun entry => gone entry.1)) ⊆
      h.waiting Waiter.place (kind.place key) := by
    rw [taken]
    exact List.filter_subset_self _
  refine ⟨_, ?_, part, ?_, ?_, ?_⟩
  · intro removal member
    obtain ⟨entry, inside, rfl⟩ := List.mem_map.mp member
    exact ⟨rfl, (List.mem_filter.mp inside).2, rfl⟩
  · rw [History.gone, List.map_map]
    exact chosen id
  · refine History.expire_sound sound (?_ : List.Sublist _ (h.waiting Waiter.place (kind.place key))) ?_
    · rw [taken]
      exact List.filter_sublist
    · intro removal member
      obtain ⟨entry, -, rfl⟩ := List.mem_map.mp member
      rfl
  · refine held.remove part ?_
    rw [History.waiting_remove_filter taken]
    exact chosen (! ·)

end Moves

/-! ## One step -/

/-- What a step did is told by a record, with which the history goes on. -/
def Told (h : WaitHistory) (db : DB) (step : WaitStep) (db' : DB) (effects : List Effect) : Prop :=
  ∃ record : WaitRecord, record.Tells db step db' effects ∧ db'.Waits (extend h record)

variable {h : WaitHistory}

theorem DB.Waits.congr (waits : db.Waits h) (lists : db'.blockedKeys = db.blockedKeys)
    (streams : db'.blockedXreadKeys = db.blockedXreadKeys) : db'.Waits h :=
  ⟨waits.sound, by rw [lists]; exact waits.lists, by rw [streams]; exact waits.streams⟩

theorem extend_nil (h : WaitHistory) : extend h {} = h := by
  rw [extend, List.append_nil, List.append_nil]

theorem extend_removals (h : WaitHistory) (removals : List (Removal Waiter Bytes)) :
    extend h { removals } = h.remove removals := by
  rw [extend, List.append_nil, History.remove]

theorem extend_registered (h : WaitHistory) (waiter : Waiter) :
    extend h { registered := [waiter] } = h.register waiter := by
  rw [extend, List.append_nil, History.register]

/-- A step that leaves the queues alone, and sends nothing to those who wait. -/
theorem told_same {step : WaitStep} (waits : db'.Waits h) (calm : blocks effects = 0)
    (silent : step.answers effects = []) : Told h db step db' effects :=
  ⟨{}, ⟨calm.symm, silent, .nothing⟩, (extend_nil h).symm ▸ waits⟩

theorem Quiet.told {command : Command} (quiet : Quiet db db' effects) (waits : db.Waits h) :
    Told h db (.request c command) db' effects := by
  refine told_same (waits.congr quiet.blockedKeys quiet.blockedXreadKeys) quiet.blocks ?_
  cases command <;> first | exact quiet.writes | rfl

/-- A client starts to wait. -/
theorem told_registered {command : Command} {waiter : Waiter} (asked : waiter.Asked db c command)
    (waits : db'.Waits (h.register waiter)) :
    Told h db (.request c command) db' [.block] := by
  refine ⟨{ registered := [waiter] }, ⟨rfl, ?_, .asked asked⟩,
    (extend_registered h waiter).symm ▸ waits⟩
  cases asked <;> rfl

/-- Clients do not wait any more. -/
theorem told_removed {step : WaitStep} {removals : List (Removal Waiter Bytes)}
    (origin : WaitRecord.From db db' step { removals }) (waits : db'.Waits (h.remove removals))
    (calm : blocks effects = 0) (answered : step.answers effects = answersTo step.env removals) :
    Told h db step db' effects :=
  ⟨{ removals }, ⟨calm.symm, answered, origin⟩, (extend_removals h removals).symm ▸ waits⟩

private theorem lists_apart (one two : Bytes) : listKind.place one ≠ streamKind.place two :=
  fun same => nomatch same

private theorem streams_apart (one two : Bytes) : streamKind.place one ≠ listKind.place two :=
  fun same => nomatch same

theorem handlePush_told (waits : db.Waits h) {command : Command} {isPrepend : Bool} {key : Bytes}
    {values : List Bytes} (pushes : command = .rpush key values ∨ command = .lpush key values)
    (ran : handlePush db c isPrepend key values = .ok (db', effects)) :
    Told h db (.request c command) db' effects := by
  have answers : (WaitStep.request c command).answers effects = writes effects := by
    rcases pushes with rfl | rfl <;> rfl
  unfold handlePush at ran
  split at ran
  · rename_i blocked queue first rest lookup
    obtain ⟨⟨db₁, len⟩, pushed, ran⟩ := exec_bind_ok.mp ran
    obtain ⟨store, rfl, -⟩ := pushValues_frame pushed
    have front : queueOf db.blockedKeys key = [blocked] ++ queue := by rw [queueOf, lookup]; rfl
    obtain ⟨removals, all, entries, part, answered, sound, left⟩ :=
      @Kind.Queues.serve _ listKind _ _ _ waits.lists waits.sound c.env
        (fun _ => encodeBulkStringArray [key, first]) _ _ front
    obtain ⟨⟨label, entry, served, reply⟩, rfl, rfl⟩ := List.map_eq_singleton_iff.mp entries
    obtain ⟨rfl, rfl⟩ := all _ (List.mem_singleton_self _)
    cases ran
    refine told_removed (.handedOver pushes)
      ⟨sound, left, waits.streams.remove_other streams_apart part⟩ ?_ (answers.trans ?_)
    · split <;> rfl
    · refine Eq.trans ?_ answered.symm
      rw [writes_append, List.map_singleton, repliesTo_cons]
      show writes (if c.env.alive blocked.clientFd = true then _ else _) ++ [] =
        (if c.env.alive blocked.clientFd = true then _ else _) ++ []
      split <;> rfl
  · obtain ⟨⟨db₁, len⟩, pushed, ran⟩ := exec_bind_ok.mp ran
    obtain ⟨store, rfl, -⟩ := pushValues_frame pushed
    cases ran
    have quiet : Quiet db { db with store } (markWatchingClientsDirty { db with store } c.env key ++
      [.reply (encodeInteger len)]) := quiet_dirty_reply rfl rfl
    exact quiet.told waits

theorem BlockedClient.make_fd {now : Int} {fd : Fd} {timeout : Float} {blocked : BlockedClient}
    (made : BlockedClient.make now fd timeout = .ok blocked) : blocked.clientFd = fd := by
  rw [BlockedClient.make] at made
  split at made
  · cases made
    rfl
  · obtain ⟨milliseconds, -, made⟩ := exec_bind_ok.mp made
    cases made
    rfl

theorem BlockedXreadClient.make_fields {now : Int} {fd : Fd} {timeout : Float} {streamId key : Bytes}
    {blocked : BlockedXreadClient} (made : BlockedXreadClient.make now fd timeout streamId key = .ok blocked) :
    blocked.clientFd = fd ∧ blocked.streamKey = key ∧ blocked.streamId = streamId := by
  rw [BlockedXreadClient.make] at made
  split at made
  · cases made
    exact ⟨rfl, rfl, rfl⟩
  · obtain ⟨milliseconds, -, made⟩ := exec_bind_ok.mp made
    cases made
    exact ⟨rfl, rfl, rfl⟩

/-- A client joins the queue of a list. -/
theorem DB.Waits.register_list (waits : db.Waits h) (key : Bytes) (blocked : BlockedClient) :
    DB.Waits { db with blockedKeys := db.blockedKeys.insert key (queueOf db.blockedKeys key ++ [blocked]) }
      (h.register (.list key blocked)) where
  sound := History.register_sound waits.sound _
  lists := waits.lists.register waits.sound blocked
  streams := @Kind.Queues.register_other _ _ listKind _ _ _ _ waits.streams waits.sound
    streams_apart blocked

/-- A client joins the queue of a stream. -/
theorem DB.Waits.register_stream (waits : db.Waits h) (key : Bytes) (blocked : BlockedXreadClient) :
    DB.Waits { db with
        blockedXreadKeys := db.blockedXreadKeys.insert key (queueOf db.blockedXreadKeys key ++ [blocked]) }
      (h.register (.stream key blocked)) where
  sound := History.register_sound waits.sound _
  lists := @Kind.Queues.register_other _ _ streamKind _ _ _ _ waits.lists waits.sound
    lists_apart blocked
  streams := waits.streams.register waits.sound blocked

theorem handleBlpop_told (waits : db.Waits h) {keys : List Bytes} {timeout : Float}
    (ran : handleBlpop db c keys timeout = .ok (db', effects)) :
    Told h db (.request c (.blpop keys timeout)) db' effects := by
  have waited (ran : (do
      let blocked ← BlockedClient.make c.env.clock.steady c.fd timeout
      let queue := (db.blockedKeys.lookup (keys.headD [])).getD [] ++ [blocked]
      pure ({ db with blockedKeys := db.blockedKeys.insert (keys.headD []) queue }, [.block]) :
        Outcome) = .ok (db', effects)) : Told h db (.request c (.blpop keys timeout)) db' effects := by
    obtain ⟨blocked, made, ran⟩ := exec_bind_ok.mp ran
    cases ran
    exact told_registered (.blpop made) (waits.register_list _ blocked)
  rw [handleBlpop] at ran
  dsimp only at ran
  split at ran
  · exact waited ran
  · split at ran
    · obtain ⟨first, -, ran⟩ := exec_bind_ok.mp ran
      split at ran
      · exact waited ran
      · obtain ⟨value, -, ran⟩ := exec_bind_ok.mp ran
        obtain ⟨deleted, -, ran⟩ := exec_bind_ok.mp ran
        have quiet : Quiet db db' effects := (quiet_replying ran).from rfl rfl
        exact quiet.told waits
    · exact (quiet_replying ran).told waits

theorem handleXread_told (waits : db.Waits h) {block : Option Float} {keys ids : List Bytes}
    (ran : handleXread db c block keys ids = .ok (db', effects)) :
    Told h db (.request c (.xread block keys ids)) db' effects := by
  rw [handleXread] at ran
  split at ran
  · exact (quiet_replying ran).told waits
  · obtain ⟨collected, found, ran⟩ := exec_bind_ok.mp ran
    split at ran
    · cases ran
      obtain ⟨key, id, timeout, member, rfl, marked⟩ := collectReplies_asks found
      rw [markClientBlocking] at marked
      obtain ⟨blocked, made, marked⟩ := exec_bind_ok.mp marked
      cases marked
      exact told_registered (.xread member made) (waits.register_stream key blocked)
    · exact (quiet_replying ran).told waits
    · obtain ⟨bytes, -, ran⟩ := exec_bind_ok.mp ran
      exact (quiet_replying ran).told waits

/-- What a waiting reader is sent. -/
def xreadReply (db : DB) : Waiter → Bytes
  | .list .. => []
  | .stream _ blocked => (xreadResponse db blocked.streamKey blocked.streamId).toOption.getD []

/-- What serving a queue of readers writes. -/
theorem serveXreadClients_writes {env : Env} {key : Bytes} {queue : List BlockedXreadClient}
    (ran : serveXreadClients db env queue = .ok effects) : blocks effects = 0 ∧
      writes effects = repliesTo env (xreadReply db) (queue.map (Waiter.stream key)) ∧
      ∀ blocked ∈ queue, env.alive blocked.clientFd = true →
        xreadResponse db blocked.streamKey blocked.streamId =
          .ok (xreadReply db (.stream key blocked)) := by
  induction queue generalizing effects with
  | nil =>
    cases ran
    exact ⟨rfl, rfl, fun _ absent => absurd absent List.not_mem_nil⟩
  | cons blocked rest ih =>
    rw [serveXreadClients] at ran
    rw [List.map_cons, repliesTo_cons]
    split at ran
    · rename_i alive
      obtain ⟨response, answered, ran⟩ := exec_bind_ok.mp ran
      rw [exec_pure, exec_ok_bind] at ran
      obtain ⟨later, following, ran⟩ := exec_bind_ok.mp ran
      obtain ⟨calm, written, each⟩ := ih following
      cases ran
      have own : xreadReply db (.stream key blocked) = response := by
        rw [xreadReply, answered]
        rfl
      refine ⟨calm, ?_, List.forall_mem_cons.mpr ⟨fun _ => own.symm ▸ answered, each⟩⟩
      rw [writes_append, written, show (Waiter.stream key blocked).fd = blocked.clientFd from rfl,
        if_pos alive, own]
      rfl
    · rename_i alive
      rw [exec_pure, exec_ok_bind] at ran
      obtain ⟨later, following, ran⟩ := exec_bind_ok.mp ran
      obtain ⟨calm, written, each⟩ := ih following
      cases ran
      refine ⟨calm, ?_, List.forall_mem_cons.mpr ⟨fun lives => absurd lives alive, each⟩⟩
      rw [writes_append, written, show (Waiter.stream key blocked).fd = blocked.clientFd from rfl,
        if_neg alive]
      rfl

theorem handleXadd_told (waits : db.Waits h) {key streamId : Bytes}
    {fieldValues : List (Bytes × Bytes)}
    (ran : handleXadd db c key streamId fieldValues = .ok (db', effects)) :
    Told h db (.request c (.xadd key streamId fieldValues)) db' effects := by
  rw [handleXadd] at ran
  dsimp only at ran
  have opened : (openStream db key).1.blockedKeys = db.blockedKeys ∧
      (openStream db key).1.blockedXreadKeys = db.blockedXreadKeys := by
    rw [openStream]
    split <;> exact ⟨rfl, rfl⟩
  split at ran
  · exact ((quiet_replying ran).from opened.1 opened.2).told waits
  · obtain ⟨stream, -, ran⟩ := exec_bind_ok.mp ran
    split at ran
    · exact ((quiet_replying ran).from opened.1 opened.2).told waits
    · obtain ⟨⟨db₁, served⟩, woken, ran⟩ := exec_bind_ok.mp ran
      generalize (openStream db key).1 = opened₁ at *
      cases ran
      have waits₁ : opened₁.Waits h := waits.congr opened.1 opened.2
      rw [handleBlockedXreadClients] at woken
      split at woken
      · rename_i blocked queue lookup
        obtain ⟨sent, serving, woken⟩ := exec_bind_ok.mp woken
        obtain ⟨calm, written, each⟩ := @serveXreadClients_writes _ _ _ key _ serving
        have front : queueOf opened₁.blockedXreadKeys key = (blocked :: queue) ++ [] := by
          rw [queueOf]
          exact (congrArg (Option.getD · []) lookup).trans (List.append_nil _).symm
        obtain ⟨removals, all, entries, part, answered, sound, left⟩ :=
          @Kind.Queues.serve _ streamKind _ _ _ waits₁.streams waits₁.sound c.env
            (xreadReply _) _ _ front
        cases woken
        refine told_removed (.read fun removal member => ?_)
          ⟨sound, waits₁.lists.remove_other lists_apart part, left⟩ ?_ ?_
        · obtain ⟨given, reply⟩ := all removal member
          obtain ⟨waiter, inside, same⟩ := List.mem_map.mp (entries ▸ List.mem_map_of_mem member)
          refine ⟨given, waiter, same.symm, fun alive => ?_⟩
          rw [reply, ← same]
          exact each waiter inside alive
        · show blocks (.reply _ :: (markWatchingClientsDirty _ c.env key ++ served)) = 0
          rw [← List.singleton_append, blocks_append, blocks_append, blocks_dirty, calm]
          rfl
        · show writes (.reply _ :: (markWatchingClientsDirty _ c.env key ++ served)) = _
          rw [← List.singleton_append, writes_append, writes_append, writes_dirty, written]
          exact answered.symm
      · cases woken
        refine told_same (waits₁.congr rfl rfl) ?_ ?_
        · show blocks (.reply _ :: (markWatchingClientsDirty _ c.env key ++ [])) = 0
          rw [List.append_nil]
          exact blocks_dirty _ c.env key
        · show writes (.reply _ :: (markWatchingClientsDirty _ c.env key ++ [])) = []
          rw [List.append_nil]
          exact writes_dirty _ c.env key

/-! ## Sweeps -/

theorem remove_remove (h : WaitHistory) (first second : List (Removal Waiter Bytes)) :
    (h.remove first).remove second = h.remove (first ++ second) := by
  rw [History.remove, History.remove, History.remove, List.append_assoc]

/-- Sweeping one of the maps, from some of its keys on. -/
theorem Kind.Queues.sweep {β : Type} {kind : Kind β} {env : Env} {timeoutAt : β → Int}
    {clientFd : β → Fd} (times : ∀ key blocked, (kind.wrap key blocked).timeoutAt = timeoutAt blocked)
    (fds : ∀ key blocked, (kind.wrap key blocked).fd = clientFd blocked)
    {queues : Map Bytes (List β)} {keys : List Bytes} (distinct : keys.Nodup) :
    ∀ {left : Map Bytes (List β)} {h : WaitHistory} (expired : List Fd), kind.Queues left h →
      h.Sound Waiter.place → (∀ key ∈ keys, queueOf left key = queueOf queues key) →
      ∃ removals left', GivenUp env removals ∧ (h.remove removals).Sound Waiter.place ∧
        keys.foldl (fun (left, expired) key =>
          let queue := (queues.lookup key).getD []
          let kept := queue.filter fun blocked => !isExpired env.clock.steady (timeoutAt blocked)
          let gone := queue.filter fun blocked => isExpired env.clock.steady (timeoutAt blocked)
          (popFront left key kept, expired ++ gone.map clientFd)) (left, expired) =
            (left', expired ++ removals.map fun removal => removal.entry.fd) ∧
        kind.Queues left' (h.remove removals) ∧
        ∀ (γ : Type) (other : Kind γ) (others : Map Bytes (List γ)),
          (∀ one two, other.place one ≠ kind.place two) → other.Queues others h →
            other.Queues others (h.remove removals) := by
  induction keys with
  | nil =>
    intro left h expired held sound _
    have unchanged : h.remove [] = h := by rw [History.remove, List.append_nil]
    refine ⟨[], left, fun _ absent => absurd absent List.not_mem_nil, ?_, ?_, ?_, fun _ _ _ _ same => ?_⟩
    · rwa [unchanged]
    · rw [List.map_nil, List.append_nil]
      rfl
    · rwa [unchanged]
    · rwa [unchanged]
  | cons key rest ih =>
    intro left h expired held sound agree
    obtain ⟨fresh, distinct⟩ := List.nodup_cons.mp distinct
    have here : (queues.lookup key).getD [] = queueOf left key := (agree key List.mem_cons_self).symm
    obtain ⟨first, given, part, entries, sound₁, held₁⟩ :=
      @Kind.Queues.expire _ kind left h key held sound
        (fun blocked => isExpired env.clock.steady (timeoutAt blocked))
        (fun waiter => isExpired env.clock.steady waiter.timeoutAt)
        (fun blocked => congrArg _ (times key blocked))
    obtain ⟨later, left', given', sound₂, swept, held₂, others₂⟩ :=
      ih distinct (expired ++ first.map fun removal => removal.entry.fd) held₁ sound₁
        (fun other member => by
          have different : other ≠ key := fun same => fresh (same ▸ member)
          rw [queueOf_popFront_ne _ different]
          exact agree other (List.mem_cons_of_mem _ member))
    refine ⟨first ++ later, left', ?_, ?_, ?_, ?_, ?_⟩
    · intro removal member
      rcases List.mem_append.mp member with old | new
      · exact given removal old
      · exact given' removal new
    · rwa [← remove_remove]
    · have gone : first.map (fun removal => removal.entry.fd) =
          ((queueOf left key).filter fun blocked =>
            isExpired env.clock.steady (timeoutAt blocked)).map clientFd := by
        rw [show (fun removal : Removal Waiter Bytes => removal.entry.fd) =
          Waiter.fd ∘ Removal.entry from rfl, ← List.map_map, entries, List.map_map]
        exact List.map_congr_left fun blocked _ => fds key blocked
      rw [List.foldl_cons]
      dsimp only
      rw [here, ← gone, swept, List.map_append, List.append_assoc]
    · rwa [← remove_remove]
    · intro γ other others apart same
      rw [← remove_remove]
      exact others₂ γ other others apart (same.remove_other apart part)

theorem walk_nodup (env : Env) (keys : Finset Bytes) : (env.walk keys).Nodup := by
  rw [← Multiset.coe_nodup, env.walk_all]
  exact keys.nodup

private theorem answersTo_nullArray {env : Env} {removals : List (Removal Waiter Bytes)}
    (given : GivenUp env removals) : answersTo env removals =
      ((removals.map fun removal => removal.entry.fd).filter env.alive).map (·, encodeNullArray) := by
  induction removals with
  | nil => rfl
  | cons removal rest ih =>
    have later := ih fun other member => given other (List.mem_cons_of_mem _ member)
    have reply := (given removal List.mem_cons_self).2.2
    rw [List.map_cons, List.filter_cons, answersTo, List.filterMap_cons]
    rw [answersTo] at later
    by_cases alive : env.alive removal.entry.fd = true
    · rw [if_pos alive, if_pos alive, later, reply, List.map_cons]
    · rw [if_neg alive, if_neg alive, later]

/-- A sweep gives up on registrations of both kinds whose time is up, and
answers those whose clients still exist. -/
theorem sweep_waits (waits : db.Waits h) (env : Env) :
    ∃ removals, GivenUp env removals ∧
      (checkAndExpireBlockedClients db env).1.Waits (h.remove removals) ∧
      writes (checkAndExpireBlockedClients db env).2 = answersTo env removals ∧
      blocks (checkAndExpireBlockedClients db env).2 = 0 := by
  obtain ⟨first, left₁, given₁, sound₁, swept₁, held₁, others₁⟩ :=
    @Kind.Queues.sweep _ listKind env BlockedClient.timeoutAt BlockedClient.clientFd
      (fun _ _ => rfl) (fun _ _ => rfl) db.blockedKeys _ (walk_nodup env db.blockedKeys.keys) _ _ []
      waits.lists waits.sound fun _ _ => rfl
  obtain ⟨later, left₂, given₂, sound₂, swept₂, held₂, others₂⟩ :=
    @Kind.Queues.sweep _ streamKind env BlockedXreadClient.timeoutAt BlockedXreadClient.clientFd
      (fun _ _ => rfl) (fun _ _ => rfl) db.blockedXreadKeys _ (walk_nodup env db.blockedXreadKeys.keys)
      _ _ [] (others₁ _ _ _ streams_apart waits.streams) sound₁ fun _ _ => rfl
  have given : GivenUp env (first ++ later) := by
    intro removal member
    rcases List.mem_append.mp member with old | new
    · exact given₁ removal old
    · exact given₂ removal new
  have swept : checkAndExpireBlockedClients db env =
      ({ db with blockedKeys := left₁, blockedXreadKeys := left₂ },
        (((first ++ later).map fun removal => removal.entry.fd).filter env.alive).map
          fun fd => .write fd encodeNullArray) := by
    rw [checkAndExpireBlockedClients, expireQueues, expireQueues, swept₁, swept₂, List.map_append]
    rfl
  refine ⟨first ++ later, given, ?_, ?_, ?_⟩
  · rw [swept, ← remove_remove]
    exact ⟨sound₂, others₂ _ _ _ lists_apart held₁, held₂⟩
  · rw [swept, answersTo_nullArray given, writes, List.filterMap_map]
    exact congrFun List.filterMap_eq_map _
  · rw [swept, blocks, List.countP_map]
    exact List.countP_eq_zero.mpr fun _ _ => Bool.false_ne_true

/-! ## Runs -/

theorem callSimple_told (waits : db.Waits h) {command : Command}
    (published : ∀ channelName message, command ≠ .publish channelName message)
    (ran : callSimple db c command = .ok (db', effects)) :
    Told h db (.request c command) db' effects := by
  by_cases moves : MovesQueues command
  · cases command <;> first | exact False.elim moves | skip
    case rpush => exact handlePush_told waits (.inl rfl) ran
    case lpush => exact handlePush_told waits (.inr rfl) ran
    case blpop => exact handleBlpop_told waits ran
    case xadd => exact handleXadd_told waits ran
    case xread => exact handleXread_told waits ran
  · exact (callSimple_quiet moves published ran).told waits

/-- Every step extends the history by a record that tells what it did. -/
theorem step_told (waits : db.Waits h) {step : WaitStep} (ran : step.run db = .ok (db', effects)) :
    Told h db step db' effects := by
  cases step with
  | sweep env =>
    cases ran
    obtain ⟨removals, given, waits', written, calm⟩ := sweep_waits waits env
    exact told_removed (.gaveUp given) waits' calm written
  | request c command =>
    by_cases published : ∃ channelName message, command = .publish channelName message
    · obtain ⟨channelName, message, rfl⟩ := published
      obtain ⟨lists, streams, calm⟩ := handlePublish_queues ran
      exact told_same (waits.congr lists streams) calm rfl
    · exact callSimple_told waits (fun channelName message same => published ⟨_, _, same⟩) ran

private theorem runWaits_recorded (waits : db.Waits h) {steps : List WaitStep}
    {outputs : List (List Effect)} (ran : runWaits db steps = .ok (db', outputs)) :
    ∃ records h', Recorded db h steps outputs records db' h' := by
  induction steps generalizing db h outputs with
  | nil =>
    cases ran
    exact ⟨[], h, .nil waits⟩
  | cons step rest ih =>
    obtain ⟨⟨db₁, effects⟩, first, ran⟩ := exec_bind_ok.mp ran
    obtain ⟨⟨db₂, later⟩, following, ran⟩ := exec_bind_ok.mp ran
    cases ran
    obtain ⟨record, tells, waits₁⟩ := step_told waits first
    obtain ⟨records, h', recorded⟩ := ih waits₁ following
    exact ⟨record :: records, h', .cons waits first tells recorded⟩

/-- Over every run from a database where nobody waits, there is a history of
registrations and removals that tells what each step did and whose queues are
those of the database behind every step. In it no registration is removed
twice, and whoever is served has nobody in front of it in its queue. -/
theorem registrations_answered_once (lists : db.blockedKeys = ∅) (streams : db.blockedXreadKeys = ∅)
    {steps : List WaitStep} {outputs : List (List Effect)}
    (ran : runWaits db steps = .ok (db', outputs)) :
    ∃ records h, Recorded db {} steps outputs records db' h := by
  have idle : db.Waits {} := by
    refine ⟨History.sound_nil, fun key => ?_, fun key => ?_⟩
    · rw [lists]
      rfl
    · rw [streams]
      rfl
  exact runWaits_recorded idle ran

/-- Two clients wait for a list, another one pushes a value to it, and a sweep
gives up on the one that is left. -/
def waitsSample : List WaitStep :=
  [.request Context.sample (.blpop [ascii "k"] 0.0),
    .request { Context.sample with fd := 6 } (.blpop [ascii "k"] 0.5),
    .request { Context.sample with fd := 7 } (.rpush (ascii "k") [ascii "v"]),
    .sweep { Context.sample.env with clock := ⟨1000, 1000⟩ }]

theorem registrations_answered_once_sample : ∃ db' outputs,
    runWaits {} waitsSample = .ok (db', outputs) ∧
    ∃ records h, Recorded {} {} waitsSample outputs records db' h := by
  obtain ⟨⟨db', outputs⟩, ran⟩ := @exec_of_isOk _ (runWaits {} waitsSample) (by decide +kernel)
  exact ⟨db', outputs, ran, registrations_answered_once rfl rfl ran⟩

end CarrotDb
