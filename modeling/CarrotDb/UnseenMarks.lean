import CarrotDb.ExpiredKeys

/-! The marks of transactions. Queueing a command registers its client as a
watcher of the key, and a write marks the watchers of its key as dirty; but
nothing ever looks at either, so no reply and no value depends on them. -/
namespace CarrotDb
open Decimal Resp FloatText Listpack Lockstep

/-- The database with nobody watching. -/
def DB.unwatched (db : DB) : DB := { db with watchingKeys := ∅ }

/-- What a handler does to clients, but for the marks. -/
def visible (effects : List Effect) : List Effect :=
  effects.filter fun
    | .dirty _ => false
    | _ => true

/-- An outcome, but for watchers and marks. -/
def veiled (outcome : Exec (DB × List Effect)) : Exec (DB × List Effect) :=
  outcome.map fun result => (result.1.unwatched, visible result.2)

variable {db db' : DB} {c : Context} {key : Bytes} {effects : List Effect}

@[simp] theorem visible_nil : visible [] = [] := rfl

@[simp] theorem visible_append (first second : List Effect) :
    visible (first ++ second) = visible first ++ visible second := List.filter_append ..

@[simp] theorem visible_marks (db : DB) (env : Env) (key : Bytes) :
    visible (markWatchingClientsDirty db env key) = [] := by
  apply List.filter_eq_nil_iff.mpr
  intro effect member
  obtain ⟨fd, -, rfl⟩ := List.mem_map.mp member
  simp

theorem visible_reply (bytes : Bytes) (rest : List Effect) :
    visible (.reply bytes :: rest) = .reply bytes :: visible rest := rfl

@[simp] theorem veiled_ok (result : DB × List Effect) :
    veiled (.ok result) = .ok (result.1.unwatched, visible result.2) := rfl

@[simp] theorem veiled_error (fault : Fault) : veiled (.error fault) = .error fault := rfl

@[simp] theorem veiled_bind (first : Exec α) (next : α → Outcome) :
    veiled (first >>= next) = first >>= fun value => veiled (next value) := by
  cases first <;> rfl

theorem handleSet_veiled (value : Bytes) (ex px : Option Nat) :
    veiled (handleSet db.unwatched c key value ex px) = veiled (handleSet db c key value ex px) := by
  simp [handleSet, DB.unwatched]

theorem expireIfDue_unwatched (now : Int) :
    expireIfDue db.unwatched now key = (expireIfDue db now key).map DB.unwatched := by
  simp only [expireIfDue, DB.unwatched]
  repeat' split
  all_goals rfl

theorem handleGetOrType_veiled (isTypeCommand : Bool) :
    veiled (handleGetOrType db.unwatched c isTypeCommand key) =
      veiled (handleGetOrType db c isTypeCommand key) := by
  simp only [handleGetOrType, expireIfDue_unwatched]
  cases expireIfDue db c.env.clock.steady key with
  | error fault => rfl
  | ok db₁ =>
    simp only [Except.map, exec_ok_bind]
    simp only [DB.unwatched]
    split
    · split
      · split
        · rfl
        · simp only [veiled_bind]
          rfl
      · split <;> rfl
      · rfl
    · rfl

theorem handleIncr_veiled :
    veiled (handleIncr db.unwatched c key) = veiled (handleIncr db c key) := by
  simp only [handleIncr, DB.unwatched]
  split
  · simp [DB.unwatched]
  · split
    · simp only [veiled_bind]
      congr
      funext text
      split
      · simp [DB.unwatched, visible_reply]
      · rfl
    · rfl

theorem map_bind (first : Exec α) (next : α → Exec β) (f : β → γ) :
    (first >>= next).map f = first >>= fun value => (next value).map f := by
  cases first <;> rfl

/-- A result with nobody watching the database in it. -/
def unwatching (result : DB × α) : DB × α := (result.1.unwatched, result.2)

theorem pushValueToList_unwatched (ndebug isPrepend : Bool) (value : Bytes) :
    pushValueToList db.unwatched ndebug key value isPrepend =
      (pushValueToList db ndebug key value isPrepend).map unwatching := by
  simp only [pushValueToList, DB.unwatched]
  split
  · simp only [createNewList, map_bind]
    rfl
  · simp only [appendToExistingList, map_bind]
    rfl

theorem pushValues_unwatched (ndebug isPrepend : Bool) (values : List Bytes) (start : Nat) :
    pushValues db.unwatched ndebug key isPrepend values start =
      (pushValues db ndebug key isPrepend values start).map unwatching := by
  induction values generalizing db start with
  | nil => rfl
  | cons value rest ih =>
    simp only [pushValues, pushValueToList_unwatched, map_bind]
    cases pushValueToList db ndebug key value isPrepend with
    | error fault => rfl
    | ok result => exact ih result.2

theorem handlePush_veiled (isPrepend : Bool) (values : List Bytes) :
    veiled (handlePush db.unwatched c isPrepend key values) =
      veiled (handlePush db c isPrepend key values) := by
  unfold handlePush
  have queues : db.unwatched.blockedKeys = db.blockedKeys := rfl
  rw [queues]
  split
  · rename_i blocked queue first rest waiting
    have taken : ({ db.unwatched with blockedKeys := popFront db.blockedKeys key queue } : DB) =
      DB.unwatched { db with blockedKeys := popFront db.blockedKeys key queue } := rfl
    simp only [taken, pushValues_unwatched]
    cases pushValues { db with blockedKeys := popFront db.blockedKeys key queue } c.env.ndebug key
      isPrepend rest 0 <;> rfl
  · rw [pushValues_unwatched]
    generalize pushValues db c.env.ndebug key isPrepend _ 0 = pushes
    cases pushes with
    | error fault => rfl
    | ok result => simp [Except.map, unwatching, DB.unwatched]

theorem handleBlpop_veiled (names : List Bytes) (timeout : Float) :
    veiled (handleBlpop db.unwatched c names timeout) = veiled (handleBlpop db c names timeout) := by
  simp only [handleBlpop, DB.unwatched]
  split
  · simp only [veiled_bind]
    rfl
  · split
    · simp only [veiled_bind]
      congr
      funext first
      split <;> simp only [veiled_bind] <;> rfl
    · rfl

theorem handleLpop_veiled (count : Option Nat) :
    veiled (handleLpop db.unwatched c key count) = veiled (handleLpop db c key count) := by
  simp only [handleLpop, DB.unwatched]
  split
  · rfl
  · split
    · simp only [veiled_bind]
      congr
      funext result
      split <;> simp [DB.unwatched]
    · rfl

theorem handleLlen_veiled :
    veiled (handleLlen db.unwatched c key) = veiled (handleLlen db c key) := by
  simp only [handleLlen, DB.unwatched]
  split
  · rfl
  · split
    · simp only [veiled_bind]
      rfl
    · rfl

theorem handleLrange_veiled (start stop : Int) :
    veiled (handleLrange db.unwatched c key start stop) =
      veiled (handleLrange db c key start stop) := by
  simp only [handleLrange, DB.unwatched]
  split
  · rfl
  · split
    · simp only [veiled_bind]
      congr
      funext counted
      generalize (if (if start < 0 then _ else start) < 0 then _ else _ : Int) = first
      generalize (if stop < 0 then _ else stop : Int) = last
      split
      · rfl
      · split
        · rfl
        · simp only [veiled_bind]
          rfl
    · rfl

theorem serveXreadClients_unwatched (env : Env) (queue : List BlockedXreadClient) :
    serveXreadClients db.unwatched env queue = serveXreadClients db env queue := by
  induction queue with
  | nil => rfl
  | cons blocked rest ih =>
    simp only [serveXreadClients, ih]
    rfl

theorem handleBlockedXreadClients_unwatched (env : Env) :
    handleBlockedXreadClients db.unwatched env key =
      (handleBlockedXreadClients db env key).map unwatching := by
  unfold handleBlockedXreadClients
  have queues : db.unwatched.blockedXreadKeys = db.blockedXreadKeys := rfl
  rw [queues]
  split
  · rw [serveXreadClients_unwatched, map_bind]
    rfl
  · rfl

theorem openStream_unwatched :
    openStream db.unwatched key = unwatching (openStream db key) := by
  simp only [openStream, DB.unwatched, unwatching]
  split <;> rfl

theorem handleXadd_veiled (streamId : Bytes) (fieldValues : List (Bytes × Bytes)) :
    veiled (handleXadd db.unwatched c key streamId fieldValues) =
      veiled (handleXadd db c key streamId fieldValues) := by
  simp only [handleXadd, openStream_unwatched, unwatching]
  generalize (openStream db key).1 = opened, (openStream db key).2 = object
  split
  · rfl
  · simp only [veiled_bind]
    congr
    funext stream
    split
    · rfl
    · have stored (object : RedisObject) :
          ({ opened.unwatched with store := opened.unwatched.store.insert key object } : DB) =
            DB.unwatched { opened with store := opened.store.insert key object } := rfl
      simp only [stored, handleBlockedXreadClients_unwatched]
      cases handleBlockedXreadClients { opened with store := opened.store.insert key _ } c.env key with
      | error fault => rfl
      | ok result => simp [Except.map, unwatching, DB.unwatched, visible_reply]

theorem handleXrange_veiled (start stop : Bytes) :
    veiled (handleXrange db.unwatched key start stop) = veiled (handleXrange db key start stop) := by
  simp only [handleXrange, DB.unwatched]
  split
  · rfl
  · split
    · split
      · rfl
      · rfl
      · simp only [veiled_bind]
        rfl
    · rfl

theorem collectReplies_unwatched (block : Option Float) (asked : List (Bytes × Bytes))
    (replies : List (Bytes × List (Bytes × Bytes))) :
    collectReplies db.unwatched c block asked replies =
      (collectReplies db c block asked replies).map (Sum.map id unwatching) := by
  induction asked generalizing replies with
  | nil => rfl
  | cons one rest ih =>
    obtain ⟨name, startId⟩ := one
    have marked (streamId : Bytes) (timeout : Float) :
        (do pure (.inr (← markClientBlocking db.unwatched c name streamId timeout)) :
          Exec (List (Bytes × List (Bytes × Bytes)) ⊕ (DB × List Effect))) =
        (do pure (.inr (← markClientBlocking db c name streamId timeout)) :
          Exec (List (Bytes × List (Bytes × Bytes)) ⊕ (DB × List Effect))).map
            (Sum.map id unwatching) := by
      unfold markClientBlocking
      cases BlockedXreadClient.make c.env.clock.steady c.fd timeout streamId name <;> rfl
    have bound : db.unwatched.store = db.store := rfl
    have from_ : blockOnId db.unwatched name startId = blockOnId db name startId := rfl
    conv_lhs => unfold collectReplies
    conv_rhs => unfold collectReplies
    simp only [bound, from_]
    split
    · exact marked _ _
    · rfl
    · split
      · exact marked _ _
      · split
        · split
          · exact ih _
          · exact marked _ _
          · exact ih _
        · exact ih _

theorem handleXread_veiled (block : Option Float) (names ids : List Bytes) :
    veiled (handleXread db.unwatched c block names ids) =
      veiled (handleXread db c block names ids) := by
  unfold handleXread
  split
  · rfl
  · rw [collectReplies_unwatched]
    cases collectReplies db c block (names.zip ids) [] with
    | error fault => rfl
    | ok collected =>
      cases collected with
      | inr outcome => rfl
      | inl replies =>
        cases replies with
        | nil => rfl
        | cons reply rest =>
          simp only [Except.map, Sum.map_inl, id_eq, exec_ok_bind, veiled_bind]
          rfl

theorem withSortedSet_veiled (missing : Bytes) (reply : SortedSet → Exec Bytes) :
    veiled (withSortedSet db.unwatched key missing reply) =
      veiled (withSortedSet db key missing reply) := by
  simp only [withSortedSet, DB.unwatched]
  split
  · rfl
  · split
    · rfl
    · simp only [veiled_bind]
      rfl

theorem openSortedSet_unwatched :
    openSortedSet db.unwatched key = unwatching (openSortedSet db key) := by
  simp only [openSortedSet, DB.unwatched, unwatching]
  split <;> rfl

theorem handleZadd_veiled : veiled (handleZadd db.unwatched c) = veiled (handleZadd db c) := by
  unfold handleZadd
  split
  · simp only [openSortedSet_unwatched, unwatching]
    split
    · rfl
    · simp only [veiled_bind]
      rfl
  · rfl

theorem handleZrem_veiled : veiled (handleZrem db.unwatched c) = veiled (handleZrem db c) := by
  unfold handleZrem
  split
  · simp only [DB.unwatched]
    split
    · rfl
    · split
      · rfl
      · simp only [veiled_bind]
        rfl
  · rfl

theorem handleGeoadd_veiled :
    veiled (handleGeoadd db.unwatched c) = veiled (handleGeoadd db c) := by
  unfold handleGeoadd
  split
  · split
    · rfl
    · simp only [openSortedSet_unwatched, unwatching]
      split
      · rfl
      · simp only [veiled_bind]
        rfl
  · rfl

theorem callSimple_veiled (command : Command) :
    veiled (callSimple db.unwatched c command) = veiled (callSimple db c command) := by
  cases command <;> first | rfl | skip
  case set => exact handleSet_veiled _ _ _
  case get => exact handleGetOrType_veiled false
  case type => exact handleGetOrType_veiled true
  case incr => exact handleIncr_veiled
  case rpush => exact handlePush_veiled false _
  case lpush => exact handlePush_veiled true _
  case lrange => exact handleLrange_veiled _ _
  case llen => exact handleLlen_veiled
  case lpop => exact handleLpop_veiled _
  case blpop => exact handleBlpop_veiled _ _
  case xadd => exact handleXadd_veiled _ _
  case xrange => exact handleXrange_veiled _ _
  case xread => exact handleXread_veiled _ _ _
  case zadd => exact handleZadd_veiled
  case zrem => exact handleZrem_veiled
  case geoAdd => exact handleGeoadd_veiled
  case aclGetUser =>
    simp only [callSimple, handleAclGetuser]
    split <;> rfl
  case discard =>
    simp only [callSimple, handleDiscard]
    split <;> rfl
  case keys =>
    simp only [callSimple, handleKeys]
    split
    · split <;> rfl
    · rfl
  case subscribe =>
    simp only [callSimple, handleSubscribe]
    split <;> rfl
  case publish =>
    simp only [callSimple, handlePublish]
    split <;> rfl
  all_goals
    simp only [callSimple, handleZrank, handleZrange, handleZcard, handleZscore, handleGeopos,
      handleGeodist, handleGeosearch]
    split
    · exact withSortedSet_veiled _ _
    · rfl

/-- A client without its mark, and where it is muted without what was written
to it. -/
def Client.veil (mute : Bool) (client : Client) : Client :=
  { client with dirty := false, writeBuffer := if mute then [] else client.writeBuffer }

def Context.bare (c : Context) : Context := { c with client := c.client.veil true }

private theorem collectReplies_bare (block : Option Float) (asked : List (Bytes × Bytes))
    (replies : List (Bytes × List (Bytes × Bytes))) :
    collectReplies db c.bare block asked replies = collectReplies db c block asked replies := by
  induction asked generalizing replies with
  | nil => rfl
  | cons one rest ih =>
    obtain ⟨name, startId⟩ := one
    conv_lhs => unfold collectReplies
    conv_rhs => unfold collectReplies
    simp only [ih]
    rfl

theorem callSimple_bare (command : Command) :
    callSimple db c.bare command = callSimple db c command := by
  cases command <;> first | rfl | skip
  case xread => simp only [callSimple, handleXread, collectReplies_bare]

theorem veiled_congr {handler : DB → Outcome}
    (each : ∀ db, veiled (handler db.unwatched) = veiled (handler db))
    (same : db.unwatched = db'.unwatched) : veiled (handler db) = veiled (handler db') := by
  rw [← each db, ← each db', same]

/-- Outcomes that look the same, and go on in ways that look the same. -/
theorem veiled_then {first second : Outcome} {next next' : DB × List Effect → Exec β}
    {view : β → γ} (same : veiled first = veiled second)
    (later : ∀ db effects db' effects', db.unwatched = db'.unwatched →
      visible effects = visible effects' →
      (next (db, effects)).map view = (next' (db', effects')).map view) :
    (first >>= next).map view = (second >>= next').map view := by
  cases first with
  | error fault =>
    cases second with
    | error other =>
      cases same
      rfl
    | ok result => cases same
  | ok result =>
    cases second with
    | error other => cases same
    | ok result' =>
      obtain ⟨unwatched, shown⟩ := Prod.mk.inj (Except.ok.inj same)
      exact later _ _ _ _ unwatched shown

theorem runQueue_veiled (commands : List Command) (envs : List Env) :
    veiled (runQueue db.unwatched c commands envs) = veiled (runQueue db c commands envs) := by
  induction commands generalizing db envs with
  | nil => rfl
  | cons command commands ih =>
    cases envs with
    | nil => rfl
    | cons env envs =>
      apply veiled_then (callSimple_veiled command)
      intro db₁ first db₂ second unwatched shown
      apply veiled_then (veiled_congr (fun _ => ih envs) unwatched)
      intro db₃ rest db₄ rest' unwatched' shown'
      simp [Except.map, shown, shown', unwatched']

theorem call_veiled (envs : List Env) (command : Command) :
    veiled (call db.unwatched c envs command) = veiled (call db c envs command) := by
  rcases @call_cases db.unwatched c command envs with ⟨rfl, same⟩ | ⟨other, same⟩
  · simp only [call, handleExec]
    split
    · rfl
    · apply veiled_then (runQueue_veiled _ envs)
      intro db₁ effects db₂ effects' unwatched shown
      simp [Except.map, visible_reply, shown, unwatched]
  · rcases @call_cases db c command envs with ⟨rfl, -⟩ | ⟨-, same'⟩
    · exact absurd rfl other
    · rw [same, same', callSimple_veiled]

theorem call_bare (envs : List Env) (command : Command) :
    call db c.bare envs command = call db c envs command := by
  have queue (commands : List Command) (envs : List Env) :
      runQueue db c.bare commands envs = runQueue db c commands envs := by
    induction commands generalizing db envs with
    | nil => rfl
    | cons command commands ih =>
      cases envs with
      | nil => rfl
      | cons env envs =>
        have first : callSimple db { c.bare with env } command = callSimple db { c with env } command :=
          @callSimple_bare db { c with env } command
        simp only [runQueue, first, ih]
  unfold call
  split
  · simp only [handleExec, queue]
    rfl
  · exact callSimple_bare _

/-! ## Requests -/

/-- What a request leaves, but for watchers and marks. -/
def Executed.veiled (executed : Executed) : Executed :=
  { executed with db := executed.db.unwatched, effects := visible executed.effects }

theorem handlePubSub_veiled :
    veiled (handlePubSub db.unwatched c) = veiled (handlePubSub db c) := by
  unfold handlePubSub
  split
  · simp only [handleSubscribe]
    split <;> rfl
  · simp only [handleUnSubscribe, veiled_bind]
    rfl
  · rfl
  · rfl

private theorem done_veiled {first second : Outcome} {acl : ACLManager} {command : Option Command}
    (same : veiled first = veiled second) :
    (first >>= fun result => pure (⟨result.1, acl, result.2, command⟩ : Executed)).map
        Executed.veiled =
      (second >>= fun result => pure (⟨result.1, acl, result.2, command⟩ : Executed)).map
        Executed.veiled := by
  apply veiled_then same
  intro db effects db' effects' unwatched shown
  simp [Except.map, Executed.veiled, unwatched, shown]

theorem execute_veiled (rdbFilePath : Bytes) (envs : List Env) :
    (execute db.unwatched c rdbFilePath envs).map Executed.veiled =
      (execute db c rdbFilePath envs).map Executed.veiled := by
  simp only [execute]
  split
  · rfl
  · split
    · rfl
    · split
      · exact done_veiled handlePubSub_veiled
      · split
        · exact done_veiled rfl
        · rfl
        · rfl
        · exact done_veiled (call_veiled envs _)

theorem execute_bare (rdbFilePath : Bytes) (envs : List Env) :
    execute db c.bare rdbFilePath envs = execute db c rdbFilePath envs := by
  have called (command : Command) := @call_bare db c envs command
  unfold execute
  simp only [called]
  rfl

/-- Neither watchers nor marks make a difference to a request. -/
theorem execute_alike {c' : Context} (unwatched : db.unwatched = db'.unwatched)
    (bare : c.bare = c'.bare) (rdbFilePath : Bytes) (envs : List Env) :
    (execute db c rdbFilePath envs).map Executed.veiled =
      (execute db' c' rdbFilePath envs).map Executed.veiled := by
  rw [← execute_veiled, ← @execute_veiled db', unwatched, ← execute_bare, ← @execute_bare _ c',
    bare]

/-! ## Clients -/

private theorem veil_subscribed (mute : Bool) (client : Client) (channels : Nat) :
    ({ client with totalSubscribedChannels := channels } : Client).veil mute =
      { client.veil mute with totalSubscribedChannels := channels } := rfl

/-- An effect looks at no mark, and at nothing that was written. -/
theorem apply_veil (mute : Bool) (effect : Effect) (client : Client) :
    (effect.apply client).veil mute = (effect.apply (client.veil mute)).veil mute := by
  cases effect with
  | unsubscribe => cases mute <;> exact veil_subscribed _ client _
  | subscribe => cases mute <;> exact veil_subscribed _ { client with pubSub := true } _
  | _ => cases mute <;> rfl

theorem applyEffects_cons (served fd : Fd) (effect : Effect) (rest : List Effect) (client : Client) :
    applyEffects served fd (effect :: rest) client = applyEffects served fd rest
      (if effect.target served = some fd then effect.apply client else client) := rfl

theorem applyEffects_veil (mute : Bool) (served fd : Fd) (effects : List Effect)
    {client client' : Client} (same : client.veil mute = client'.veil mute) :
    (applyEffects served fd effects client).veil mute =
      (applyEffects served fd (visible effects) client').veil mute := by
  induction effects generalizing client client' with
  | nil => exact same
  | cons effect rest ih =>
    have applied : (effect.apply client).veil mute = (effect.apply client').veil mute := by
      rw [apply_veil, same, ← apply_veil]
    rw [applyEffects_cons]
    by_cases mark : ∃ fd, effect = .dirty fd
    · obtain ⟨marked, rfl⟩ := mark
      apply ih
      split
      · exact same
      · exact same
    · have shown : visible (effect :: rest) = effect :: visible rest := by
        cases effect with
        | dirty fd => exact absurd ⟨fd, rfl⟩ mark
        | _ => rfl
      rw [shown, applyEffects_cons]
      apply ih
      split
      · exact applied
      · exact same

/-- Effects that look the same leave clients that look the same. -/
theorem applied_veil {mute : Bool} {served fd : Fd} {effects effects' : List Effect}
    (alike : visible effects = visible effects') {client client' : Option Client}
    (same : client.map (Client.veil mute) = client'.map (Client.veil mute)) :
    (client.map (applyEffects served fd effects)).map (Client.veil mute) =
      (client'.map (applyEffects served fd effects')).map (Client.veil mute) := by
  cases client with
  | none =>
    cases client' with
    | none => rfl
    | some client' => cases same
  | some client =>
    cases client' with
    | none => cases same
    | some client' =>
      have here := applyEffects_veil mute served fd effects (Option.some.inj same)
      rw [alike, ← applyEffects_veil mute served fd effects' rfl] at here
      exact congrArg some here

namespace Session

variable {session first second : Session} {rdbFilePath : Bytes} {request : Request}
  {mute : Fd → Bool}

/-- Two sessions that differ at most in watchers, marks, and what was written
to muted clients. -/
structure Veils (mute : Fd → Bool) (first second : Session) : Prop where
  db : first.db.unwatched = second.db.unwatched
  acl : first.acl = second.acl
  clients : ∀ fd, (first.clients.lookup fd).map (Client.veil (mute fd)) =
    (second.clients.lookup fd).map (Client.veil (mute fd))

/-- A command that arrives, and what it does to clients but for the marks. -/
def shown (rdbFilePath : Bytes) (session : Session) (request : Request) :
    Exec (List Effect × Session) :=
  (session.step rdbFilePath request).map fun result => (visible result.1, result.2)

/-- What a request does to two sessions of which the clients it serves look
the same. -/
theorem shown_alike {related : Session → Session → Prop} {client client' : Client}
    (unwatched : first.db.unwatched = second.db.unwatched) (acl : first.acl = second.acl)
    (one : first.clients.lookup request.fd = some client)
    (other : second.clients.lookup request.fd = some client')
    (same : client.veil true = client'.veil true)
    (later : ∀ (db db' : DB) acl effects effects', db.unwatched = db'.unwatched →
      visible effects = visible effects' →
      related ⟨db, acl, applyToClients request.fd effects first.clients⟩
        ⟨db', acl, applyToClients request.fd effects' second.clients⟩) :
    Agree related (first.shown rdbFilePath request) (second.shown rdbFilePath request) := by
  have bare : (first.context client request).bare = (second.context client' request).bare := by
    simp only [context, Context.bare, same, acl]
  have alike := execute_alike unwatched bare rdbFilePath request.queue
  simp only [shown, Session.step, one, other]
  cases ran : execute first.db (first.context client request) rdbFilePath request.queue with
  | error fault =>
    cases ran' : execute second.db (second.context client' request) rdbFilePath request.queue <;>
      rw [ran, ran'] at alike <;> cases alike
    exact .fault fault
  | ok executed =>
    cases ran' : execute second.db (second.context client' request) rdbFilePath request.queue with
    | error fault =>
      rw [ran, ran'] at alike
      cases alike
    | ok executed' =>
      rw [ran, ran'] at alike
      obtain ⟨db, users, effects, -⟩ := Executed.mk.inj (Except.ok.inj alike)
      have shown : visible executed'.effects = visible executed.effects := effects.symm
      rw [exec_ok_bind, exec_ok_bind, exec_pure, exec_pure, Except.map, Except.map, shown]
      refine .output _ ?_
      rw [show executed'.acl = executed.acl from users.symm]
      exact later _ _ _ _ _ db effects

theorem Veils.step (veils : Veils mute first second) (request : Request) :
    Agree (Veils mute) (first.shown rdbFilePath request) (second.shown rdbFilePath request) := by
  obtain ⟨unwatched, acl, clients⟩ := veils
  have here := clients request.fd
  cases one : first.clients.lookup request.fd with
  | none =>
    cases other : second.clients.lookup request.fd with
    | none =>
      simp only [shown, Session.step, one, other]
      exact .output [] ⟨unwatched, acl, clients⟩
    | some client' =>
      rw [one, other] at here
      cases here
  | some client =>
    cases other : second.clients.lookup request.fd with
    | none =>
      rw [one, other] at here
      cases here
    | some client' =>
      rw [one, other] at here
      have veiled : client.veil (mute request.fd) = client'.veil (mute request.fd) :=
        Option.some.inj here
      have twice := congrArg (Client.veil true) veiled
      refine shown_alike unwatched acl one other twice ?_
      intro db db' acl effects effects' unwatched' alike
      refine ⟨unwatched', rfl, fun fd => ?_⟩
      rw [lookup_applyToClients, lookup_applyToClients]
      exact applied_veil alike (clients fd)

end Session

/-- Watchers and marks are never looked at: two sessions that differ in these,
and in what some clients were sent before, reply the same to any requests of
any clients, and never differ in anything else. -/
theorem marks_unseen {mute : Fd → Bool} {first second : Session}
    (veils : Session.Veils mute first second) (rdbFilePath : Bytes) (requests : List Request) :
    Agree (Session.Veils mute) (run (Session.shown rdbFilePath) first requests)
      (run (Session.shown rdbFilePath) second requests) :=
  run_alike (fun _ _ request veils => veils.step request) veils

/-- A client in a transaction, marked or not, as the only watcher of a key. -/
def Session.watching (dirty : Bool) : Session where
  db := { watchingKeys := Finmap.singleton (ascii "k") (if dirty then [5] else []) }
  acl := .new
  clients := Finmap.singleton 5 { multi := true, dirty, queuedCommands := [.incr (ascii "k")] }

/-- The EXEC of a client that was marked is carried out like any other. -/
theorem marks_unseen_exec :
    Agree (Session.Veils fun _ => false)
      (run (Session.shown []) (.watching true)
        [⟨5, .exec, Context.sample.env, [Context.sample.env]⟩])
      (run (Session.shown []) (.watching false)
        [⟨5, .exec, Context.sample.env, [Context.sample.env]⟩]) := by
  have veils : Session.Veils (fun _ => false) (.watching true) (.watching false) := by
    refine ⟨rfl, rfl, fun fd => ?_⟩
    by_cases here : fd = 5
    · subst here
      rfl
    · have absent (client : Client) : (Finmap.singleton 5 client : Map Fd Client).lookup fd = none :=
        Finmap.lookup_eq_none.mpr fun member => here ((Finmap.mem_singleton fd 5 client).mp member)
      simp [Session.watching, absent]
  exact marks_unseen veils [] _

end CarrotDb
