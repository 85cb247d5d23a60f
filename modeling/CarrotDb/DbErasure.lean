import CarrotDb.DbKeyspace
import CarrotDb.StreamCommands

/-! A command that does not name a key does the same without it: it replies
the same, and leaves what it would have left, without the key. -/
namespace CarrotDb
open Decimal Resp FloatText Listpack

/-- The database with a key removed from the store and from the deadlines. -/
def DB.without (db : DB) (gone : Bytes) : DB :=
  { db with store := db.store.erase gone, expiration := db.expiration.erase gone }

/-- An outcome with a key removed from the database it leaves. -/
def dropping (gone : Bytes) (outcome : Exec (DB × α)) : Exec (DB × α) :=
  outcome.map fun result => (result.1.without gone, result.2)

variable {db db' : DB} {c : Context} {key gone : Bytes} {effects : List Effect}

theorem lookup_without (different : key ≠ gone) :
    (db.without gone).store.lookup key = db.store.lookup key := Finmap.lookup_erase_ne different

theorem erase_insert_ne {map : Map Bytes α} {value : α} (different : key ≠ gone) :
    (map.insert key value).erase gone = (map.erase gone).insert key value := by
  refine Finmap.ext_lookup fun other => ?_
  by_cases here : other = gone
  · subst here
    rw [Finmap.lookup_erase, Finmap.lookup_insert_of_ne _ (Ne.symm different), Finmap.lookup_erase]
  · rw [Finmap.lookup_erase_ne here]
    by_cases there : other = key
    · subst there
      rw [Finmap.lookup_insert, Finmap.lookup_insert]
    · rw [Finmap.lookup_insert_of_ne _ there, Finmap.lookup_insert_of_ne _ there,
        Finmap.lookup_erase_ne here]

/-- Binding another key, with the key removed before or behind. -/
theorem without_insert (different : key ≠ gone) (object : RedisObject) :
    DB.without { db with store := db.store.insert key object } gone =
      { db.without gone with store := (db.without gone).store.insert key object } := by
  rw [DB.without, DB.without, erase_insert_ne different]

@[simp] theorem dropping_ok (result : DB × α) :
    dropping gone (.ok result) = .ok (result.1.without gone, result.2) := rfl

@[simp] theorem dropping_error (fault : Fault) :
    dropping gone (.error fault : Exec (DB × α)) = .error fault := rfl

theorem dropping_bind (first : Exec α) (next : α → Exec (DB × β)) :
    dropping gone (first >>= next) = first >>= fun value => dropping gone (next value) := by
  cases first <;> rfl

/-- What follows a computation on the database, on both sides. -/
theorem dropping_then {first : Exec (DB × α)} {next next' : DB × α → Exec (DB × β)}
    (later : ∀ db value, next' (db.without gone, value) = dropping gone (next (db, value))) :
    dropping gone first >>= next' = dropping gone (first >>= next) := by
  cases first with
  | error fault => rfl
  | ok result => exact later result.1 result.2

theorem dropping_replying (bytes : Bytes) :
    dropping gone (replying db bytes) = replying (db.without gone) bytes := rfl

theorem handleSet_without (different : key ≠ gone) {value : Bytes} {ex px : Option Nat} :
    handleSet (db.without gone) c key value ex px = dropping gone (handleSet db c key value ex px) := by
  have bound (deadlines deadlines' : Map Bytes Int) (same : deadlines' = deadlines.erase gone)
      (object : RedisObject) :
      ({ db.without gone with
        expiration := deadlines', store := (db.without gone).store.insert key object } : DB) =
      DB.without { db with expiration := deadlines, store := db.store.insert key object } gone := by
    rw [same, DB.without, DB.without, erase_insert_ne different]
  have later (deadline : Int) : (db.without gone).expiration.insert key deadline =
      (db.expiration.insert key deadline).erase gone := (erase_insert_ne different).symm
  unfold handleSet
  dsimp only
  rw [exec_pure, exec_pure, dropping_ok]
  cases ex with
  | some seconds =>
    rw [bound _ _ (later _)]
    rfl
  | none =>
    cases px with
    | some milliseconds =>
      rw [bound _ _ (later _)]
      rfl
    | none =>
      dsimp only
      rw [without_insert different]
      rfl

theorem expireIfDue_without (different : key ≠ gone) (now : Int) :
    expireIfDue (db.without gone) now key = (expireIfDue db now key).map (·.without gone) := by
  have deadlines : (db.without gone).expiration.lookup key = db.expiration.lookup key :=
    Finmap.lookup_erase_ne different
  rw [expireIfDue, expireIfDue, deadlines, lookup_without different]
  split
  · split
    · split
      · rw [exec_pure, exec_pure, Except.map, DB.without, DB.without]
        dsimp only
        rw [Finmap.erase_erase, @Finmap.erase_erase _ _ _ key gone db.expiration]
      · rfl
    · rfl
  · rfl

theorem handleGetOrType_without (different : key ≠ gone) (isTypeCommand : Bool) :
    handleGetOrType (db.without gone) c isTypeCommand key =
      dropping gone (handleGetOrType db c isTypeCommand key) := by
  rw [handleGetOrType, handleGetOrType, expireIfDue_without different]
  cases expireIfDue db c.env.clock.steady key with
  | error fault => rfl
  | ok db₁ =>
    rw [Except.map, exec_ok_bind, exec_ok_bind, lookup_without different]
    split
    · split
      · split
        · rfl
        · rw [dropping_bind]
          rfl
      · split <;> rfl
      · rfl
    · rfl

theorem handleIncr_without (different : key ≠ gone) :
    handleIncr (db.without gone) c key = dropping gone (handleIncr db c key) := by
  rw [handleIncr, handleIncr, lookup_without different]
  cases db.store.lookup key with
  | none =>
    dsimp only
    rw [exec_pure, exec_pure, dropping_ok, without_insert different]
    rfl
  | some object =>
    dsimp only
    split
    · rw [dropping_bind]
      congr
      funext text
      split
      · rw [dropping_bind]
        congr
        funext value
        rw [exec_pure, exec_pure, dropping_ok, without_insert different]
        rfl
      · rfl
    · rfl

theorem pushValueToList_without (different : key ≠ gone) (ndebug isPrepend : Bool) (value : Bytes) :
    pushValueToList (db.without gone) ndebug key value isPrepend =
      dropping gone (pushValueToList db ndebug key value isPrepend) := by
  rw [pushValueToList, pushValueToList, lookup_without different]
  cases db.store.lookup key with
  | none =>
    dsimp only
    rw [createNewList, createNewList, dropping_bind]
    congr
    funext lp
    rw [dropping_bind]
    congr
    funext listPack
    rw [exec_pure, exec_pure, dropping_ok, without_insert different]
  | some object =>
    dsimp only
    rw [appendToExistingList, appendToExistingList, dropping_bind]
    congr
    funext checked
    rw [dropping_bind]
    congr
    funext lp
    rw [dropping_bind]
    congr
    funext listPack
    rw [dropping_bind]
    congr
    funext lp'
    rw [dropping_bind]
    congr
    funext len
    rw [exec_pure, exec_pure, dropping_ok, without_insert different]

theorem pushValues_without (different : key ≠ gone) (ndebug isPrepend : Bool) (values : List Bytes)
    (start : Nat) :
    pushValues (db.without gone) ndebug key isPrepend values start =
      dropping gone (pushValues db ndebug key isPrepend values start) := by
  induction values generalizing db start with
  | nil => rfl
  | cons value rest ih =>
    rw [pushValues, pushValues, pushValueToList_without different]
    exact dropping_then fun db₁ len => ih len

theorem handlePush_without (different : key ≠ gone) (isPrepend : Bool) (values : List Bytes) :
    handlePush (db.without gone) c isPrepend key values =
      dropping gone (handlePush db c isPrepend key values) := by
  unfold handlePush
  have queues : (db.without gone).blockedKeys = db.blockedKeys := rfl
  rw [queues]
  split
  · rename_i blocked queue first rest waiting
    have taken : ({ db.without gone with blockedKeys := popFront db.blockedKeys key queue } : DB) =
        DB.without { db with blockedKeys := popFront db.blockedKeys key queue } gone := rfl
    dsimp only
    rw [taken, pushValues_without different]
    exact dropping_then fun db₁ len => rfl
  · rw [pushValues_without different]
    exact dropping_then fun db₁ len => rfl

theorem handleLpop_without (different : key ≠ gone) (count : Option Nat) :
    handleLpop (db.without gone) c key count = dropping gone (handleLpop db c key count) := by
  rw [handleLpop, handleLpop, lookup_without different]
  cases db.store.lookup key with
  | none => rfl
  | some object =>
    dsimp only
    split
    · rw [dropping_bind]
      congr
      funext result
      rw [exec_pure, exec_pure, dropping_ok, without_insert different]
      rfl
    · rfl

theorem handleBlpop_without {names : List Bytes} (different : names.headD [] ≠ gone)
    (timeout : Float) :
    handleBlpop (db.without gone) c names timeout = dropping gone (handleBlpop db c names timeout) := by
  rw [handleBlpop, handleBlpop, lookup_without different]
  cases db.store.lookup (names.headD []) with
  | none =>
    dsimp only
    rw [dropping_bind]
    rfl
  | some object =>
    dsimp only
    split
    · rw [dropping_bind]
      congr
      funext first
      split
      · rw [dropping_bind]
        rfl
      · rw [dropping_bind]
        congr
        funext value
        rw [dropping_bind]
        congr
        funext deleted
        rw [dropping_replying, without_insert different]
    · rfl

theorem handleLlen_without (different : key ≠ gone) :
    handleLlen (db.without gone) c key = dropping gone (handleLlen db c key) := by
  rw [handleLlen, handleLlen, lookup_without different]
  cases db.store.lookup key with
  | none => rfl
  | some object =>
    dsimp only
    split
    · rw [dropping_bind]
      congr
      funext counted
      rw [dropping_replying, without_insert different]
    · rfl

theorem handleLrange_without (different : key ≠ gone) (start stop : Int) :
    handleLrange (db.without gone) c key start stop =
      dropping gone (handleLrange db c key start stop) := by
  rw [handleLrange, handleLrange, lookup_without different]
  cases db.store.lookup key with
  | none => rfl
  | some object =>
    dsimp only
    split
    · rw [dropping_bind]
      congr
      funext counted
      generalize (if (if start < 0 then _ else start) < 0 then _ else _ : Int) = first
      generalize (if stop < 0 then _ else stop : Int) = last
      split
      · rw [dropping_replying, without_insert different]
      · split
        · rw [dropping_replying, without_insert different]
        · rw [dropping_bind]
          congr
          funext result
          rw [dropping_replying, without_insert different]
    · rfl

theorem openStream_without (different : key ≠ gone) :
    openStream (db.without gone) key =
      ((openStream db key).1.without gone, (openStream db key).2) := by
  rw [openStream, openStream, lookup_without different]
  cases db.store.lookup key with
  | none =>
    dsimp only
    rw [without_insert different]
  | some object => rfl

theorem xreadResponse_without (different : key ≠ gone) (startId : Bytes) :
    xreadResponse (db.without gone) key startId = xreadResponse db key startId := by
  rw [xreadResponse, xreadResponse, lookup_without different]

theorem serveXreadClients_without {env : Env} {queue : List BlockedXreadClient}
    (elsewhere : ∀ blocked ∈ queue, blocked.streamKey ≠ gone) :
    serveXreadClients (db.without gone) env queue = serveXreadClients db env queue := by
  induction queue with
  | nil => rfl
  | cons blocked rest ih =>
    rw [serveXreadClients, serveXreadClients,
      xreadResponse_without (elsewhere blocked List.mem_cons_self),
      ih fun other member => elsewhere other (List.mem_cons_of_mem _ member)]

theorem handleBlockedXreadClients_without {env : Env} (sound : db.Sound) (different : key ≠ gone) :
    handleBlockedXreadClients (db.without gone) env key =
      dropping gone (handleBlockedXreadClients db env key) := by
  have queues : (db.without gone).blockedXreadKeys = db.blockedXreadKeys := rfl
  rw [handleBlockedXreadClients, handleBlockedXreadClients, queues]
  split
  · rename_i blocked queue waiting
    have elsewhere : ∀ other ∈ blocked :: queue, other.streamKey ≠ gone := fun other member => by
      rw [sound.waiting key _ waiting other member]
      exact different
    rw [serveXreadClients_without elsewhere, dropping_bind]
    rfl
  · rfl

theorem handleXadd_without (sound : db.Sound) (different : key ≠ gone) (streamId : Bytes)
    (fieldValues : List (Bytes × Bytes)) :
    handleXadd (db.without gone) c key streamId fieldValues =
      dropping gone (handleXadd db c key streamId fieldValues) := by
  obtain ⟨opened, formed⟩ := openStream_sound sound key
  rw [handleXadd, handleXadd, openStream_without different]
  dsimp only
  generalize (openStream db key).1 = db₁, (openStream db key).2 = object at *
  split
  · rfl
  · rename_i tag
    rw [ne_eq, not_not] at tag
    obtain ⟨stream, log, held, logs⟩ := stream_of_sound formed tag
    rw [held, deref, exec_pure, exec_ok_bind, exec_ok_bind]
    rcases insert_logs logs c.env.clock.system streamId (rawValue fieldValues) with
      ⟨-, refused⟩ | ⟨id, -, status, logs'⟩
    · rw [if_pos refused, if_pos refused]
      rfl
    · rw [status, if_neg fun refused => refused rfl, if_neg fun refused => refused rfl]
      have written : RedisObject.Sound { object with
          streamPtr := some (stream.insert c.env.clock.system streamId (rawValue fieldValues)).1 } :=
        sound_of_stream tag rfl logs'
      rw [← without_insert different, handleBlockedXreadClients_without (opened.bind written key)
        different]
      exact dropping_then fun db₂ served => rfl

theorem handleXrange_without (different : key ≠ gone) (start stop : Bytes) :
    handleXrange (db.without gone) key start stop = dropping gone (handleXrange db key start stop) := by
  rw [handleXrange, handleXrange, lookup_without different]
  cases db.store.lookup key with
  | none => rfl
  | some object =>
    dsimp only
    split
    · split
      · rfl
      · rfl
      · rw [dropping_bind]
        rfl
    · rfl

/-- The loop over the keys of a reading, without a key it does not name. -/
private theorem collectReplies_without {block : Option Float} {asked : List (Bytes × Bytes)}
    (different : ∀ one ∈ asked, one.1 ≠ gone) (replies : List (Bytes × List (Bytes × Bytes))) :
    collectReplies (db.without gone) c block asked replies =
      (collectReplies db c block asked replies).map
        (Sum.map id fun outcome => (outcome.1.without gone, outcome.2)) := by
  induction asked generalizing replies with
  | nil => rfl
  | cons one rest ih =>
    obtain ⟨key, startId⟩ := one
    have here : key ≠ gone := different (key, startId) List.mem_cons_self
    have next := @ih fun other member => different other (List.mem_cons_of_mem _ member)
    have marked (streamId : Bytes) (timeout : Float) :
        (do pure (.inr (← markClientBlocking (db.without gone) c key streamId timeout)) :
          Exec (List (Bytes × List (Bytes × Bytes)) ⊕ (DB × List Effect))) =
        (do pure (.inr (← markClientBlocking db c key streamId timeout)) :
          Exec (List (Bytes × List (Bytes × Bytes)) ⊕ (DB × List Effect))).map
            (Sum.map id fun outcome => (outcome.1.without gone, outcome.2)) := by
      rw [markClientBlocking, markClientBlocking]
      cases BlockedXreadClient.make c.env.clock.steady c.fd timeout streamId key with
      | error fault => rfl
      | ok blocked => rfl
    have from_ : blockOnId (db.without gone) key startId = blockOnId db key startId := by
      rw [blockOnId, blockOnId, lookup_without here]
    conv_lhs => unfold collectReplies
    conv_rhs => unfold collectReplies
    rw [lookup_without here, from_]
    dsimp only
    split
    · exact marked _ _
    · rfl
    · split
      · exact marked _ _
      · split
        · split
          · exact next _
          · exact marked _ _
          · exact next _
        · exact next _

theorem handleXread_without {block : Option Float} {names ids : List Bytes}
    (different : ∀ one ∈ names.zip ids, one.1 ≠ gone) :
    handleXread (db.without gone) c block names ids =
      dropping gone (handleXread db c block names ids) := by
  rw [handleXread, handleXread]
  split
  · rfl
  · rw [collectReplies_without different]
    cases collectReplies db c block (names.zip ids) [] with
    | error fault => rfl
    | ok collected =>
      rw [Except.map, exec_ok_bind, exec_ok_bind]
      cases collected with
      | inr outcome => rfl
      | inl replies =>
        cases replies with
        | nil => rfl
        | cons reply rest =>
          dsimp only [Sum.map_inl, id_eq]
          rw [dropping_bind]
          rfl

/-! ## Sorted sets -/

theorem withSortedSet_without (different : key ≠ gone) (missing : Bytes)
    (reply : SortedSet → Exec Bytes) :
    withSortedSet (db.without gone) key missing reply =
      dropping gone (withSortedSet db key missing reply) := by
  rw [withSortedSet, withSortedSet, lookup_without different]
  cases db.store.lookup key with
  | none => rfl
  | some object =>
    dsimp only
    split
    · rfl
    · rw [dropping_bind]
      congr
      funext set
      rw [dropping_bind]
      rfl

theorem openSortedSet_without (different : key ≠ gone) :
    openSortedSet (db.without gone) key =
      ((openSortedSet db key).1.without gone, (openSortedSet db key).2) := by
  rw [openSortedSet, openSortedSet, lookup_without different]
  cases db.store.lookup key with
  | none =>
    dsimp only
    rw [without_insert different]
  | some object => rfl

theorem storeSortedSet_without (different : key ≠ gone) (object : RedisObject) (set : SortedSet) :
    storeSortedSet (db.without gone) key object set = (storeSortedSet db key object set).without gone :=
  (without_insert different _).symm

/-! ## Every command -/

/-- A command reads or writes a key. The handlers of sorted sets and KEYS look
at the command of the context, and do nothing when that is another one. -/
def Command.Touches (c : Context) (key : Bytes) (command : Command) : Prop :=
  match command with
  | .set name .. | .get name | .type name | .incr name | .rpush name _ | .lpush name _
  | .lrange name .. | .llen name | .lpop name _ | .xadd name .. | .xrange name .. => name = key
  | .blpop names _ => names.headD [] = key
  | .xread _ names ids => ∃ one ∈ names.zip ids, one.1 = key
  | .keys _ => c.command = .keys (ascii "*")
  | .zadd .. | .zrank .. | .zrange .. | .zcard _ | .zscore .. | .zrem .. | .geoAdd .. | .geoPos ..
  | .geoDist .. | .geoSearch .. =>
    c.command.commandType = command.commandType ∧ c.command.key = key
  | _ => False

private theorem touches_asked {command asked : Command} (same : c.command = asked)
    (names : asked.key = gone) (type : asked.commandType = command.commandType) :
    c.command.commandType = command.commandType ∧ c.command.key = gone := by
  rw [same]
  exact ⟨type, names⟩

theorem callSimple_without {command : Command} (sound : db.Sound)
    (apart : ¬ command.Touches c gone) :
    callSimple (db.without gone) c command = dropping gone (callSimple db c command) := by
  cases command <;> first | exact handleSet_without apart | rfl | skip
  case get => exact handleGetOrType_without apart false
  case type => exact handleGetOrType_without apart true
  case incr => exact handleIncr_without apart
  case rpush => exact handlePush_without apart false _
  case lpush => exact handlePush_without apart true _
  case lrange => exact handleLrange_without apart _ _
  case llen => exact handleLlen_without apart
  case lpop => exact handleLpop_without apart _
  case blpop => exact handleBlpop_without apart _
  case xadd => exact handleXadd_without sound apart _ _
  case xrange => exact handleXrange_without apart _ _
  case xread => exact handleXread_without fun one member same => apart ⟨one, member, same⟩
  case aclGetUser =>
    rw [callSimple, callSimple, handleAclGetuser, handleAclGetuser]
    split <;> rfl
  case discard =>
    rw [callSimple, callSimple, handleDiscard, handleDiscard]
    split <;> rfl
  case keys =>
    rw [callSimple, callSimple, handleKeys, handleKeys]
    split
    · rename_i pattern asked
      split
      · rename_i all
        exact absurd (by rw [all] at asked; exact asked) apart
      · rfl
    · rfl
  case subscribe =>
    rw [callSimple, callSimple, handleSubscribe, handleSubscribe]
    split <;> rfl
  case publish =>
    rw [callSimple, callSimple, handlePublish, handlePublish]
    split <;> rfl
  case zadd =>
    rw [callSimple, callSimple, handleZadd, handleZadd]
    split
    · rename_i name scoreMembers asked
      have different : name ≠ gone := fun same => apart (touches_asked asked same rfl)
      rw [openSortedSet_without different]
      dsimp only
      split
      · rfl
      · rw [dropping_bind]
        congr
        funext set
        rw [dropping_bind]
        congr
        funext grown
        rw [storeSortedSet_without different]
        rfl
    · rfl
  case zrem =>
    rw [callSimple, callSimple, handleZrem, handleZrem]
    split
    · rename_i name members asked
      have different : name ≠ gone := fun same => apart (touches_asked asked same rfl)
      rw [lookup_without different]
      cases db.store.lookup name with
      | none => rfl
      | some object =>
        dsimp only
        split
        · rfl
        · rw [dropping_bind]
          congr
          funext set
          rw [dropping_bind]
          congr
          funext shrunk
          rw [storeSortedSet_without different]
          rfl
    · rfl
  case geoAdd =>
    rw [callSimple, callSimple, handleGeoadd, handleGeoadd]
    split
    · rename_i name longitude latitude score member invalid asked
      have different : name ≠ gone := fun same => apart (touches_asked asked same rfl)
      split
      · rfl
      · rw [openSortedSet_without different]
        dsimp only
        split
        · rfl
        · rw [dropping_bind]
          congr
          funext set
          rw [dropping_bind]
          congr
          funext grown
          rw [storeSortedSet_without different]
          rfl
    · rfl
  all_goals
    rw [callSimple, callSimple]
    first
      | rw [handleZrank, handleZrank] | rw [handleZrange, handleZrange]
      | rw [handleZcard, handleZcard] | rw [handleZscore, handleZscore]
      | rw [handleGeopos, handleGeopos] | rw [handleGeodist, handleGeodist]
      | rw [handleGeosearch, handleGeosearch]
    split
    · rename_i asked
      exact withSortedSet_without (fun same => apart (touches_asked asked same rfl)) _ _
    · rfl

end CarrotDb
