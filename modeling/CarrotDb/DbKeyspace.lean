import CarrotDb.DbSound

/-! Which keys are bound, and which of them have a deadline. Commands bind
keys and write to what is bound; only GET and TYPE take a key away, and only
SET sets a deadline. So a key with a deadline always holds a string. -/
namespace CarrotDb
open Resp Listpack

/-- Every key stays bound to an object of its type, and no deadline changes. -/
structure Keeps (db db' : DB) : Prop where
  types : ∀ key object, db.store.lookup key = some object →
    ∃ object', db'.store.lookup key = some object' ∧ object'.type = object.type
  deadlines : db'.expiration = db.expiration

variable {db db' db'' : DB} {c : Context} {effects : List Effect} {key : Bytes}

theorem Keeps.congr (store : db'.store = db.store) (deadlines : db'.expiration = db.expiration) :
    Keeps db db' :=
  ⟨fun _ object lookup => ⟨object, by rw [store]; exact lookup, rfl⟩, deadlines⟩

theorem Keeps.refl (db : DB) : Keeps db db := .congr rfl rfl

theorem Keeps.trans (first : Keeps db db') (second : Keeps db' db'') : Keeps db db'' := by
  refine ⟨fun key object lookup => ?_, second.deadlines.trans first.deadlines⟩
  obtain ⟨object', lookup', same⟩ := first.types key object lookup
  obtain ⟨object'', lookup'', same'⟩ := second.types key object' lookup'
  exact ⟨object'', lookup'', same'.trans same⟩

/-- Binding a key to an object of the type it held, if it held any. -/
theorem Keeps.insert {object : RedisObject} (store : db'.store = db.store.insert key object)
    (deadlines : db'.expiration = db.expiration)
    (same : ∀ old, db.store.lookup key = some old → object.type = old.type) : Keeps db db' := by
  refine ⟨fun other old lookup => ?_, deadlines⟩
  rw [store]
  by_cases here : other = key
  · subst here
    exact ⟨object, Finmap.lookup_insert _, same old lookup⟩
  · exact ⟨old, by rw [Finmap.lookup_insert_of_ne _ here]; exact lookup, rfl⟩

/-- A key that is bound gets an object of its type. -/
theorem Keeps.update {old object : RedisObject} (lookup : db.store.lookup key = some old)
    (store : db'.store = db.store.insert key object) (deadlines : db'.expiration = db.expiration)
    (type : object.type = old.type) : Keeps db db' := by
  refine .insert store deadlines fun other found => ?_
  rw [lookup] at found
  cases found
  exact type

theorem Keeps.create {object : RedisObject} (missing : db.store.lookup key = none)
    (store : db'.store = db.store.insert key object) (deadlines : db'.expiration = db.expiration) :
    Keeps db db' := by
  refine .insert store deadlines fun old lookup => ?_
  rw [missing] at lookup
  cases lookup

theorem keeps_replying {bytes : Bytes} (ran : replying db bytes = .ok (db', effects)) :
    Keeps db db' := (replying_ok ran).1 ▸ .refl db

theorem handleIncr_keeps (ran : handleIncr db c key = .ok (db', effects)) : Keeps db db' := by
  rw [handleIncr] at ran
  split at ran
  · rename_i missing
    cases ran
    exact .create missing rfl rfl
  · rename_i object lookup
    dsimp only at ran
    split at ran
    · obtain ⟨text, -, ran⟩ := exec_bind_ok.mp ran
      split at ran
      · obtain ⟨value, -, ran⟩ := exec_bind_ok.mp ran
        cases ran
        exact .update lookup rfl rfl rfl
      · exact keeps_replying ran
    · exact keeps_replying ran

theorem pushValueToList_keeps {ndebug isPrepend : Bool} {value : Bytes} {len : Nat}
    (ran : pushValueToList db ndebug key value isPrepend = .ok (db', len)) : Keeps db db' := by
  rw [pushValueToList] at ran
  split at ran
  · rename_i missing
    obtain ⟨lp, -, ran⟩ := exec_bind_ok.mp ran
    obtain ⟨listPack, -, ran⟩ := exec_bind_ok.mp ran
    cases ran
    exact .create missing rfl rfl
  · rename_i object lookup
    rw [appendToExistingList] at ran
    obtain ⟨-, -, ran⟩ := exec_bind_ok.mp ran
    obtain ⟨lp, -, ran⟩ := exec_bind_ok.mp ran
    obtain ⟨listPack, -, ran⟩ := exec_bind_ok.mp ran
    obtain ⟨lp', -, ran⟩ := exec_bind_ok.mp ran
    obtain ⟨count, -, ran⟩ := exec_bind_ok.mp ran
    cases ran
    exact .update lookup rfl rfl rfl

theorem pushValues_keeps {ndebug isPrepend : Bool} {values : List Bytes} {start len : Nat}
    (ran : pushValues db ndebug key isPrepend values start = .ok (db', len)) : Keeps db db' := by
  induction values generalizing db start with
  | nil =>
    cases ran
    exact .refl _
  | cons value rest ih =>
    obtain ⟨⟨db₁, len₁⟩, pushed, ran⟩ := exec_bind_ok.mp ran
    exact (pushValueToList_keeps pushed).trans (ih ran)

theorem handlePush_keeps {isPrepend : Bool} {values : List Bytes}
    (ran : handlePush db c isPrepend key values = .ok (db', effects)) : Keeps db db' := by
  unfold handlePush at ran
  split at ran
  · rename_i blocked queue first rest waiting
    obtain ⟨⟨db₁, len⟩, pushed, ran⟩ := exec_bind_ok.mp ran
    cases ran
    have taken : Keeps db { db with blockedKeys := popFront db.blockedKeys key queue } :=
      .congr rfl rfl
    exact taken.trans (pushValues_keeps pushed)
  · obtain ⟨⟨db₁, len⟩, pushed, ran⟩ := exec_bind_ok.mp ran
    cases ran
    exact pushValues_keeps pushed

theorem handleLpop_keeps {count : Option Nat}
    (ran : handleLpop db c key count = .ok (db', effects)) : Keeps db db' := by
  rw [handleLpop] at ran
  split at ran
  · exact keeps_replying ran
  · rename_i object lookup
    split at ran
    · obtain ⟨⟨result, left⟩, -, ran⟩ := exec_bind_ok.mp ran
      cases ran
      exact .update lookup rfl rfl rfl
    · exact keeps_replying ran

theorem handleBlpop_keeps {keys : List Bytes} {timeout : Float}
    (ran : handleBlpop db c keys timeout = .ok (db', effects)) : Keeps db db' := by
  have waited (ran : (do
      let blocked ← BlockedClient.make c.env.clock.steady c.fd timeout
      let queue := (db.blockedKeys.lookup (keys.headD [])).getD [] ++ [blocked]
      pure ({ db with blockedKeys := db.blockedKeys.insert (keys.headD []) queue }, [.block]) :
        Outcome) = .ok (db', effects)) : Keeps db db' := by
    obtain ⟨blocked, -, ran⟩ := exec_bind_ok.mp ran
    cases ran
    exact .congr rfl rfl
  rw [handleBlpop] at ran
  dsimp only at ran
  split at ran
  · exact waited ran
  · rename_i object lookup
    split at ran
    · obtain ⟨first, -, ran⟩ := exec_bind_ok.mp ran
      split at ran
      · exact waited ran
      · obtain ⟨value, -, ran⟩ := exec_bind_ok.mp ran
        obtain ⟨deleted, -, ran⟩ := exec_bind_ok.mp ran
        obtain ⟨rfl, -⟩ := replying_ok ran
        exact .update lookup rfl rfl rfl
    · exact keeps_replying ran

theorem handleLlen_keeps (ran : handleLlen db c key = .ok (db', effects)) : Keeps db db' := by
  rw [handleLlen] at ran
  split at ran
  · exact keeps_replying ran
  · rename_i object lookup
    split at ran
    · obtain ⟨⟨length, lp'⟩, -, ran⟩ := exec_bind_ok.mp ran
      obtain ⟨rfl, -⟩ := replying_ok ran
      exact .update lookup rfl rfl rfl
    · exact keeps_replying ran

theorem handleLrange_keeps {start stop : Int}
    (ran : handleLrange db c key start stop = .ok (db', effects)) : Keeps db db' := by
  rcases handleLrange_frame ran with rfl | ⟨object, lp, count, lp', lookup, -, -, -, rfl⟩
  · exact .refl _
  · exact .update lookup rfl rfl rfl

theorem handleXadd_keeps {streamId : Bytes} {fieldValues : List (Bytes × Bytes)}
    (ran : handleXadd db c key streamId fieldValues = .ok (db', effects)) : Keeps db db' := by
  rw [handleXadd] at ran
  have opened : Keeps db (openStream db key).1 ∧
      (openStream db key).1.store.lookup key = some (openStream db key).2 := by
    rw [openStream]
    split
    · exact ⟨.refl db, ‹_›⟩
    · exact ⟨.create ‹_› rfl rfl, Finmap.lookup_insert _⟩
  generalize openStream db key = state at ran opened
  obtain ⟨db₁, object⟩ := state
  obtain ⟨keeps, lookup⟩ := opened
  dsimp only at ran keeps lookup
  split at ran
  · exact keeps.trans (keeps_replying ran)
  · obtain ⟨stream, -, ran⟩ := exec_bind_ok.mp ran
    split at ran
    · exact keeps.trans (keeps_replying ran)
    · obtain ⟨⟨served, woken⟩, handed, ran⟩ := exec_bind_ok.mp ran
      cases ran
      refine keeps.trans ?_
      rcases handleBlockedXreadClients_frame handed with rfl | rfl
      · exact .update lookup rfl rfl rfl
      · exact .update lookup rfl rfl rfl

theorem handleXread_keeps {block : Option Float} {keys ids : List Bytes}
    (ran : handleXread db c block keys ids = .ok (db', effects)) : Keeps db db' := by
  rw [handleXread] at ran
  split at ran
  · exact keeps_replying ran
  · obtain ⟨collected, found, ran⟩ := exec_bind_ok.mp ran
    split at ran
    · cases ran
      obtain ⟨key, streamId, timeout, marked⟩ := collectReplies_blocks found
      obtain ⟨blocked, -, marked⟩ := exec_bind_ok.mp marked
      cases marked
      exact .congr rfl rfl
    · exact keeps_replying ran
    · obtain ⟨bytes, -, ran⟩ := exec_bind_ok.mp ran
      exact keeps_replying ran

/-- Opening a key for ZADD and GEOADD, and storing the set back. -/
theorem openSortedSet_keeps (db : DB) (key : Bytes) : Keeps db (openSortedSet db key).1 ∧
    ∀ set, Keeps db (storeSortedSet (openSortedSet db key).1 key (openSortedSet db key).2 set) := by
  have opened : Keeps db (openSortedSet db key).1 ∧
      (openSortedSet db key).1.store.lookup key = some (openSortedSet db key).2 := by
    rw [openSortedSet]
    split
    · exact ⟨.refl db, ‹_›⟩
    · exact ⟨.create ‹_› rfl rfl, Finmap.lookup_insert _⟩
  exact ⟨opened.1, fun set => opened.1.trans (.update opened.2 rfl rfl rfl)⟩

theorem handleZadd_keeps (ran : handleZadd db c = .ok (db', effects)) : Keeps db db' := by
  rw [handleZadd] at ran
  split at ran
  · rename_i key scoreMembers asked
    obtain ⟨opened, stored⟩ := openSortedSet_keeps db key
    dsimp only at ran
    split at ran
    · exact opened.trans (keeps_replying ran)
    · obtain ⟨set, -, ran⟩ := exec_bind_ok.mp ran
      obtain ⟨⟨set', added⟩, -, ran⟩ := exec_bind_ok.mp ran
      exact (stored set').trans (keeps_replying ran)
  · exact keeps_replying ran

theorem handleZrem_keeps (ran : handleZrem db c = .ok (db', effects)) : Keeps db db' := by
  rw [handleZrem] at ran
  split at ran
  · split at ran
    · exact keeps_replying ran
    · rename_i object lookup
      split at ran
      · exact keeps_replying ran
      · obtain ⟨set, -, ran⟩ := exec_bind_ok.mp ran
        obtain ⟨⟨set', removed⟩, -, ran⟩ := exec_bind_ok.mp ran
        obtain ⟨rfl, -⟩ := replying_ok ran
        exact .update lookup rfl rfl rfl
  · exact keeps_replying ran

theorem handleGeoadd_keeps (ran : handleGeoadd db c = .ok (db', effects)) : Keeps db db' := by
  rw [handleGeoadd] at ran
  split at ran
  · rename_i key longitude latitude score member invalid asked
    obtain ⟨opened, stored⟩ := openSortedSet_keeps db key
    split at ran
    · exact keeps_replying ran
    · dsimp only at ran
      split at ran
      · exact opened.trans (keeps_replying ran)
      · obtain ⟨set, -, ran⟩ := exec_bind_ok.mp ran
        obtain ⟨⟨set', existed⟩, -, ran⟩ := exec_bind_ok.mp ran
        exact (stored set').trans (keeps_replying ran)
  · exact keeps_replying ran

/-- The commands that set deadlines or look at them. -/
def Command.Timing : Command → Prop
  | .set .. | .get _ | .type _ => True
  | _ => False

theorem callSimple_keeps {command : Command} (untimed : ¬ command.Timing)
    (ran : callSimple db c command = .ok (db', effects)) : Keeps db db' := by
  by_cases reads : ReadsOnly command
  · exact readsOnly_frame reads ran ▸ .refl db
  · cases command <;> first | exact absurd trivial reads | exact absurd trivial untimed | skip
    case incr => exact handleIncr_keeps ran
    case rpush => exact handlePush_keeps ran
    case lpush => exact handlePush_keeps ran
    case lrange => exact handleLrange_keeps ran
    case llen => exact handleLlen_keeps ran
    case lpop => exact handleLpop_keeps ran
    case blpop => exact handleBlpop_keeps ran
    case xadd => exact handleXadd_keeps ran
    case xread => exact handleXread_keeps ran
    case zadd => exact handleZadd_keeps ran
    case zrem => exact handleZrem_keeps ran
    case geoAdd => exact handleGeoadd_keeps ran
    case exec => cases ran
    case subscribe =>
      rw [callSimple, handleSubscribe] at ran
      split at ran <;> cases ran
      exact .congr rfl rfl
    case publish =>
      rw [callSimple, handlePublish] at ran
      split at ran <;> cases ran
      exact .congr rfl rfl

/-- What holds of bindings and deadlines, and what every command keeps. -/
structure Invariant (holds : DB → Prop) : Prop where
  bindings : ∀ db db', db'.store = db.store → db'.expiration = db.expiration → holds db → holds db'
  command : ∀ db db' c command effects, callSimple db c command = .ok (db', effects) →
    holds db → holds db'

variable {holds : DB → Prop}

/-- A request keeps what all commands keep. -/
theorem Invariant.execute (invariant : Invariant holds) (held : holds db) {rdbFilePath : Bytes}
    {envs : List Env} {executed : Executed} (ran : execute db c rdbFilePath envs = .ok executed) :
    holds executed.db :=
  execute_carries (fun db db' store deadlines _ => invariant.bindings db db' store deadlines)
    (fun command _ db db' env effects => invariant.command db db' { c with env } command effects)
    held ran

/-! ## Deadlines -/

/-- A key with a deadline holds a string. -/
def DB.Timed (db : DB) : Prop :=
  ∀ key deadline, db.expiration.lookup key = some deadline →
    ∃ object, db.store.lookup key = some object ∧ object.type = .string

theorem Keeps.timed (keeps : Keeps db db') (timed : db.Timed) : db'.Timed := by
  intro key deadline due
  rw [keeps.deadlines] at due
  obtain ⟨object, lookup, isString⟩ := timed key deadline due
  obtain ⟨object', lookup', same⟩ := keeps.types key object lookup
  exact ⟨object', lookup', same.trans isString⟩

/-- Binding a key to a string, whatever happens to its own deadline. -/
theorem DB.Timed.insert (timed : db.Timed) {object : RedisObject} (isString : object.type = .string)
    (store : db'.store = db.store.insert key object)
    (deadlines : ∀ other, other ≠ key → db'.expiration.lookup other = db.expiration.lookup other) :
    db'.Timed := by
  intro other deadline due
  rw [store]
  by_cases same : other = key
  · subst same
    exact ⟨object, Finmap.lookup_insert _, isString⟩
  · rw [deadlines other same] at due
    rw [Finmap.lookup_insert_of_ne _ same]
    exact timed other deadline due

/-- A key whose time has come is bound, and is gone afterwards. -/
theorem DB.Timed.expireIfDue (timed : db.Timed) (now : Int) (key : Bytes) :
    ∃ db', expireIfDue db now key = .ok db' ∧ db'.Timed ∧
      (db' = db ∨ db'.store.lookup key = none ∧
        ∃ object, db.store.lookup key = some object ∧ object.type = .string) := by
  rw [CarrotDb.expireIfDue]
  cases due : db.expiration.lookup key with
  | none => exact ⟨db, rfl, timed, .inl rfl⟩
  | some deadline =>
    obtain ⟨object, lookup, isString⟩ := timed key deadline due
    rw [lookup]
    dsimp only
    split
    · refine ⟨_, rfl, fun other deadline due => ?_, .inr ⟨Finmap.lookup_erase key _,
        object, rfl, isString⟩⟩
      by_cases same : other = key
      · subst same
        rw [Finmap.lookup_erase] at due
        cases due
      · rw [Finmap.lookup_erase_ne same] at due ⊢
        exact timed other deadline due
    · exact ⟨db, rfl, timed, .inl rfl⟩

theorem handleGetOrType_timed (timed : db.Timed) {isTypeCommand : Bool}
    (ran : handleGetOrType db c isTypeCommand key = .ok (db', effects)) : db'.Timed := by
  obtain ⟨db₁, expired, timed₁, -⟩ := timed.expireIfDue c.env.clock.steady key
  rw [handleGetOrType_expires ran] at expired
  cases expired
  exact timed₁

theorem timed_invariant : Invariant DB.Timed where
  bindings db db' store deadlines timed := by
    rw [DB.Timed, store, deadlines]
    exact timed
  command db db' c command effects ran timed := by
    by_cases timing : command.Timing
    · cases command <;> first | exact False.elim timing | skip
      case get => exact handleGetOrType_timed timed ran
      case type => exact handleGetOrType_timed timed ran
      case set key value ex px =>
        cases ran
        refine timed.insert rfl rfl fun other different => ?_
        cases ex <;> cases px <;> first | rfl | exact Finmap.lookup_insert_of_ne _ different
    · exact (callSimple_keeps timing ran).timed timed

/-- In every reachable database a key with a deadline holds a string. -/
theorem reachable_timed (reached : db.Reachable) : db.Timed := by
  induction reached with
  | empty => exact fun key deadline absent => (nomatch absent)
  | executed _ ran timed => exact timed_invariant.execute timed ran
  | swept env _ timed => exact timed
  | loaded key value _ timed =>
    exact timed.insert rfl rfl fun other different => Finmap.lookup_erase_ne different
  | loadedWithExpiry _ _ key value _ _ timed =>
    refine timed.insert rfl rfl fun other different => ?_
    exact (Finmap.lookup_insert_of_ne _ different).trans (Finmap.lookup_erase_ne different)

end CarrotDb
