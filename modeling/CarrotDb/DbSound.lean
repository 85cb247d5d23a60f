import CarrotDb.DbFrames
import CarrotDb.StreamProofs

/-! What holds of the database in every state it can reach: each object has
the pointer its tag names, holding a well-formed value, and a client that
waits for a stream waits in the queue of that stream. -/
namespace CarrotDb
open Resp Listpack

/-- An object is what its tag says. A list whose first element did not fit
has no listpack. -/
def RedisObject.Sound (object : RedisObject) : Prop :=
  match object.type with
  | .string => ∃ text, object.stringPtr = some text
  | .listPack => ∀ lp, object.listPack = some lp → ∃ xs, Layout lp xs
  | .stream => ∃ stream log, object.streamPtr = some stream ∧ stream.Logs log
  | .sortedSet => ∃ set, object.sortedSetPtr = some set

/-- The invariant of the database. -/
structure DB.Sound (db : DB) : Prop where
  objects : ∀ key object, db.store.lookup key = some object → object.Sound
  waiting : ∀ key queue, db.blockedXreadKeys.lookup key = some queue →
    ∀ blocked ∈ queue, blocked.streamKey = key

variable {db db' : DB} {c : Context} {effects : List Effect}

/-- Only the store and the queues of XREAD matter. -/
theorem DB.Sound.congr (sound : db.Sound) (store : db'.store = db.store)
    (queues : db'.blockedXreadKeys = db.blockedXreadKeys) : db'.Sound :=
  ⟨by rw [store]; exact sound.objects, by rw [queues]; exact sound.waiting⟩

/-- Binding a key to a sound object keeps the invariant. -/
theorem DB.Sound.insert (sound : db.Sound) {object : RedisObject} (formed : object.Sound)
    {key : Bytes} (store : db'.store = db.store.insert key object)
    (queues : db'.blockedXreadKeys = db.blockedXreadKeys) : db'.Sound := by
  refine ⟨fun other found lookup => ?_, by rw [queues]; exact sound.waiting⟩
  rw [store] at lookup
  by_cases same : other = key
  · subst same
    rw [Finmap.lookup_insert] at lookup
    cases lookup
    exact formed
  · rw [Finmap.lookup_insert_of_ne _ same] at lookup
    exact sound.objects other found lookup

theorem DB.Sound.bind (sound : db.Sound) {object : RedisObject} (formed : object.Sound)
    (key : Bytes) : DB.Sound { db with store := db.store.insert key object } :=
  sound.insert formed rfl rfl

theorem sound_of_text {object : RedisObject} {text : Bytes} (tag : object.type = .string)
    (held : object.stringPtr = some text) : object.Sound := by
  rw [RedisObject.Sound, tag]
  exact ⟨text, held⟩

theorem sound_of_list {object : RedisObject} (tag : object.type = .listPack)
    (held : ∀ lp, object.listPack = some lp → ∃ xs, Layout lp xs) : object.Sound := by
  rw [RedisObject.Sound, tag]
  exact held

theorem list_of_sound {object : RedisObject} (formed : object.Sound) (tag : object.type = .listPack)
    {lp : Bytes} (held : object.listPack = some lp) : ∃ xs, Layout lp xs := by
  rw [RedisObject.Sound, tag] at formed
  exact formed lp held

theorem stream_of_sound {object : RedisObject} (formed : object.Sound) (tag : object.type = .stream) :
    ∃ stream log, object.streamPtr = some stream ∧ stream.Logs log := by
  rw [RedisObject.Sound, tag] at formed
  exact formed

theorem handleSet_sound (sound : db.Sound) {key value : Bytes} {ex px : Option Nat}
    (ran : handleSet db c key value ex px = .ok (db', effects)) : db'.Sound := by
  cases ran
  exact sound.insert (sound_of_text rfl rfl) rfl rfl

theorem expireIfDue_sound (sound : db.Sound) {now : Int} {key : Bytes}
    (ran : expireIfDue db now key = .ok db') : db'.Sound := by
  rw [expireIfDue] at ran
  split at ran
  · split at ran
    · split at ran
      · cases ran
        refine ⟨fun other object lookup => ?_, sound.waiting⟩
        by_cases same : other = key
        · subst same
          rw [Finmap.lookup_erase] at lookup
          cases lookup
        · rw [Finmap.lookup_erase_ne same] at lookup
          exact sound.objects other object lookup
      · cases ran
    · cases ran
      exact sound
  · cases ran
    exact sound

theorem handleGetOrType_sound (sound : db.Sound) {isTypeCommand : Bool} {key : Bytes}
    (ran : handleGetOrType db c isTypeCommand key = .ok (db', effects)) : db'.Sound :=
  expireIfDue_sound sound (handleGetOrType_expires ran)

theorem handleIncr_sound (sound : db.Sound) {key : Bytes}
    (ran : handleIncr db c key = .ok (db', effects)) : db'.Sound := by
  rw [handleIncr] at ran
  split at ran
  · cases ran
    exact sound.insert (sound_of_text rfl rfl) rfl rfl
  · rename_i object lookup
    dsimp only at ran
    split at ran
    · rename_i tag
      obtain ⟨text, -, ran⟩ := exec_bind_ok.mp ran
      split at ran
      · obtain ⟨value, -, ran⟩ := exec_bind_ok.mp ran
        cases ran
        refine sound.insert ?_ rfl rfl
        exact sound_of_text tag rfl
      · exact (replying_ok ran).1 ▸ sound
    · exact (replying_ok ran).1 ▸ sound

theorem addElement_sound {lp value : Bytes} {xs : List Bytes} {ndebug isPrepend : Bool}
    (formed : Layout lp xs) (short : value.length < 2 ^ 32) {result : Option Bytes}
    (ran : addElement ndebug lp value isPrepend = .ok result) :
    ∀ lp', result = some lp' → ∃ xs, Layout lp' xs := by
  rintro lp' rfl
  by_cases pushable : Pushable ndebug isPrepend xs
  · by_cases fits : used (pushed isPrepend xs value) ≤ 2 ^ 32 - 1
    · obtain ⟨lp'', added, formed'⟩ := addElement_layout formed pushable fits
      rw [added] at ran
      cases ran
      exact ⟨_, formed'⟩
    · rw [addElement_full formed pushable short (Nat.lt_of_not_le fits)] at ran
      cases ran
  · rw [addElement_unpushable formed pushable] at ran
    cases ran

theorem take_u32_length (value : Bytes) : (value.take (u32 value.length)).length < 2 ^ 32 := by
  have bound : u32 value.length < 2 ^ 32 := Nat.mod_lt _ (by decide)
  rw [List.length_take]
  omega

theorem pushValueToList_sound (sound : db.Sound) {ndebug isPrepend : Bool} {key value : Bytes}
    {len : Nat} (ran : pushValueToList db ndebug key value isPrepend = .ok (db', len)) :
    db'.Sound := by
  have short := take_u32_length value
  rw [pushValueToList] at ran
  generalize value.take (u32 value.length) = value at ran short
  split at ran
  · rw [createNewList] at ran
    obtain ⟨lp, new, ran⟩ := exec_bind_ok.mp ran
    obtain ⟨listPack, added, ran⟩ := exec_bind_ok.mp ran
    obtain ⟨lp', made, formed⟩ := lpNew_layout listPackInitialCapacity
    rw [Except.ok.inj (made.symm.trans new)] at formed
    cases ran
    exact sound.insert (sound_of_list rfl (addElement_sound formed short added)) rfl rfl
  · rename_i object lookup
    have formed := sound.objects key object lookup
    rw [appendToExistingList] at ran
    obtain ⟨-, -, ran⟩ := exec_bind_ok.mp ran
    obtain ⟨lp, held, ran⟩ := exec_bind_ok.mp ran
    obtain ⟨listPack, added, ran⟩ := exec_bind_ok.mp ran
    obtain ⟨lp', found, ran⟩ := exec_bind_ok.mp ran
    obtain ⟨count, -, ran⟩ := exec_bind_ok.mp ran
    cases ran
    refine sound.insert (?_ : RedisObject.Sound { object with listPack := listPack }) rfl rfl
    by_cases tag : object.type = .listPack
    · have some : object.listPack = some lp := by
        cases shape : object.listPack <;> rw [shape] at held <;> cases held
        rfl
      obtain ⟨xs, layout⟩ := list_of_sound formed tag some
      exact sound_of_list tag (addElement_sound layout short added)
    · revert formed
      unfold RedisObject.Sound
      cases shape : object.type <;> simp_all

theorem pushValues_sound (sound : db.Sound) {ndebug isPrepend : Bool} {key : Bytes}
    {values : List Bytes} {start len : Nat}
    (ran : pushValues db ndebug key isPrepend values start = .ok (db', len)) : db'.Sound := by
  induction values generalizing db start with
  | nil =>
    cases ran
    exact sound
  | cons value rest ih =>
    obtain ⟨⟨db₁, len₁⟩, pushed, ran⟩ := exec_bind_ok.mp ran
    exact ih (pushValueToList_sound sound pushed) ran

theorem handlePush_sound (sound : db.Sound) {isPrepend : Bool} {key : Bytes} {values : List Bytes}
    (ran : handlePush db c isPrepend key values = .ok (db', effects)) : db'.Sound := by
  unfold handlePush at ran
  split at ran
  · obtain ⟨⟨db₁, len⟩, pushed, ran⟩ := exec_bind_ok.mp ran
    cases ran
    refine pushValues_sound ?_ pushed
    exact sound.congr rfl rfl
  · obtain ⟨⟨db₁, len⟩, pushed, ran⟩ := exec_bind_ok.mp ran
    cases ran
    exact pushValues_sound sound pushed

/-- Binding a list key to another listpack of some list. -/
private theorem DB.Sound.insert_list (sound : db.Sound) {object : RedisObject} {lp : Bytes}
    {xs : List Bytes} (tag : object.type = .listPack) (formed : Layout lp xs) {key : Bytes} :
    DB.Sound { db with store := db.store.insert key { object with listPack := some lp } } :=
  have held : RedisObject.Sound { object with listPack := some lp } :=
    sound_of_list tag fun _ same => ⟨xs, Option.some.inj same ▸ formed⟩
  sound.insert held rfl rfl

theorem handleLpop_sound (sound : db.Sound) {key : Bytes} {count : Option Nat}
    (ran : handleLpop db c key count = .ok (db', effects)) : db'.Sound := by
  rw [handleLpop] at ran
  split at ran
  · exact (replying_ok ran).1 ▸ sound
  · rename_i object lookup
    split at ran
    · rename_i lp tag held
      obtain ⟨⟨result, left⟩, popped, ran⟩ := exec_bind_ok.mp ran
      obtain ⟨xs, formed⟩ := list_of_sound (sound.objects _ _ lookup) tag held
      obtain ⟨-, lp', rfl, formed'⟩ := popElements_inv formed popped
      cases ran
      exact sound.insert_list tag formed'
    · exact (replying_ok ran).1 ▸ sound

theorem handleBlpop_sound (sound : db.Sound) {keys : List Bytes} {timeout : Float}
    (ran : handleBlpop db c keys timeout = .ok (db', effects)) : db'.Sound := by
  rw [handleBlpop] at ran
  dsimp only at ran
  split at ran
  · obtain ⟨blocked, -, ran⟩ := exec_bind_ok.mp ran
    cases ran
    exact sound.congr rfl rfl
  · rename_i object lookup
    split at ran
    · rename_i lp tag held
      obtain ⟨xs, formed⟩ := list_of_sound (sound.objects _ _ lookup) tag held
      obtain ⟨first, found, ran⟩ := exec_bind_ok.mp ran
      have place := lpFirst_inv formed found
      cases xs with
      | nil =>
        subst place
        obtain ⟨blocked, -, ran⟩ := exec_bind_ok.mp ran
        cases ran
        exact sound.congr rfl rfl
      | cons x rest =>
        subst place
        obtain ⟨value, -, ran⟩ := exec_bind_ok.mp ran
        obtain ⟨lp', newp, deleted, formed'⟩ := lpDelete_first formed c.env.ndebug
        rw [deleted, exec_ok_bind] at ran
        exact (replying_ok ran).1 ▸ sound.insert_list tag formed'
    · exact (replying_ok ran).1 ▸ sound

theorem handleLlen_sound (sound : db.Sound) {key : Bytes}
    (ran : handleLlen db c key = .ok (db', effects)) : db'.Sound := by
  rw [handleLlen] at ran
  split at ran
  · exact (replying_ok ran).1 ▸ sound
  · rename_i object lookup
    split at ran
    · rename_i lp tag held
      obtain ⟨⟨length, lp'⟩, counted, ran⟩ := exec_bind_ok.mp ran
      obtain ⟨xs, formed⟩ := list_of_sound (sound.objects _ _ lookup) tag held
      exact (replying_ok ran).1 ▸ sound.insert_list tag (lpLength_layout formed counted).2
    · exact (replying_ok ran).1 ▸ sound

/-- LRANGE leaves the database that counting the list leaves. -/
theorem handleLrange_frame {key : Bytes} {start stop : Int}
    (ran : handleLrange db c key start stop = .ok (db', effects)) :
    db' = db ∨ ∃ object lp count lp', db.store.lookup key = some object ∧ object.type = .listPack ∧
      object.listPack = some lp ∧ lpLength c.env.ndebug lp = .ok (count, lp') ∧
      db' = { db with store := db.store.insert key { object with listPack := some lp' } } := by
  rw [handleLrange] at ran
  split at ran
  · exact .inl (replying_ok ran).1
  · rename_i object lookup
    split at ran
    · rename_i lp tag held
      obtain ⟨⟨count, lp'⟩, counted, ran⟩ := exec_bind_ok.mp ran
      refine .inr ⟨object, lp, count, lp', lookup, tag, held, counted, ?_⟩
      dsimp only at ran
      generalize (if (if start < 0 then _ else start) < 0 then _ else _ : Int) = first at ran
      generalize (if stop < 0 then _ else stop : Int) = last at ran
      split at ran
      · exact (replying_ok ran).1
      · split at ran
        · exact (replying_ok ran).1
        · obtain ⟨result, -, ran⟩ := exec_bind_ok.mp ran
          exact (replying_ok ran).1
    · exact .inl (replying_ok ran).1

theorem handleLrange_sound (sound : db.Sound) {key : Bytes} {start stop : Int}
    (ran : handleLrange db c key start stop = .ok (db', effects)) : db'.Sound := by
  rcases handleLrange_frame ran with rfl | ⟨object, lp, count, lp', lookup, tag, held, counted, rfl⟩
  · exact sound
  · obtain ⟨xs, formed⟩ := list_of_sound (sound.objects _ _ lookup) tag held
    exact sound.insert_list tag (lpLength_layout formed counted).2

theorem sound_of_stream {object : RedisObject} {stream : Stream} {log : Log}
    (tag : object.type = .stream) (held : object.streamPtr = some stream) (logs : stream.Logs log) :
    object.Sound := by
  rw [RedisObject.Sound, tag]
  exact ⟨stream, log, held, logs⟩

theorem openStream_sound (sound : db.Sound) (key : Bytes) :
    (openStream db key).1.Sound ∧ (openStream db key).2.Sound := by
  rw [openStream]
  split
  · rename_i object lookup
    exact ⟨sound, sound.objects _ _ lookup⟩
  · have formed : RedisObject.Sound { type := .stream, streamPtr := some Stream.new } :=
      sound_of_stream rfl rfl new_logs
    exact ⟨sound.insert formed rfl rfl, formed⟩

theorem handleBlockedXreadClients_frame {env : Env} {key : Bytes}
    (ran : handleBlockedXreadClients db env key = .ok (db', effects)) :
    db' = db ∨ db' = { db with blockedXreadKeys := db.blockedXreadKeys.erase key } := by
  rw [handleBlockedXreadClients] at ran
  split at ran
  · obtain ⟨served, -, ran⟩ := exec_bind_ok.mp ran
    cases ran
    exact .inr rfl
  · cases ran
    exact .inl rfl

theorem DB.Sound.erase_queue (sound : db.Sound) (key : Bytes) :
    DB.Sound { db with blockedXreadKeys := db.blockedXreadKeys.erase key } := by
  refine ⟨sound.objects, fun other queue lookup => ?_⟩
  by_cases same : other = key
  · subst same
    rw [Finmap.lookup_erase] at lookup
    cases lookup
  · rw [Finmap.lookup_erase_ne same] at lookup
    exact sound.waiting other queue lookup

theorem handleXadd_sound (sound : db.Sound) {key streamId : Bytes}
    {fieldValues : List (Bytes × Bytes)}
    (ran : handleXadd db c key streamId fieldValues = .ok (db', effects)) : db'.Sound := by
  rw [handleXadd] at ran
  obtain ⟨opened, formed⟩ := openStream_sound sound key
  dsimp only at ran
  split at ran
  · exact (replying_ok ran).1 ▸ opened
  · rename_i tag
    rw [ne_eq, not_not] at tag
    obtain ⟨stream, log, held, logs⟩ := stream_of_sound formed tag
    rw [held, deref, exec_pure, exec_ok_bind] at ran
    rcases insert_logs logs c.env.clock.system streamId (rawValue fieldValues) with
      ⟨-, refused⟩ | ⟨id, -, status, logs'⟩
    · rw [if_pos refused] at ran
      exact (replying_ok ran).1 ▸ opened
    · rw [status, if_neg (fun refused => refused rfl)] at ran
      obtain ⟨⟨db₁, served⟩, woken, ran⟩ := exec_bind_ok.mp ran
      cases ran
      generalize (openStream db key).1 = opened₁, (openStream db key).2 = object at *
      have written : RedisObject.Sound { object with
          streamPtr := some (stream.insert c.env.clock.system streamId (rawValue fieldValues)).1 } :=
        sound_of_stream tag rfl logs'
      have stored := opened.bind written key
      rcases handleBlockedXreadClients_frame woken with rfl | rfl
      · exact stored
      · exact stored.erase_queue key

/-- A client that blocks on a key joins the queue of that key. -/
theorem markClientBlocking_sound (sound : db.Sound) {key streamId : Bytes} {timeout : Float}
    (ran : markClientBlocking db c key streamId timeout = .ok (db', effects)) : db'.Sound := by
  rw [markClientBlocking] at ran
  obtain ⟨blocked, made, ran⟩ := exec_bind_ok.mp ran
  have own : blocked.streamKey = key := by
    rw [BlockedXreadClient.make] at made
    split at made
    · cases made
      rfl
    · obtain ⟨milliseconds, -, made⟩ := exec_bind_ok.mp made
      cases made
      rfl
  cases ran
  refine ⟨sound.objects, fun other queue lookup => ?_⟩
  by_cases same : other = key
  · subst same
    rw [Finmap.lookup_insert] at lookup
    cases lookup
    intro waiting member
    rcases List.mem_append.mp member with old | new
    · cases found : db.blockedXreadKeys.lookup other with
      | none =>
        rw [found] at old
        cases old
      | some earlier =>
        rw [found] at old
        exact sound.waiting other earlier found waiting old
    · rw [List.mem_singleton.mp new]
      exact own
  · rw [Finmap.lookup_insert_of_ne _ same] at lookup
    exact sound.waiting other queue lookup

theorem handleXread_sound (sound : db.Sound) {block : Option Float} {keys ids : List Bytes}
    (ran : handleXread db c block keys ids = .ok (db', effects)) : db'.Sound := by
  rw [handleXread] at ran
  split at ran
  · exact (replying_ok ran).1 ▸ sound
  · obtain ⟨collected, found, ran⟩ := exec_bind_ok.mp ran
    split at ran
    · cases ran
      obtain ⟨key, streamId, timeout, marked⟩ := collectReplies_blocks found
      exact markClientBlocking_sound sound marked
    · exact (replying_ok ran).1 ▸ sound
    · obtain ⟨bytes, -, ran⟩ := exec_bind_ok.mp ran
      exact (replying_ok ran).1 ▸ sound

theorem sound_of_set {object : RedisObject} {set : SortedSet} (tag : object.type = .sortedSet)
    (held : object.sortedSetPtr = some set) : object.Sound := by
  rw [RedisObject.Sound, tag]
  exact ⟨set, held⟩

theorem openSortedSet_sound (sound : db.Sound) (key : Bytes) : (openSortedSet db key).1.Sound := by
  rw [openSortedSet]
  split
  · exact sound
  · exact sound.bind (sound_of_set rfl rfl) key

theorem storeSortedSet_sound (sound : db.Sound) {key : Bytes} {object : RedisObject}
    {set : SortedSet} (tag : ¬ object.type ≠ .sortedSet) :
    (storeSortedSet db key object set).Sound := by
  have written : RedisObject.Sound { object with sortedSetPtr := some set } :=
    sound_of_set (not_not.mp tag) rfl
  exact sound.bind written key

theorem handleZadd_sound (sound : db.Sound)
    (ran : handleZadd db c = .ok (db', effects)) : db'.Sound := by
  rw [handleZadd] at ran
  split at ran
  · rename_i key scoreMembers asked
    have opened := openSortedSet_sound sound key
    dsimp only at ran
    split at ran
    · exact (replying_ok ran).1 ▸ opened
    · obtain ⟨set, -, ran⟩ := exec_bind_ok.mp ran
      obtain ⟨⟨set', added⟩, -, ran⟩ := exec_bind_ok.mp ran
      exact (replying_ok ran).1 ▸ storeSortedSet_sound opened ‹_›
  · exact (replying_ok ran).1 ▸ sound

theorem handleZrem_sound (sound : db.Sound)
    (ran : handleZrem db c = .ok (db', effects)) : db'.Sound := by
  rw [handleZrem] at ran
  split at ran
  · split at ran
    · exact (replying_ok ran).1 ▸ sound
    · split at ran
      · exact (replying_ok ran).1 ▸ sound
      · obtain ⟨set, -, ran⟩ := exec_bind_ok.mp ran
        obtain ⟨⟨set', removed⟩, -, ran⟩ := exec_bind_ok.mp ran
        exact (replying_ok ran).1 ▸ storeSortedSet_sound sound ‹_›
  · exact (replying_ok ran).1 ▸ sound

theorem handleGeoadd_sound (sound : db.Sound)
    (ran : handleGeoadd db c = .ok (db', effects)) : db'.Sound := by
  rw [handleGeoadd] at ran
  split at ran
  · rename_i key longitude latitude score member invalid asked
    have opened := openSortedSet_sound sound key
    split at ran
    · exact (replying_ok ran).1 ▸ sound
    · dsimp only at ran
      split at ran
      · exact (replying_ok ran).1 ▸ opened
      · obtain ⟨set, -, ran⟩ := exec_bind_ok.mp ran
        obtain ⟨⟨set', existed⟩, -, ran⟩ := exec_bind_ok.mp ran
        exact (replying_ok ran).1 ▸ storeSortedSet_sound opened ‹_›
  · exact (replying_ok ran).1 ▸ sound

/-! ## Every step of the database -/

theorem handleSubscribe_sound (sound : db.Sound)
    (ran : handleSubscribe db c = .ok (db', effects)) : db'.Sound := by
  rw [handleSubscribe] at ran
  split at ran
  · cases ran
    exact sound.congr rfl rfl
  · cases ran

theorem handlePublish_sound (sound : db.Sound)
    (ran : handlePublish db c = .ok (db', effects)) : db'.Sound := by
  rw [handlePublish] at ran
  split at ran
  · cases ran
    exact sound.congr rfl rfl
  · cases ran

/-- One command. -/
theorem callSimple_sound (sound : db.Sound) {command : Command}
    (ran : callSimple db c command = .ok (db', effects)) : db'.Sound := by
  by_cases reads : ReadsOnly command
  · exact readsOnly_frame reads ran ▸ sound
  · cases command <;> first | exact absurd trivial reads | skip
    case geoAdd => exact handleGeoadd_sound sound ran
    case zadd => exact handleZadd_sound sound ran
    case subscribe => exact handleSubscribe_sound sound ran
    case publish => exact handlePublish_sound sound ran
    case set => exact handleSet_sound sound ran
    case get => exact handleGetOrType_sound sound ran
    case type => exact handleGetOrType_sound sound ran
    case incr => exact handleIncr_sound sound ran
    case rpush => exact handlePush_sound sound ran
    case lpush => exact handlePush_sound sound ran
    case lrange => exact handleLrange_sound sound ran
    case llen => exact handleLlen_sound sound ran
    case lpop => exact handleLpop_sound sound ran
    case blpop => exact handleBlpop_sound sound ran
    case xadd => exact handleXadd_sound sound ran
    case xread => exact handleXread_sound sound ran
    case exec => cases ran
    case zrem => exact handleZrem_sound sound ran

/-- One request. -/
theorem execute_sound (sound : db.Sound) {rdbFilePath : Bytes} {envs : List Env}
    {executed : Executed} (ran : execute db c rdbFilePath envs = .ok executed) :
    executed.db.Sound :=
  execute_carries (fun _ _ store _ queues sound => sound.congr store queues)
    (fun _ _ _ _ _ _ called sound => callSimple_sound sound called) sound ran

/-- A queue of waiting clients that a sweep leaves is part of the queue it
found. -/
theorem expireQueues_lookup {α : Type} {now : Int} {timeoutAt : α → Int} {clientFd : α → Fd}
    {queues : Map Bytes (List α)} (keys : List Bytes) {key : Bytes} {queue : List α}
    (lookup : (expireQueues now timeoutAt clientFd queues keys).1.lookup key = some queue) :
    ∃ found, queues.lookup key = some found ∧ queue ⊆ found := by
  unfold expireQueues at lookup
  refine @List.foldlRecOn _ _ (fun state : Map Bytes (List α) × List Fd =>
    ∀ key queue, state.1.lookup key = some queue →
      ∃ found, queues.lookup key = some found ∧ queue ⊆ found) keys _ _
      (fun _ queue lookup => ⟨queue, lookup, List.Subset.refl _⟩) ?_ key queue lookup
  intro state part first _ other queue lookup
  dsimp only [popFront] at lookup
  by_cases same : other = first
  · subst same
    split at lookup
    · rw [Finmap.lookup_erase] at lookup
      cases lookup
    · rw [Finmap.lookup_insert] at lookup
      cases lookup
      rename_i kept
      cases found : queues.lookup other with
      | none =>
        rw [found] at kept
        exact absurd rfl kept
      | some earlier => exact ⟨earlier, rfl, List.filter_subset_self earlier⟩
  · split at lookup
    · rw [Finmap.lookup_erase_ne same] at lookup
      exact part other queue lookup
    · rw [Finmap.lookup_insert_of_ne _ same] at lookup
      exact part other queue lookup

theorem checkAndExpireBlockedClients_sound (sound : db.Sound) (env : Env) :
    (checkAndExpireBlockedClients db env).1.Sound := by
  refine ⟨sound.objects, fun key queue lookup blocked member => ?_⟩
  obtain ⟨found, held, part⟩ := expireQueues_lookup _ lookup
  exact sound.waiting key found held blocked (part member)

/-! ## Reachable databases -/

/-- The databases that some run reaches: requests of any clients, sweeps over
the waiting clients and the loading of a snapshot, in any order. -/
inductive DB.Reachable : DB → Prop where
  | empty : DB.Reachable {}
  | executed {db : DB} {c : Context} {rdbFilePath : Bytes} {envs : List Env} {executed : Executed} :
    DB.Reachable db → execute db c rdbFilePath envs = .ok executed → DB.Reachable executed.db
  | swept {db : DB} (env : Env) :
    DB.Reachable db → DB.Reachable (checkAndExpireBlockedClients db env).1
  | loaded {db : DB} (key value : Bytes) : DB.Reachable db → DB.Reachable (db.set key value)
  | loadedWithExpiry {db : DB} (systemNow steadyNow : Int) (key value : Bytes) (expiry : Nat) :
    DB.Reachable db → DB.Reachable (db.setWithExpiry systemNow steadyNow key value expiry)

/-- The invariant holds in every reachable database. -/
theorem reachable_sound (reached : db.Reachable) : db.Sound := by
  induction reached with
  | empty => exact ⟨fun _ _ absent => (nomatch absent), fun _ _ absent => (nomatch absent)⟩
  | executed _ ran sound => exact execute_sound sound ran
  | swept env _ sound => exact checkAndExpireBlockedClients_sound sound env
  | loaded key value _ sound => exact sound.insert (sound_of_text rfl rfl) rfl rfl
  | loadedWithExpiry _ _ key value _ _ sound =>
    exact sound.insert (sound_of_text rfl rfl) rfl rfl

end CarrotDb
