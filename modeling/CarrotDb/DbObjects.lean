import CarrotDb.DbDefined

/-! Properties of objects that the handlers keep. A handler binds a new object,
or writes the pointer that the tag of the object names; what holds of the first
and stays with the second holds of every object of every reachable database. -/
namespace CarrotDb
open Decimal Resp Listpack

/-- Every object of the store has a property. -/
def DB.Objects (db : DB) (good : RedisObject → Prop) : Prop :=
  ∀ key object, db.store.lookup key = some object → good object

/-- A property of sorted sets that the handlers keep. -/
structure SortedSet.Closed (fine : SortedSet → Prop) : Prop where
  new : fine .new
  flagged : ∀ set isGeo, fine set → fine { set with isGeo := isGeo }
  insert : ∀ set set' member score existed, fine set →
    set.insert member score = .ok (set', existed) → fine set'
  remove : ∀ set set' member found, fine set → set.remove member = .ok (set', found) → fine set'

/-- A property that a new object has and that stays when the pointer its tag
names is written again, of objects whose sorted sets have one of their own;
what a push writes is told apart. -/
structure Kept (good : RedisObject → Prop) (fine : SortedSet → Prop) : Prop where
  closed : SortedSet.Closed fine
  held : ∀ object, good object → ∀ set, object.sortedSetPtr = some set → fine set
  newString : ∀ text, good { type := .string, stringPtr := some text }
  newStream : ∀ stream, good { type := .stream, streamPtr := some stream }
  newSet : ∀ set, fine set → good { type := .sortedSet, sortedSetPtr := some set }
  string : ∀ object, good object → object.type = .string → ∀ text,
    good { object with stringPtr := some text }
  list : ∀ object, good object → object.type = .listPack → ∀ lp,
    good { object with listPack := some lp }
  stream : ∀ object, good object → object.type = .stream → ∀ stream,
    good { object with streamPtr := some stream }
  set : ∀ object, good object → object.type = .sortedSet → ∀ set, fine set →
    good { object with sortedSetPtr := some set }

/-- What a push binds, and what it writes to an object with a listpack. -/
structure KeptByPushes (good : RedisObject → Prop) : Prop where
  newList : ∀ listPack, good { type := .listPack, listPack }
  append : ∀ object, good object → object.listPack ≠ none → ∀ listPack,
    good { object with listPack }

variable {db db' : DB} {c : Context} {effects : List Effect} {key : Bytes}
  {good : RedisObject → Prop} {fine : SortedSet → Prop}

/-- All sorted sets. -/
theorem closed_true : SortedSet.Closed fun _ => True :=
  ⟨trivial, fun _ _ _ => trivial, fun _ _ _ _ _ _ _ => trivial, fun _ _ _ _ _ _ => trivial⟩

theorem DB.Objects.congr (all : db.Objects good) (store : db'.store = db.store) :
    db'.Objects good := by
  intro key object lookup
  rw [store] at lookup
  exact all key object lookup

theorem DB.Objects.insert (all : db.Objects good) {object : RedisObject} (new : good object)
    (store : db'.store = db.store.insert key object) : db'.Objects good := by
  intro other found lookup
  rw [store] at lookup
  by_cases same : other = key
  · subst same
    rw [Finmap.lookup_insert] at lookup
    cases lookup
    exact new
  · rw [Finmap.lookup_insert_of_ne _ same] at lookup
    exact all other found lookup

theorem DB.Objects.replying {bytes : Bytes} (all : db.Objects good)
    (ran : replying db bytes = .ok (db', effects)) : db'.Objects good := (replying_ok ran).1 ▸ all

theorem expireIfDue_objects (all : db.Objects good) {now : Int}
    (expired : expireIfDue db now key = .ok db') : db'.Objects good := by
  unfold expireIfDue at expired
  split at expired
  · split at expired
    · split at expired
      · cases expired
        intro other object lookup
        by_cases same : other = key
        · subst same
          simp at lookup
        · apply all other object
          simpa [Finmap.lookup_erase_ne same] using lookup
      · cases expired
    · cases expired
      exact all
  · cases expired
    exact all

theorem handleGetOrType_objects (all : db.Objects good) {isTypeCommand : Bool}
    (ran : handleGetOrType db c isTypeCommand key = .ok (db', effects)) : db'.Objects good :=
  expireIfDue_objects all (handleGetOrType_expires ran)

theorem handleIncr_objects (kept : Kept good fine) (all : db.Objects good)
    (ran : handleIncr db c key = .ok (db', effects)) : db'.Objects good := by
  unfold handleIncr at ran
  split at ran
  · cases ran
    exact all.insert (kept.newString (ascii "1")) rfl
  · rename_i object lookup
    dsimp only at ran
    split at ran
    · rename_i tag
      obtain ⟨text, -, ran⟩ := exec_bind_ok.mp ran
      split at ran
      · obtain ⟨value, -, ran⟩ := exec_bind_ok.mp ran
        cases ran
        apply all.insert _ rfl
        exact kept.string _ (all key object lookup) tag (intToDecimal value)
      · exact all.replying ran
    · exact all.replying ran

theorem handleLpop_objects (kept : Kept good fine) (all : db.Objects good) (sound : db.Sound)
    {count : Option Nat}
    (ran : handleLpop db c key count = .ok (db', effects)) : db'.Objects good := by
  unfold handleLpop at ran
  split at ran
  · exact all.replying ran
  · rename_i object lookup
    split at ran
    · rename_i lp tag held
      obtain ⟨⟨result, left⟩, popped, ran⟩ := exec_bind_ok.mp ran
      obtain ⟨xs, formed⟩ := list_of_sound (sound.objects _ _ lookup) tag held
      obtain ⟨-, lp', rfl, -⟩ := popElements_inv formed popped
      cases ran
      apply all.insert _ rfl
      exact kept.list _ (all key object lookup) tag lp'
    · exact all.replying ran

theorem handleBlpop_objects (kept : Kept good fine) (all : db.Objects good) (sound : db.Sound)
    {keys : List Bytes} {timeout : Float}
    (ran : handleBlpop db c keys timeout = .ok (db', effects)) : db'.Objects good := by
  unfold handleBlpop at ran
  dsimp only at ran
  split at ran
  · obtain ⟨blocked, -, ran⟩ := exec_bind_ok.mp ran
    cases ran
    exact all.congr rfl
  · rename_i object lookup
    split at ran
    · rename_i lp tag held
      obtain ⟨xs, formed⟩ := list_of_sound (sound.objects _ _ lookup) tag held
      obtain ⟨first, found, ran⟩ := exec_bind_ok.mp ran
      have place := lpFirst_inv formed found
      cases xs with
      | nil =>
        subst place
        obtain ⟨blocked, -, ran⟩ := exec_bind_ok.mp ran
        cases ran
        exact all.congr rfl
      | cons x rest =>
        subst place
        obtain ⟨value, -, ran⟩ := exec_bind_ok.mp ran
        obtain ⟨lp', newp, deleted, -⟩ := lpDelete_first formed c.env.ndebug
        simp only [deleted, exec_ok_bind] at ran
        obtain ⟨rfl, -⟩ := replying_ok ran
        apply all.insert _ rfl
        exact kept.list _ (all _ object lookup) tag lp'
    · exact all.replying ran

theorem handleLlen_objects (kept : Kept good fine) (all : db.Objects good)
    (ran : handleLlen db c key = .ok (db', effects)) : db'.Objects good := by
  unfold handleLlen at ran
  split at ran
  · exact all.replying ran
  · rename_i object lookup
    split at ran
    · rename_i lp tag held
      obtain ⟨⟨length, lp'⟩, -, ran⟩ := exec_bind_ok.mp ran
      obtain ⟨rfl, -⟩ := replying_ok ran
      apply all.insert _ rfl
      exact kept.list _ (all key object lookup) tag lp'
    · exact all.replying ran

theorem handleLrange_objects (kept : Kept good fine) (all : db.Objects good) {start stop : Int}
    (ran : handleLrange db c key start stop = .ok (db', effects)) : db'.Objects good := by
  rcases handleLrange_frame ran with rfl | ⟨object, lp, count, lp', lookup, tag, -, -, rfl⟩
  · exact all
  · apply all.insert _ rfl
    exact kept.list _ (all key object lookup) tag lp'

theorem openStream_objects (kept : Kept good fine) (all : db.Objects good) (key : Bytes) :
    (openStream db key).1.Objects good ∧ good (openStream db key).2 := by
  unfold openStream
  split
  · exact ⟨all, all key _ ‹_›⟩
  · exact ⟨all.insert (kept.newStream _) rfl, kept.newStream _⟩

theorem handleXadd_objects (kept : Kept good fine) (all : db.Objects good) {streamId : Bytes}
    {fieldValues : List (Bytes × Bytes)}
    (ran : handleXadd db c key streamId fieldValues = .ok (db', effects)) : db'.Objects good := by
  have opened := openStream_objects kept all key
  unfold handleXadd at ran
  generalize openStream db key = state at ran opened
  obtain ⟨db₁, object⟩ := state
  obtain ⟨all₁, fine⟩ := opened
  dsimp only at ran all₁ fine
  split at ran
  · exact all₁.replying ran
  · rename_i tag
    obtain ⟨stream, -, ran⟩ := exec_bind_ok.mp ran
    split at ran
    · exact all₁.replying ran
    · obtain ⟨⟨served, woken⟩, handed, ran⟩ := exec_bind_ok.mp ran
      cases ran
      have written := kept.stream _ fine (not_not.mp tag)
        (stream.insert c.env.clock.system streamId (rawValue fieldValues)).1
      rcases handleBlockedXreadClients_frame handed with rfl | rfl
      · exact all₁.insert written rfl
      · exact all₁.insert written rfl

theorem handleXread_objects (all : db.Objects good) {block : Option Float} {keys ids : List Bytes}
    (ran : handleXread db c block keys ids = .ok (db', effects)) : db'.Objects good := by
  unfold handleXread at ran
  split at ran
  · exact all.replying ran
  · obtain ⟨collected, found, ran⟩ := exec_bind_ok.mp ran
    split at ran
    · cases ran
      obtain ⟨key, streamId, timeout, marked⟩ := collectReplies_blocks found
      obtain ⟨blocked, -, marked⟩ := exec_bind_ok.mp marked
      cases marked
      exact all.congr rfl
    · exact all.replying ran
    · obtain ⟨bytes, -, ran⟩ := exec_bind_ok.mp ran
      exact all.replying ran

theorem openSortedSet_objects (kept : Kept good fine) (all : db.Objects good) (key : Bytes) :
    (openSortedSet db key).1.Objects good ∧ good (openSortedSet db key).2 := by
  have new := kept.newSet _ kept.closed.new
  unfold openSortedSet
  split
  · exact ⟨all, all key _ ‹_›⟩
  · exact ⟨all.insert new rfl, new⟩

theorem storeSortedSet_objects (kept : Kept good fine) (all : db.Objects good)
    {object : RedisObject} (held : good object) (tag : ¬ object.type ≠ .sortedSet) {set : SortedSet}
    (left : fine set) : (storeSortedSet db key object set).Objects good :=
  all.insert (kept.set _ held (not_not.mp tag) set left) rfl

theorem zaddMembers_closed (closed : SortedSet.Closed fine) {set set' : SortedSet}
    {scoreMembers : List (Float × Bytes)} {counted added : Nat} (held : fine set)
    (ran : zaddMembers set scoreMembers counted = .ok (set', added)) : fine set' := by
  induction scoreMembers generalizing set counted with
  | nil =>
    cases ran
    exact held
  | cons entry rest ih =>
    obtain ⟨⟨next, existed⟩, inserted, ran⟩ := exec_bind_ok.mp ran
    exact ih (closed.insert _ _ _ _ _ held inserted) ran

theorem zremMembers_closed (closed : SortedSet.Closed fine) {set set' : SortedSet}
    {members : List Bytes} {counted removed : Nat} (held : fine set)
    (ran : zremMembers set members counted = .ok (set', removed)) : fine set' := by
  induction members generalizing set counted with
  | nil =>
    cases ran
    exact held
  | cons member rest ih =>
    obtain ⟨⟨next, found⟩, taken, ran⟩ := exec_bind_ok.mp ran
    exact ih (closed.remove _ _ _ _ held taken) ran

/-- The set that a handler takes out of an object. -/
theorem deref_fine (kept : Kept good fine) {object : RedisObject} {set : SortedSet}
    (held : good object) (taken : deref object.sortedSetPtr = .ok set) : fine set := by
  cases pointer : object.sortedSetPtr with
  | none =>
    rw [pointer] at taken
    cases taken
  | some found =>
    rw [pointer] at taken
    cases taken
    exact kept.held object held _ pointer

theorem handleZadd_objects (kept : Kept good fine) (all : db.Objects good)
    (ran : handleZadd db c = .ok (db', effects)) : db'.Objects good := by
  unfold handleZadd at ran
  split at ran
  · rename_i key scoreMembers asked
    obtain ⟨opened, held⟩ := openSortedSet_objects kept all key
    dsimp only at ran
    split at ran
    · exact opened.replying ran
    · obtain ⟨set, taken, ran⟩ := exec_bind_ok.mp ran
      obtain ⟨⟨set', added⟩, looped, ran⟩ := exec_bind_ok.mp ran
      have left := zaddMembers_closed kept.closed (deref_fine kept held taken) looped
      exact (storeSortedSet_objects kept opened held ‹_› left).replying ran
  · exact all.replying ran

theorem handleZrem_objects (kept : Kept good fine) (all : db.Objects good)
    (ran : handleZrem db c = .ok (db', effects)) : db'.Objects good := by
  unfold handleZrem at ran
  split at ran
  · split at ran
    · exact all.replying ran
    · rename_i object lookup
      have held := all _ object lookup
      split at ran
      · exact all.replying ran
      · obtain ⟨set, taken, ran⟩ := exec_bind_ok.mp ran
        obtain ⟨⟨set', removed⟩, looped, ran⟩ := exec_bind_ok.mp ran
        have left := zremMembers_closed kept.closed (deref_fine kept held taken) looped
        exact (storeSortedSet_objects kept all held ‹_› left).replying ran
  · exact all.replying ran

theorem handleGeoadd_objects (kept : Kept good fine) (all : db.Objects good)
    (ran : handleGeoadd db c = .ok (db', effects)) : db'.Objects good := by
  unfold handleGeoadd at ran
  split at ran
  · rename_i key longitude latitude score member invalid asked
    obtain ⟨opened, held⟩ := openSortedSet_objects kept all key
    split at ran
    · exact all.replying ran
    · dsimp only at ran
      split at ran
      · exact opened.replying ran
      · obtain ⟨set, taken, ran⟩ := exec_bind_ok.mp ran
        obtain ⟨⟨set', existed⟩, inserted, ran⟩ := exec_bind_ok.mp ran
        have flagged := kept.closed.flagged _ true (deref_fine kept held taken)
        have left := kept.closed.insert _ _ _ _ _ flagged inserted
        exact (storeSortedSet_objects kept opened held ‹_› left).replying ran
  · exact all.replying ran

theorem pushValueToList_objects (pushed : KeptByPushes good) (all : db.Objects good)
    {ndebug isPrepend : Bool} {value : Bytes} {len : Nat}
    (ran : pushValueToList db ndebug key value isPrepend = .ok (db', len)) : db'.Objects good := by
  unfold pushValueToList at ran
  split at ran
  · obtain ⟨lp, -, ran⟩ := exec_bind_ok.mp ran
    obtain ⟨listPack, -, ran⟩ := exec_bind_ok.mp ran
    cases ran
    exact all.insert (pushed.newList listPack) rfl
  · rename_i object lookup
    obtain ⟨-, -, ran⟩ := exec_bind_ok.mp ran
    obtain ⟨lp, held, ran⟩ := exec_bind_ok.mp ran
    obtain ⟨listPack, -, ran⟩ := exec_bind_ok.mp ran
    obtain ⟨lp', -, ran⟩ := exec_bind_ok.mp ran
    obtain ⟨count, -, ran⟩ := exec_bind_ok.mp ran
    cases ran
    have some_ : object.listPack ≠ none := by
      intro null
      rw [null] at held
      cases held
    exact all.insert (pushed.append object (all key object lookup) some_ listPack) rfl

theorem pushValues_objects (pushed : KeptByPushes good) (all : db.Objects good)
    {ndebug isPrepend : Bool} {values : List Bytes} {start len : Nat}
    (ran : pushValues db ndebug key isPrepend values start = .ok (db', len)) :
    db'.Objects good := by
  induction values generalizing db start with
  | nil =>
    cases ran
    exact all
  | cons value rest ih =>
    obtain ⟨⟨db₁, len₁⟩, first, ran⟩ := exec_bind_ok.mp ran
    exact ih (pushValueToList_objects pushed all first) ran

theorem handlePush_objects (pushed : KeptByPushes good) (all : db.Objects good) {isPrepend : Bool}
    {values : List Bytes} (ran : handlePush db c isPrepend key values = .ok (db', effects)) :
    db'.Objects good := by
  unfold handlePush at ran
  split at ran
  · rename_i blocked queue first rest waiting
    obtain ⟨⟨db₁, len⟩, looped, ran⟩ := exec_bind_ok.mp ran
    cases ran
    have taken : DB.Objects { db with blockedKeys := popFront db.blockedKeys key queue } good :=
      all.congr rfl
    exact pushValues_objects pushed taken looped
  · obtain ⟨⟨db₁, len⟩, looped, ran⟩ := exec_bind_ok.mp ran
    cases ran
    exact pushValues_objects pushed all looped

/-- The side, key and values of a push. -/
def Command.pushes : Command → Option (Bool × Bytes × List Bytes)
  | .rpush key values => some (false, key, values)
  | .lpush key values => some (true, key, values)
  | _ => none

/-- A command that is no push leaves objects with a property that is kept. -/
theorem callSimple_objects (kept : Kept good fine) (all : db.Objects good) (sound : db.Sound)
    {command : Command} (other : command.pushes = none)
    (ran : callSimple db c command = .ok (db', effects)) : db'.Objects good := by
  by_cases reads : ReadsOnly command
  · exact readsOnly_frame reads ran ▸ all
  · cases command <;> first | exact absurd trivial reads | skip
    case set =>
      cases ran
      exact all.insert (kept.newString _) rfl
    case get => exact handleGetOrType_objects all ran
    case type => exact handleGetOrType_objects all ran
    case incr => exact handleIncr_objects kept all ran
    case rpush => cases other
    case lpush => cases other
    case lrange => exact handleLrange_objects kept all ran
    case llen => exact handleLlen_objects kept all ran
    case lpop => exact handleLpop_objects kept all sound ran
    case blpop => exact handleBlpop_objects kept all sound ran
    case xadd => exact handleXadd_objects kept all ran
    case xread => exact handleXread_objects all ran
    case zadd => exact handleZadd_objects kept all ran
    case zrem => exact handleZrem_objects kept all ran
    case geoAdd => exact handleGeoadd_objects kept all ran
    case exec => cases ran
    case subscribe =>
      simp only [callSimple, handleSubscribe] at ran
      split at ran <;> cases ran
      exact all.congr rfl
    case publish =>
      simp only [callSimple, handlePublish] at ran
      split at ran <;> cases ran
      exact all.congr rfl

theorem callSimple_pushes {command : Command} {isPrepend : Bool} {values : List Bytes}
    (pushes : command.pushes = some (isPrepend, key, values)) :
    callSimple db c command = handlePush db c isPrepend key values := by
  cases command <;> cases pushes <;> rfl

/-- A property that pushes keep too, every command keeps. -/
theorem command_objects (kept : Kept good fine) (pushed : KeptByPushes good) (all : db.Objects good)
    (sound : db.Sound) {command : Command} (ran : callSimple db c command = .ok (db', effects)) :
    db'.Objects good := by
  cases pushes : command.pushes with
  | none => exact callSimple_objects kept all sound pushes ran
  | some push =>
    rw [callSimple_pushes pushes] at ran
    exact handlePush_objects pushed all ran

/-- It holds of every object of every reachable database. -/
theorem reachable_objects (kept : Kept good fine) (pushed : KeptByPushes good)
    (reached : db.Reachable) : db.Objects good := by
  induction reached with
  | empty => exact fun _ _ absent => (nomatch absent)
  | @executed db c rdbFilePath envs executed before ran all =>
    have both := @execute_carries db c (fun db => db.Sound ∧ db.Objects good)
      (fun db db' store deadlines queues held => ⟨held.1.congr store queues, held.2.congr store⟩)
      (fun command _ db db' env effects called held =>
        ⟨callSimple_sound held.1 called, command_objects kept pushed held.2 held.1 called⟩)
      ⟨reachable_sound before, all⟩ rdbFilePath envs executed ran
    exact both.2
  | swept env _ all => exact all.congr rfl
  | loaded key value _ all => exact all.insert (kept.newString value) rfl
  | loadedWithExpiry _ _ key value _ _ all => exact all.insert (kept.newString value) rfl

/-! ## Sorted sets -/

theorem stands_closed : SortedSet.Closed SortedSet.Stands where
  new := SortedSet.new_stands
  flagged _ isGeo stands := stands.flagged isGeo
  insert _ _ _ _ _ stands inserted := stands.insert inserted
  remove _ _ _ _ stands removed := stands.remove removed

/-- The set of an object stands. -/
def RedisObject.SetStands (object : RedisObject) : Prop :=
  ∀ set, object.sortedSetPtr = some set → set.Stands

theorem setStands_kept : Kept RedisObject.SetStands SortedSet.Stands where
  closed := stands_closed
  held _ stands := stands
  newString _ _ absent := by cases absent
  newStream _ _ absent := by cases absent
  newSet set stands set' held := by
    cases held
    exact stands
  string _ stands _ _ := stands
  list _ stands _ _ := stands
  stream _ stands _ _ := stands
  set _ _ _ set stands set' held := by
    cases held
    exact stands

theorem setStands_pushed : KeptByPushes RedisObject.SetStands where
  newList _ _ absent := by cases absent
  append _ stands _ _ := stands

/-- The sorted sets of reachable databases stand. -/
theorem DB.HasSortedSet.stands {db : DB} {key : Bytes} {set : SortedSet}
    (holds : db.HasSortedSet key set) (reached : db.Reachable) : set.Stands := by
  rcases holds with ⟨-, rfl⟩ | ⟨object, lookup, -, pointer⟩
  · exact stands_closed.new
  · exact reachable_objects setStands_kept setStands_pushed reached key object lookup set pointer

end CarrotDb
