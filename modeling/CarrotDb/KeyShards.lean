import CarrotDb.DbErasure
import CarrotDb.Lib.Shards

/-! The database as a family of keys and channels. A command about one key
looks at what is kept under that key and writes nothing else, so commands
about different keys can be run in any order. -/
namespace CarrotDb
open Decimal Resp FloatText Listpack Shards

/-- A map with what it holds under a key replaced. -/
def place (map : Map Bytes α) (key : Bytes) : Option α → Map Bytes α
  | some value => map.insert key value
  | none => map.erase key

@[simp] theorem place_lookup (map : Map Bytes α) (key : Bytes) :
    place map key (map.lookup key) = map := by
  refine Finmap.ext_lookup fun other => ?_
  by_cases here : other = key
  · subst here
    cases held : map.lookup other with
    | none => exact Finmap.lookup_erase _ _
    | some value => exact Finmap.lookup_insert _
  · cases map.lookup key with
    | none => exact Finmap.lookup_erase_ne here
    | some value => exact Finmap.lookup_insert_of_ne _ here

theorem lookup_place (map : Map Bytes α) (key : Bytes) (value : Option α) :
    (place map key value).lookup key = value := by
  cases value with
  | none => exact Finmap.lookup_erase _ _
  | some value => exact Finmap.lookup_insert _

theorem lookup_place_ne (map : Map Bytes α) {key other : Bytes} (value : Option α)
    (different : other ≠ key) : (place map key value).lookup other = map.lookup other := by
  cases value with
  | none => exact Finmap.lookup_erase_ne different
  | some value => exact Finmap.lookup_insert_of_ne _ different

@[simp] theorem place_place (map : Map Bytes α) (key : Bytes) (first second : Option α) :
    place (place map key first) key second = place map key second := by
  refine Finmap.ext_lookup fun other => ?_
  by_cases here : other = key
  · subst here
    rw [lookup_place, lookup_place]
  · simp only [lookup_place_ne _ _ here]

@[simp] theorem place_some (map : Map Bytes α) (key : Bytes) (value : α) :
    place map key (some value) = map.insert key value := rfl

@[simp] theorem place_none (map : Map Bytes α) (key : Bytes) :
    place map key none = map.erase key := rfl

/-- A database with all it keeps under one key as another database keeps it. -/
def DB.adopt (db : DB) (key : Bytes) (source : DB) : DB where
  store := place db.store key (source.store.lookup key)
  expiration := place db.expiration key (source.expiration.lookup key)
  blockedKeys := place db.blockedKeys key (source.blockedKeys.lookup key)
  blockedXreadKeys := place db.blockedXreadKeys key (source.blockedXreadKeys.lookup key)
  watchingKeys := place db.watchingKeys key (source.watchingKeys.lookup key)
  pubsubClients := db.pubsubClients

/-- Two databases keep the same under a key. -/
structure Alike (key : Bytes) (db source : DB) : Prop where
  object : source.store.lookup key = db.store.lookup key
  deadline : source.expiration.lookup key = db.expiration.lookup key
  blocked : source.blockedKeys.lookup key = db.blockedKeys.lookup key
  blockedXread : source.blockedXreadKeys.lookup key = db.blockedXreadKeys.lookup key
  watching : source.watchingKeys.lookup key = db.watchingKeys.lookup key

/-- An outcome, put back under the key of another database. -/
def adopting (db : DB) (key : Bytes) (outcome : Exec (DB × α)) : Exec (DB × α) :=
  outcome.map fun result => (db.adopt key result.1, result.2)

variable {db source : DB} {c : Context} {key : Bytes}

@[simp] theorem adopting_ok (result : DB × α) :
    adopting db key (.ok result) = .ok (db.adopt key result.1, result.2) := rfl

@[simp] theorem adopting_error (fault : Fault) :
    adopting db key (.error fault : Exec (DB × α)) = .error fault := rfl

@[simp] theorem adopting_bind (first : Exec α) (next : α → Exec (DB × β)) :
    adopting db key (first >>= next) = first >>= fun value => adopting db key (next value) := by
  cases first <;> rfl

theorem Alike.adopt_self (alike : Alike key db source) : db.adopt key source = db := by
  simp [DB.adopt, alike.object, alike.deadline, alike.blocked, alike.blockedXread, alike.watching]

theorem adopt_adopt (first second : DB) :
    (db.adopt key first).adopt key second = db.adopt key second := by
  simp [DB.adopt]

theorem alike_adopt (db source : DB) (key : Bytes) : Alike key (db.adopt key source) source where
  object := (lookup_place _ _ _).symm
  deadline := (lookup_place _ _ _).symm
  blocked := (lookup_place _ _ _).symm
  blockedXread := (lookup_place _ _ _).symm
  watching := (lookup_place _ _ _).symm

theorem Alike.adopt_insert (alike : Alike key db source) (object : RedisObject) :
    db.adopt key { source with store := source.store.insert key object } =
      { db with store := db.store.insert key object } := by
  simp [DB.adopt, alike.deadline, alike.blocked, alike.blockedXread, alike.watching]

theorem Alike.marks (alike : Alike key db source) (env : Env) :
    markWatchingClientsDirty source env key = markWatchingClientsDirty db env key := by
  simp [markWatchingClientsDirty, alike.watching]

theorem Alike.replying (alike : Alike key db source) (bytes : Bytes) :
    replying db bytes = adopting db key (replying source bytes) := by
  simp [CarrotDb.replying, alike.adopt_self]

theorem handleSet_local (alike : Alike key db source) (value : Bytes) (ex px : Option Nat) :
    handleSet db c key value ex px = adopting db key (handleSet source c key value ex px) := by
  cases ex <;> cases px <;>
    simp [handleSet, DB.adopt, markWatchingClientsDirty, alike.deadline, alike.blocked,
      alike.blockedXread, alike.watching]

theorem expireIfDue_local (alike : Alike key db source) (now : Int) :
    expireIfDue db now key = (expireIfDue source now key).map (db.adopt key) := by
  simp only [expireIfDue, alike.deadline, alike.object]
  split
  · split
    · split
      · simp [Except.map, DB.adopt, alike.blocked, alike.blockedXread, alike.watching]
      · rfl
    · simp [Except.map, alike.adopt_self]
  · simp [Except.map, alike.adopt_self]

theorem handleGetOrType_local (alike : Alike key db source) (isTypeCommand : Bool) :
    handleGetOrType db c isTypeCommand key =
      adopting db key (handleGetOrType source c isTypeCommand key) := by
  simp only [handleGetOrType, expireIfDue_local alike, adopting_bind]
  cases expireIfDue source c.env.clock.steady key with
  | error fault => rfl
  | ok source' =>
    have alike' := alike_adopt db source' key
    have kept (bytes : Bytes) : CarrotDb.replying (db.adopt key source') bytes =
        adopting db key (CarrotDb.replying source' bytes) := rfl
    simp only [Except.map, exec_ok_bind, alike'.object]
    split
    · split
      · split
        · exact kept _
        · simp only [adopting_bind]
          rfl
      · split
        · exact kept _
        · rfl
      · rfl
    · exact kept _

theorem handleIncr_local (alike : Alike key db source) :
    handleIncr db c key = adopting db key (handleIncr source c key) := by
  simp only [handleIncr, alike.object]
  split
  · simp [alike.adopt_insert, markWatchingClientsDirty, alike.watching]
  · split
    · simp only [adopting_bind]
      congr
      funext text
      split
      · simp [alike.adopt_insert, markWatchingClientsDirty, alike.watching]
      · exact alike.replying _
    · exact alike.replying _

theorem pushValueToList_local (alike : Alike key db source) (ndebug isPrepend : Bool)
    (value : Bytes) : pushValueToList db ndebug key value isPrepend =
      adopting db key (pushValueToList source ndebug key value isPrepend) := by
  simp only [pushValueToList, alike.object]
  split
  · simp [createNewList, alike.adopt_insert]
  · simp [appendToExistingList, alike.adopt_insert]

theorem pushValues_local (alike : Alike key db source) (ndebug isPrepend : Bool)
    (values : List Bytes) (start : Nat) : pushValues db ndebug key isPrepend values start =
      adopting db key (pushValues source ndebug key isPrepend values start) := by
  induction values generalizing db source start with
  | nil => simp [pushValues, alike.adopt_self]
  | cons value rest ih =>
    rw [pushValues, pushValues, pushValueToList_local alike, adopting_bind]
    cases pushValueToList source ndebug key value isPrepend with
    | error fault => rfl
    | ok result =>
      obtain ⟨pushed, len⟩ := result
      refine (ih (alike_adopt db pushed key) len).trans ?_
      simp only [adopting, adopt_adopt]
      rfl

theorem place_popFront (queues : Map Bytes (List α)) (rest : List α) (value : Option (List α)) :
    place (popFront queues key rest) key value = place queues key value := by
  unfold popFront
  split
  · exact place_place queues key none value
  · exact place_place queues key (some rest) value

theorem Alike.popFront (alike : Alike key db source) (queue : List BlockedClient) :
    Alike key { db with blockedKeys := CarrotDb.popFront db.blockedKeys key queue }
      { source with blockedKeys := CarrotDb.popFront source.blockedKeys key queue } := by
  refine ⟨alike.object, alike.deadline, ?_, alike.blockedXread, alike.watching⟩
  unfold CarrotDb.popFront
  split <;> simp

/-- What is told about pushes that were put back under their key. -/
private theorem pushes_told (alike : Alike key db source) {ndebug isPrepend : Bool}
    {values : List Bytes} {tell tell' : DB × Nat → List Effect}
    (same : ∀ pushed len, tell (db.adopt key pushed, len) = tell' (pushed, len)) :
    (do
      let pushed ← pushValues db ndebug key isPrepend values 0
      pure (pushed.1, tell pushed) : Outcome) =
    adopting db key (do
      let pushed ← pushValues source ndebug key isPrepend values 0
      pure (pushed.1, tell' pushed)) := by
  rw [pushValues_local alike, adopting_bind]
  cases pushValues source ndebug key isPrepend values 0 with
  | error fault => rfl
  | ok pushed =>
    obtain ⟨pushed, len⟩ := pushed
    simp [same]

theorem handlePush_local (alike : Alike key db source) (isPrepend : Bool) (values : List Bytes) :
    handlePush db c isPrepend key values =
      adopting db key (handlePush source c isPrepend key values) := by
  unfold handlePush
  rw [alike.blocked]
  split
  · rename_i blocked queue first rest waiting
    let tell (_ : DB × Nat) : List Effect :=
      (if c.env.alive blocked.clientFd then
        [.write blocked.clientFd (encodeBulkStringArray [key, first]), .unblock blocked.clientFd]
      else []) ++ [.reply (encodeInteger (first :: rest).length)]
    refine (@pushes_told _ _ _ (alike.popFront queue) _ _ _ tell tell fun _ _ => rfl).trans ?_
    simp only [adopting, DB.adopt, place_popFront]
    rfl
  · exact pushes_told alike fun pushed len => by rw [(alike_adopt db pushed key).marks]

theorem Alike.adopt_blocked (alike : Alike key db source) (queue : List BlockedClient) :
    db.adopt key { source with blockedKeys := source.blockedKeys.insert key queue } =
      { db with blockedKeys := db.blockedKeys.insert key queue } := by
  simp [DB.adopt, alike.object, alike.deadline, alike.blockedXread, alike.watching]

theorem handleBlpop_local (alike : Alike key db source) {names : List Bytes}
    (first : names.headD [] = key) (timeout : Float) :
    handleBlpop db c names timeout = adopting db key (handleBlpop source c names timeout) := by
  unfold handleBlpop
  rw [first]
  simp only [alike.object]
  split
  · simp [alike.adopt_blocked, alike.blocked]
  · split
    · simp only [adopting_bind]
      congr
      funext first
      split
      · simp [alike.adopt_blocked, alike.blocked]
      · simp [replying, alike.adopt_insert]
    · exact alike.replying _

theorem handleLpop_local (alike : Alike key db source) (count : Option Nat) :
    handleLpop db c key count = adopting db key (handleLpop source c key count) := by
  simp only [handleLpop, alike.object]
  split
  · exact alike.replying _
  · split
    · simp [alike.adopt_insert, markWatchingClientsDirty, alike.watching]
    · exact alike.replying _

theorem handleLlen_local (alike : Alike key db source) :
    handleLlen db c key = adopting db key (handleLlen source c key) := by
  simp only [handleLlen, alike.object]
  split
  · exact alike.replying _
  · split
    · simp [replying, alike.adopt_insert]
    · exact alike.replying _

theorem handleLrange_local (alike : Alike key db source) (start stop : Int) :
    handleLrange db c key start stop = adopting db key (handleLrange source c key start stop) := by
  simp only [handleLrange, alike.object]
  split
  · exact alike.replying _
  · split
    · simp only [adopting_bind]
      congr
      funext counted
      generalize (if (if start < 0 then _ else start) < 0 then _ else _ : Int) = first
      generalize (if stop < 0 then _ else stop : Int) = last
      split
      · simp [replying, alike.adopt_insert]
      · split <;> simp [replying, alike.adopt_insert]
    · exact alike.replying _

/-- Everyone who waits for the stream of a key waits in its queue. -/
def DB.QueuesOwn (db : DB) (key : Bytes) : Prop :=
  ∀ queue, db.blockedXreadKeys.lookup key = some queue → ∀ blocked ∈ queue, blocked.streamKey = key

theorem adopting_adopt (source : DB) (outcome : Exec (DB × α)) :
    adopting (db.adopt key source) key outcome = adopting db key outcome := by
  simp only [adopting, adopt_adopt]

theorem xreadResponse_local (alike : Alike key db source) (startId : Bytes) :
    xreadResponse source key startId = xreadResponse db key startId := by
  simp only [xreadResponse, alike.object]

theorem serveXreadClients_local (alike : Alike key db source) {env : Env}
    {queue : List BlockedXreadClient} (own : ∀ blocked ∈ queue, blocked.streamKey = key) :
    serveXreadClients source env queue = serveXreadClients db env queue := by
  induction queue with
  | nil => rfl
  | cons blocked rest ih =>
    have here := own blocked List.mem_cons_self
    have later := ih fun other member => own other (List.mem_cons_of_mem _ member)
    simp only [serveXreadClients, here, xreadResponse_local alike, later]

theorem handleBlockedXreadClients_local (alike : Alike key db source) (own : source.QueuesOwn key)
    (env : Env) : handleBlockedXreadClients db env key =
      adopting db key (handleBlockedXreadClients source env key) := by
  simp only [handleBlockedXreadClients, alike.blockedXread]
  split
  · rename_i blocked queue waiting
    rw [serveXreadClients_local alike (own _ (alike.blockedXread.trans waiting)), adopting_bind]
    congr
    funext effects
    simp [DB.adopt, alike.object, alike.deadline, alike.blocked, alike.watching]
  · simp [alike.adopt_self]

theorem openStream_local (alike : Alike key db source) :
    openStream db key = (db.adopt key (openStream source key).1, (openStream source key).2) := by
  simp only [openStream, alike.object]
  split
  · simp [alike.adopt_self]
  · simp [alike.adopt_insert]

theorem openStream_queuesOwn (own : source.QueuesOwn key) : (openStream source key).1.QueuesOwn key := by
  unfold openStream
  split <;> exact own

/-- An entry that was stored: what its client is told, and who is woken. -/
private theorem woken_local (written : DB) (own : written.QueuesOwn key) (told : Effect) :
    (do
      let served ← handleBlockedXreadClients (db.adopt key written) c.env key
      pure (served.1,
        told :: markWatchingClientsDirty (db.adopt key written) c.env key ++ served.2) : Outcome) =
    adopting db key (do
      let served ← handleBlockedXreadClients written c.env key
      pure (served.1, told :: markWatchingClientsDirty written c.env key ++ served.2)) := by
  have alike := alike_adopt db written key
  rw [handleBlockedXreadClients_local alike own, adopting_adopt, alike.marks, adopting_bind]
  cases handleBlockedXreadClients written c.env key <;> rfl

theorem handleXadd_local (alike : Alike key db source) (own : source.QueuesOwn key)
    (streamId : Bytes) (fieldValues : List (Bytes × Bytes)) :
    handleXadd db c key streamId fieldValues =
      adopting db key (handleXadd source c key streamId fieldValues) := by
  have queues := openStream_queuesOwn own
  simp only [handleXadd, openStream_local alike]
  generalize (openStream source key).1 = opened, (openStream source key).2 = object at *
  split
  · rfl
  · simp only [adopting_bind]
    congr
    funext stream
    split
    · rfl
    · have alike' := alike_adopt db opened key
      simp only [← alike'.adopt_insert, adopt_adopt]
      exact woken_local { opened with store := opened.store.insert key _ } queues _

theorem handleXrange_local (alike : Alike key db source) (start stop : Bytes) :
    handleXrange db key start stop = adopting db key (handleXrange source key start stop) := by
  simp only [handleXrange, alike.object]
  split
  · exact alike.replying _
  · split
    · split
      · exact alike.replying _
      · exact alike.replying _
      · simp only [adopting_bind]
        congr
        funext bytes
        exact alike.replying _
    · exact alike.replying _

theorem markClientBlocking_local (alike : Alike key db source) (streamId : Bytes) (timeout : Float) :
    markClientBlocking db c key streamId timeout =
      adopting db key (markClientBlocking source c key streamId timeout) := by
  simp only [markClientBlocking, alike.blockedXread, adopting_bind]
  congr
  funext blocked
  simp [DB.adopt, alike.object, alike.deadline, alike.blocked, alike.watching]

/-- The loop over the keys of a reading that names one key only. -/
theorem collectReplies_local (alike : Alike key db source) (block : Option Float)
    {asked : List (Bytes × Bytes)} (named : ∀ one ∈ asked, one.1 = key)
    (replies : List (Bytes × List (Bytes × Bytes))) :
    collectReplies db c block asked replies =
      (collectReplies source c block asked replies).map
        (Sum.map id fun outcome => (db.adopt key outcome.1, outcome.2)) := by
  induction asked generalizing replies with
  | nil => rfl
  | cons one rest ih =>
    obtain ⟨name, startId⟩ := one
    obtain rfl : name = key := named (name, startId) List.mem_cons_self
    have next := @ih fun other member => named other (List.mem_cons_of_mem _ member)
    have marked (streamId : Bytes) (timeout : Float) :
        (do pure (.inr (← markClientBlocking db c name streamId timeout)) :
          Exec (List (Bytes × List (Bytes × Bytes)) ⊕ (DB × List Effect))) =
        (do pure (.inr (← markClientBlocking source c name streamId timeout)) :
          Exec (List (Bytes × List (Bytes × Bytes)) ⊕ (DB × List Effect))).map
            (Sum.map id fun outcome => (db.adopt name outcome.1, outcome.2)) := by
      rw [markClientBlocking_local alike]
      cases markClientBlocking source c name streamId timeout <;> rfl
    have from_ : blockOnId source name startId = blockOnId db name startId := by
      simp only [blockOnId, alike.object]
    conv_lhs => unfold collectReplies
    conv_rhs => unfold collectReplies
    simp only [alike.object, from_]
    split
    · exact marked _ _
    · rfl
    · split
      · exact marked _ _
      · split
        · split
          · exact next _
          · exact marked _ _
          · exact next _
        · exact next _

theorem handleXread_local (alike : Alike key db source) (block : Option Float)
    {names ids : List Bytes} (named : ∀ one ∈ names.zip ids, one.1 = key) :
    handleXread db c block names ids = adopting db key (handleXread source c block names ids) := by
  unfold handleXread
  split
  · exact alike.replying _
  · rw [collectReplies_local alike block named]
    cases collectReplies source c block (names.zip ids) [] with
    | error fault => rfl
    | ok collected =>
      cases collected with
      | inr outcome => rfl
      | inl replies =>
        cases replies with
        | nil => exact alike.replying _
        | cons reply rest =>
          simp only [Except.map, Sum.map_inl, id_eq, exec_ok_bind, adopting_bind]
          congr
          funext bytes
          exact alike.replying _

theorem withSortedSet_local (alike : Alike key db source) (missing : Bytes)
    (reply : SortedSet → Exec Bytes) : withSortedSet db key missing reply =
      adopting db key (withSortedSet source key missing reply) := by
  simp only [withSortedSet, alike.object]
  split
  · exact alike.replying _
  · split
    · exact alike.replying _
    · simp only [adopting_bind]
      congr
      funext set
      congr
      funext bytes
      exact alike.replying _

theorem openSortedSet_local (alike : Alike key db source) : openSortedSet db key =
    (db.adopt key (openSortedSet source key).1, (openSortedSet source key).2) := by
  simp only [openSortedSet, alike.object]
  split
  · simp [alike.adopt_self]
  · simp [alike.adopt_insert]

theorem storeSortedSet_local (opened : DB) (object : RedisObject) (set : SortedSet) :
    storeSortedSet (db.adopt key opened) key object set =
      db.adopt key (storeSortedSet opened key object set) := by
  simp only [storeSortedSet, ← (alike_adopt db opened key).adopt_insert, adopt_adopt]

theorem handleZadd_local (alike : Alike key db source) {scoreMembers : List (Float × Bytes)}
    (asked : c.command = .zadd key scoreMembers) :
    handleZadd db c = adopting db key (handleZadd source c) := by
  simp only [handleZadd, asked, openSortedSet_local alike]
  split
  · rfl
  · simp only [adopting_bind, storeSortedSet_local]
    rfl

theorem handleZrem_local (alike : Alike key db source) {members : List Bytes}
    (asked : c.command = .zrem key members) :
    handleZrem db c = adopting db key (handleZrem source c) := by
  simp only [handleZrem, asked, alike.object]
  split
  · exact alike.replying _
  · split
    · exact alike.replying _
    · simp [adopting_bind, storeSortedSet, replying, alike.adopt_insert]

theorem handleGeoadd_local (alike : Alike key db source) {longitude latitude score : Float}
    {member : Bytes} {invalid : Bool}
    (asked : c.command = .geoAdd key longitude latitude score member invalid) :
    handleGeoadd db c = adopting db key (handleGeoadd source c) := by
  simp only [handleGeoadd, asked, openSortedSet_local alike]
  split
  · exact alike.replying _
  · split
    · rfl
    · simp only [adopting_bind, storeSortedSet_local]
      rfl

/-- What a command can be about: a key, a channel, or neither. -/
inductive Part where
  | nothing
  | key (name : Bytes)
  | channel (name : Bytes)
  deriving DecidableEq

/-- All that a database keeps under a key. -/
structure Slot where
  object : Option RedisObject
  deadline : Option Int
  blocked : Option (List BlockedClient)
  blockedXread : Option (List BlockedXreadClient)
  watching : Option (List Fd)

abbrev Part.Content : Part → Type
  | .nothing => Unit
  | .key _ => Slot
  | .channel _ => Option (List Fd)

def DB.shard : (part : Part) → DB → part.Content
  | .nothing, _ => ()
  | .key name, db =>
    ⟨db.store.lookup name, db.expiration.lookup name, db.blockedKeys.lookup name,
      db.blockedXreadKeys.lookup name, db.watchingKeys.lookup name⟩
  | .channel name, db => db.pubsubClients.lookup name

/-- The part a command is about. EXEC, KEYS and a reading of several keys are
about no single one. -/
def Command.part : Command → Option Part
  | .set name .. | .get name | .type name | .incr name | .rpush name _ | .lpush name _
  | .lrange name .. | .llen name | .lpop name _ | .xadd name .. | .xrange name .. | .zadd name _
  | .zrank name _ | .zrange name .. | .zcard name | .zscore name _ | .zrem name _ | .geoAdd name ..
  | .geoPos name _ | .geoDist name .. | .geoSearch name .. => some (.key name)
  | .blpop names _ => some (.key (names.headD []))
  | .xread _ names ids =>
    match (names.zip ids).map Prod.fst with
    | [] => some .nothing
    | name :: rest => if rest.all (· = name) then some (.key name) else none
  | .subscribe name | .publish name _ => some (.channel name)
  | .exec | .keys _ => none
  | _ => some .nothing

/-- A command about one part, with the context it is called in. -/
structure PartCall where
  context : Context
  part : Part
  about : context.command.part = some part

/-- `DB::call` for such a command. -/
def PartCall.step (db : DB) (call : PartCall) : Exec (List Effect × DB) :=
  (callSimple db call.context call.context.command).map Prod.swap

theorem shard_key_iff {name : Bytes} :
    source.shard (.key name) = db.shard (.key name) ↔ Alike name db source := by
  constructor
  · intro same
    obtain ⟨object, deadline, blocked, blockedXread, watching⟩ := Slot.mk.inj same
    exact ⟨object, deadline, blocked, blockedXread, watching⟩
  · intro alike
    simp [DB.shard, alike.object, alike.deadline, alike.blocked, alike.blockedXread, alike.watching]

theorem shard_whole (same : ∀ part, db.shard part = source.shard part) : db = source := by
  have object (name : Bytes) := (shard_key_iff.mp (same (.key name))).object
  have deadline (name : Bytes) := (shard_key_iff.mp (same (.key name))).deadline
  have blocked (name : Bytes) := (shard_key_iff.mp (same (.key name))).blocked
  have blockedXread (name : Bytes) := (shard_key_iff.mp (same (.key name))).blockedXread
  have watching (name : Bytes) := (shard_key_iff.mp (same (.key name))).watching
  have channel (name : Bytes) : db.pubsubClients.lookup name = source.pubsubClients.lookup name :=
    same (.channel name)
  cases db
  cases source
  simp only [DB.mk.injEq]
  exact ⟨Finmap.ext_lookup object, Finmap.ext_lookup deadline, Finmap.ext_lookup blocked,
    Finmap.ext_lookup blockedXread, Finmap.ext_lookup watching, Finmap.ext_lookup channel⟩

theorem shard_adopt {name : Bytes} {part : Part} (other : part ≠ .key name) :
    (db.adopt name source).shard part = db.shard part := by
  cases part with
  | nothing => rfl
  | channel channel => rfl
  | key key =>
    have different : key ≠ name := fun same => other (congrArg Part.key same)
    simp only [DB.shard, DB.adopt, lookup_place_ne _ _ different]

/-! ## Commands about a part -/

/-- A reading is about a key if it names that key only. -/
theorem xread_part {block : Option Float} {names ids : List Bytes}
    (about : (Command.xread block names ids).part = some (.key key)) :
    ∀ one ∈ names.zip ids, one.1 = key := by
  simp only [Command.part] at about
  split at about
  · cases about
  · rename_i name rest named
    split at about
    · rename_i same
      cases about
      intro one member
      have inside : one.1 ∈ key :: rest := by
        rw [← named]
        exact List.mem_map_of_mem member
      rcases List.mem_cons.mp inside with here | later
      · exact here
      · simpa using List.all_eq_true.mp same _ later
    · cases about

theorem xread_nothing {block : Option Float} {names ids : List Bytes}
    (about : (Command.xread block names ids).part = some .nothing) :
    names.zip ids = [] := by
  simp only [Command.part] at about
  split at about
  · rename_i named
    exact List.map_eq_nil_iff.mp named
  · split at about <;> cases about

/-- A command about a key does the same to all databases that keep the same
under it. -/
theorem callSimple_key (alike : Alike key db source) (own : source.QueuesOwn key)
    (about : c.command.part = some (.key key)) :
    callSimple db c c.command = adopting db key (callSimple source c c.command) := by
  cases asked : c.command <;> rw [asked] at about
  case xread => exact handleXread_local alike _ (xread_part about)
  all_goals cases about
  case set => exact handleSet_local alike _ _ _
  case get => exact handleGetOrType_local alike false
  case type => exact handleGetOrType_local alike true
  case incr => exact handleIncr_local alike
  case rpush => exact handlePush_local alike false _
  case lpush => exact handlePush_local alike true _
  case lrange => exact handleLrange_local alike _ _
  case llen => exact handleLlen_local alike
  case lpop => exact handleLpop_local alike _
  case blpop => exact handleBlpop_local alike rfl _
  case xadd => exact handleXadd_local alike own _ _
  case xrange => exact handleXrange_local alike _ _
  case zadd => exact handleZadd_local alike asked
  case zrem => exact handleZrem_local alike asked
  case geoAdd => exact handleGeoadd_local alike asked
  all_goals
    simp only [callSimple, handleZrank, handleZrange, handleZcard, handleZscore, handleGeopos,
      handleGeodist, handleGeosearch, asked]
    exact withSortedSet_local alike _ _

/-- A command about neither key nor channel looks at no database. -/
theorem callSimple_nothing (about : c.command.part = some .nothing) :
    callSimple db c c.command = (callSimple source c c.command).map fun result => (db, result.2) := by
  cases asked : c.command <;> rw [asked] at about
  case xread block names ids =>
    simp only [callSimple, handleXread, xread_nothing about, collectReplies]
    split <;> rfl
  all_goals cases about
  case aclGetUser =>
    simp only [callSimple, handleAclGetuser, asked]
    rfl
  case discard =>
    simp only [callSimple, handleDiscard]
    split <;> rfl
  all_goals rfl

/-- A command about a channel looks at its subscribers, and changes them. -/
theorem callSimple_channel {name : Bytes} (about : c.command.part = some (.channel name)) (db : DB) :
    ∃ subscribers effects, callSimple db c c.command = .ok
        ({ db with pubsubClients := db.pubsubClients.insert name subscribers }, effects) ∧
      ∀ source : DB, source.pubsubClients.lookup name = db.pubsubClients.lookup name →
        callSimple source c c.command = .ok
          ({ source with pubsubClients := source.pubsubClients.insert name subscribers }, effects) := by
  cases asked : c.command <;> rw [asked] at about
  case xread block names ids =>
    simp only [Command.part] at about
    split at about
    · cases about
    · split at about <;> cases about
  all_goals cases about
  case subscribe =>
    simp only [callSimple, handleSubscribe, asked]
    exact ⟨_, _, rfl, fun source same => by rw [same]; rfl⟩
  case publish =>
    simp only [callSimple, handlePublish, asked]
    exact ⟨_, _, rfl, fun source same => by rw [same]; rfl⟩

/-! ## Reordering -/

theorem queuesOwn_of_sound (sound : db.Sound) (key : Bytes) : db.QueuesOwn key :=
  fun queue waiting => sound.waiting key queue waiting

theorem step_ok {call : PartCall} {effects : List Effect} {db' : DB} :
    call.step db = .ok (effects, db') ↔
      callSimple db call.context call.context.command = .ok (db', effects) := by
  unfold PartCall.step
  cases callSimple db call.context call.context.command with
  | error fault => simp [Except.map]
  | ok result =>
    obtain ⟨db₁, effects₁⟩ := result
    simp [Except.map, and_comm]

/-- The database is sharded: by key, and by channel. -/
theorem database_sharded :
    Sharding DB.shard PartCall.part DB.Sound fun db call => call.step db where
  whole := fun _ _ same => shard_whole same
  keeps := fun db call effects db' sound ran => callSimple_sound sound (step_ok.mp ran)
  others := fun db call effects db' sound ran part other => by
    have called := step_ok.mp ran
    obtain ⟨c, place, about⟩ := call
    cases place with
    | nothing =>
      have told := @callSimple_nothing db db c about
      rw [called] at told
      rw [(Prod.mk.inj (Except.ok.inj told)).1]
    | key name =>
      have alike := shard_key_iff.mp (Eq.refl (db.shard (.key name)))
      have told := callSimple_key alike (queuesOwn_of_sound sound name) about
      rw [called] at told
      have kept : db' = db.adopt name db' := (Prod.mk.inj (Except.ok.inj told)).1
      rw [kept]
      exact shard_adopt other
    | channel name =>
      obtain ⟨subscribers, effects', told, -⟩ := callSimple_channel about db
      rw [told] at called
      cases called
      cases part with
      | nothing => rfl
      | key name => rfl
      | channel channel =>
        exact Finmap.lookup_insert_of_ne _ fun same => other (congrArg Part.channel same)
  own := fun db source call sound sound' same => by
    obtain ⟨c, place, about⟩ := call
    unfold PartCall.step
    cases place with
    | nothing =>
      rw [@callSimple_nothing db source c about]
      cases callSimple source c c.command with
      | error fault => exact .fault fault
      | ok result => exact .output result.2 rfl
    | key name =>
      have alike := shard_key_iff.mp same.symm
      rw [callSimple_key alike (queuesOwn_of_sound sound' name) about]
      cases callSimple source c c.command with
      | error fault => exact .fault fault
      | ok result =>
        exact .output result.2 (shard_key_iff.mpr (alike_adopt db result.1 name)).symm
    | channel name =>
      obtain ⟨subscribers, effects, told, others⟩ := callSimple_channel about db
      rw [told, others source same.symm]
      refine .output effects ?_
      simp [DB.shard]

/-- Commands about single keys and channels can be run in any order that keeps
the order of those about the same one: each of them does the same to clients,
and the database that is left is the same. -/
theorem commands_reordered {db' : DB} (reached : db.Reachable) {calls reordered : List PartCall}
    {outputs : List (List Effect)}
    (same : ∀ part, inputsAt PartCall.part part calls = inputsAt PartCall.part part reordered)
    (ran : Lockstep.run (fun db (call : PartCall) => call.step db) db calls = .ok (outputs, db')) :
    ∃ outputs', Lockstep.run (fun db (call : PartCall) => call.step db) db reordered =
        .ok (outputs', db') ∧
      ∀ part, answersAt PartCall.part part calls outputs =
        answersAt PartCall.part part reordered outputs' :=
  database_sharded.run_reordered (reachable_sound reached) same ran

/-- A client that sets a key. -/
def PartCall.setA : PartCall :=
  ⟨{ Context.sample with command := .set (ascii "a") (ascii "1") none none }, .key (ascii "a"), rfl⟩

/-- A client that pushes to another one. -/
def PartCall.pushB : PartCall :=
  ⟨{ Context.sample with fd := 6, command := .rpush (ascii "b") [ascii "x"] }, .key (ascii "b"), rfl⟩

theorem commands_reordered_two : ∃ outputs outputs' db',
    Lockstep.run (fun db (call : PartCall) => call.step db) {} [.setA, .pushB] =
      .ok (outputs, db') ∧
    Lockstep.run (fun db (call : PartCall) => call.step db) {} [.pushB, .setA] =
      .ok (outputs', db') := by
  have ran : (Lockstep.run (fun db (call : PartCall) => call.step db) {}
      [PartCall.setA, .pushB]).isOk = true := by decide +kernel
  obtain ⟨⟨outputs, db'⟩, ran⟩ := exec_of_isOk ran
  have different : PartCall.part .setA ≠ PartCall.part .pushB := by decide
  obtain ⟨outputs', swapped, -⟩ :=
    commands_reordered .empty (fun part => inputsAt_swap different [] part) ran
  exact ⟨outputs, outputs', db', ran, swapped⟩

end CarrotDb
