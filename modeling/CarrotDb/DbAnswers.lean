import CarrotDb.DbWaiting
import CarrotDb.RespReplies

/-! What each command does to clients. It answers the client it serves with
one reply, or makes it wait, or hands over to clients that waited; the few
cases that leave the client without a reply are named. -/
namespace CarrotDb
open Decimal Resp FloatText Listpack

/-- An effect that no connection but the served one is told about. -/
def Effect.Own : Effect → Prop
  | .write .. | .block | .unblock _ | .ready _ => False
  | _ => True

/-- The clients that the slot of the context is set to, one after another. -/
def unblockedClients (effects : List Effect) : List Fd :=
  effects.filterMap fun
    | .unblock fd => some fd
    | _ => none

/-- The clients whose queues at channels are served. -/
def readyClients (effects : List Effect) : List Fd :=
  effects.filterMap fun
    | .ready fd => some fd
    | _ => none

/-- Nothing but own effects. -/
def Own (effects : List Effect) : Prop := ∀ effect ∈ effects, effect.Own

variable {db db' : DB} {c : Context} {effects first second : List Effect}

theorem own_append (one : Own first) (two : Own second) : Own (first ++ second) := by
  intro effect member
  rcases List.mem_append.mp member with left | right
  · exact one effect left
  · exact two effect right

theorem own_nil : Own [] := fun _ absent => nomatch absent

theorem own_reply (bytes : Bytes) : Own [.reply bytes] := fun _ member =>
  (List.mem_singleton.mp member) ▸ trivial

theorem own_dirty (db : DB) (env : Env) (key : Bytes) :
    Own (markWatchingClientsDirty db env key) := by
  intro effect member
  obtain ⟨fd, -, rfl⟩ := List.mem_map.mp member
  trivial

theorem Own.tail {effect : Effect} (own : Own (effect :: effects)) : effect.Own ∧ Own effects :=
  ⟨own effect List.mem_cons_self, fun other member => own other (List.mem_cons_of_mem _ member)⟩

/-- What a connection other than the served one sees of own effects. -/
theorem Own.calm (own : Own effects) : writes effects = [] ∧ unblockedClients effects = [] ∧
    readyClients effects = [] ∧ blocks effects = 0 := by
  induction effects with
  | nil => exact ⟨rfl, rfl, rfl, rfl⟩
  | cons effect rest ih =>
    obtain ⟨here, later⟩ := own.tail
    obtain ⟨written, unblocked, ready, calm⟩ := ih later
    rw [writes] at written
    rw [unblockedClients] at unblocked
    rw [readyClients] at ready
    rw [blocks] at calm
    rw [writes, unblockedClients, readyClients, blocks, List.filterMap_cons, List.filterMap_cons,
      List.filterMap_cons, List.countP_cons]
    cases effect <;> first | exact here.elim | exact ⟨written, unblocked, ready, calm⟩

/-! ## Replies made of parts -/

/-- The replies for entries of a stream, one for each. -/
theorem replies_entries {entries : List (Bytes × Bytes)} {bytes : Bytes}
    (ran : encodeEntries entries = .ok bytes) :
    ∃ rs, Replies rs bytes ∧ rs.length = entries.length := by
  induction entries generalizing bytes with
  | nil =>
    cases ran
    exact ⟨[], replies_nil, rfl⟩
  | cons entry rest ih =>
    obtain ⟨binaryId, rawPayload⟩ := entry
    rw [encodeEntries] at ran
    obtain ⟨sid, -, ran⟩ := exec_bind_ok.mp ran
    dsimp only at ran
    obtain ⟨later, following, ran⟩ := exec_bind_ok.mp ran
    cases ran
    obtain ⟨rs, replies, count⟩ := ih following
    have pair : Reply (encodeArrayHeader 2 ++ (encodeBulkString sid.toString ++
        encodeBulkStringArray (parseBulkStringSequence rawPayload).1)) :=
      reply_array ((replies_single (.bulk sid.toString)).append
        (replies_single (reply_bulkStringArray _))) rfl
    have both := (replies_single pair).append replies
    simp only [List.append_assoc] at both ⊢
    exact ⟨_, both, congrArg (· + 1) count⟩

/-- The reply of a reader that waited. -/
theorem reply_xreadResponse {key startId bytes : Bytes}
    (ran : xreadResponse db key startId = .ok bytes) : Reply bytes := by
  rw [xreadResponse] at ran
  split at ran
  · cases ran
    exact reply_nullBulkString
  · split at ran
    · dsimp only at ran
      split at ran
      · cases ran
        exact reply_nullArray
      · cases ran
        exact reply_nullArray
      · obtain ⟨encoded, made, ran⟩ := exec_bind_ok.mp ran
        cases ran
        obtain ⟨rs, replies, count⟩ := replies_entries made
        have inner := reply_array ((replies_single (.bulk key)).append
          (replies_single (reply_array replies count))) rfl
        have outer := reply_array (replies_single inner) rfl
        simp only [List.append_assoc] at outer ⊢
        exact outer
    · cases ran
      exact reply_nullBulkString

/-- The replies of XREAD, one for each stream. -/
theorem replies_streams {streams : List (Bytes × List (Bytes × Bytes))} {bytes : Bytes}
    (ran : encodeReplies streams = .ok bytes) :
    ∃ rs, Replies rs bytes ∧ rs.length = streams.length := by
  induction streams generalizing bytes with
  | nil =>
    cases ran
    exact ⟨[], replies_nil, rfl⟩
  | cons stream rest ih =>
    obtain ⟨key, entries⟩ := stream
    rw [encodeReplies] at ran
    obtain ⟨encoded, made, ran⟩ := exec_bind_ok.mp ran
    obtain ⟨later, following, ran⟩ := exec_bind_ok.mp ran
    cases ran
    obtain ⟨rs, replies, count⟩ := ih following
    obtain ⟨inside, written, number⟩ := replies_entries made
    have pair := reply_array ((replies_single (.bulk key)).append
      (replies_single (reply_array written number))) rfl
    have both := (replies_single pair).append replies
    simp only [List.append_assoc] at both ⊢
    exact ⟨_, both, congrArg (· + 1) count⟩

theorem replies_positions {set : SortedSet} {members : List Bytes} {bytes : Bytes}
    (ran : geoPositions set members = .ok bytes) :
    ∃ rs, Replies rs bytes ∧ rs.length = members.length := by
  induction members generalizing bytes with
  | nil =>
    cases ran
    exact ⟨[], replies_nil, rfl⟩
  | cons member rest ih =>
    have behind {position : Bytes} (reply : Reply position) (ran : (do
        pure (position ++ (← geoPositions set rest)) : Exec Bytes) = .ok bytes) :
        ∃ rs, Replies rs bytes ∧ rs.length = (member :: rest).length := by
      obtain ⟨later, following, ran⟩ := exec_bind_ok.mp ran
      cases ran
      obtain ⟨rs, replies, count⟩ := ih following
      exact ⟨position :: rs, (replies_single reply).append replies, congrArg (· + 1) count⟩
    rw [geoPositions] at ran
    split at ran
    · exact behind reply_nullArray ran
    · obtain ⟨area, -, ran⟩ := exec_bind_ok.mp ran
      refine behind ?_ ran
      rw [List.append_assoc]
      exact reply_array ((replies_single (.bulk _)).append (replies_single (.bulk _))) rfl

/-! ## Commands that only answer -/

/-- What leaves a client without a reply: GET of anything but a string, TYPE of
a list or a sorted set, and KEYS inside a transaction. -/
def Unanswered (db : DB) (c : Context) : Command → Prop
  | .get key => ∃ object, db.store.lookup key = some object ∧ object.type ≠ .string
  | .type key => ∃ object, db.store.lookup key = some object ∧
      object.type ≠ .string ∧ object.type ≠ .stream
  | .keys _ => ∀ pattern, c.command ≠ .keys pattern
  | _ => False

/-- A command that does nothing to other clients: it replies once, or not at
all where that can happen. -/
structure Ordinary (db db' : DB) (silent : Prop) (effects : List Effect) : Prop where
  pubsubClients : db'.pubsubClients = db.pubsubClients
  own : Own effects
  answer : Reply (repliedBytes effects) ∨ silent ∧ repliedBytes effects = []

variable {silent : Prop} {start : DB} {bytes : Bytes}

theorem ordinary_replying (ran : replying db bytes = .ok (db', effects))
    (same : db.pubsubClients = start.pubsubClients) (reply : Reply bytes) :
    Ordinary start db' silent effects := by
  cases ran
  refine ⟨same, own_reply bytes, .inl ?_⟩
  rw [repliedBytes, List.flatMap_singleton]
  exact reply

/-- Own effects without a reply, and then one. -/
theorem ordinary_own_reply (same : db'.pubsubClients = db.pubsubClients) (own : Own first)
    (quiet : repliedBytes first = []) (reply : Reply bytes) :
    Ordinary db db' silent (first ++ [.reply bytes]) where
  pubsubClients := same
  own := own_append own (own_reply bytes)
  answer := by
    rw [repliedBytes_append, quiet, List.nil_append, repliedBytes, List.flatMap_singleton]
    exact .inl reply

theorem ordinary_dirty_reply {env : Env} {key : Bytes} {watched : DB}
    (same : db'.pubsubClients = db.pubsubClients) (reply : Reply bytes) :
    Ordinary db db' silent (markWatchingClientsDirty watched env key ++ [.reply bytes]) :=
  ordinary_own_reply same (own_dirty watched env key) (repliedBytes_dirty watched env key) reply

theorem ordinary_reply_dirty {env : Env} {key : Bytes} {watched : DB}
    (same : db'.pubsubClients = db.pubsubClients) (reply : Reply bytes) :
    Ordinary db db' silent (.reply bytes :: markWatchingClientsDirty watched env key) where
  pubsubClients := same
  own := own_append (own_reply bytes) (own_dirty watched env key)
  answer := by
    rw [← List.singleton_append, repliedBytes_append, repliedBytes_dirty, List.append_nil,
      repliedBytes, List.flatMap_singleton]
    exact .inl reply

private theorem reply_ok : Reply (encodeSimpleString (ascii "OK")) := reply_simpleString (by decide)

theorem handleGetOrType_ordinary {isTypeCommand : Bool} {key : Bytes}
    (ran : handleGetOrType db c isTypeCommand key = .ok (db', effects)) :
    Ordinary db db' (∃ object, db.store.lookup key = some object ∧ object.type ≠ .string ∧
      (isTypeCommand = true → object.type ≠ .stream)) effects := by
  rw [handleGetOrType] at ran
  obtain ⟨db₁, expired, ran⟩ := exec_bind_ok.mp ran
  have kept : db₁.pubsubClients = db.pubsubClients ∧
      ∀ object, db₁.store.lookup key = some object → db.store.lookup key = some object := by
    rw [expireIfDue] at expired
    split at expired
    · split at expired
      · split at expired
        · cases expired
          refine ⟨rfl, fun object lookup => ?_⟩
          rw [Finmap.lookup_erase] at lookup
          cases lookup
        · cases expired
      · cases expired
        exact ⟨rfl, fun _ lookup => lookup⟩
    · cases expired
      exact ⟨rfl, fun _ lookup => lookup⟩
  split at ran
  · rename_i object lookup
    split at ran
    · split at ran
      · exact ordinary_replying ran kept.1 (reply_simpleString (by decide))
      · obtain ⟨text, -, ran⟩ := exec_bind_ok.mp ran
        exact ordinary_replying ran kept.1 (.bulk text)
    · rename_i tag
      split at ran
      · exact ordinary_replying ran kept.1 (reply_simpleString (by decide))
      · rename_i reads
        cases ran
        refine ⟨kept.1, own_nil, .inr ⟨⟨object, kept.2 object lookup, ?_, ?_⟩, rfl⟩⟩
        · rw [tag]
          decide
        · exact fun isType => absurd isType reads
    · rename_i notString notStream
      cases ran
      exact ⟨kept.1, own_nil, .inr ⟨⟨object, kept.2 object lookup, notString, fun _ => notStream⟩, rfl⟩⟩
  · refine ordinary_replying ran kept.1 ?_
    split
    · exact reply_simpleString (by decide)
    · exact reply_nullBulkString

theorem handleIncr_ordinary {key : Bytes} (ran : handleIncr db c key = .ok (db', effects)) :
    Ordinary db db' silent effects := by
  rw [handleIncr] at ran
  split at ran
  · cases ran
    exact ordinary_dirty_reply rfl (reply_integer 1)
  · have refused : Reply (encodeError (ascii "value is not an integer or out of range")) :=
      reply_error (by decide) (by decide)
    dsimp only at ran
    split at ran
    · obtain ⟨text, -, ran⟩ := exec_bind_ok.mp ran
      split at ran
      · obtain ⟨value, -, ran⟩ := exec_bind_ok.mp ran
        cases ran
        exact ordinary_reply_dirty rfl (reply_integer value)
      · exact ordinary_replying ran rfl refused
    · exact ordinary_replying ran rfl refused

theorem handleLpop_ordinary {key : Bytes} {count : Option Nat}
    (ran : handleLpop db c key count = .ok (db', effects)) : Ordinary db db' silent effects := by
  rw [handleLpop] at ran
  split at ran
  · exact ordinary_replying ran rfl reply_nullBulkString
  · split at ran
    · obtain ⟨⟨result, left⟩, -, ran⟩ := exec_bind_ok.mp ran
      cases ran
      refine ordinary_own_reply rfl ?_ ?_ ?_
      · split
        · exact own_nil
        · exact own_dirty _ _ _
      · split
        · rfl
        · exact repliedBytes_dirty _ _ _
      · split
        · exact reply_nullBulkString
        · exact .bulk _
        · exact reply_bulkStringArray _
    · exact ordinary_replying ran rfl reply_nullBulkString

theorem handleLlen_ordinary {key : Bytes} (ran : handleLlen db c key = .ok (db', effects)) :
    Ordinary db db' silent effects := by
  rw [handleLlen] at ran
  split at ran
  · exact ordinary_replying ran rfl (reply_integer 0)
  · split at ran
    · obtain ⟨⟨length, lp'⟩, -, ran⟩ := exec_bind_ok.mp ran
      exact ordinary_replying ran rfl (reply_integer length)
    · exact ordinary_replying ran rfl (reply_integer 0)

theorem handleLrange_ordinary {key : Bytes} {start stop : Int}
    (ran : handleLrange db c key start stop = .ok (db', effects)) :
    Ordinary db db' silent effects := by
  rw [handleLrange] at ran
  split at ran
  · exact ordinary_replying ran rfl reply_emptyArray
  · split at ran
    · obtain ⟨⟨count, lp'⟩, -, ran⟩ := exec_bind_ok.mp ran
      dsimp only at ran
      generalize (if (if start < 0 then _ else start) < 0 then _ else _ : Int) = first at ran
      generalize (if stop < 0 then _ else stop : Int) = last at ran
      split at ran
      · exact ordinary_replying ran rfl reply_emptyArray
      · split at ran
        · exact ordinary_replying ran rfl reply_emptyArray
        · obtain ⟨result, -, ran⟩ := exec_bind_ok.mp ran
          exact ordinary_replying ran rfl (reply_bulkStringArray result)
    · exact ordinary_replying ran rfl reply_emptyArray

theorem handleXrange_ordinary {key start stop : Bytes}
    (ran : handleXrange db key start stop = .ok (db', effects)) :
    Ordinary db db' silent effects := by
  rw [handleXrange] at ran
  split at ran
  · exact ordinary_replying ran rfl reply_emptyArray
  · split at ran
    · split at ran
      · exact ordinary_replying ran rfl reply_emptyArray
      · exact ordinary_replying ran rfl reply_emptyArray
      · obtain ⟨bytes, made, ran⟩ := exec_bind_ok.mp ran
        obtain ⟨rs, replies, count⟩ := replies_entries made
        exact ordinary_replying ran rfl (reply_array replies count)
    · exact ordinary_replying ran rfl reply_emptyArray

theorem reply_wrongType : Reply wrongType := reply_error (by decide) (by decide)

theorem reply_invalidCommandType : Reply invalidCommandType := reply_error (by decide) (by decide)

theorem withSortedSet_ordinary {key missing : Bytes} {reply : SortedSet → Exec Bytes}
    (absent : Reply missing) (each : ∀ set bytes, reply set = .ok bytes → Reply bytes)
    (ran : withSortedSet db key missing reply = .ok (db', effects)) :
    Ordinary db db' silent effects := by
  rw [withSortedSet] at ran
  split at ran
  · exact ordinary_replying ran rfl absent
  · split at ran
    · exact ordinary_replying ran rfl reply_wrongType
    · obtain ⟨set, -, ran⟩ := exec_bind_ok.mp ran
      obtain ⟨bytes, made, ran⟩ := exec_bind_ok.mp ran
      exact ordinary_replying ran rfl (each set bytes made)

theorem openSortedSet_pubsub (db : DB) (key : Bytes) :
    (openSortedSet db key).1.pubsubClients = db.pubsubClients := by
  rw [openSortedSet]
  split <;> rfl

theorem handleZadd_ordinary (ran : handleZadd db c = .ok (db', effects)) :
    Ordinary db db' silent effects := by
  rw [handleZadd] at ran
  split at ran
  · rename_i key scoreMembers asked
    have same := openSortedSet_pubsub db key
    dsimp only at ran
    split at ran
    · exact ordinary_replying ran same reply_wrongType
    · obtain ⟨set, -, ran⟩ := exec_bind_ok.mp ran
      obtain ⟨⟨set', added⟩, -, ran⟩ := exec_bind_ok.mp ran
      exact ordinary_replying ran same (reply_integer added)
  · exact ordinary_replying ran rfl reply_invalidCommandType

theorem handleZrem_ordinary (ran : handleZrem db c = .ok (db', effects)) :
    Ordinary db db' silent effects := by
  rw [handleZrem] at ran
  split at ran
  · split at ran
    · exact ordinary_replying ran rfl (reply_integer 0)
    · split at ran
      · exact ordinary_replying ran rfl reply_wrongType
      · obtain ⟨set, -, ran⟩ := exec_bind_ok.mp ran
        obtain ⟨⟨set', removed⟩, -, ran⟩ := exec_bind_ok.mp ran
        exact ordinary_replying ran rfl (reply_integer removed)
  · exact ordinary_replying ran rfl reply_invalidCommandType

theorem handleGeoadd_ordinary (ran : handleGeoadd db c = .ok (db', effects)) :
    Ordinary db db' silent effects := by
  rw [handleGeoadd] at ran
  split at ran
  · rename_i key longitude latitude score member invalid asked
    have same := openSortedSet_pubsub db key
    split at ran
    · refine ordinary_replying ran rfl (reply_error (fun inside => ?_) (by decide))
      have inside := List.mem_of_mem_take inside
      rcases List.mem_append.mp inside with front | behind
      · rcases List.mem_append.mp front with text | number
        · exact absurd text (by decide)
        · exact formatFixed_clean 6 longitude number
      · rcases List.mem_cons.mp behind with comma | number
        · exact absurd comma (by decide)
        · exact formatFixed_clean 6 latitude number
    · dsimp only at ran
      split at ran
      · exact ordinary_replying ran same reply_wrongType
      · obtain ⟨set, -, ran⟩ := exec_bind_ok.mp ran
        obtain ⟨⟨set', existed⟩, -, ran⟩ := exec_bind_ok.mp ran
        exact ordinary_replying ran same (reply_integer _)
  · exact ordinary_replying ran rfl reply_invalidCommandType

/-- The description of a user. -/
private theorem reply_user (flags passwords : List Bytes) :
    Reply (encodeArrayHeader 4 ++ encodeBulkString (ascii "flags") ++ encodeBulkStringArray flags ++
      encodeBulkString (ascii "passwords") ++ encodeBulkStringArray passwords) := by
  have whole := reply_array (((replies_single (.bulk (ascii "flags"))).append
    (replies_single (reply_bulkStringArray flags))).append
      ((replies_single (.bulk (ascii "passwords"))).append
        (replies_single (reply_bulkStringArray passwords)))) rfl
  simp only [List.append_assoc] at whole ⊢
  exact whole

/-- Every command that moves no queue and no channel only answers. -/
theorem callSimple_ordinary {command : Command} (stays : ¬ MovesQueues command)
    (published : ∀ channelName message, command ≠ .publish channelName message)
    (subscribed : ∀ channelName, command ≠ .subscribe channelName)
    (ran : callSimple db c command = .ok (db', effects)) :
    Ordinary db db' (Unanswered db c command) effects := by
  cases command <;> first | exact absurd trivial stays | skip
  case publish => exact absurd rfl (published _ _)
  case subscribe => exact absurd rfl (subscribed _)
  case exec => cases ran
  case ping | unSubscribe | unknow | aclSetUser | auth | info | replConf | psync | wait | getConfig =>
    refine ordinary_replying ran rfl ?_
    split
    · exact .bulk _
    · exact reply_simpleString (by decide)
  case echo => exact ordinary_replying ran rfl (.bulk _)
  case aclWhoami => exact ordinary_replying ran rfl (.bulk _)
  case multi =>
    cases ran
    exact ⟨rfl, fun effect member => by rcases List.mem_pair.mp member with rfl | rfl <;> trivial,
      .inl reply_ok⟩
  case aclGetUser =>
    rw [callSimple, handleAclGetuser] at ran
    split at ran
    · exact ordinary_replying ran rfl (reply_user _ _)
    · cases ran
  case discard =>
    rw [callSimple, handleDiscard] at ran
    split at ran
    · exact ordinary_replying ran rfl (reply_error (by decide) (by decide))
    · cases ran
      exact ⟨rfl, fun effect member => by rcases List.mem_pair.mp member with rfl | rfl <;> trivial,
        .inl reply_ok⟩
  case keys =>
    rw [callSimple, handleKeys] at ran
    split at ran
    · split at ran
      · exact ordinary_replying ran rfl (reply_bulkStringArray _)
      · exact ordinary_replying ran rfl reply_emptyArray
    · rename_i other
      cases ran
      exact ⟨rfl, own_nil, .inr ⟨other, rfl⟩⟩
  case set =>
    cases ran
    exact ordinary_dirty_reply rfl reply_ok
  case get =>
    obtain ⟨same, own, answer⟩ := handleGetOrType_ordinary ran
    refine ⟨same, own, answer.imp id ?_⟩
    rintro ⟨⟨object, lookup, tag, -⟩, quiet⟩
    exact ⟨⟨object, lookup, tag⟩, quiet⟩
  case type =>
    obtain ⟨same, own, answer⟩ := handleGetOrType_ordinary ran
    refine ⟨same, own, answer.imp id ?_⟩
    rintro ⟨⟨object, lookup, notString, notStream⟩, quiet⟩
    exact ⟨⟨object, lookup, notString, notStream rfl⟩, quiet⟩
  case incr => exact handleIncr_ordinary ran
  case lrange => exact handleLrange_ordinary ran
  case llen => exact handleLlen_ordinary ran
  case lpop => exact handleLpop_ordinary ran
  case xrange => exact handleXrange_ordinary ran
  case zadd => exact handleZadd_ordinary ran
  case zrem => exact handleZrem_ordinary ran
  case geoAdd => exact handleGeoadd_ordinary ran
  case zrank =>
    rw [callSimple, handleZrank] at ran
    split at ran
    · refine withSortedSet_ordinary reply_nullBulkString (fun set bytes made => ?_) ran
      obtain ⟨rank, -, made⟩ := exec_bind_ok.mp made
      split at made <;> cases made
      · exact reply_integer _
      · exact reply_nullBulkString
    · exact ordinary_replying ran rfl reply_invalidCommandType
  case zrange =>
    rw [callSimple, handleZrange] at ran
    split at ran
    · refine withSortedSet_ordinary reply_emptyArray (fun set bytes made => ?_) ran
      cases made
      exact reply_bulkStringArray _
    · exact ordinary_replying ran rfl reply_invalidCommandType
  case zcard =>
    rw [callSimple, handleZcard] at ran
    split at ran
    · refine withSortedSet_ordinary (reply_integer 0) (fun set bytes made => ?_) ran
      cases made
      exact reply_integer _
    · exact ordinary_replying ran rfl reply_invalidCommandType
  case zscore =>
    rw [callSimple, handleZscore] at ran
    split at ran
    · refine withSortedSet_ordinary reply_nullBulkString (fun set bytes made => ?_) ran
      split at made
      · split at made
        · obtain ⟨bits, -, made⟩ := exec_bind_ok.mp made
          cases made
          exact .bulk _
        · cases made
          exact .bulk _
      · cases made
        exact reply_nullBulkString
    · exact ordinary_replying ran rfl reply_invalidCommandType
  case geoPos =>
    rw [callSimple, handleGeopos] at ran
    split at ran
    · rename_i key members asked
      have absent : Replies (members.map fun _ => encodeNullArray)
          (members.flatMap fun _ => encodeNullArray) := by
        refine ⟨fun r member => ?_, List.flatMap_def⟩
        obtain ⟨other, -, rfl⟩ := List.mem_map.mp member
        exact reply_nullArray
      refine withSortedSet_ordinary (reply_array absent (List.length_map _)) (fun set bytes made => ?_) ran
      obtain ⟨positions, written, made⟩ := exec_bind_ok.mp made
      cases made
      obtain ⟨rs, replies, count⟩ := replies_positions written
      exact reply_array replies count
    · exact ordinary_replying ran rfl reply_invalidCommandType
  case geoDist =>
    rw [callSimple, handleGeodist] at ran
    split at ran
    · refine withSortedSet_ordinary reply_nullBulkString (fun set bytes made => ?_) ran
      split at made
      · obtain ⟨one, -, made⟩ := exec_bind_ok.mp made
        obtain ⟨two, -, made⟩ := exec_bind_ok.mp made
        cases made
        exact .bulk _
      · cases made
        exact reply_nullBulkString
    · exact ordinary_replying ran rfl reply_invalidCommandType
  case geoSearch =>
    rw [callSimple, handleGeosearch] at ran
    split at ran
    · refine withSortedSet_ordinary reply_emptyArray (fun set bytes made => ?_) ran
      obtain ⟨encoded, -, made⟩ := exec_bind_ok.mp made
      obtain ⟨found, -, made⟩ := exec_bind_ok.mp made
      cases made
      exact reply_bulkStringArray _
    · exact ordinary_replying ran rfl reply_invalidCommandType

/-! ## Commands that make a client wait or serve those that do -/

/-- Whether XADD will store an entry. -/
def acceptsEntry (db : DB) (now : Nat) (key streamId : Bytes) (fieldValues : List (Bytes × Bytes)) :
    Bool :=
  let object := (openStream db key).2
  object.type = .stream && object.streamPtr.any fun stream =>
    (stream.insert now streamId (rawValue fieldValues)).2.error = .ok

/-- The clients a command hands over to, in order: the first that waits for
the list, and all that wait for the stream. -/
def Command.wakes (db : DB) (c : Context) : Command → List Fd
  | .rpush key values | .lpush key values =>
    if values = [] then []
    else (((queueOf db.blockedKeys key).take 1).map BlockedClient.clientFd).filter c.env.alive
  | .xadd key streamId fieldValues =>
    if acceptsEntry db c.env.clock.system key streamId fieldValues then
      ((queueOf db.blockedXreadKeys key).map BlockedXreadClient.clientFd).filter c.env.alive
    else []
  | _ => []

/-- Whether a reader waits at a key: it is missing, or asked for from now on,
or a stream without a later entry. -/
def waitsAtKey (db : DB) (key startId : Bytes) : Bool :=
  match db.store.lookup key with
  | none => true
  | some object =>
    startId = ascii "$" ||
      match object.type, object.streamPtr with
      | .stream, some stream =>
        match stream.xrangeData startId (ascii "+") true with
        | some (_ :: _) => false
        | _ => true
      | _, _ => false

/-- Whether a command makes its client wait. -/
def Command.waits (db : DB) (c : Context) : Command → Bool
  | .blpop names _ =>
    match db.store.lookup (names.headD []) with
    | none => true
    | some object =>
      match object.type, object.listPack with
      | .listPack, some lp =>
        match lpFirst c.env.ndebug lp with
        | .ok none => true
        | _ => false
      | _, _ => false
  | .xread (some _) names ids =>
    names.length = ids.length && (names.zip ids).any fun asked => waitsAtKey db asked.1 asked.2
  | _ => false

/-- What is done to the clients that are handed over to. -/
def handOver (handed : List (Fd × Bytes)) : List Effect :=
  handed.flatMap fun one => [.write one.1 one.2, .unblock one.1]

/-- What PUBLISH does to the subscribers of its channel. -/
def deliver (env : Env) (frame : Bytes) (subscribers : List Fd) : List Effect :=
  subscribers.flatMap fun fd =>
    if env.alive fd then [.write fd frame, .ready fd] else [.ready fd]

/-- What a command can do to clients. -/
inductive Conduct (db : DB) (c : Context) (command : Command) : List Effect → Prop where
  | answer {effects : List Effect} (own : Own effects)
    (answer : Reply (repliedBytes effects) ∨ Unanswered db c command ∧ repliedBytes effects = [])
    (wakes : command.wakes db c = []) (waits : command.waits db c = false) :
    Conduct db c command effects
  | wait (wakes : command.wakes db c = []) (waits : command.waits db c = true) :
    Conduct db c command [.block]
  | wake {before after : List Effect} {handed : List (Fd × Bytes)} (ownBefore : Own before)
    (ownAfter : Own after) (answer : Reply (repliedBytes (before ++ after)))
    (each : ∀ one ∈ handed, Reply one.2) (wakes : command.wakes db c = handed.map Prod.fst)
    (waits : command.waits db c = false) :
    Conduct db c command (before ++ handOver handed ++ after)
  | publish {channelName message : Bytes} (asked : c.command = .publish channelName message)
    (wakes : command.wakes db c = []) (waits : command.waits db c = false) :
    Conduct db c command
      (deliver c.env (encodeBulkStringArray [ascii "message", channelName, message])
        (queueOf db.pubsubClients channelName) ++
        [.reply (encodeInteger ((queueOf db.pubsubClients channelName).filter c.env.alive).length)])

theorem Ordinary.conduct {command : Command}
    (ordinary : Ordinary db db' (Unanswered db c command) effects)
    (wakes : command.wakes db c = []) (waits : command.waits db c = false) :
    Conduct db c command effects := .answer ordinary.own ordinary.answer wakes waits

theorem handlePush_conduct {isPrepend : Bool} {key : Bytes} {values : List Bytes} {command : Command}
    (waits : command.waits db c = false)
    (wakes : command.wakes db c = if values = [] then [] else
      (((queueOf db.blockedKeys key).take 1).map BlockedClient.clientFd).filter c.env.alive)
    (ran : handlePush db c isPrepend key values = .ok (db', effects)) :
    Conduct db c command effects ∧ db'.pubsubClients = db.pubsubClients := by
  by_cases plain : queueOf db.blockedKeys key = [] ∨ values = []
  · rw [handlePush_plain plain] at ran
    obtain ⟨⟨db₁, len⟩, pushed, ran⟩ := exec_bind_ok.mp ran
    obtain ⟨store, rfl, -⟩ := pushValues_frame pushed
    cases ran
    have nobody : command.wakes db c = [] := by
      rw [wakes]
      rcases plain with empty | empty
      · rw [empty]
        exact ite_self _
      · rw [if_pos empty]
    have ordinary : Ordinary db { db with store } (Unanswered db c command)
        (markWatchingClientsDirty { db with store } c.env key ++ [.reply (encodeInteger len)]) :=
      ordinary_dirty_reply rfl (reply_integer len)
    exact ⟨ordinary.conduct nobody waits, rfl⟩
  · obtain ⟨held, nonempty⟩ := not_or.mp plain
    obtain ⟨blocked, queue, waiting⟩ := List.exists_cons_of_ne_nil held
    obtain ⟨first, rest, rfl⟩ := List.exists_cons_of_ne_nil nonempty
    rw [handlePush_waiter waiting] at ran
    obtain ⟨⟨db₁, len⟩, pushed, ran⟩ := exec_bind_ok.mp ran
    obtain ⟨store, rfl, -⟩ := pushValues_frame pushed
    cases ran
    rw [if_neg nonempty, waiting] at wakes
    have replied : Reply (repliedBytes ([] ++ [.reply (encodeInteger (first :: rest).length)])) := by
      rw [List.nil_append, repliedBytes, List.flatMap_singleton]
      exact reply_integer _
    refine ⟨?_, rfl⟩
    split
    · rename_i alive
      refine @Conduct.wake _ _ _ [] _ [(blocked.clientFd, encodeBulkStringArray [key, first])]
        own_nil (own_reply _) replied ?_ ?_ waits
      · intro one member
        rw [List.mem_singleton.mp member]
        exact reply_bulkStringArray _
      · rw [wakes]
        exact List.filter_cons_of_pos alive
    · rename_i alive
      refine @Conduct.wake _ _ _ [] _ [] own_nil (own_reply _) replied
        (fun _ absent => absurd absent List.not_mem_nil) ?_ waits
      rw [wakes]
      exact List.filter_cons_of_neg alive

theorem handleBlpop_conduct {keys : List Bytes} {timeout : Float}
    (ran : handleBlpop db c keys timeout = .ok (db', effects)) :
    Conduct db c (.blpop keys timeout) effects ∧ db'.pubsubClients = db.pubsubClients := by
  have waited (waits : (Command.blpop keys timeout).waits db c = true) (ran : (do
      let blocked ← BlockedClient.make c.env.clock.steady c.fd timeout
      let queue := (db.blockedKeys.lookup (keys.headD [])).getD [] ++ [blocked]
      pure ({ db with blockedKeys := db.blockedKeys.insert (keys.headD []) queue }, [.block]) :
        Outcome) = .ok (db', effects)) :
      Conduct db c (.blpop keys timeout) effects ∧ db'.pubsubClients = db.pubsubClients := by
    obtain ⟨blocked, -, ran⟩ := exec_bind_ok.mp ran
    cases ran
    exact ⟨.wait rfl waits, rfl⟩
  rw [handleBlpop] at ran
  dsimp only at ran
  split at ran
  · rename_i missing
    refine waited ?_ ran
    rw [Command.waits, missing]
  · rename_i object lookup
    split at ran
    · rename_i lp tag held
      obtain ⟨first, found, ran⟩ := exec_bind_ok.mp ran
      split at ran
      · refine waited ?_ ran
        rw [Command.waits, lookup]
        dsimp only
        rw [tag, held]
        dsimp only
        rw [found]
      · obtain ⟨value, -, ran⟩ := exec_bind_ok.mp ran
        obtain ⟨deleted, -, ran⟩ := exec_bind_ok.mp ran
        have ordinary : Ordinary db db' (Unanswered db c (.blpop keys timeout)) effects :=
          ordinary_replying ran rfl (reply_bulkStringArray _)
        refine ⟨ordinary.conduct rfl ?_, ordinary.pubsubClients⟩
        rw [Command.waits, lookup]
        dsimp only
        rw [tag, held]
        dsimp only
        rw [found]
    · rename_i other
      have ordinary : Ordinary db db' (Unanswered db c (.blpop keys timeout)) effects :=
        ordinary_replying ran rfl reply_nullBulkString
      refine ⟨ordinary.conduct rfl ?_, ordinary.pubsubClients⟩
      rw [Command.waits, lookup]
      dsimp only
      split
      · exact absurd ‹_› (other _ ‹_›)
      · rfl

private theorem markClientBlocking_right {key streamId : Bytes} {timeout : Float}
    {result : List (Bytes × List (Bytes × Bytes)) ⊕ (DB × List Effect)}
    (ran : (do pure (.inr (← markClientBlocking db c key streamId timeout)) :
      Exec (List (Bytes × List (Bytes × Bytes)) ⊕ (DB × List Effect))) = .ok result) :
    result.isRight = true := by
  obtain ⟨outcome, -, ran⟩ := exec_bind_ok.mp ran
  cases ran
  rfl

/-- A reading without BLOCK never waits. -/
theorem collectReplies_goesOn {asked : List (Bytes × Bytes)}
    {replies : List (Bytes × List (Bytes × Bytes))}
    {result : List (Bytes × List (Bytes × Bytes)) ⊕ (DB × List Effect)}
    (ran : collectReplies db c none asked replies = .ok result) : result.isRight = false := by
  induction asked generalizing replies with
  | nil =>
    cases ran
    rfl
  | cons one rest ih =>
    obtain ⟨key, startId⟩ := one
    unfold collectReplies at ran
    cases lookup : db.store.lookup key with
    | none =>
      rw [lookup] at ran
      cases ran
    | some object =>
      rw [lookup] at ran
      dsimp only at ran
      rw [if_neg fun both => Bool.false_ne_true both.1] at ran
      split at ran
      · split at ran
        · exact ih ran
        · cases ‹(none : Option Float) = some _›
        · exact ih ran
      · exact ih ran

/-- A reading with BLOCK waits exactly when it waits at one of its keys. -/
theorem collectReplies_waits {timeout : Float} {asked : List (Bytes × Bytes)}
    {replies : List (Bytes × List (Bytes × Bytes))}
    {result : List (Bytes × List (Bytes × Bytes)) ⊕ (DB × List Effect)}
    (ran : collectReplies db c (some timeout) asked replies = .ok result) :
    result.isRight = asked.any fun one => waitsAtKey db one.1 one.2 := by
  induction asked generalizing replies with
  | nil =>
    cases ran
    rfl
  | cons one rest ih =>
    obtain ⟨key, startId⟩ := one
    unfold collectReplies at ran
    rw [List.any_cons]
    dsimp only
    cases lookup : db.store.lookup key with
    | none =>
      rw [lookup] at ran
      rw [markClientBlocking_right ran, waitsAtKey, lookup]
      rfl
    | some object =>
      rw [lookup] at ran
      dsimp only at ran
      rw [waitsAtKey, lookup]
      dsimp only
      split at ran
      · rename_i fromNow
        rw [markClientBlocking_right ran, decide_eq_true fromNow.2]
        rfl
      · rename_i notFromNow
        rw [decide_eq_false fun same => notFromNow ⟨rfl, same⟩, Bool.false_or]
        cases pointer : object.streamPtr with
        | none =>
          cases tag : object.type <;> (rw [tag, pointer] at ran; exact ih ran)
        | some stream =>
          cases tag : object.type <;> rw [tag, pointer] at ran
          case stream =>
            dsimp only at ran ⊢
            cases found : stream.xrangeData startId (ascii "+") true with
            | none =>
              rw [found] at ran
              rw [markClientBlocking_right ran]
              rfl
            | some entries =>
              rw [found] at ran
              cases entries with
              | nil =>
                rw [markClientBlocking_right ran]
                rfl
              | cons entry entries => exact ih ran
          all_goals exact ih ran

theorem handleXread_conduct {block : Option Float} {keys ids : List Bytes}
    (ran : handleXread db c block keys ids = .ok (db', effects)) :
    Conduct db c (.xread block keys ids) effects ∧ db'.pubsubClients = db.pubsubClients := by
  rw [handleXread] at ran
  split at ran
  · rename_i uneven
    have ordinary : Ordinary db db' (Unanswered db c (.xread block keys ids)) effects :=
      ordinary_replying ran rfl reply_emptyArray
    refine ⟨ordinary.conduct rfl ?_, ordinary.pubsubClients⟩
    cases block with
    | none => rfl
    | some timeout => rw [Command.waits, decide_eq_false uneven, Bool.false_and]
  · rename_i even
    obtain ⟨result, collected, ran⟩ := exec_bind_ok.mp ran
    have waits : (Command.xread block keys ids).waits db c = result.isRight := by
      cases block with
      | none => exact (collectReplies_goesOn collected).symm
      | some timeout =>
        rw [Command.waits, decide_eq_true (not_not.mp even), Bool.true_and,
          collectReplies_waits collected]
    split at ran
    · cases ran
      obtain ⟨key, streamId, timeout, marked⟩ := collectReplies_blocks collected
      rw [markClientBlocking] at marked
      obtain ⟨blocked, -, marked⟩ := exec_bind_ok.mp marked
      cases marked
      exact ⟨.wait rfl waits, rfl⟩
    · have ordinary : Ordinary db db' (Unanswered db c (.xread block keys ids)) effects :=
        ordinary_replying ran rfl reply_emptyArray
      exact ⟨ordinary.conduct rfl waits, ordinary.pubsubClients⟩
    · obtain ⟨bytes, made, ran⟩ := exec_bind_ok.mp ran
      obtain ⟨rs, replies, count⟩ := replies_streams made
      have ordinary : Ordinary db db' (Unanswered db c (.xread block keys ids)) effects :=
        ordinary_replying ran rfl (reply_array replies count)
      exact ⟨ordinary.conduct rfl waits, ordinary.pubsubClients⟩

/-- Serving a queue of readers hands over to each that still exists. -/
theorem serveXreadClients_hands {env : Env} {queue : List BlockedXreadClient}
    (ran : serveXreadClients db env queue = .ok effects) :
    ∃ handed, effects = handOver handed ∧ (∀ one ∈ handed, Reply one.2) ∧
      (queue.map BlockedXreadClient.clientFd).filter env.alive = handed.map Prod.fst := by
  induction queue generalizing effects with
  | nil =>
    cases ran
    exact ⟨[], rfl, fun _ absent => (nomatch absent), rfl⟩
  | cons blocked rest ih =>
    rw [serveXreadClients] at ran
    split at ran
    · rename_i alive
      obtain ⟨response, answered, ran⟩ := exec_bind_ok.mp ran
      rw [exec_pure, exec_ok_bind] at ran
      obtain ⟨later, following, ran⟩ := exec_bind_ok.mp ran
      obtain ⟨handed, rfl, each, same⟩ := ih following
      cases ran
      refine ⟨(blocked.clientFd, response) :: handed, rfl, ?_, ?_⟩
      · intro one member
        rcases List.mem_cons.mp member with rfl | old
        · exact reply_xreadResponse answered
        · exact each one old
      · rw [List.map_cons, List.filter_cons_of_pos alive, same, List.map_cons]
    · rename_i gone
      rw [exec_pure, exec_ok_bind] at ran
      obtain ⟨later, following, ran⟩ := exec_bind_ok.mp ran
      obtain ⟨handed, rfl, each, same⟩ := ih following
      cases ran
      exact ⟨handed, rfl, each, by rw [List.map_cons, List.filter_cons_of_neg gone, same]⟩

theorem handleBlockedXreadClients_hands {env : Env} {key : Bytes}
    (ran : handleBlockedXreadClients db env key = .ok (db', effects)) :
    (∃ handed, effects = handOver handed ∧ (∀ one ∈ handed, Reply one.2) ∧
      ((queueOf db.blockedXreadKeys key).map BlockedXreadClient.clientFd).filter env.alive =
        handed.map Prod.fst) ∧ db'.pubsubClients = db.pubsubClients := by
  rw [handleBlockedXreadClients] at ran
  split at ran
  · rename_i blocked queue lookup
    obtain ⟨sent, serving, ran⟩ := exec_bind_ok.mp ran
    cases ran
    refine ⟨?_, rfl⟩
    rw [queueOf, lookup]
    exact serveXreadClients_hands serving
  · rename_i other
    cases ran
    refine ⟨⟨[], rfl, fun _ absent => absurd absent List.not_mem_nil, ?_⟩, rfl⟩
    rw [queueOf]
    cases lookup : db.blockedXreadKeys.lookup key with
    | none => rfl
    | some queue =>
      cases queue with
      | nil => rfl
      | cons blocked rest => exact absurd lookup (other _ _)

/-- A reply, marks on watchers, and then what clients are handed. -/
theorem wake_behind_reply {command : Command} {key text : Bytes} {watched : DB}
    {handed : List (Fd × Bytes)} (each : ∀ one ∈ handed, Reply one.2)
    (wakes : command.wakes db c = handed.map Prod.fst) (waits : command.waits db c = false) :
    Conduct db c command
      (.reply (encodeBulkString text) :: markWatchingClientsDirty watched c.env key ++
        handOver handed) := by
  have replied : Reply (repliedBytes
      (.reply (encodeBulkString text) :: markWatchingClientsDirty watched c.env key ++ [])) := by
    rw [List.append_nil, ← List.singleton_append, repliedBytes_append, repliedBytes_dirty,
      List.append_nil, repliedBytes, List.flatMap_singleton]
    exact .bulk text
  have wake := Conduct.wake (own_append (own_reply (encodeBulkString text))
    (own_dirty watched c.env key)) own_nil replied each wakes waits
  rwa [List.append_nil] at wake

/-- XADD replies, and what it stores it hands to every reader that waits. -/
theorem handleXadd_hands {key streamId : Bytes} {fieldValues : List (Bytes × Bytes)}
    (ran : handleXadd db c key streamId fieldValues = .ok (db', effects)) :
    ((∃ reply, Reply reply ∧ effects = [.reply reply] ∧
        (Command.xadd key streamId fieldValues).wakes db c = []) ∨
      ∃ text watched handed, effects = .reply (encodeBulkString text) ::
          markWatchingClientsDirty watched c.env key ++ handOver handed ∧
        (∀ one ∈ handed, Reply one.2) ∧
        (Command.xadd key streamId fieldValues).wakes db c = handed.map Prod.fst) ∧
    db'.pubsubClients = db.pubsubClients := by
  rw [handleXadd] at ran
  dsimp only at ran
  have opened : (openStream db key).1.blockedXreadKeys = db.blockedXreadKeys ∧
      (openStream db key).1.pubsubClients = db.pubsubClients := by
    rw [openStream]
    split <;> exact ⟨rfl, rfl⟩
  have accepts : acceptsEntry db c.env.clock.system key streamId fieldValues =
      ((openStream db key).2.type = .stream && (openStream db key).2.streamPtr.any fun stream =>
        (stream.insert c.env.clock.system streamId (rawValue fieldValues)).2.error = .ok) := rfl
  have refused (reply : Bytes) (formed : Reply reply)
      (refuses : acceptsEntry db c.env.clock.system key streamId fieldValues = false)
      (ran : replying (openStream db key).1 reply = .ok (db', effects)) :
      (∃ reply, Reply reply ∧ effects = [.reply reply] ∧
        (Command.xadd key streamId fieldValues).wakes db c = []) ∧
        db'.pubsubClients = db.pubsubClients := by
    obtain ⟨rfl, rfl⟩ := replying_ok ran
    refine ⟨⟨reply, formed, rfl, ?_⟩, opened.2⟩
    rw [Command.wakes, refuses, if_neg Bool.false_ne_true]
  split at ran
  · rename_i otherType
    refine (refused _ (reply_error (by decide) (by decide)) ?_ ran).imp_left .inl
    rw [accepts, decide_eq_false otherType, Bool.false_and]
  · rename_i isStream
    obtain ⟨stream, pointer, ran⟩ := exec_bind_ok.mp ran
    have held : (openStream db key).2.streamPtr = some stream := by
      cases found : (openStream db key).2.streamPtr with
      | none =>
        rw [found] at pointer
        cases pointer
      | some other =>
        rw [found] at pointer
        cases pointer
        rfl
    rw [held, decide_eq_true (not_not.mp isStream), Bool.true_and, Option.any_some] at accepts
    split at ran
    · rename_i bad
      refine (refused _ ?_ (accepts.trans (decide_eq_false bad)) ran).imp_left .inl
      cases status : (stream.insert c.env.clock.system streamId (rawValue fieldValues)).2.error with
      | ok => exact absurd status bad
      | invalidIdFormat => exact reply_error (by decide) (by decide)
      | idNotGreaterThanLast => exact reply_error (by decide) (by decide)
      | notGreaterThanZero => exact reply_error (by decide) (by decide)
    · rename_i good
      obtain ⟨⟨db₁, served⟩, woken, ran⟩ := exec_bind_ok.mp ran
      obtain ⟨⟨handed, rfl, each, same⟩, kept⟩ := handleBlockedXreadClients_hands woken
      cases ran
      refine ⟨.inr ⟨_, _, handed, rfl, each, ?_⟩, kept.trans opened.2⟩
      rw [Command.wakes, accepts.trans (decide_eq_true (not_not.mp good)), if_pos rfl, ← same,
        opened.1]

theorem handleXadd_conduct {key streamId : Bytes} {fieldValues : List (Bytes × Bytes)}
    (ran : handleXadd db c key streamId fieldValues = .ok (db', effects)) :
    Conduct db c (.xadd key streamId fieldValues) effects ∧ db'.pubsubClients = db.pubsubClients := by
  obtain ⟨hands, kept⟩ := handleXadd_hands ran
  refine ⟨?_, kept⟩
  rcases hands with ⟨reply, formed, rfl, nobody⟩ | ⟨text, watched, handed, rfl, each, wakes⟩
  · refine .answer (own_reply reply) (.inl ?_) nobody rfl
    rw [repliedBytes, List.flatMap_singleton]
    exact formed
  · exact wake_behind_reply each wakes rfl

theorem handlePublish_conduct {channelName message : Bytes}
    (ran : handlePublish db c = .ok (db', effects)) :
    Conduct db c (.publish channelName message) effects ∧
      ∀ channel, queueOf db'.pubsubClients channel = queueOf db.pubsubClients channel := by
  rw [handlePublish] at ran
  split at ran
  · rename_i name text asked
    cases ran
    refine ⟨.publish asked rfl rfl, fun channel => ?_⟩
    by_cases same : channel = name
    · subst same
      rw [queueOf_insert, queueOf]
    · exact queueOf_insert_ne _ same
  · cases ran

theorem handleSubscribe_conduct {channelName : Bytes}
    (ran : handleSubscribe db c = .ok (db', effects)) :
    Conduct db c (.subscribe channelName) effects ∧
      ∀ channel fd, fd ∈ queueOf db'.pubsubClients channel →
        fd ∈ queueOf db.pubsubClients channel ∨ fd = c.fd := by
  rw [handleSubscribe] at ran
  split at ran
  · rename_i name asked
    cases ran
    refine ⟨.answer ?_ (.inl ?_) rfl rfl, fun channel fd member => ?_⟩
    · intro effect member
      rcases List.mem_pair.mp member with rfl | rfl <;> trivial
    · have whole := reply_array (((replies_single (.bulk (ascii "subscribe"))).append
        (replies_single (.bulk name))).append (replies_single
          (reply_integer (i64 (u64 (c.client.totalSubscribedChannels + 1)))))) rfl
      simp only [repliedBytes, List.flatMap_cons, List.flatMap_nil, List.nil_append,
        List.append_nil, List.append_assoc] at whole ⊢
      exact whole
    · by_cases same : channel = name
      · subst same
        rw [queueOf_insert] at member
        rcases List.mem_append.mp member with old | new
        · exact .inl old
        · exact .inr (List.mem_singleton.mp new)
      · rw [queueOf_insert_ne _ same] at member
        exact .inl member
  · cases ran

/-- What a command can do to clients. -/
theorem callSimple_conduct {command : Command}
    (ran : callSimple db c command = .ok (db', effects)) : Conduct db c command effects := by
  by_cases moves : MovesQueues command
  · cases command <;> first | exact False.elim moves | skip
    case rpush => exact (handlePush_conduct rfl rfl ran).1
    case lpush => exact (handlePush_conduct rfl rfl ran).1
    case blpop => exact (handleBlpop_conduct ran).1
    case xadd => exact (handleXadd_conduct ran).1
    case xread => exact (handleXread_conduct ran).1
  · by_cases published : ∃ channelName message, command = .publish channelName message
    · obtain ⟨channelName, message, rfl⟩ := published
      exact (handlePublish_conduct ran).1
    · by_cases subscribed : ∃ channelName, command = .subscribe channelName
      · obtain ⟨channelName, rfl⟩ := subscribed
        exact (handleSubscribe_conduct ran).1
      · have ordinary := callSimple_ordinary moves
          (fun channelName message same => published ⟨channelName, message, same⟩)
          (fun channelName same => subscribed ⟨channelName, same⟩) ran
        have idle : command.wakes db c = [] ∧ command.waits db c = false := by
          cases command <;> first | exact ⟨rfl, rfl⟩ | exact absurd trivial moves
        exact ordinary.conduct idle.1 idle.2

end CarrotDb
