import CarrotDb.Discards
import CarrotDb.KeyspaceRuns
import CarrotDb.WrongTypes
import CarrotDb.XreadBlocks

/-! A client that reads a stream by polling: each XREAD asks for what is behind
the last entry of the replies so far. Whatever other clients do meanwhile, the
replies put together are the entries of the stream, each of them once and in
order. -/
namespace CarrotDb
open Decimal Resp Listpack

variable {db db' : DB} {c : Context} {key text : Bytes} {command : Command} {log added : Log}
  {effects : List Effect}

/-- The entries of a key that holds a stream. -/
structure DB.Streams (db : DB) (key : Bytes) (log : Log) : Prop where
  held : db.KeyLogs key log
  tag : (db.store.lookup key).map RedisObject.type = some .stream

theorem DB.Streams.congr (streams : db.Streams key log)
    (same : db'.store.lookup key = db.store.lookup key) : db'.Streams key log where
  held := by
    rw [DB.KeyLogs, same]
    exact streams.held
  tag := by
    rw [same]
    exact streams.tag

/-- What every run keeps of a database. -/
structure DB.InOrder (db : DB) : Prop where
  sound : db.Sound
  timed : db.Timed
  tagged : db.Objects RedisObject.ListTagged

theorem reachable_inOrder (reached : db.Reachable) : db.InOrder :=
  ⟨reachable_sound reached, reachable_timed reached,
    reachable_objects listTagged_kept listTagged_pushed reached⟩

theorem DB.InOrder.called (inOrder : db.InOrder) (ran : callSimple db c command = .ok (db', effects)) :
    db'.InOrder :=
  ⟨callSimple_sound inOrder.sound ran, timed_invariant.command _ _ _ _ _ ran inOrder.timed,
    command_objects listTagged_kept listTagged_pushed inOrder.tagged inOrder.sound ran⟩

/-- A stream has no deadline. -/
theorem DB.Streams.untimed (streams : db.Streams key log) (timed : db.Timed) :
    db.expiration.lookup key = none := by
  by_contra due
  obtain ⟨deadline, due⟩ := Option.ne_none_iff_exists'.mp due
  obtain ⟨object, lookup, isString⟩ := timed key deadline due
  have tag := streams.tag
  rw [lookup, Option.map_some, isString] at tag
  cases tag

/-- A reading of streams leaves the store as it is. -/
theorem handleXread_store {block : Option Float} {keys ids : List Bytes}
    (ran : handleXread db c block keys ids = .ok (db', effects)) : db'.store = db.store := by
  rw [handleXread] at ran
  split at ran
  · rw [(replying_ok ran).1]
  · obtain ⟨collected, found, ran⟩ := exec_bind_ok.mp ran
    split at ran
    · cases ran
      obtain ⟨key, streamId, timeout, marked⟩ := collectReplies_blocks found
      obtain ⟨blocked, -, marked⟩ := exec_bind_ok.mp marked
      cases marked
      rfl
    · rw [(replying_ok ran).1]
    · obtain ⟨bytes, -, ran⟩ := exec_bind_ok.mp ran
      rw [(replying_ok ran).1]

/-- Behind EXEC a handler does what it does for a request of its own, but for
those that look at the request. -/
theorem callSimple_own {name : Bytes} (runs : c.Runs command)
    (about : command.part = some (.key name)) (notXread : ∀ block keys ids, command ≠ .xread block keys ids) :
    callSimple db c command = callSimple db { c with command } command ∨
      callSimple db c command = replying db invalidCommandType := by
  rcases runs with asked | exec
  · exact .inl (by rw [← asked])
  · by_cases refused : Keyspace.ofRequest command = true
    · exact .inr (callSimple_ofRequest exec refused)
    · left
      cases command <;>
        first | rfl | exact absurd rfl refused | exact absurd rfl (notXread _ _ _) | cases about

/-- A command about another key leaves a key as it is. -/
theorem callSimple_elsewhere {name : Bytes} (sound : db.Sound) (runs : c.Runs command)
    (about : command.part = some (.key name)) (different : key ≠ name)
    (notXread : ∀ block keys ids, command ≠ .xread block keys ids)
    (ran : callSimple db c command = .ok (db', effects)) :
    db'.store.lookup key = db.store.lookup key := by
  rcases callSimple_own runs about notXread with own | refused
  · have alike : Alike name db db := ⟨rfl, rfl, rfl, rfl, rfl⟩
    have local_ := @callSimple_key db db { c with command } name alike
      (queuesOwn_of_sound sound name) about
    rw [own] at ran
    dsimp only at local_
    rw [ran, adopting_ok] at local_
    have adopted := (Prod.mk.inj (Except.ok.inj local_)).1
    rw [adopted]
    exact lookup_place_ne _ _ different
  · rw [refused] at ran
    rw [(replying_ok ran).1]

/-- The command sets the key to a text. -/
def Command.Replaces (key : Bytes) : Command → Prop
  | .set name .. => name = key
  | _ => False

/-- A push to a stream that runs has pushed nothing. -/
theorem handlePush_stream (inOrder : db.InOrder) (streams : db.Streams key log) {isPrepend : Bool}
    {values : List Bytes} (ran : handlePush db c isPrepend key values = .ok (db', effects)) :
    db'.store = db.store := by
  obtain ⟨object, lookup, tag⟩ := Option.map_eq_some_iff.mp streams.tag
  have other : object.type ≠ .listPack := by
    rw [tag]
    decide
  have null : object.listPack = none := by
    by_contra held
    exact other (inOrder.tagged key object lookup held)
  by_cases nothing : keptValues (queueOf db.blockedKeys key) values = []
  · obtain ⟨pushed, sent, ran', store, -⟩ := @handlePush_nothing db c key isPrepend values nothing
    rw [ran'] at ran
    cases ran
    exact store
  · rw [handlePush_null nothing lookup other null] at ran
    cases ran

/-- Commands other than SET leave the entries of a stream, and add to them at
most. -/
theorem callSimple_streams (inOrder : db.InOrder) (streams : db.Streams key log)
    (runs : c.Runs command) (keeps : ¬ command.Replaces key)
    (ran : callSimple db c command = .ok (db', effects)) : ∃ added, db'.Streams key (log ++ added) := by
  have unchanged (same : db'.store.lookup key = db.store.lookup key) :
      ∃ added, db'.Streams key (log ++ added) :=
    ⟨[], by rw [List.append_nil]; exact streams.congr same⟩
  by_cases reading : ∃ block keys ids, command = .xread block keys ids
  · obtain ⟨block, keys, ids, rfl⟩ := reading
    exact unchanged (by rw [handleXread_store ran])
  have notXread (block keys ids) : command ≠ .xread block keys ids :=
    fun same => reading ⟨block, keys, ids, same⟩
  by_cases elsewhere : ∃ name, command.part = some (.key name) ∧ key ≠ name
  · obtain ⟨name, about, different⟩ := elsewhere
    exact unchanged (callSimple_elsewhere inOrder.sound runs about different notXread ran)
  have here {name : Bytes} (about : command.part = some (.key name)) : name = key := by
    by_contra different
    exact elsewhere ⟨name, about, Ne.symm different⟩
  by_cases reads : ReadsOnly command
  · exact unchanged (by rw [readsOnly_frame reads ran])
  obtain ⟨object, lookup, tag⟩ := Option.map_eq_some_iff.mp streams.tag
  have other {type : RedisObjectEncodingType} (apart : type ≠ .stream) : object.type ≠ type := by
    rw [tag]
    exact apart.symm
  have untimed := expireIfDue_untimed (streams.untimed inOrder.timed) c.env.clock.steady
  have replied {bytes : Bytes} (replies : callSimple db c command = replying db bytes) :
      ∃ added, db'.Streams key (log ++ added) := by
    rw [replies] at ran
    exact unchanged (by rw [(replying_ok ran).1])
  cases command <;> first | exact absurd trivial reads | skip
  case set => exact absurd (here rfl) keeps
  case xread block keys ids => exact absurd rfl (notXread block keys ids)
  case get | type =>
    obtain rfl := here rfl
    rw [callSimple, handleGetOrType, untimed, exec_ok_bind, lookup] at ran
    dsimp only at ran
    rw [tag] at ran
    cases ran
    exact unchanged rfl
  case incr =>
    obtain rfl := here rfl
    exact replied (by simp [callSimple, handleIncr, lookup, tag]; rfl)
  case rpush | lpush =>
    obtain rfl := here rfl
    exact unchanged (by rw [handlePush_stream inOrder streams ran])
  case lrange =>
    obtain rfl := here rfl
    exact replied (by simp [callSimple, handleLrange, lookup, tag]; rfl)
  case llen =>
    obtain rfl := here rfl
    exact replied (by simp [callSimple, handleLlen, lookup, tag]; rfl)
  case lpop =>
    obtain rfl := here rfl
    exact replied (handleLpop_other lookup (other (by decide)))
  case blpop keys timeout =>
    obtain rfl := here rfl
    exact replied (by simp only [callSimple, handleBlpop, lookup, tag]; rfl)
  case xadd name streamId fieldValues =>
    obtain rfl := here rfl
    obtain ⟨object', lookup', same⟩ := (handleXadd_keeps ran).types name object lookup
    have tag' : (db'.store.lookup name).map RedisObject.type = some .stream := by
      rw [lookup', Option.map_some, same, tag]
    obtain ⟨grown, sent, ran', outcome⟩ :=
      handleXadd_logs inOrder.sound streams.held c streamId fieldValues
    have both : (grown, sent) = (db', effects) := Except.ok.inj (ran'.symm.trans ran)
    cases both
    rcases outcome with ⟨held, -⟩ | ⟨id, held, -⟩
    · exact ⟨[], by rw [List.append_nil]; exact ⟨held, tag'⟩⟩
    · exact ⟨_, held, tag'⟩
  case zadd =>
    obtain rfl := here rfl
    obtain ⟨bytes, replies⟩ := handleZadd_other runs lookup (other (by decide))
    exact replied replies
  case zrem =>
    obtain rfl := here rfl
    obtain ⟨bytes, replies⟩ := handleZrem_other runs lookup (other (by decide))
    exact replied replies
  case geoAdd =>
    obtain rfl := here rfl
    obtain ⟨bytes, replies⟩ := handleGeoadd_other runs lookup (other (by decide))
    exact replied replies
  case exec => cases ran
  case subscribe =>
    rw [callSimple, handleSubscribe] at ran
    split at ran <;> cases ran
    exact unchanged rfl
  case publish =>
    rw [callSimple, handlePublish] at ran
    split at ran <;> cases ran
    exact unchanged rfl

/-- What a request runs it asks for itself, or it is an EXEC. -/
theorem calls_runs (called : command ∈ c.calls) (env : Env) :
    Context.Runs { c with env } command := by
  rw [Context.calls] at called
  split at called
  · cases called
  · split at called
    · rename_i exec
      right
      cases asked : c.command <;> rw [asked] at exec <;> first | rfl | cases exec
    · exact .inl (List.mem_singleton.mp called).symm

/-- So do requests. -/
theorem execute_streams {rdbFilePath : Bytes} {envs : List Env} {executed : Executed}
    (inOrder : db.InOrder) (streams : db.Streams key log)
    (keeps : ∀ command ∈ c.calls, ¬ command.Replaces key)
    (ran : execute db c rdbFilePath envs = .ok executed) :
    executed.db.InOrder ∧ ∃ added, executed.db.Streams key (log ++ added) := by
  refine @execute_carries db c (fun db => db.InOrder ∧ ∃ added, db.Streams key (log ++ added))
    ?_ ?_ ?_ rdbFilePath envs executed ran
  · rintro db db' store deadlines queues ⟨⟨sound, timed, tagged⟩, added, streams⟩
    refine ⟨⟨sound.congr store queues, timed_invariant.bindings _ _ store deadlines timed,
      tagged.congr store⟩, added, streams.congr (by rw [store])⟩
  · rintro command called db db' env effects ran ⟨inOrder, added, streams⟩
    obtain ⟨more, streams'⟩ := callSimple_streams inOrder streams (calls_runs called env)
      (keeps command called) ran
    exact ⟨inOrder.called ran, added ++ more, by rw [← List.append_assoc]; exact streams'⟩
  · exact ⟨inOrder, [], by rw [List.append_nil]; exact streams⟩

/-- An entry as clients see it: the text of its identifier, and the names and
values. -/
abbrev Seen := Bytes × List Bytes

/-- An entry of a stream, seen. -/
def seen (entry : StreamID × Bytes) : Seen :=
  (entry.1.toString, (parseBulkStringSequence entry.2).1)

def encodeSeen (entry : Seen) : Bytes :=
  encodeArrayHeader 2 ++ encodeBulkString entry.1 ++ encodeBulkStringArray entry.2

/-- The reply to a reading of one key in which there are some entries. -/
def encodePoll (key : Bytes) (entries : List Seen) : Bytes :=
  if entries = [] then encodeEmptyArray
  else encodeArrayHeader 1 ++ encodeArrayHeader 2 ++ encodeBulkString key ++
    encodeArrayHeader entries.length ++ entries.flatMap encodeSeen

theorem DB.Streams.stream (streams : db.Streams key log) : ∃ object stream,
    db.store.lookup key = some object ∧ object.type = .stream ∧ object.streamPtr = some stream ∧
      stream.Logs log := by
  obtain ⟨missing, -⟩ | held := streams.held
  · have tag := streams.tag
    rw [missing] at tag
    cases tag
  · exact held

/-- A poll is answered with the entries behind the text. -/
theorem handleXread_polls (streams : db.Streams key log) (text : Bytes) :
    handleXread db c none [key] [text] = replying db (encodePoll key ((log.behind text).map seen)) := by
  obtain ⟨object, stream, lookup, tag, pointer, logs⟩ := streams.stream
  have found := xrangeData_behind logs text
  have encoded := encodeEntries_pairs (behind_fits logs.fits text)
  have collected : collectReplies db c none [(key, text)] [] =
      .ok (.inl (if (log.behind text).pairs = [] then [] else [(key, (log.behind text).pairs)])) := by
    rw [collectReplies_reads lookup tag pointer, found, collectReplies, List.nil_append]
    rfl
  rw [handleXread, if_neg fun uneven => uneven rfl, List.zip_cons_cons, List.zip_nil_right, collected,
    exec_ok_bind, encodePoll]
  generalize log.behind text = part at *
  cases part with
  | nil => rfl
  | cons entry rest =>
    have some_ : Log.pairs (entry :: rest) ≠ [] := List.cons_ne_nil _ _
    have some_seen : (entry :: rest).map seen ≠ [] := List.cons_ne_nil _ _
    have size : ((entry :: rest).map seen).length = (Log.pairs (entry :: rest)).length := by
      rw [Log.pairs, List.length_map, List.length_map]
    have shown : ((entry :: rest).map seen).flatMap encodeSeen = (entry :: rest).flatMap encodeStored := by
      rw [List.flatMap_map]
      rfl
    rw [if_neg some_, if_neg some_seen, size, shown]
    show (do replying db (encodeArrayHeader 1 ++ (← encodeReplies [(key, Log.pairs (entry :: rest))]))) = _
    rw [encodeReplies, encoded, exec_ok_bind, encodeReplies, exec_pure, exec_ok_bind, exec_pure,
      exec_ok_bind]
    simp

/-- The text that the next poll asks behind. -/
def nextText (text : Bytes) (entries : List Seen) : Bytes := (entries.getLast?.map Prod.fst).getD text

theorem fromStringForSearch_toString {id : StreamID} (fits : id.Fits) (isEndKey : Bool) :
    fromStringForSearch id.toString isEndKey = some id := by
  have bound := @fromStringForSearch_bound (.full (toDecimal id.ms) (toDecimal id.seq))
    ⟨numeral_toDecimal fits.1, numeral_toDecimal fits.2⟩ isEndKey
  rw [RangeBound.id, ofDecimal_toDecimal, ofDecimal_toDecimal] at bound
  exact bound

theorem StreamID.Lt.trans {a b d : StreamID} (less : StreamID.Lt a b) (less' : StreamID.Lt b d) :
    StreamID.Lt a d := by
  rw [StreamID.lt_iff] at *
  omega

/-- What is behind a text in a log that has grown: what was behind it, and what
is behind the last of that now. -/
theorem behind_grown (fits : ∀ entry ∈ log, entry.1.Fits)
    (increasing : (log ++ added).Pairwise fun a b => StreamID.Lt a.1 b.1) :
    (log ++ added).behind text =
      log.behind text ++ (log ++ added).behind (nextText text ((log.behind text).map seen)) := by
  obtain ⟨sorted, -, below⟩ := List.pairwise_append.mp increasing
  cases read : fromStringForSearch text false with
  | none =>
    have nothing (entries : Log) : entries.behind text = [] := by rw [Log.behind, read]
    rw [nothing, nothing, List.map_nil]
    exact (nothing _).symm
  | some low =>
    have behind (entries : Log) : entries.behind text = entries.filter fun entry => entry.1.isGreater low := by
      rw [Log.behind, read]
    rcases List.eq_nil_or_concat (log.behind text) with nothing | ⟨front, last, filled⟩
    · rw [nothing]
      rfl
    · rw [List.concat_eq_append] at filled
      rw [filled]
      have among (entry : StreamID × Bytes) (member : entry ∈ front ++ [last]) :
          entry ∈ log ∧ StreamID.Lt low entry.1 := by
        rw [← filled, behind] at member
        exact List.mem_filter.mp member
      obtain ⟨inside, above⟩ := among last (List.mem_append_right _ List.mem_cons_self)
      have next : nextText text ((front ++ [last]).map seen) = last.1.toString := by
        simp [nextText, seen]
      have read' := fromStringForSearch_toString (fits last inside) false
      have greatest : ∀ entry ∈ log, ¬ entry.1.isGreater last.1 := by
        intro entry member greater
        have found : entry ∈ front ++ [last] := by
          rw [← filled, behind]
          exact List.mem_filter.mpr ⟨member, above.trans greater⟩
        have ordered : (front ++ [last]).Pairwise fun a b => StreamID.Lt a.1 b.1 := by
          rw [← filled, behind]
          exact sorted.filter _
        rcases List.mem_append.mp found with earlier | same
        · have less := (List.pairwise_append.mp ordered).2.2 entry earlier last List.mem_cons_self
          exact StreamID.not_lt_self _ (less.trans greater)
        · rw [List.mem_singleton.mp same] at greater
          exact StreamID.not_lt_self _ greater
      have later : (added.filter fun entry => entry.1.isGreater low) =
          added.filter fun entry => entry.1.isGreater last.1 := by
        refine List.filter_congr fun entry member => ?_
        have less := below last inside entry member
        have kept : entry.1.isGreater low = true := above.trans less
        exact kept.trans (Eq.symm less)
      have behind' : (log ++ added).behind last.1.toString =
          added.filter fun entry => entry.1.isGreater last.1 := by
        rw [Log.behind, read']
        dsimp only
        rw [List.filter_append, List.filter_eq_nil_iff.mpr greatest, List.nil_append]
      rw [next, behind', behind, List.filter_append, later, ← behind log, filled]

/-! ## Reading a reply -/

theorem encodeBulkStringArray_injective : Function.Injective encodeBulkStringArray := by
  intro one two same
  rw [encodeBulkStringArray, encodeBulkStringArray] at same
  obtain ⟨-, texts⟩ := header_cancel same
  exact encodeBulkString_injective.list_map
    (replies_unique (replies_bulkStrings one) (texts ▸ replies_bulkStrings two))

theorem encodeSeen_injective : Function.Injective encodeSeen := by
  rintro ⟨id, fields⟩ ⟨id', fields'⟩ same
  rw [encodeSeen, encodeSeen, List.append_assoc, List.append_assoc] at same
  have rest := List.append_cancel_left same
  obtain rfl : id = id' := bulk_cancel rest
  exact congrArg _ (encodeBulkStringArray_injective (List.append_cancel_left rest))

theorem replies_seen (entries : List Seen) :
    Replies (entries.map encodeSeen) (entries.flatMap encodeSeen) := by
  refine ⟨fun r member => ?_, List.flatMap_def.symm ▸ rfl⟩
  obtain ⟨entry, -, rfl⟩ := List.mem_map.mp member
  rw [encodeSeen, List.append_assoc]
  exact reply_array ((replies_single (.bulk entry.1)).append
    (replies_single (reply_bulkStringArray entry.2))) rfl

/-- A reply tells the entries. -/
theorem encodePoll_injective (key : Bytes) : Function.Injective (encodePoll key) := by
  intro one two same
  have none_or (entries : List Seen) (some_ : entries ≠ []) : encodeEmptyArray ≠ encodePoll key entries := by
    intro empty
    rw [encodePoll, if_neg some_] at empty
    cases congrArg (fun bytes : Bytes => bytes[1]?) empty
  by_cases nothing : one = [] <;> by_cases nothing' : two = []
  · rw [nothing, nothing']
  · subst nothing
    exact absurd same (none_or two nothing')
  · subst nothing'
    exact absurd same.symm (none_or one nothing)
  · rw [encodePoll, encodePoll, if_neg nothing, if_neg nothing'] at same
    simp only [List.append_assoc] at same
    have same := List.append_cancel_left (List.append_cancel_left (List.append_cancel_left same))
    obtain ⟨-, rest⟩ := header_cancel same
    exact encodeSeen_injective.list_map
      (replies_unique (replies_seen one) (rest ▸ replies_seen two))

/-! ## A client that polls -/

variable {rdbFilePath : Bytes} {fd : Fd} {session session' : Session} {request : Request}

/-- A key holds a stream, and a client may read it. -/
structure Session.Offers (session : Session) (fd : Fd) (key : Bytes) (log : Log) : Prop where
  inOrder : session.db.InOrder
  streams : session.db.Streams key log
  reader : ∃ client, session.clients.lookup fd = some client ∧ client.multi = false ∧ client.pubSub = false

/-- No command that the request runs sets the key to a text. -/
def Session.Spares (key : Bytes) (session : Session) (request : Request) : Prop :=
  ∀ client, session.clients.lookup request.fd = some client →
    ∀ command ∈ (session.context client request).calls, ¬ command.Replaces key

theorem Session.Offers.other (offers : session.Offers fd key log) (other : request.fd ≠ fd)
    (spares : session.Spares key request)
    (ran : session.step rdbFilePath request = .ok (effects, session')) :
    ∃ added, session'.Offers fd key (log ++ added) := by
  obtain ⟨inOrder, streams, reader, lookup, multi, pubSub⟩ := offers
  rw [Session.step] at ran
  cases asking : session.clients.lookup request.fd with
  | none =>
    rw [asking] at ran
    cases ran
    exact ⟨[], inOrder, by rw [List.append_nil]; exact streams, reader, lookup, multi, pubSub⟩
  | some client =>
    rw [asking] at ran
    obtain ⟨executed, served, left⟩ := exec_bind_ok.mp ran
    cases left
    obtain ⟨inOrder', added, streams'⟩ := execute_streams inOrder streams (spares client asking) served
    refine ⟨added, inOrder', streams', applyEffects request.fd fd executed.effects reader, ?_, ?_⟩
    · exact (lookup_applyToClients _ _ _ _).trans (congrArg _ lookup)
    · have veiled := applyEffects_foreign other executed.effects reader
      exact ⟨(congrArg Client.multi veiled).trans multi, (congrArg Client.pubSub veiled).trans pubSub⟩

theorem Session.Offers.poll (offers : session.Offers fd key log) (own : request.fd = fd)
    (asks : request.command = .xread none [key] [text]) : ∃ session',
      session.step rdbFilePath request =
        .ok ([.reply (encodePoll key ((log.behind text).map seen))], session') ∧
      session'.Offers fd key log := by
  obtain ⟨inOrder, streams, reader, lookup, multi, pubSub⟩ := offers
  subst own
  have asked : (session.context reader request).command = .xread none [key] [text] := asks
  generalize sent : [Effect.reply (encodePoll key ((log.behind text).map seen))] = effects
  have served : execute session.db (session.context reader request) rdbFilePath request.queue =
      .ok ⟨session.db, session.acl, effects, some request.command⟩ := by
    rw [execute_direct multi pubSub (by rw [asked]; trivial), asked, callSimple,
      handleXread_polls streams, asks, ← sent]
    rfl
  refine ⟨⟨session.db, session.acl, applyToClients request.fd effects session.clients⟩, ?_, inOrder,
    streams, applyEffects request.fd request.fd effects reader, ?_, ?_⟩
  · rw [Session.step, lookup]
    dsimp only
    rw [served, exec_ok_bind]
    rfl
  · exact (lookup_applyToClients _ _ _ _).trans (congrArg _ lookup)
  · subst sent
    have reply : applyEffects request.fd request.fd [.reply (encodePoll key ((log.behind text).map seen))]
        reader = Effect.apply (.reply (encodePoll key ((log.behind text).map seen))) reader := if_pos rfl
    rw [reply]
    exact ⟨multi, pubSub⟩

/-- What a client that polls knows: the text to ask behind next, and the
entries of all replies so far. -/
structure Poller where
  text : Bytes
  received : List Seen := []

def Poller.receive (poller : Poller) (entries : List Seen) : Poller :=
  ⟨nextText poller.text entries, poller.received ++ entries⟩

/-- A run of requests in which one client does nothing but poll a key, always
behind the last entry it has received, and no other sets the key to a text. -/
inductive Poller.Runs (rdbFilePath : Bytes) (fd : Fd) (key : Bytes) (session : Session)
    (poller : Poller) : Session → Poller → Prop where
  | start : Runs rdbFilePath fd key session poller session poller
  | other {session' session'' : Session} {poller' : Poller} {request : Request}
    {effects : List Effect} :
    Runs rdbFilePath fd key session poller session' poller' → request.fd ≠ fd →
    session'.Spares key request → session'.step rdbFilePath request = .ok (effects, session'') →
    Runs rdbFilePath fd key session poller session'' poller'
  | poll {session' session'' : Session} {poller' : Poller} {request : Request}
    {effects : List Effect} {entries : List Seen} :
    Runs rdbFilePath fd key session poller session' poller' → request.fd = fd →
    request.command = .xread none [key] [poller'.text] →
    session'.step rdbFilePath request = .ok (effects, session'') →
    repliedBytes effects = encodePoll key entries →
    Runs rdbFilePath fd key session poller session'' (poller'.receive entries)

/-- In every run a client that polls a stream has received each entry that was
behind its start, whether it was there at first or was added since, once and in
order, but for those that the next poll is answered with; and that one is
answered. -/
theorem polls_exactly_once {poller : Poller} (reached : session.db.Reachable)
    (streams : session.db.Streams key log)
    (reader : ∃ client, session.clients.lookup fd = some client ∧ client.multi = false ∧
      client.pubSub = false)
    (runs : Poller.Runs rdbFilePath fd key session ⟨text, []⟩ session' poller) :
    ∃ added rest, session'.db.Streams key (log ++ added) ∧
      ((log ++ added).behind text).map seen = poller.received ++ rest ∧
      ∀ request : Request, request.fd = fd → request.command = .xread none [key] [poller.text] →
        ∃ session'', session'.step rdbFilePath request =
          .ok ([.reply (encodePoll key rest)], session'') := by
  -- What is received fits the log however it grows later on.
  have shown : ∃ added, session'.Offers fd key (log ++ added) ∧
      ∀ more, (log ++ added ++ more).Pairwise (fun a b => StreamID.Lt a.1 b.1) →
        ((log ++ added ++ more).behind text).map seen =
          poller.received ++ ((log ++ added ++ more).behind poller.text).map seen := by
    generalize begun : (⟨text, []⟩ : Poller) = start at runs
    induction runs with
    | start =>
      subst begun
      refine ⟨[], ?_, fun _ _ => rfl⟩
      rw [List.append_nil]
      exact ⟨reachable_inOrder reached, streams, reader⟩
    | other _ other spares ran ih =>
      obtain ⟨added, offers, received⟩ := ih
      obtain ⟨more, offers'⟩ := offers.other other spares ran
      rw [List.append_assoc] at offers'
      refine ⟨added ++ more, offers', fun later increasing => ?_⟩
      simp only [← List.append_assoc] at increasing ⊢
      rw [List.append_assoc (log ++ added)] at increasing ⊢
      exact received _ increasing
    | poll _ own asks ran replied ih =>
      obtain ⟨added, offers, received⟩ := ih
      obtain ⟨later, ran', offers'⟩ := @Session.Offers.poll _ _ _ rdbFilePath _ _ _ offers own asks
      rw [ran] at ran'
      cases ran'
      rw [repliedBytes, List.flatMap_singleton] at replied
      obtain rfl := encodePoll_injective key replied
      obtain ⟨_, _, -, -, -, logs⟩ := offers.streams.stream
      refine ⟨added, offers', fun more increasing => ?_⟩
      rw [received more increasing, behind_grown logs.fits increasing, List.map_append,
        ← List.append_assoc]
      rfl
  obtain ⟨added, offers, received⟩ := shown
  obtain ⟨_, _, -, -, -, logs⟩ := offers.streams.stream
  have whole := received []
  rw [List.append_nil] at whole
  refine ⟨added, _, offers.streams, whole logs.increasing, fun request own asks => ?_⟩
  obtain ⟨session'', ran, -⟩ := offers.poll own asks
  exact ⟨session'', ran⟩

/-- Two clients, and a stream of one entry. -/
def Session.streaming : Session := { Session.fresh with db := oneEntryDb }

/-- The second client adds an entry to it. -/
def Request.adding : Request := .plain 6 (.xadd (ascii "s") (ascii "2-2") [(ascii "f", ascii "w")])

/-- The first one polls it from its beginning. -/
def Request.polling : Request := .plain 5 (.xread none [ascii "s"] [ascii "0-0"])

def Session.twoEntries : Session := ((Session.streaming.step [] .adding).toOption.getD ([], .streaming)).2

/-- What it is to receive. -/
def twoSeen : List Seen :=
  [(ascii "1-1", [ascii "f", ascii "v"]), (ascii "2-2", [ascii "f", ascii "w"])]

theorem polls_exactly_once_two : ∃ session' log added rest,
    Poller.Runs [] 5 (ascii "s") .streaming ⟨ascii "0-0", []⟩ session' ⟨ascii "2-2", twoSeen⟩ ∧
    session'.db.Streams (ascii "s") (log ++ added) ∧
    ((log ++ added).behind (ascii "0-0")).map seen = twoSeen ++ rest := by
  have adds := @exec_getD _ (Session.streaming.step [] .adding) ([], .streaming) (by decide +kernel)
  have polls := @exec_getD _ (Session.twoEntries.step [] .polling) ([], .streaming) (by decide +kernel)
  have tag : (oneEntryDb.store.lookup (ascii "s")).map RedisObject.type = some .stream := by
    decide +kernel
  have opened : (openStream oneEntryDb (ascii "s")).2.type = .stream := by decide +kernel
  obtain ⟨log, held⟩ := keyLogs_of_open (reachable_sound oneEntryDb_reachable) opened
  have reader : Session.streaming.clients.lookup 5 = some {} :=
    (Finmap.lookup_insert_of_ne _ (by decide)).trans Finmap.lookup_singleton_eq
  have spares : Session.streaming.Spares (ascii "s") .adding := by
    intro client _ command called replaces
    rcases calls_runs called Context.sample.env with same | exec
    · rw [← same] at replaces
      exact replaces
    · cases exec
  have first : Poller.Runs [] 5 (ascii "s") .streaming ⟨ascii "0-0", []⟩ .twoEntries ⟨ascii "0-0", []⟩ :=
    .other .start (by decide) spares adds
  have runs : Poller.Runs [] 5 (ascii "s") .streaming ⟨ascii "0-0", []⟩ _
      (Poller.receive ⟨ascii "0-0", []⟩ twoSeen) :=
    .poll first rfl rfl polls (by decide +kernel)
  obtain ⟨more, rest, streams, received, -⟩ :=
    polls_exactly_once oneEntryDb_reachable ⟨held, tag⟩ ⟨_, reader, rfl, rfl⟩ runs
  exact ⟨_, log, more, rest, runs, streams, received⟩

end CarrotDb
