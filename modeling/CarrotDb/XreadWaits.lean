import CarrotDb.DbWaiting
import CarrotDb.StreamCommands
import CarrotDb.StreamIds

/-! Clients that wait for a stream. An XADD answers the whole queue of its key,
whether the entry it adds is one a client waits for or not; and an XREAD that
waits stands in the queue of one of its keys only. -/
namespace CarrotDb
open Decimal Resp RadixTree

/-! ## The entries behind an identifier -/

/-- The entries above the identifier a text stands for, none if it stands for
no identifier. -/
def Log.behind (log : Log) (text : Bytes) : Log :=
  match fromStringForSearch text false with
  | none => []
  | some low => log.filter fun entry => entry.1.isGreater low

/-- Whatever a text stands for has two numbers that fit. -/
theorem fromStringForSearch_fits {text : Bytes} {isEndKey : Bool} {id : StreamID}
    (read : fromStringForSearch text isEndKey = some id) : id.Fits := by
  unfold fromStringForSearch at read
  split at read
  · cases read
    exact ⟨Nat.two_pow_pos 64, Nat.two_pow_pos 64⟩
  · split at read
    · cases read
      exact ⟨by decide, by decide⟩
    · dsimp only at read
      split at read
      · cases read
      · rename_i msVal msRead
        split at read
        · cases read
        · rename_i seqVal seqRead
          cases read
          exact ⟨convertPositiveStringToNumber_lt msRead, convertPositiveStringToNumber_lt seqRead⟩

theorem StreamID.not_lt_self (id : StreamID) : ¬ StreamID.Lt id id := by
  rw [StreamID.lt_iff]
  omega

theorem StreamID.eq_of {a b : StreamID} (ms : a.ms = b.ms) (seq : a.seq = b.seq) : a = b := by
  cases a
  cases b
  exact congr (congrArg _ ms) seq

theorem StreamID.toString_injective : Function.Injective StreamID.toString := by
  intro a b same
  have clean (n : Nat) : 45 ∉ toDecimal n := fun member =>
    absurd (toDecimal_digits n 45 member) (by decide)
  have split := congrArg splitDash same
  rw [StreamID.toString, StreamID.toString, splitDash_found (clean a.ms), splitDash_found (clean b.ms)]
    at split
  obtain ⟨ms, seq⟩ := Prod.mk.inj (Option.some.inj split)
  exact StreamID.eq_of (toDecimal_injective ms) (toDecimal_injective seq)

theorem toBinary_injective {a b : StreamID} (fitsA : a.Fits) (fitsB : b.Fits)
    (same : a.toBinary = b.toBinary) : a = b := by
  have read := fromBinary_toBinary fitsA
  rw [same, fromBinary_toBinary fitsB] at read
  exact (Except.ok.inj read).symm

/-- An exclusive search up to the end reads off the entries behind a text. -/
theorem xrangeData_behind {stream : Stream} {log : Log} (logs : stream.Logs log) (text : Bytes) :
    (stream.xrangeData text (ascii "+") true).getD [] = (log.behind text).pairs := by
  rw [Stream.xrangeData, Log.behind]
  cases read : fromStringForSearch text false with
  | none => rfl
  | some low =>
    have greatest : fromStringForSearch (ascii "+") true = some ⟨2 ^ 64 - 1, 2 ^ 64 - 1⟩ := rfl
    have lowFits := fromStringForSearch_fits read
    have highFits := fromStringForSearch_fits greatest
    rw [greatest]
    dsimp only
    cases held : stream.radixTreePtr with
    | none =>
      rw [(logs.fresh held).1]
      rfl
    | some root =>
      obtain ⟨-, -, valid, same⟩ := logs.stored root held
      dsimp only
      rw [Option.getD_some, rangeSearch_eq root valid, same, Log.pairs, List.filter_map, Log.pairs]
      refine congrArg _ (List.filter_congr fun entry member => ?_)
      have fits := logs.fits entry member
      rw [Function.comp_apply, Bool.eq_iff_iff, decide_eq_true_eq, InRange]
      dsimp only
      rw [toBinary_le_iff lowFits fits, toBinary_le_iff fits highFits]
      have above : entry.1.isGreater low = true ↔ StreamID.Lt low entry.1 := Iff.rfl
      rw [above, StreamID.lt_iff]
      unfold StreamID.Le
      have small := fits.1
      have small' := fits.2
      constructor
      · rintro ⟨least, -, other⟩
        have different : low ≠ entry.1 := fun same => other ⟨rfl, congrArg StreamID.toBinary same.symm⟩
        have numbers : low.ms ≠ entry.1.ms ∨ low.seq ≠ entry.1.seq := by
          by_contra both
          rw [not_or, not_not, not_not] at both
          exact different (StreamID.eq_of both.1 both.2)
        omega
      · intro less
        refine ⟨by omega, by dsimp only; omega, fun both => ?_⟩
        rw [toBinary_injective fits lowFits both.2] at less
        omega

/-- A stream entry as XREAD replies it. -/
def encodeStored (entry : StreamID × Bytes) : Bytes :=
  encodeArrayHeader 2 ++ encodeBulkString entry.1.toString ++
    encodeBulkStringArray (parseBulkStringSequence entry.2).1

theorem encodeEntries_pairs {log : Log} (fits : ∀ entry ∈ log, entry.1.Fits) :
    encodeEntries log.pairs = .ok (log.flatMap encodeStored) := by
  induction log with
  | nil => rfl
  | cons entry rest ih =>
    have later := ih fun other member => fits other (List.mem_cons_of_mem _ member)
    have shape : Log.pairs (entry :: rest) = (entry.1.toBinary, entry.2) :: Log.pairs rest := rfl
    rw [shape, encodeEntries, fromBinary_toBinary (fits entry List.mem_cons_self), exec_ok_bind, later]
    rfl

/-- What a waiting client is sent for entries of its key. -/
def streamReply (key : Bytes) (entries : Log) : Bytes :=
  encodeArrayHeader 1 ++ encodeArrayHeader 2 ++ encodeBulkString key ++
    encodeArrayHeader entries.length ++ entries.flatMap encodeStored

theorem streamReply_ne (key : Bytes) (entries : Log) : streamReply key entries ≠ encodeNullArray := by
  intro same
  have second := congrArg (fun bytes : Bytes => bytes[1]?) same
  have header : encodeArrayHeader 1 = ascii "*1\r\n" := by decide
  rw [streamReply, header] at second
  cases second

/-! ## The answers of an XADD -/

/-- The text a waiting client is answered behind. `$` was recorded where there
was no stream. -/
def BlockedXreadClient.recorded (blocked : BlockedXreadClient) : Bytes :=
  if blocked.streamId = ascii "$" then ascii "0-0" else blocked.streamId

/-- What a client that waits for a key is sent, from the entries of the key. -/
def readReply (key : Bytes) (log : Log) (blocked : BlockedXreadClient) : Bytes :=
  if log.behind blocked.recorded = [] then encodeNullArray
  else streamReply key (log.behind blocked.recorded)

variable {db db' : DB} {c : Context} {effects : List Effect} {key : Bytes} {log : Log}

theorem behind_fits {log : Log} (fits : ∀ entry ∈ log, entry.1.Fits) (text : Bytes) :
    ∀ entry ∈ log.behind text, entry.1.Fits := by
  intro entry member
  rw [Log.behind] at member
  split at member
  · cases member
  · exact fits entry (List.mem_filter.mp member).1

/-- The reply that is written for a client of a stream. -/
theorem xreadResponse_reply {object : RedisObject} {stream : Stream}
    (lookup : db.store.lookup key = some object) (tag : object.type = .stream)
    (pointer : object.streamPtr = some stream) (logs : stream.Logs log)
    (blocked : BlockedXreadClient) :
    xreadResponse db key blocked.streamId = .ok (readReply key log blocked) := by
  have found := xrangeData_behind logs blocked.recorded
  have encoded := encodeEntries_pairs (behind_fits logs.fits blocked.recorded)
  rw [xreadResponse, lookup]
  dsimp only
  rw [tag, pointer]
  dsimp only
  rw [← BlockedXreadClient.recorded, readReply]
  generalize log.behind blocked.recorded = part at found encoded
  split
  · rename_i missing
    rw [missing] at found
    have empty : part = [] := List.map_eq_nil_iff.mp found.symm
    rw [if_pos empty]
    rfl
  · rename_i nothing
    rw [nothing] at found
    have empty : part = [] := List.map_eq_nil_iff.mp found.symm
    rw [if_pos empty]
    rfl
  · rename_i entries some_ present
    rw [present, Option.getD_some] at found
    have filled : part ≠ [] := by
      rintro rfl
      exact some_ found
    rw [if_neg filled, found, encoded, exec_ok_bind, streamReply, Log.pairs, List.length_map]
    rfl

/-- The clients of a queue that still exist, each with its reply. -/
def answersIn (env : Env) (key : Bytes) (log : Log) (queue : List BlockedXreadClient) :
    List (Fd × Bytes) :=
  (queue.filter fun blocked => env.alive blocked.clientFd).map fun blocked =>
    (blocked.clientFd, readReply key log blocked)

theorem answersIn_append (env : Env) (key : Bytes) (log : Log)
    (front back : List BlockedXreadClient) :
    answersIn env key log (front ++ back) = answersIn env key log front ++ answersIn env key log back := by
  rw [answersIn, List.filter_append, List.map_append]
  rfl

theorem serveXreadClients_answers {env : Env} {queue : List BlockedXreadClient}
    (held : db.KeyLogs key log) (some_ : log ≠ []) (here : ∀ blocked ∈ queue, blocked.streamKey = key)
    (ran : serveXreadClients db env queue = .ok effects) : writes effects = answersIn env key log queue := by
  rcases held with ⟨-, rfl⟩ | ⟨object, stream, lookup, tag, pointer, logs⟩
  · exact absurd rfl some_
  have response (blocked : BlockedXreadClient) (same : blocked.streamKey = key) :
      (xreadResponse db blocked.streamKey blocked.streamId) = .ok (readReply key log blocked) := by
    rw [same]
    exact xreadResponse_reply lookup tag pointer logs blocked
  rw [(@serveXreadClients_writes _ _ _ key _ ran).2.1, answersIn]
  clear ran
  induction queue with
  | nil => rfl
  | cons blocked rest ih =>
    have later := ih fun other member => here other (List.mem_cons_of_mem _ member)
    rw [List.map_cons, repliesTo_cons, later, List.filter_cons, xreadReply,
      response blocked (here blocked List.mem_cons_self)]
    have same : (Waiter.stream key blocked).fd = blocked.clientFd := rfl
    rw [same]
    split <;> rfl

private theorem queueOf_nobody {queues : Map Bytes (List BlockedXreadClient)}
    (nobody : ∀ blocked queue, queues.lookup key ≠ some (blocked :: queue)) :
    queueOf queues key = [] := by
  rw [queueOf]
  cases lookup : queues.lookup key with
  | none => rfl
  | some queue =>
    cases queue with
    | nil => rfl
    | cons blocked queue => exact absurd lookup (nobody blocked queue)

/-- Everyone in the queue of a key is answered, and the queue is empty then. -/
theorem handleBlockedXreadClients_answers {env : Env} (sound : db.Sound) (held : db.KeyLogs key log)
    (some_ : log ≠ []) (ran : handleBlockedXreadClients db env key = .ok (db', effects)) :
    writes effects = answersIn env key log (queueOf db.blockedXreadKeys key) ∧
      db'.store = db.store ∧ repliedBytes effects = [] ∧ queueOf db'.blockedXreadKeys key = [] ∧
      ∀ other ≠ key, queueOf db'.blockedXreadKeys other = queueOf db.blockedXreadKeys other := by
  obtain ⟨served, _, ok, store, silent⟩ := handleBlockedXreadClients_ok sound env key
  rw [ran] at ok
  cases ok
  refine ⟨?_, store, silent, ?_⟩
  all_goals
    rw [handleBlockedXreadClients] at ran
    split at ran
  · rename_i blocked queue lookup
    obtain ⟨sent, serving, ran⟩ := exec_bind_ok.mp ran
    cases ran
    rw [queueOf, lookup, Option.getD_some]
    exact serveXreadClients_answers held some_ (sound.waiting key _ lookup) serving
  · rename_i nobody
    cases ran
    rw [queueOf_nobody nobody]
    rfl
  · obtain ⟨sent, -, ran⟩ := exec_bind_ok.mp ran
    cases ran
    refine ⟨?_, fun other different => ?_⟩
    · rw [queueOf, Finmap.lookup_erase]
      rfl
    · rw [queueOf, Finmap.lookup_erase_ne different, queueOf]
  · rename_i nobody
    cases ran
    exact ⟨queueOf_nobody nobody, fun _ _ => rfl⟩

private theorem pairs_injective {one two : Log} (fits : ∀ entry ∈ one, entry.1.Fits)
    (fits' : ∀ entry ∈ two, entry.1.Fits) (same : one.pairs = two.pairs) : one = two := by
  induction one generalizing two with
  | nil => exact (List.map_eq_nil_iff.mp same.symm).symm
  | cons entry one ih =>
    cases two with
    | nil => cases same
    | cons entry' two =>
      obtain ⟨head, tail⟩ := List.cons.inj same
      obtain ⟨id, payload⟩ := Prod.mk.inj head
      have first : entry = entry' := Prod.ext
        (toBinary_injective (fits entry List.mem_cons_self) (fits' entry' List.mem_cons_self) id) payload
      rw [first, ih (fun other member => fits other (List.mem_cons_of_mem _ member))
        (fun other member => fits' other (List.mem_cons_of_mem _ member)) tail]

/-- A key has one log. -/
theorem keyLogs_unique {other : Log} (held : db.KeyLogs key log) (held' : db.KeyLogs key other) :
    log = other := by
  rcases held with ⟨missing, rfl⟩ | ⟨object, stream, lookup, tag, pointer, logs⟩
  · rcases held' with ⟨-, rfl⟩ | ⟨object, stream, lookup, -, -, -⟩
    · rfl
    · rw [missing] at lookup
      cases lookup
  · rcases held' with ⟨missing, rfl⟩ | ⟨object', stream', lookup', tag', pointer', logs'⟩
    · rw [missing] at lookup
      cases lookup
    · rw [lookup] at lookup'
      cases lookup'
      rw [pointer] at pointer'
      cases pointer'
      cases held : stream.radixTreePtr with
      | none => rw [(logs.fresh held).1, (logs'.fresh held).1]
      | some root =>
        obtain ⟨-, -, -, same⟩ := logs.stored root held
        obtain ⟨-, -, -, same'⟩ := logs'.stored root held
        exact pairs_injective logs.fits logs'.fits (same.symm.trans same')

private theorem error_ne_bulk (error : StreamErrorType) (refused : error ≠ .ok) (text : Bytes) :
    xaddError error ≠ encodeBulkString text := by
  intro same
  have first := congrArg List.head? same
  cases error <;> first | exact refused rfl | cases first

/-- A key that a stream can be opened at has a log. -/
theorem keyLogs_of_open (sound : db.Sound) (tag : (openStream db key).2.type = .stream) :
    ∃ log, db.KeyLogs key log := by
  rw [openStream] at tag
  cases lookup : db.store.lookup key with
  | none => exact ⟨[], .inl ⟨lookup, rfl⟩⟩
  | some object =>
    rw [lookup] at tag
    obtain ⟨stream, log, pointer, logs⟩ := stream_of_sound (sound.objects _ _ lookup) tag
    exact ⟨log, .inr ⟨object, stream, lookup, tag, pointer, logs⟩⟩

/-- An XADD at this state adds an entry, under this identifier. -/
def DB.Accepts (db : DB) (c : Context) (key streamId : Bytes) (fieldValues : List (Bytes × Bytes))
    (id : StreamID) : Prop :=
  (openStream db key).2.type = .stream ∧ ∃ stream, (openStream db key).2.streamPtr = some stream ∧
    (stream.insert c.env.clock.system streamId (rawValue fieldValues)).2 = ⟨.ok, id.toString⟩

theorem DB.Accepts.congr {c : Context} {key streamId : Bytes} {fieldValues : List (Bytes × Bytes)}
    {id : StreamID} (accepts : db.Accepts c key streamId fieldValues id)
    (store : db'.store = db.store) : db'.Accepts c key streamId fieldValues id := by
  have same : (openStream db' key).2 = (openStream db key).2 := by
    rw [openStream, openStream, store]
    split <;> rfl
  rw [DB.Accepts, same]
  exact accepts

theorem DB.Accepts.fits (sound : db.Sound) {streamId : Bytes} {fieldValues : List (Bytes × Bytes)}
    {id : StreamID} (accepts : db.Accepts c key streamId fieldValues id) : id.Fits := by
  obtain ⟨tag, stream, pointer, status⟩ := accepts
  obtain ⟨-, formed⟩ := openStream_sound sound key
  obtain ⟨held, log, pointer', logs⟩ := stream_of_sound formed tag
  rw [pointer] at pointer'
  cases pointer'
  rcases insert_logs logs c.env.clock.system streamId (rawValue fieldValues) with
    ⟨-, refused⟩ | ⟨id', read, status', -⟩
  · rw [status] at refused
    exact absurd rfl refused
  · rw [status] at status'
    obtain rfl : id = id' := StreamID.toString_injective (StreamStatus.mk.inj status').2
    exact fromString_fits read

/-- An identifier is read back from its text. -/
theorem fromString_toString {id : StreamID} (fits : id.Fits) (stream : Stream) (systemMs : Nat) :
    stream.fromString systemMs id.toString = some id := by
  rw [StreamID.toString, fromString_numerals stream systemMs (numeral_toDecimal fits.1)
    (numeral_toDecimal fits.2), ofDecimal_toDecimal, ofDecimal_toDecimal]

/-- A key that is missing accepts every identifier but 0-0. -/
theorem accepts_missing (missing : db.store.lookup key = none) {id : StreamID} (fits : id.Fits)
    (positive : id ≠ ⟨0, 0⟩) (fieldValues : List (Bytes × Bytes)) :
    db.Accepts c key id.toString fieldValues id := by
  have opened : (openStream db key).2 = { type := .stream, streamPtr := some Stream.new } := by
    rw [openStream, missing]
  rw [DB.Accepts, opened]
  refine ⟨rfl, Stream.new, rfl, ?_⟩
  rw [Stream.insert, fromString_toString fits]
  dsimp only
  rw [if_neg fun zero => positive (StreamID.eq_of zero.1 zero.2), if_neg]
  exact fun both => both.1.elim (fun other => other rfl) fun other => other rfl

/-- What an XADD accepts, it answers with the identifier. -/
theorem handleXadd_accepts (sound : db.Sound) {streamId : Bytes} {fieldValues : List (Bytes × Bytes)}
    {id : StreamID} (accepts : db.Accepts c key streamId fieldValues id) :
    ∃ db' effects, handleXadd db c key streamId fieldValues = .ok (db', effects) ∧
      repliedBytes effects = encodeBulkString id.toString := by
  obtain ⟨tag, stream, pointer, status⟩ := accepts
  obtain ⟨opened, formed⟩ := openStream_sound sound key
  obtain ⟨held, log, pointer', logs⟩ := stream_of_sound formed tag
  rw [pointer] at pointer'
  cases pointer'
  rw [handleXadd]
  dsimp only
  generalize (openStream db key).1 = opened₁, (openStream db key).2 = object at *
  rw [if_neg (not_not.mpr tag), pointer, deref, exec_pure, exec_ok_bind, status,
    if_neg (fun refused => refused rfl)]
  rcases insert_logs logs c.env.clock.system streamId (rawValue fieldValues) with
    ⟨-, refused⟩ | ⟨id', -, -, logs'⟩
  · rw [status] at refused
    exact absurd rfl refused
  · have written : RedisObject.Sound { object with
        streamPtr := some (stream.insert c.env.clock.system streamId (rawValue fieldValues)).1 } :=
      sound_of_stream tag rfl logs'
    obtain ⟨db', effects, served, -, silent⟩ :=
      handleBlockedXreadClients_ok (opened.bind written key) c.env key
    rw [served]
    refine ⟨_, _, rfl, ?_⟩
    rw [← List.singleton_append, List.append_assoc, repliedBytes_append, repliedBytes_append,
      repliedBytes_dirty, silent, List.append_nil, List.append_nil]
    exact List.append_nil _

/-- The identifier that the argument of an XADD stands for. -/
def DB.xaddId (db : DB) (c : Context) (key streamId : Bytes) : Option StreamID :=
  (openStream db key).2.streamPtr.bind fun stream => stream.fromString c.env.clock.system streamId

/-- An XADD that is answered with an identifier has added the entry behind all
others of its key, answered everyone who waits for the key, and emptied the
queue of the key. The other queues stay. -/
theorem handleXadd_accepted (sound : db.Sound) {streamId : Bytes} {id : StreamID}
    {fieldValues : List (Bytes × Bytes)}
    (ran : handleXadd db c key streamId fieldValues = .ok (db', effects))
    (accepted : repliedBytes effects = encodeBulkString id.toString) :
    ∃ log, db.KeyLogs key log ∧ db'.KeyLogs key (log ++ [(id, rawValue fieldValues)]) ∧
      db.xaddId c key streamId = some id ∧ db.Accepts c key streamId fieldValues id ∧
      writes effects = answersIn c.env key (log ++ [(id, rawValue fieldValues)])
        (queueOf db.blockedXreadKeys key) ∧
      queueOf db'.blockedXreadKeys key = [] ∧
      ∀ other ≠ key, queueOf db'.blockedXreadKeys other = queueOf db.blockedXreadKeys other := by
  have silent {bytes : Bytes} {opened : DB} (refused : bytes ≠ encodeBulkString id.toString)
      (ran : replying opened bytes = .ok (db', effects)) : False := by
    obtain ⟨-, rfl⟩ := replying_ok ran
    rw [repliedBytes, List.flatMap_singleton] at accepted
    exact refused accepted
  obtain ⟨opened, kept⟩ := openStream_sound sound key
  have queues : (openStream db key).1.blockedXreadKeys = db.blockedXreadKeys := by
    rw [openStream]
    split <;> rfl
  rw [handleXadd] at ran
  dsimp only at ran
  split at ran
  · refine absurd ran fun ran => silent (fun same => ?_) ran
    have first := congrArg List.head? same
    cases first
  · rename_i tag
    rw [ne_eq, not_not] at tag
    obtain ⟨log, held⟩ := keyLogs_of_open sound tag
    obtain ⟨stream, -, pointer, logs, -⟩ := openStream_logs held
    rw [DB.xaddId, DB.Accepts]
    generalize (openStream db key).1 = opened₁, (openStream db key).2 = object at *
    rw [pointer, deref, exec_pure, exec_ok_bind] at ran
    rcases insert_logs logs c.env.clock.system streamId (rawValue fieldValues) with
      ⟨-, refused⟩ | ⟨id', read, status, logs'⟩
    · rw [if_pos refused] at ran
      exact absurd ran fun ran => silent (error_ne_bulk _ refused _) ran
    · rw [status, if_neg (fun refused => refused rfl)] at ran
      obtain ⟨⟨db₁, served⟩, woken, ran⟩ := exec_bind_ok.mp ran
      cases ran
      generalize filled : ({ opened₁ with store := opened₁.store.insert key _ } : DB) = filled₁
        at woken accepted ⊢
      have held' : filled₁.KeyLogs key (log ++ [(id', rawValue fieldValues)]) := by
        rw [← filled]
        exact .inr ⟨_, _, Finmap.lookup_insert _, tag, rfl, logs'⟩
      have queues' : filled₁.blockedXreadKeys = db.blockedXreadKeys := by
        rw [← filled]
        exact queues
      have sound' : filled₁.Sound := by
        have written : RedisObject.Sound { object with
            streamPtr := some (stream.insert c.env.clock.system streamId (rawValue fieldValues)).1 } :=
          sound_of_stream tag rfl logs'
        rw [← filled]
        exact opened.bind written key
      obtain ⟨written, store, quiet, emptied, others⟩ :=
        handleBlockedXreadClients_answers sound' held' (by simp) woken
      have replied : repliedBytes (.reply (encodeBulkString id'.toString) ::
          markWatchingClientsDirty filled₁ c.env key ++ served) = encodeBulkString id'.toString := by
        rw [← List.singleton_append, List.append_assoc, repliedBytes_append, repliedBytes_append,
          repliedBytes_dirty, quiet, List.append_nil, List.append_nil]
        exact List.append_nil _
      obtain rfl : id' = id :=
        StreamID.toString_injective (encodeBulkString_injective (replied.symm.trans accepted))
      refine ⟨log, held, ?_, ?_, ⟨tag, stream, pointer, status⟩, ?_, emptied, fun other different => ?_⟩
      · rw [DB.KeyLogs, store]
        exact held'
      · rw [pointer]
        exact read
      · rw [← List.singleton_append, List.append_assoc, writes_append, writes_append, writes_dirty,
          written, queues']
        rfl
      · rw [others other different, queues']

/-- Behind a text there is the last entry of a log, or nothing. -/
theorem behind_last {id : StreamID} {payload : Bytes} (held : db.KeyLogs key (log ++ [(id, payload)]))
    (text : Bytes) : (log ++ [(id, payload)]).behind text ≠ [] ↔
      ∃ low, fromStringForSearch text false = some low ∧ StreamID.Lt low id := by
  have increasing : (log ++ [(id, payload)]).Pairwise fun a b => StreamID.Lt a.1 b.1 := by
    rcases held with ⟨-, empty⟩ | ⟨_, _, -, -, -, logs⟩
    · exact absurd (List.append_eq_nil_iff.mp empty).2 (List.cons_ne_nil _ _)
    · exact logs.increasing
  obtain ⟨-, -, below⟩ := List.pairwise_append.mp increasing
  rw [Log.behind]
  cases read : fromStringForSearch text false with
  | none => exact iff_of_false (fun filled => filled rfl) (fun ⟨low, absent, _⟩ => by cases absent)
  | some low =>
    dsimp only
    constructor
    · intro filled
      obtain ⟨entry, member⟩ := List.exists_mem_of_ne_nil _ filled
      obtain ⟨inside, above⟩ := List.mem_filter.mp member
      have above' : StreamID.Lt low entry.1 := above
      refine ⟨low, rfl, ?_⟩
      rcases List.mem_append.mp inside with old | new
      · have last := below entry old (id, payload) List.mem_cons_self
        rw [StreamID.lt_iff] at above' last ⊢
        dsimp only at last
        omega
      · rw [List.mem_singleton.mp new] at above'
        exact above'
    · rintro ⟨low', same, less⟩
      cases same
      exact List.ne_nil_of_mem (List.mem_filter.mpr ⟨List.mem_append_right _ List.mem_cons_self, less⟩)

/-- An XADD serves the clients that wait for its key: those that exist and for
which there are entries now are sent these entries, in the order they wait in,
and all others go on waiting. -/
structure XaddServes (env : Env) (db db' : DB) (key : Bytes) (log : Log) (effects : List Effect) :
    Prop where
  answers : writes effects = ((queueOf db.blockedXreadKeys key).filter fun blocked =>
      env.alive blocked.clientFd && log.behind blocked.recorded ≠ []).map fun blocked =>
    (blocked.clientFd, streamReply key (log.behind blocked.recorded))
  left : (queueOf db'.blockedXreadKeys key).filter (fun blocked => env.alive blocked.clientFd) =
    (queueOf db.blockedXreadKeys key).filter fun blocked =>
      env.alive blocked.clientFd && log.behind blocked.recorded = []
  elsewhere : ∀ other ≠ key, queueOf db'.blockedXreadKeys other = queueOf db.blockedXreadKeys other

/-- An accepted XADD serves the clients that wait for its key just when every
one of them that exists waits behind an identifier below the one that is
added. The others are sent a null array and taken out of the queue. -/
theorem xadd_serves_iff (reached : db.Reachable) {streamId : Bytes}
    {fieldValues : List (Bytes × Bytes)}
    (ran : handleXadd db c key streamId fieldValues = .ok (db', effects))
    (accepted : ∃ id : StreamID, repliedBytes effects = encodeBulkString id.toString)
    (held : db'.KeyLogs key log) :
    XaddServes c.env db db' key log effects ↔
      ∀ blocked ∈ queueOf db.blockedXreadKeys key, c.env.alive blocked.clientFd = true →
        ∃ low id, fromStringForSearch blocked.recorded false = some low ∧
          db.xaddId c key streamId = some id ∧ StreamID.Lt low id := by
  obtain ⟨id, accepted⟩ := accepted
  obtain ⟨before, -, held', read, -, written, emptied, others⟩ :=
    handleXadd_accepted (reachable_sound reached) ran accepted
  obtain rfl := keyLogs_unique held' held
  have behind (blocked : BlockedXreadClient) :
      (before ++ [(id, rawValue fieldValues)]).behind blocked.recorded ≠ [] ↔
        ∃ low id, fromStringForSearch blocked.recorded false = some low ∧
          db.xaddId c key streamId = some id ∧ StreamID.Lt low id := by
    rw [behind_last held', read]
    constructor
    · rintro ⟨low, found, less⟩
      exact ⟨low, id, found, rfl, less⟩
    · rintro ⟨low, id', found, same, less⟩
      cases same
      exact ⟨low, found, less⟩
  constructor
  · intro serves blocked member lives
    rw [← behind]
    intro empty
    have left := serves.left
    rw [emptied] at left
    have waits := List.filter_eq_nil_iff.mp left.symm blocked member
    rw [lives, empty] at waits
    exact waits rfl
  · intro all
    refine ⟨?_, ?_, others⟩
    · rw [written, answersIn]
      have same : (queueOf db.blockedXreadKeys key).filter (fun blocked => c.env.alive blocked.clientFd) =
          (queueOf db.blockedXreadKeys key).filter fun blocked => c.env.alive blocked.clientFd &&
            (before ++ [(id, rawValue fieldValues)]).behind blocked.recorded ≠ [] := by
        refine List.filter_congr fun blocked member => ?_
        cases lives : c.env.alive blocked.clientFd with
        | false => rfl
        | true => exact (decide_eq_true ((behind blocked).mpr (all blocked member lives))).symm
      rw [same]
      refine List.map_congr_left fun blocked member => ?_
      have filled := (List.mem_filter.mp member).2
      rw [Bool.and_eq_true, decide_eq_true_eq] at filled
      rw [readReply, if_neg filled.2]
    · rw [emptied]
      refine (List.filter_eq_nil_iff.mpr fun blocked member => ?_).symm
      rw [Bool.and_eq_true, decide_eq_true_eq]
      rintro ⟨lives, empty⟩
      exact (behind blocked).mpr (all blocked member lives) empty

/-- Clients that wait for the stream `s`, each behind an identifier. -/
def readersWait : DB → List (Fd × String) → Exec DB
  | db, [] => pure db
  | db, (fd, id) :: rest => do
    let command : Command := .xread (some 0.0) [ascii "s"] [ascii id]
    let executed ← execute db { Context.sample with fd, command } [] []
    readersWait executed.db rest

theorem readersWait_reachable {asked : List (Fd × String)} (reached : db.Reachable)
    (ran : readersWait db asked = .ok db') : db'.Reachable := by
  induction asked generalizing db with
  | nil =>
    cases ran
    exact reached
  | cons one rest ih =>
    obtain ⟨executed, first, ran⟩ := exec_bind_ok.mp ran
    exact ih (.executed reached first) ran

/-- The database in which some clients wait for the stream `s`. -/
def readersOf (asked : List (Fd × String)) : DB := (readersWait {} asked).toOption.getD {}

/-- One XADD of an entry `1-1` to the stream `s` of a database. -/
def xaddOne (db : DB) : Outcome :=
  handleXadd db Context.sample (ascii "s") (ascii "1-1") [(ascii "f", ascii "v")]

private theorem xaddOne_runs (asked : List (Fd × String)) (waited : (readersWait {} asked).isOk = true)
    (added : (xaddOne (readersOf asked)).isOk = true)
    (accepted : repliedBytes ((xaddOne (readersOf asked)).toOption.getD ({}, [])).2 =
      encodeBulkString (ascii "1-1")) :
    (readersOf asked).Reachable ∧ ∃ db' effects log, xaddOne (readersOf asked) = .ok (db', effects) ∧
      (∃ id : StreamID, repliedBytes effects = encodeBulkString id.toString) ∧
      db'.KeyLogs (ascii "s") log ∧ effects = ((xaddOne (readersOf asked)).toOption.getD ({}, [])).2 := by
  have reached : (readersOf asked).Reachable := readersWait_reachable .empty (exec_getD {} waited)
  have ran := exec_getD ({}, []) added
  have named : ascii "1-1" = (⟨1, 1⟩ : StreamID).toString := by decide
  rw [named] at accepted
  obtain ⟨log, -, held, -⟩ := handleXadd_accepted (reachable_sound reached) ran accepted
  exact ⟨reached, _, _, _, ran, ⟨_, accepted⟩, held, rfl⟩

/-- Two clients wait behind identifiers below the one that is added. -/
theorem xadd_serves_iff_two : ∃ db' effects log,
    xaddOne (readersOf [(6, "0-0"), (7, "1-0")]) = .ok (db', effects) ∧
    db'.KeyLogs (ascii "s") log ∧
    (XaddServes Context.sample.env (readersOf [(6, "0-0"), (7, "1-0")]) db' (ascii "s") log effects ↔
      ∀ blocked ∈ queueOf (readersOf [(6, "0-0"), (7, "1-0")]).blockedXreadKeys (ascii "s"),
        Context.sample.env.alive blocked.clientFd = true →
          ∃ low id, fromStringForSearch blocked.recorded false = some low ∧
            (readersOf [(6, "0-0"), (7, "1-0")]).xaddId Context.sample (ascii "s") (ascii "1-1") =
              some id ∧ StreamID.Lt low id) := by
  obtain ⟨reached, db', effects, log, ran, accepted, held, -⟩ :=
    xaddOne_runs [(6, "0-0"), (7, "1-0")] (by decide +kernel) (by decide +kernel) (by decide +kernel)
  exact ⟨db', effects, log, ran, held, xadd_serves_iff reached ran accepted held⟩

/-- A client that waits behind `5-5` is answered by the XADD of `1-1`. -/
theorem xadd_answers_early : ¬ ∀ db db' c key streamId fieldValues effects log, DB.Reachable db →
    handleXadd db c key streamId fieldValues = .ok (db', effects) →
    (∃ id : StreamID, repliedBytes effects = encodeBulkString id.toString) →
    db'.KeyLogs key log → XaddServes c.env db db' key log effects := by
  intro all
  obtain ⟨reached, db', effects, log, ran, accepted, held, same⟩ :=
    xaddOne_runs [(7, "5-5")] (by decide +kernel) (by decide +kernel) (by decide +kernel)
  have answers := (all _ _ _ _ _ _ _ _ reached ran accepted held).answers
  have written : writes effects = [(7, encodeNullArray)] := by
    rw [same]
    decide +kernel
  have member : ((7 : Fd), encodeNullArray) ∈ writes effects := written ▸ List.mem_cons_self
  rw [answers] at member
  obtain ⟨blocked, -, reply⟩ := List.mem_map.mp member
  exact streamReply_ne _ _ (Prod.mk.inj reply).2

end CarrotDb
