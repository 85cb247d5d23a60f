import CarrotDb.DbSound

/-! What XADD and XRANGE do to one key over a whole run: the key holds the
log of the accepted entries, and XRANGE reports the part of the log between
its bounds, with the fields as they were sent. -/
namespace CarrotDb
open Resp

/-- The entries of a key: none where it is missing, else those of its stream. -/
def DB.KeyLogs (db : DB) (key : Bytes) (log : Log) : Prop :=
  db.store.lookup key = none ∧ log = [] ∨
    ∃ object stream, db.store.lookup key = some object ∧ object.type = .stream ∧
      object.streamPtr = some stream ∧ stream.Logs log

theorem encodeEntries_ok {entries : List (Bytes × Bytes)}
    (sized : ∀ entry ∈ entries, 16 ≤ entry.1.length) : ∃ bytes, encodeEntries entries = .ok bytes := by
  induction entries with
  | nil => exact ⟨[], rfl⟩
  | cons entry rest ih =>
    obtain ⟨binaryId, rawPayload⟩ := entry
    obtain ⟨bytes, encoded⟩ := ih fun other member => sized other (List.mem_cons_of_mem _ member)
    have head := sized _ List.mem_cons_self
    rw [encodeEntries, StreamID.fromBinary, if_pos head, exec_ok_bind, encoded]
    exact ⟨_, rfl⟩

/-- Whatever the bounds are, a range search only reports stored entries. -/
theorem xrangeData_sized {stream : Stream} {log : Log} (logs : stream.Logs log)
    {startText endText : Bytes} {isExclusive : Bool} {entries : List (Bytes × Bytes)}
    (found : stream.xrangeData startText endText isExclusive = some entries) :
    ∀ entry ∈ entries, 16 ≤ entry.1.length := by
  rw [Stream.xrangeData] at found
  split at found
  · cases found
  · split at found
    · cases found
    · split at found
      · cases found
      · rename_i root held
        obtain ⟨-, -, valid, same⟩ := logs.stored root held
        rw [RadixTree.rangeSearch_eq root valid, same] at found
        obtain rfl := Option.some.inj found
        intro entry member
        obtain ⟨one, -, rfl⟩ := List.mem_map.mp (List.mem_of_mem_filter member)
        exact Nat.le_refl 16

theorem xreadResponse_ok {db : DB} (sound : db.Sound) (key startId : Bytes) :
    ∃ bytes, xreadResponse db key startId = .ok bytes := by
  rw [xreadResponse]
  cases lookup : db.store.lookup key with
  | none => exact ⟨_, rfl⟩
  | some object =>
    dsimp only
    split
    · rename_i stream tag held
      obtain ⟨stream', log, held', logs⟩ := stream_of_sound (sound.objects _ _ lookup) tag
      rw [held] at held'
      obtain rfl := Option.some.inj held'
      split
      · exact ⟨_, rfl⟩
      · exact ⟨_, rfl⟩
      · rename_i found
        obtain ⟨bytes, encoded⟩ := encodeEntries_ok (xrangeData_sized logs found)
        rw [encoded]
        exact ⟨_, rfl⟩
    · exact ⟨_, rfl⟩

/-- Serving a queue writes to the waiting clients and nothing to the client
that is served. -/
theorem serveXreadClients_ok {db : DB} (sound : db.Sound) (env : Env)
    (queue : List BlockedXreadClient) :
    ∃ effects, serveXreadClients db env queue = .ok effects ∧ repliedBytes effects = [] := by
  induction queue with
  | nil => exact ⟨[], rfl, rfl⟩
  | cons blocked rest ih =>
    obtain ⟨effects, served, silent⟩ := ih
    obtain ⟨response, answered⟩ := xreadResponse_ok sound blocked.streamKey blocked.streamId
    rw [serveXreadClients, answered, served]
    cases env.alive blocked.clientFd with
    | false => exact ⟨_, rfl, silent⟩
    | true => exact ⟨_, rfl, silent⟩

theorem handleBlockedXreadClients_ok {db : DB} (sound : db.Sound) (env : Env) (key : Bytes) :
    ∃ db' effects, handleBlockedXreadClients db env key = .ok (db', effects) ∧
      db'.store = db.store ∧ repliedBytes effects = [] := by
  rw [handleBlockedXreadClients]
  split
  · rename_i blocked queue waiting
    obtain ⟨effects, served, silent⟩ := serveXreadClients_ok sound env (blocked :: queue)
    rw [served]
    exact ⟨_, _, rfl, rfl, silent⟩
  · exact ⟨_, _, rfl, rfl, rfl⟩

theorem openStream_logs {db : DB} {key : Bytes} {log : Log} (held : db.KeyLogs key log) :
    ∃ stream, (openStream db key).2.type = .stream ∧ (openStream db key).2.streamPtr = some stream ∧
      stream.Logs log ∧ (openStream db key).1.store.lookup key = some (openStream db key).2 := by
  rw [openStream]
  rcases held with ⟨missing, rfl⟩ | ⟨object, stream, lookup, tag, pointer, logs⟩
  · rw [missing]
    exact ⟨Stream.new, rfl, rfl, new_logs, Finmap.lookup_insert _⟩
  · rw [lookup]
    exact ⟨stream, tag, pointer, logs, lookup⟩

/-- An XADD on a stream key never faults. It refuses with an error and leaves
the entries alone, or appends one entry and replies with its identifier. -/
theorem handleXadd_logs {db : DB} (sound : db.Sound) {key : Bytes} {log : Log}
    (held : db.KeyLogs key log) (c : Context) (streamId : Bytes)
    (fieldValues : List (Bytes × Bytes)) :
    ∃ db' effects, handleXadd db c key streamId fieldValues = .ok (db', effects) ∧
      (db'.KeyLogs key log ∧ (∃ error ≠ StreamErrorType.ok, repliedBytes effects = xaddError error) ∨
        ∃ id : StreamID, db'.KeyLogs key (log ++ [(id, rawValue fieldValues)]) ∧
          repliedBytes effects = encodeBulkString id.toString) := by
  obtain ⟨stream, tag, pointer, logs, lookup⟩ := openStream_logs held
  obtain ⟨opened, -⟩ := openStream_sound sound key
  rw [handleXadd]
  dsimp only
  generalize (openStream db key).1 = opened₁, (openStream db key).2 = object at *
  rw [if_neg (not_not.mpr tag), pointer, deref, exec_pure, exec_ok_bind]
  rcases insert_logs logs c.env.clock.system streamId (rawValue fieldValues) with
    ⟨-, refused⟩ | ⟨id, -, status, logs'⟩
  · rw [if_pos refused]
    refine ⟨_, _, rfl, .inl ⟨.inr ⟨object, stream, lookup, tag, pointer, logs⟩, _, refused, ?_⟩⟩
    exact List.append_nil _
  · rw [status, if_neg (fun refused => refused rfl)]
    have written : RedisObject.Sound { object with
        streamPtr := some (stream.insert c.env.clock.system streamId (rawValue fieldValues)).1 } :=
      sound_of_stream tag rfl logs'
    obtain ⟨db', effects, served, store, silent⟩ :=
      handleBlockedXreadClients_ok (opened.bind written key) c.env key
    rw [served]
    refine ⟨_, _, rfl, .inr ⟨id, .inr ⟨{ object with streamPtr := some _ }, _, ?_, tag, rfl, logs'⟩, ?_⟩⟩
    · rw [store]
      exact Finmap.lookup_insert _
    · show repliedBytes (.reply _ :: (markWatchingClientsDirty _ c.env key ++ effects)) = _
      rw [← List.singleton_append, repliedBytes_append, repliedBytes_append, repliedBytes_dirty, silent,
        List.append_nil, List.append_nil]
      exact List.append_nil _

/-- One XADD on some key: the request it is served in, and its arguments. -/
structure XaddCall where
  context : Context
  streamId : Bytes
  fieldValues : List (Bytes × Bytes)

/-- XADDs on one key, one after another; what each does to clients. -/
def runXadds (key : Bytes) : DB → List XaddCall → Exec (DB × List (List Effect))
  | db, [] => pure (db, [])
  | db, call :: rest => do
    let (db, effects) ← handleXadd db call.context key call.streamId call.fieldValues
    let (db, later) ← runXadds key db rest
    pure (db, effects :: later)

/-- The reply to an XADD tells whether its entry was accepted, and under
which identifier. -/
def Answered (effects : List Effect) : Option StreamID → Prop
  | some id => repliedBytes effects = encodeBulkString id.toString
  | none => ∃ error ≠ StreamErrorType.ok, repliedBytes effects = xaddError error

/-- The accepted entries of a run, with the fields they were sent with. -/
def acceptedEntries (calls : List XaddCall) (ids : List (Option StreamID)) :
    List (StreamID × List (Bytes × Bytes)) :=
  (calls.zip ids).filterMap fun (call, id) => id.map fun id => (id, call.fieldValues)

/-- What the log of a key keeps of accepted entries. -/
def storedLog (accepted : List (StreamID × List (Bytes × Bytes))) : Log :=
  accepted.map fun entry => (entry.1, rawValue entry.2)

theorem acceptedEntries_cons (call : XaddCall) (calls : List XaddCall) (id : Option StreamID)
    (ids : List (Option StreamID)) : acceptedEntries (call :: calls) (id :: ids) =
      (id.map fun id => (id, call.fieldValues)).toList ++ acceptedEntries calls ids := by
  cases id <;> rfl

theorem runXadds_logs {db : DB} (sound : db.Sound) {key : Bytes} {log : Log}
    (held : db.KeyLogs key log) (calls : List XaddCall) :
    ∃ db' replies ids, runXadds key db calls = .ok (db', replies) ∧
      List.Forall₂ Answered replies ids ∧
      db'.KeyLogs key (log ++ storedLog (acceptedEntries calls ids)) := by
  induction calls generalizing db log with
  | nil => exact ⟨db, [], [], rfl, .nil, by simpa [acceptedEntries, storedLog] using held⟩
  | cons call rest ih =>
    obtain ⟨db₁, effects, ran, outcome⟩ :=
      handleXadd_logs sound held call.context call.streamId call.fieldValues
    have sound₁ := handleXadd_sound sound ran
    obtain ⟨id, answered, held₁⟩ : ∃ id, Answered effects id ∧
        db₁.KeyLogs key (log ++ storedLog (id.map fun id => (id, call.fieldValues)).toList) := by
      rcases outcome with ⟨same, refused⟩ | ⟨id, grown, accepted⟩
      · exact ⟨none, refused, by simpa [storedLog] using same⟩
      · exact ⟨some id, accepted, grown⟩
    obtain ⟨db', replies, ids, later, answers, held'⟩ := ih sound₁ held₁
    refine ⟨db', effects :: replies, id :: ids, ?_, .cons answered answers, ?_⟩
    · rw [runXadds, ran, exec_ok_bind]
      dsimp only
      rw [later, exec_ok_bind, exec_pure]
    · rwa [acceptedEntries_cons, storedLog, List.map_append, ← List.append_assoc]

/-! ## XRANGE -/

/-- An entry as XRANGE reports it. -/
def encodeEntry (entry : StreamID × List (Bytes × Bytes)) : Bytes :=
  encodeArrayHeader 2 ++ encodeBulkString entry.1.toString ++
    encodeBulkStringArray (entry.2.flatMap fun fv => [fv.1, fv.2])

/-- Every name and value is a string of the source, whose size is 64 bits. -/
def Sized (fieldValues : List (Bytes × Bytes)) : Prop :=
  ∀ fv ∈ fieldValues, fv.1.length < 2 ^ 64 ∧ fv.2.length < 2 ^ 64

/-- The stored payload parses back to the fields it was made of. -/
theorem parse_rawValue {fieldValues : List (Bytes × Bytes)} (sized : Sized fieldValues) :
    parseBulkStringSequence (rawValue fieldValues) =
      (fieldValues.flatMap fun fv => [fv.1, fv.2], true) := by
  have flat : rawValue fieldValues =
      (fieldValues.flatMap fun fv => [fv.1, fv.2]).flatMap encodeBulkString := by
    rw [rawValue, List.flatMap_assoc]
    simp
  rw [flat]
  refine parseBulkStringSequence_items fun item member => ?_
  obtain ⟨fv, inside, item_⟩ := List.mem_flatMap.mp member
  rcases List.mem_pair.mp item_ with rfl | rfl
  · exact (sized fv inside).1
  · exact (sized fv inside).2

theorem encodeEntries_stored {accepted : List (StreamID × List (Bytes × Bytes))}
    (fits : ∀ entry ∈ accepted, entry.1.Fits) (sized : ∀ entry ∈ accepted, Sized entry.2) :
    encodeEntries (storedLog accepted).pairs = .ok (accepted.flatMap encodeEntry) := by
  induction accepted with
  | nil => rfl
  | cons entry rest ih =>
    have later := ih (fun other member => fits other (List.mem_cons_of_mem _ member))
      fun other member => sized other (List.mem_cons_of_mem _ member)
    show encodeEntries ((entry.1.toBinary, rawValue entry.2) :: (storedLog rest).pairs) = _
    rw [encodeEntries, fromBinary_toBinary (fits entry List.mem_cons_self), exec_ok_bind, later,
      parse_rawValue (sized entry List.mem_cons_self)]
    rfl

/-- The entries between two identifiers, both included. -/
def entriesBetween (low high : StreamID) (accepted : List (StreamID × List (Bytes × Bytes))) :
    List (StreamID × List (Bytes × Bytes)) :=
  accepted.filter fun entry => StreamID.Le low entry.1 ∧ StreamID.Le entry.1 high

/-- What XRANGE replies for entries. -/
def encodeRange (accepted : List (StreamID × List (Bytes × Bytes))) : Bytes :=
  encodeArrayHeader accepted.length ++ accepted.flatMap encodeEntry

theorem between_stored (accepted : List (StreamID × List (Bytes × Bytes))) (low high : StreamID) :
    (storedLog accepted).between low high = storedLog (entriesBetween low high accepted) := by
  rw [Log.between, storedLog, List.filter_map]
  rfl

theorem keyLogs_fits {db : DB} {key : Bytes} {log : Log} (held : db.KeyLogs key log) :
    ∀ entry ∈ log, entry.1.Fits := by
  rcases held with ⟨-, rfl⟩ | ⟨_, _, -, -, -, logs⟩
  · exact fun _ absent => nomatch absent
  · exact logs.fits

theorem handleXrange_logs {db : DB} {key : Bytes} {accepted : List (StreamID × List (Bytes × Bytes))}
    (held : db.KeyLogs key (storedLog accepted)) (sized : ∀ entry ∈ accepted, Sized entry.2)
    {start stop : RangeBound} (startFormed : start.WellFormed) (stopFormed : stop.WellFormed) :
    handleXrange db key start.text stop.text =
      replying db (encodeRange (entriesBetween (start.id false) (stop.id true) accepted)) := by
  have fits : ∀ entry ∈ accepted, entry.1.Fits := fun entry member =>
    keyLogs_fits held (entry.1, rawValue entry.2) (List.mem_map_of_mem member)
  rw [handleXrange]
  rcases held with ⟨missing, empty⟩ | ⟨object, stream, lookup, tag, pointer, logs⟩
  · obtain rfl := List.map_eq_nil_iff.mp empty
    rw [missing]
    rfl
  · rw [lookup]
    dsimp only
    rw [tag, pointer]
    dsimp only
    rw [xrangeData_logs logs (fromStringForSearch_bound startFormed false)
      (fromStringForSearch_bound stopFormed true) (start.id_fits startFormed false)
      (stop.id_fits stopFormed true), between_stored]
    by_cases empty : storedLog accepted = []
    · obtain rfl := List.map_eq_nil_iff.mp empty
      rw [if_pos empty]
      rfl
    · rw [if_neg empty]
      have encoded := @encodeEntries_stored (entriesBetween (start.id false) (stop.id true) accepted)
        (fun entry member => fits entry (List.mem_of_mem_filter member))
        (fun entry member => sized entry (List.mem_of_mem_filter member))
      generalize entriesBetween (start.id false) (stop.id true) accepted = part at encoded ⊢
      cases part with
      | nil => rfl
      | cons entry rest =>
        show (do replying db (encodeArrayHeader (storedLog (entry :: rest)).pairs.length ++
          (← encodeEntries (storedLog (entry :: rest)).pairs))) = _
        rw [encoded, exec_ok_bind, encodeRange, Log.pairs, storedLog, List.length_map, List.length_map]

/-- XRANGE behind any run of XADDs on a key that was missing. -/
theorem xrange_reports_accepted {db : DB} (reached : db.Reachable) {key : Bytes}
    (missing : db.store.lookup key = none) (calls : List XaddCall)
    (sized : ∀ call ∈ calls, Sized call.fieldValues) {start stop : RangeBound}
    (startFormed : start.WellFormed) (stopFormed : stop.WellFormed) :
    ∃ db' replies ids, runXadds key db calls = .ok (db', replies) ∧
      List.Forall₂ Answered replies ids ∧
      handleXrange db' key start.text stop.text = replying db'
        (encodeRange (entriesBetween (start.id false) (stop.id true) (acceptedEntries calls ids))) := by
  obtain ⟨db', replies, ids, ran, answers, held⟩ :=
    runXadds_logs (reachable_sound reached) (.inl ⟨missing, rfl⟩) calls
  refine ⟨db', replies, ids, ran, answers, handleXrange_logs held ?_ startFormed stopFormed⟩
  intro entry member
  obtain ⟨⟨call, id⟩, inside, same⟩ := List.mem_filterMap.mp member
  obtain ⟨id, -, rfl⟩ := Option.map_eq_some_iff.mp same
  exact sized call (List.of_mem_zip inside).1

/-- A refused identifier between two accepted ones, and a range by bare
milliseconds. -/
theorem xrange_reports_accepted_refused :
    ∃ db' replies ids, runXadds (ascii "s") {}
        [⟨Context.sample, ascii "1-1", [(ascii "a", [13, 10])]⟩,
          ⟨Context.sample, ascii "1-1", []⟩, ⟨Context.sample, ascii "7-*", []⟩] =
          .ok (db', replies) ∧
      List.Forall₂ Answered replies ids ∧
      handleXrange db' (ascii "s") (ascii "1") (ascii "+") = replying db'
        (encodeRange (entriesBetween ⟨1, 0⟩ ⟨2 ^ 64 - 1, 2 ^ 64 - 1⟩ (acceptedEntries
          [⟨Context.sample, ascii "1-1", [(ascii "a", [13, 10])]⟩,
            ⟨Context.sample, ascii "1-1", []⟩, ⟨Context.sample, ascii "7-*", []⟩]
          ids))) := by
  refine @xrange_reports_accepted {} .empty (ascii "s") rfl _ ?_ (.bare (ascii "1")) .greatest
    ⟨by decide, List.all_eq_true.mp rfl, by decide⟩ trivial
  unfold Sized
  decide

end CarrotDb
