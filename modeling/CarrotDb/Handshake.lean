import CarrotDb.ReplicaCommands
import CarrotDb.ReplicaStreams

/-! The end of the handshake on a replica. The line of the full
resynchronisation may come in pieces, but the read event that ends it has to
bring the whole RDB file with it: a part of the file is never waited for. -/
namespace CarrotDb
open Decimal Resp

/-- An RDB file as it is sent, without a line end behind it. -/
def rdbText (rdb : Bytes) : Bytes := 36 :: toDecimal rdb.length ++ crlf ++ rdb

/-- A line that has not come whole is not read. -/
theorem parseSimpleString_part {text front last : Bytes} (oneLine : 13 ∉ text)
    (whole : front ++ last = encodeSimpleString text) (some_ : last ≠ []) :
    parseSimpleString front = none := by
  cases front with
  | nil => rfl
  | cons byte front =>
    rw [encodeSimpleString, List.cons_append, List.cons.injEq] at whole
    obtain ⟨rfl, whole⟩ := whole
    have stops : front.dropWhile (· ≠ 13) = [] ∨ front.dropWhile (· ≠ 13) = [13] := by
      rcases List.append_eq_append_iff.mp whole with ⟨more, rfl, -⟩ | ⟨more, rfl, ending⟩
      · refine .inl (List.dropWhile_eq_nil_iff.mpr fun byte member => ?_)
        simp only [ne_eq, decide_not, Bool.not_eq_true', decide_eq_false_iff_not]
        rintro rfl
        exact oneLine (List.mem_append_left _ member)
      · rw [List.dropWhile_append_of_pos (by
          intro byte member
          simp only [ne_eq, decide_not, Bool.not_eq_true', decide_eq_false_iff_not]
          rintro rfl
          exact oneLine member)]
        rcases more with _ | ⟨one, _ | ⟨two, more⟩⟩
        · exact .inl rfl
        · cases ending
          exact .inr rfl
        · have tails := (List.cons.inj (List.cons.inj ending).2).2
          exact absurd (List.append_eq_nil_iff.mp tails.symm).2 some_
    have unskipped : skipCrlf (43 :: front) = 43 :: front := rfl
    rcases stops with stop | stop
    · simp only [parseSimpleString, unskipped, stop]
    · simp only [parseSimpleString, unskipped, stop]

private theorem takeWhile_line {text : Bytes} (oneLine : 13 ∉ text) :
    ∀ byte ∈ text, decide (byte ≠ 13) = true := by
  intro byte member
  refine decide_eq_true ?_
  rintro rfl
  exact oneLine member

/-- A line that has come whole is read, whatever follows it. -/
theorem parseSimpleString_whole {text : Bytes} (oneLine : 13 ∉ text) (rest : Bytes) :
    parseSimpleString (encodeSimpleString text ++ rest) = some text := by
  have shape : encodeSimpleString text ++ rest = 43 :: (text ++ 13 :: (10 :: rest)) := by
    rw [encodeSimpleString, crlf]
    simp
  have unskipped : skipCrlf (43 :: (text ++ 13 :: (10 :: rest))) =
      43 :: (text ++ 13 :: (10 :: rest)) := rfl
  have dropped : (text ++ 13 :: (10 :: rest)).dropWhile (· ≠ 13) = 13 :: 10 :: rest :=
    List.dropWhile_append_of_pos (takeWhile_line oneLine)
  have taken : (text ++ 13 :: (10 :: rest)).takeWhile (· ≠ 13) = text := by
    rw [List.takeWhile_append_of_pos (takeWhile_line oneLine)]
    exact List.append_nil text
  rw [shape]
  simp only [parseSimpleString, unskipped, dropped, taken]

/-- The first line end is the one behind the line. -/
theorem findCrlf_line {text : Bytes} (oneLine : 13 ∉ text) (rest : Bytes) :
    findCrlf (text ++ crlf ++ rest) = some text.length := by
  induction text with
  | nil => rfl
  | cons byte text ih =>
    have other : byte ≠ 13 := fun same => oneLine (same ▸ List.mem_cons_self)
    rw [List.cons_append, List.cons_append, findCrlf, if_neg fun both => other both.1,
      ih fun member => oneLine (List.mem_cons_of_mem _ member)]
    rfl

theorem clean_digits (n : Nat) : 13 ∉ toDecimal n := by
  intro member
  exact absurd (toDecimal_digits n 13 member) (by decide)

namespace SlaveReplicationClient

/-- The replica has sent PSYNC and waits for the answer. The mark of a
completed handshake is set together with its status. -/
structure Awaiting (slave : SlaveReplicationClient) : Prop where
  status : slave.replicationStatus = .psyncSent
  open_ : slave.isHandshakeCompleted = false

variable {σ : Type} {execute : Client → Command → σ → Exec (Client × σ)}
  {slave slave' : SlaveReplicationClient} {state state' : σ}

/-- A part of the line stays in the read buffer. -/
theorem read_part {text front last : Bytes} (awaiting : slave.Awaiting) (oneLine : 13 ∉ text)
    (whole : front ++ last = encodeSimpleString text) (some_ : last ≠ []) :
    (slave.withReadBuffer front).processReadBuffer execute state =
      .ok (slave.withReadBuffer front, state) := by
  have unread : (slave.withReadBuffer front).handleHandshakeRead = slave.withReadBuffer front := by
    have noLine : parseSimpleString (slave.withReadBuffer front).client.readBuffer = none :=
      parseSimpleString_part oneLine whole some_
    rw [handleHandshakeRead, noLine]
  have still : ¬ (slave.withReadBuffer front).isHandshakeCompleted = true := by
    show ¬ slave.isHandshakeCompleted = true
    rw [awaiting.open_]
    decide
  rw [processReadBuffer, if_neg still, unread]
  dsimp only
  rw [if_neg still]
  rfl

/-- Behind the line, what follows it is looked at once. -/
theorem read_line {text rest : Bytes} (awaiting : slave.Awaiting) (oneLine : 13 ∉ text) :
    (slave.withReadBuffer (encodeSimpleString text ++ rest)).handleHandshakeRead =
      skipRdb (slave.withReadBuffer (encodeSimpleString text ++ rest)) rest := by
  have status : (slave.withReadBuffer (encodeSimpleString text ++ rest)).replicationStatus =
      .psyncSent := awaiting.status
  have buffer : (slave.withReadBuffer (encodeSimpleString text ++ rest)).client.readBuffer =
      encodeSimpleString text ++ rest := rfl
  have found : findCrlf (encodeSimpleString text ++ rest) = some (text.length + 1) := by
    have other : 13 ∉ 43 :: text := fun member =>
      (List.mem_cons.mp member).elim (by decide) oneLine
    have line := findCrlf_line other rest
    exact line
  rw [handleHandshakeRead, buffer, parseSimpleString_whole oneLine]
  dsimp only
  rw [status, if_neg (by simp), if_neg (by simp), if_neg (by simp), if_pos rfl, found]
  dsimp only
  congr 1
  have length : (encodeSimpleString text).length = text.length + 1 + 2 := by
    rw [encodeSimpleString, crlf]
    simp
  rw [← length]
  exact List.drop_left

@[simp] theorem completed_done (slave : SlaveReplicationClient) (readBuffer : Bytes) :
    (slave.completed readBuffer).isHandshakeCompleted = true := rfl

/-- The RDB file is skipped where it has come whole. -/
theorem skipRdb_whole {rdb rest : Bytes} (small : (rdbText rdb ++ rest).length < 2 ^ 64) :
    slave.skipRdb (rdbText rdb ++ rest) = slave.completed rest := by
  have shape : rdbText rdb ++ rest = 36 :: (toDecimal rdb.length ++ crlf ++ (rdb ++ rest)) := by
    rw [rdbText]
    simp
  have lengths : (rdbText rdb ++ rest).length =
      (toDecimal rdb.length).length + 1 + 2 + rdb.length + rest.length := by
    rw [shape, crlf]
    simp only [List.length_cons, List.length_append, List.length_nil]
    omega
  have ends : u64 ((toDecimal rdb.length).length + 1 + 2 + rdb.length) =
      (toDecimal rdb.length).length + 1 + 2 + rdb.length := u64_of_lt (by omega)
  have dropped : (rdbText rdb ++ rest).drop ((toDecimal rdb.length).length + 1 + 2 + rdb.length) =
      rest := by
    have front : (rdbText rdb).length = (toDecimal rdb.length).length + 1 + 2 + rdb.length := by
      rw [List.length_append] at lengths
      omega
    rw [← front, List.drop_left]
  have bound : rdb.length < 2 ^ 64 := by omega
  rw [shape] at dropped ⊢
  have digits : (toDecimal rdb.length ++ crlf ++ (rdb ++ rest)).take (toDecimal rdb.length).length =
      toDecimal rdb.length := by
    rw [List.append_assoc, List.take_left]
  rw [skipRdb]
  dsimp only
  rw [findCrlf_line (clean_digits _)]
  dsimp only
  rw [digits, convertPositiveStringToNumber_toDecimal bound]
  dsimp only
  rw [if_pos rfl, ends, if_neg (by rw [← shape, lengths]; omega), dropped]

private theorem scanFrom_clean {text : Bytes} (clean : 13 ∉ text) (position : Nat) :
    scanFrom text position = position + text.length := by
  induction text generalizing position with
  | nil => rfl
  | cons byte rest ih =>
    have other : byte ≠ 13 := fun same => clean (same ▸ List.mem_cons_self)
    rw [scanFrom, if_neg other, ih fun member => clean (List.mem_cons_of_mem _ member),
      List.length_cons]
    omega

/-- The parser of commands takes a file without a carriage return whole. -/
theorem parseCommand_file {rdb : Bytes} (small : rdb.length < 2 ^ 64) (clean : 13 ∉ rdb) :
    parseCommand (rdbText rdb) = .ok ⟨.unknow, 0, []⟩ := by
  have shape : rdbText rdb = [36] ++ (toDecimal rdb.length ++ crlf) ++ rdb := by
    rw [rdbText]
    simp
  have held : Holds (rdbText rdb) 1 (toDecimal rdb.length ++ crlf) :=
    ⟨rdb, by rw [shape]; rfl⟩
  have start : (rdbText rdb).drop (1 + (toDecimal rdb.length).length + 2) = rdb := by
    have front : ([36] ++ (toDecimal rdb.length ++ crlf)).length =
        1 + (toDecimal rdb.length).length + 2 := by
      simp only [crlf, List.length_append, List.length_cons, List.length_nil]
      omega
    rw [shape, ← front, List.drop_left]
  have length : (rdbText rdb).length = 1 + (toDecimal rdb.length).length + 2 + rdb.length := by
    rw [shape]
    simp only [crlf, List.length_append, List.length_cons, List.length_nil]
    omega
  have head : (rdbText rdb)[0]? = some 36 := by
    rw [rdbText]
    rfl
  have parsed : parse (rdbText rdb) 0 = (⟨.bulkString, 1 + (toDecimal rdb.length).length + 2,
      (rdbText rdb).length - 1, rdb.length⟩, (rdbText rdb).length + 2) := by
    rw [parse, head, if_neg (by decide), if_pos rfl, calculateLength_toDecimal held small]
    dsimp only
    rw [start, scanFrom_clean clean, ← length]
  have gone : (rdbText rdb).drop ((rdbText rdb).length - 1 + 1) = [] :=
    List.drop_eq_nil_of_le (by omega)
  rw [parseCommand, parseCommandFrom, parsed]
  dsimp only
  rw [gone]
  cases (rdbText rdb).length <;> rfl

/-- Alone in the read buffer, a file without a carriage return is skipped by
the loop over commands as well. -/
theorem skip_file {rdb : Bytes} {log : List Command} (completed : slave.isHandshakeCompleted = true)
    (buffer : slave.client.readBuffer = rdbText rdb) (small : rdb.length < 2 ^ 64)
    (clean : 13 ∉ rdb) : slave.processReadBuffer (logged execute) (state, log) =
      .ok (slave.withReadBuffer [], state, log) := by
  have read : parseCommand slave.client.readBuffer = .ok ⟨.unknow, 0, []⟩ := by
    rw [buffer]
    exact parseCommand_file small clean
  have some_ : slave.client.readBuffer ≠ [] := by
    rw [buffer]
    exact List.cons_ne_nil _ _
  rw [processReadBuffer, if_pos completed, processCommands]
  obtain ⟨rounds, more⟩ := Nat.exists_eq_succ_of_ne_zero
    (Nat.pos_iff_ne_zero.mp (List.length_pos_iff.mpr some_))
  rw [more]
  exact round_unknown some_ read rfl

/-! ## Whole handshakes -/

/-- What a replica has still to read, in aligned reads, and the frames that
come with them. -/
inductive Expects (text rdb : Bytes) (slave : SlaveReplicationClient) :
    List Bytes → List Frame → Prop where
  | together {pieces : List Bytes} {last : Bytes} {first : List Frame} {others : List (List Frame)} :
    slave.Awaiting → slave.client.readBuffer ++ pieces.flatten ++ last = encodeSimpleString text →
    last ≠ [] → Batch first → (∀ batch ∈ others, Batch batch) →
    (rdbText rdb ++ bytesOf first).length < 2 ^ 64 →
    Expects text rdb slave
      (pieces ++ (last ++ rdbText rdb ++ bytesOf first) :: others.map bytesOf)
      (first ++ others.flatten)
  | apart {pieces : List Bytes} {last : Bytes} {others : List (List Frame)} :
    slave.Awaiting → slave.client.readBuffer ++ pieces.flatten ++ last = encodeSimpleString text →
    last ≠ [] → rdb.length < 2 ^ 64 → 13 ∉ rdb → (∀ batch ∈ others, Batch batch) →
    Expects text rdb slave (pieces ++ last :: rdbText rdb :: others.map bytesOf) others.flatten
  | file {others : List (List Frame)} :
    slave.isHandshakeCompleted = true → slave.client.readBuffer = [] →
    rdb.length < 2 ^ 64 → 13 ∉ rdb → (∀ batch ∈ others, Batch batch) →
    Expects text rdb slave (rdbText rdb :: others.map bytesOf) others.flatten
  | following {others : List (List Frame)} :
    slave.isHandshakeCompleted = true → slave.client.readBuffer = [] →
    (∀ batch ∈ others, Batch batch) →
    Expects text rdb slave (others.map bytesOf) others.flatten

private theorem frames_le (frames : List Frame) : frames.length ≤ (bytesOf frames).length := by
  induction frames with
  | nil => exact Nat.zero_le _
  | cons frame frames ih =>
    have positive := List.length_pos_iff.mpr frame.bytes_ne_nil
    rw [bytesOf] at ih ⊢
    rw [List.flatMap_cons, List.length_append, List.length_cons]
    omega

/-- What a read event has done with some of the frames. -/
structure Ran (slave slave' : SlaveReplicationClient) (log : List Command) (frames : List Frame) :
    Prop where
  logged : ∃ commands, commandsOf frames = .ok commands ∧
    log = commands.filter fun command => !command.isGetAck
  counted : i64 slave'.bytesProcessed = i64 (slave.bytesProcessed + (bytesOf frames).length)

theorem ran_nothing (same : slave'.bytesProcessed = slave.bytesProcessed) :
    slave.Ran slave' [] [] :=
  ⟨⟨[], rfl, rfl⟩, by rw [same, bytesOf, List.flatMap_nil, List.length_nil, Int.natCast_zero,
    Int.add_zero]⟩

theorem Ran.append {slave'' : SlaveReplicationClient} {log log' : List Command}
    {frames frames' : List Frame} (first : slave.Ran slave' log frames)
    (second : slave'.Ran slave'' log' frames') :
    slave.Ran slave'' (log ++ log') (frames ++ frames') := by
  obtain ⟨commands, stands, rfl⟩ := first.logged
  obtain ⟨commands', stands', rfl⟩ := second.logged
  refine ⟨⟨commands ++ commands', ?_, (List.filter_append ..).symm⟩, ?_⟩
  · exact commandsOf_append stands stands'
  · have total : ((bytesOf (frames ++ frames')).length : Int) =
        (bytesOf frames).length + (bytesOf frames').length := by
      rw [bytesOf, List.flatMap_append, List.length_append, Int.natCast_add]
      rfl
    rw [second.counted, ← i64_add, first.counted, i64_add, total, Int.add_assoc]

private theorem read_batch {frames : List Frame} {log : List Command}
    (keeps : ∀ client command state client' state',
      execute client command state = .ok (client', state') →
      client'.readBuffer = client.readBuffer)
    (batch : Batch frames) (held : slave.client.readBuffer = bytesOf frames)
    (ran : slave.processCommands (logged execute) (state, []) = .ok (slave', state', log)) :
    slave.Ran slave' log frames ∧ slave'.client.readBuffer = [] ∧
      slave'.isHandshakeCompleted = slave.isHandshakeCompleted := by
  obtain ⟨commands, stands, recorded, emptied, completed, counted⟩ :=
    processCommandsFrom_batch keeps batch held (by rw [held]; exact frames_le frames) ran
  exact ⟨⟨⟨commands, stands, recorded⟩, counted⟩, emptied, completed⟩

/-- One read event of a replica: it runs the commands of some of the frames,
and expects the others. -/
theorem Expects.read {text rdb data : Bytes} {chunks : List Bytes} {frames : List Frame}
    {log : List Command} (oneLine : 13 ∉ text)
    (keeps : ∀ client command state client' state',
      execute client command state = .ok (client', state') →
      client'.readBuffer = client.readBuffer)
    (expects : slave.Expects text rdb (data :: chunks) frames)
    (ran : slave.handleRead (logged execute) data (state, []) = .ok (slave', state', log)) :
    ∃ now later, frames = now ++ later ∧ slave.Ran slave' log now ∧
      slave'.Expects text rdb chunks later := by
  have waits (awaiting : slave.Awaiting) (buffer : Bytes) :
      ¬ (slave.withReadBuffer buffer).isHandshakeCompleted = true := by
    show ¬ slave.isHandshakeCompleted = true
    rw [awaiting.open_]
    decide
  have part {pieces : List Bytes} {last : Bytes} (awaiting : slave.Awaiting)
      (whole : slave.client.readBuffer ++ (data :: pieces).flatten ++ last = encodeSimpleString text)
      (some_ : last ≠ []) : slave' = slave.withReadBuffer (slave.client.readBuffer ++ data) ∧
        log = [] ∧ slave'.client.readBuffer ++ pieces.flatten ++ last = encodeSimpleString text := by
    rw [List.flatten_cons, ← List.append_assoc] at whole
    have rest : pieces.flatten ++ last ≠ [] := fun absent => some_ (List.append_eq_nil_iff.mp absent).2
    rw [handleRead, read_part awaiting oneLine (by rw [← whole]; simp only [List.append_assoc]) rest] at ran
    cases ran
    exact ⟨rfl, rfl, whole⟩
  rw [handleRead] at ran
  generalize arrived : data :: chunks = all at expects
  cases expects with
  | @together pieces last first others awaiting whole some_ batch batches small =>
    cases pieces with
    | nil =>
      cases arrived
      rw [List.flatten_nil, List.append_nil] at whole
      rw [← List.append_assoc, ← List.append_assoc, whole, List.append_assoc, processReadBuffer,
        if_neg (waits awaiting _), read_line awaiting oneLine, skipRdb_whole small] at ran
      dsimp only at ran
      rw [completed_done, if_pos rfl] at ran
      obtain ⟨done, emptied, completed⟩ := read_batch keeps batch rfl ran
      exact ⟨first, others.flatten, rfl, ⟨done.logged, done.counted⟩,
        .following completed emptied batches⟩
    | cons piece pieces =>
      cases arrived
      obtain ⟨rfl, rfl, whole'⟩ := part awaiting whole some_
      exact ⟨[], _, rfl, ran_nothing rfl,
        .together ⟨awaiting.status, awaiting.open_⟩ whole' some_ batch batches small⟩
  | @apart pieces last others awaiting whole some_ small clean batches =>
    cases pieces with
    | nil =>
      cases arrived
      rw [List.flatten_nil, List.append_nil] at whole
      have line := @read_line slave text [] awaiting oneLine
      rw [List.append_nil] at line
      rw [whole, processReadBuffer, if_neg (waits awaiting _), line] at ran
      cases ran
      exact ⟨[], _, rfl, ran_nothing rfl, .file rfl rfl small clean batches⟩
    | cons piece pieces =>
      cases arrived
      obtain ⟨rfl, rfl, whole'⟩ := part awaiting whole some_
      exact ⟨[], _, rfl, ran_nothing rfl,
        .apart ⟨awaiting.status, awaiting.open_⟩ whole' some_ small clean batches⟩
  | @file others completed emptied small clean batches =>
    cases arrived
    rw [emptied, List.nil_append] at ran
    rw [@skip_file _ _ (slave.withReadBuffer (rdbText rdb)) _ _ _ completed rfl small clean] at ran
    cases ran
    exact ⟨[], _, rfl, ran_nothing rfl, .following completed rfl batches⟩
  | @following others completed emptied batches =>
    cases others with
    | nil => cases arrived
    | cons batch others =>
      cases arrived
      rw [emptied, List.nil_append, processReadBuffer,
        if_pos (show (slave.withReadBuffer (bytesOf batch)).isHandshakeCompleted = true from completed)]
        at ran
      obtain ⟨done, emptied', same⟩ := read_batch keeps (batches batch List.mem_cons_self) rfl ran
      exact ⟨batch, others.flatten, rfl, ⟨done.logged, done.counted⟩,
        .following (same.trans completed) emptied' fun other member =>
          batches other (List.mem_cons_of_mem _ member)⟩

/-- Bytes written to the master change nothing of that. -/
theorem Expects.write {text rdb : Bytes} {chunks : List Bytes} {frames : List Frame}
    (expects : slave.Expects text rdb chunks frames) :
    slave.handleWrite.Expects text rdb chunks frames := by
  cases expects with
  | together awaiting whole some_ batch batches small =>
    exact .together ⟨awaiting.status, awaiting.open_⟩ whole some_ batch batches small
  | apart awaiting whole some_ small clean batches =>
    exact .apart ⟨awaiting.status, awaiting.open_⟩ whole some_ small clean batches
  | file completed emptied small clean batches => exact .file completed emptied small clean batches
  | following completed emptied batches => exact .following completed emptied batches

/-- With nothing more to read, the handshake is over and every frame has been
read. -/
theorem Expects.over {text rdb : Bytes} {frames : List Frame}
    (expects : slave.Expects text rdb [] frames) :
    slave.isHandshakeCompleted = true ∧ slave.client.readBuffer = [] ∧ frames = [] := by
  generalize none_ : ([] : List Bytes) = chunks at expects
  cases expects with
  | together => cases List.append_ne_nil_of_right_ne_nil _ (List.cons_ne_nil _ _) none_.symm
  | apart => cases List.append_ne_nil_of_right_ne_nil _ (List.cons_ne_nil _ _) none_.symm
  | file => cases none_
  | @following others completed emptied batches =>
    have empty : others = [] := List.map_eq_nil_iff.mp none_.symm
    exact ⟨completed, emptied, by rw [empty]; rfl⟩

end SlaveReplicationClient

/-! ## A replica among its events -/

/-- The bytes that an event brings from the master. -/
def Event.fromMaster : Event → Option Bytes
  | .receiveMaster data _ => some data
  | _ => none

/-- The read events of the connection to the master. -/
def receivedFromMaster (events : List Event) : List Bytes := events.filterMap Event.fromMaster

/-- The commands of the master that are run in a turn. -/
def Turn.replicated (turn : Turn) : List Command :=
  match turn.event, turn.before.masterConnection with
  | .receiveMaster data machines, some slave =>
    match slave.handleRead (SlaveReplicationClient.logged (Server.executeReplicated slave.fd)) data
        ((turn.before, machines, []), []) with
    | .ok (_, _, commands) => commands
    | .error _ => []
  | _, _ => []

variable {server last : Server} {handled : Handled} {event : Event} {slave : SlaveReplicationClient}
  {machine : Machine} {fd : Fd}

theorem executeReplicated_readBuffer (fd : Fd) (client : Client) (command : Command)
    (state : Server × List Machine × List Effect) (client' : Client)
    (state' : Server × List Machine × List Effect)
    (ran : Server.executeReplicated fd client command state = .ok (client', state')) :
    client'.readBuffer = client.readBuffer := by
  obtain ⟨server, machines, effects⟩ := state
  unfold Server.executeReplicated at ran
  cases machines with
  | nil => cases ran
  | cons machine machines =>
    dsimp only at ran
    obtain ⟨executed, -, ran⟩ := exec_bind_ok.mp ran
    obtain ⟨there, -, ran⟩ := exec_bind_ok.mp ran
    cases ran
    exact applyEffects_keeps Effect.apply_readBuffer fd fd executed.effects client

/-- A command that comes between a MULTI and its end is moved to the queue, and
the replica does not get over it. -/
theorem executeReplicated_moved {client : Client} {command : Command}
    {state : Server × List Machine × List Effect} (multi : client.multi = true)
    (queued : command.commandType ≠ .exec ∧ command.commandType ≠ .discard)
    (known : command.commandType = .aclWhoami → client.isAuthenticated = true) :
    ∃ fault, Server.executeReplicated fd client command state = .error fault := by
  obtain ⟨server, machines, effects⟩ := state
  unfold Server.executeReplicated
  cases machines with
  | nil => exact ⟨_, rfl⟩
  | cons machine machines =>
    have answered : ¬ (command.commandType = .aclWhoami ∧ (!client.isAuthenticated) = true) := by
      rintro ⟨whoami, unknown⟩
      rw [known whoami] at unknown
      cases unknown
    have moved (c : Context) (same : c.client = client ∧ c.command = command)
        (envs : List Env) : execute server.db c server.config.rdbFilePath envs =
          .ok ⟨(queueCommand server.db c).1, c.acl, (queueCommand server.db c).2, none⟩ := by
      obtain ⟨rfl, rfl⟩ := same
      exact (if_neg answered).trans (if_pos ⟨multi, queued⟩)
    dsimp only
    rw [moved _ ⟨rfl, rfl⟩]
    exact ⟨_, rfl⟩

/-- A request leaves the connection to the master alone. -/
theorem serve_masterConnection {client : Client} {command : Command} {bytesProcessed : Nat}
    (ran : server.serve fd client machine command bytesProcessed = .ok handled) :
    handled.server.masterConnection = server.masterConnection := by
  rcases serve_cases ran with ⟨managed, managing, -, after⟩ |
    ⟨executed, server₁, propagated, -, -, passing, -, after⟩
  · rw [after]
    exact (handle_frame managing).2
  · rw [after]
    rcases handlePropagate_cases passing with ⟨rfl, -, -⟩ | ⟨one, raw, -, -, -, -, rfl, -⟩ <;> rfl

/-- Only events of that connection change it: a read event by what it brings,
a write event by the bytes it writes. -/
theorem step_masterConnection (connection : server.masterConnection = some slave)
    (ran : server.step event = .ok handled) :
    (event.fromMaster = none ∧ (handled.server.masterConnection = some slave ∨
      handled.server.masterConnection = some slave.handleWrite)) ∨
    (∃ data, event = .endMaster data ∧ handled.server.masterConnection =
      some (slave.withReadBuffer (slave.client.readBuffer ++ data))) ∨
    ∃ data machines slave' state log, event = .receiveMaster data machines ∧
      slave.handleRead (SlaveReplicationClient.logged (Server.executeReplicated slave.fd)) data
        ((server, machines, []), []) = .ok (slave', state, log) ∧
      handled.server.masterConnection = some slave' := by
  cases event with
  | connect fd =>
    rw [Server.step] at ran
    split at ran <;> cases ran <;> exact .inl ⟨rfl, .inl connection⟩
  | receive fd data machine =>
    rcases step_receive ran with ⟨-, rfl⟩ | ⟨client, parsed, -, -, -, served⟩
    · exact .inl ⟨rfl, .inl connection⟩
    · exact .inl ⟨rfl, .inl ((serve_masterConnection served).trans connection)⟩
  | close fd data =>
    cases ran
    exact .inl ⟨rfl, .inl connection⟩
  | send fd count =>
    cases ran
    exact .inl ⟨rfl, .inl connection⟩
  | expire machine =>
    cases ran
    exact .inl ⟨rfl, .inl connection⟩
  | receiveMaster data machines =>
    rw [Server.step, Server.handleMasterRead, connection] at ran
    dsimp only at ran
    obtain ⟨⟨slave', server', machines', effects⟩, read, ran⟩ := exec_bind_ok.mp ran
    cases ran
    rw [SlaveReplicationClient.handleRead] at read
    obtain ⟨log, recorded⟩ := SlaveReplicationClient.processReadBuffer_logged read
    exact .inr (.inr ⟨data, machines, slave', _, log, rfl, recorded, rfl⟩)
  | endMaster data =>
    cases ran
    refine .inr (.inl ⟨data, rfl, ?_⟩)
    rw [Server.handleMasterEnd, connection]
    rfl
  | sendMaster =>
    cases ran
    refine .inl ⟨rfl, .inr ?_⟩
    rw [Server.handleMasterWrite, connection]
    rfl

/-- What the replica has run of the frames it expects. -/
theorem run_expects {text rdb : Bytes} {events : List Event} {turns : List Turn}
    {frames : List Frame} (oneLine : 13 ∉ text) (connection : server.masterConnection = some slave)
    (expects : slave.Expects text rdb (receivedFromMaster events) frames)
    (bare : ∀ data, Event.endMaster data ∈ events → data = [])
    (ran : server.run events = .ok turns) :
    ∃ last slave', server.Leads turns last ∧ last.masterConnection = some slave' ∧
      slave.Ran slave' (turns.flatMap Turn.replicated) frames ∧
      slave'.Expects text rdb [] [] := by
  induction events generalizing server slave turns frames with
  | nil =>
    cases ran
    obtain ⟨-, -, rfl⟩ := expects.over
    exact ⟨server, slave, rfl, connection, SlaveReplicationClient.ran_nothing rfl, expects⟩
  | cons event events ih =>
    rw [Server.run] at ran
    obtain ⟨handled, first, ran⟩ := exec_bind_ok.mp ran
    obtain ⟨turns, following, ran⟩ := exec_bind_ok.mp ran
    cases ran
    rw [receivedFromMaster, List.filterMap_cons] at expects
    have bare' : ∀ data, Event.endMaster data ∈ events → data = [] := fun data held =>
      bare data (List.mem_cons_of_mem _ held)
    rcases step_masterConnection connection first with ⟨elsewhere, kept⟩ |
      ⟨data, rfl, connected⟩ | ⟨data, machines, slave₁, state, log, rfl, read, connected⟩
    · rw [elsewhere] at expects
      have quiet : Turn.replicated ⟨server, event, handled⟩ = [] := by
        cases event <;> first | rfl | cases elsewhere
      rw [List.flatMap_cons, quiet, List.nil_append]
      rcases kept with connected | connected
      · obtain ⟨last, slave', leads, ends, done, nothing⟩ := ih connected expects bare' following
        exact ⟨last, slave', ⟨rfl, first, leads⟩, ends, done, nothing⟩
      · obtain ⟨last, slave', leads, ends, done, nothing⟩ :=
          ih connected expects.write bare' following
        exact ⟨last, slave', ⟨rfl, first, leads⟩, ends, ⟨done.logged, done.counted⟩, nothing⟩
    · rw [bare data List.mem_cons_self, List.append_nil] at connected
      obtain ⟨last, slave', leads, ends, done, nothing⟩ := ih connected expects bare' following
      exact ⟨last, slave', ⟨rfl, first, leads⟩, ends, done, nothing⟩
    · obtain ⟨now, later, rfl, done, expects⟩ :=
        expects.read oneLine (executeReplicated_readBuffer slave.fd) read
      have recorded : Turn.replicated ⟨server, .receiveMaster data machines, handled⟩ = log := by
        rw [Turn.replicated]
        dsimp only
        rw [connection]
        dsimp only
        rw [read]
      obtain ⟨last, slave', leads, ends, rest, nothing⟩ := ih connected expects bare' following
      rw [List.flatMap_cons, recorded]
      exact ⟨last, slave', ⟨rfl, first, leads⟩, ends, done.append rest, nothing⟩

/-- Reads that end inside the line of the full resynchronisation, behind the
RDB file or behind a frame; the file comes with the end of the line, or in a
read of its own if it has no carriage return. -/
inductive AlignedReads (text rdb : Bytes) : List Bytes → List Frame → Prop where
  | together {pieces : List Bytes} {last : Bytes} {first : List Frame} {others : List (List Frame)} :
    pieces.flatten ++ last = encodeSimpleString text → last ≠ [] →
    (rdbText rdb ++ bytesOf first).length < 2 ^ 64 → (∀ batch ∈ first :: others, Batch batch) →
    AlignedReads text rdb (pieces ++ (last ++ rdbText rdb ++ bytesOf first) :: others.map bytesOf)
      (first ++ others.flatten)
  | apart {pieces : List Bytes} {last : Bytes} {others : List (List Frame)} :
    pieces.flatten ++ last = encodeSimpleString text → last ≠ [] →
    rdb.length < 2 ^ 64 → 13 ∉ rdb → (∀ batch ∈ others, Batch batch) →
    AlignedReads text rdb (pieces ++ last :: rdbText rdb :: others.map bytesOf) others.flatten

/-- The replica has read a response of the master whole: the handshake is
over, the RDB file has been skipped, and what has been run is what the frames
behind it stand for. -/
def HandshakeDone (slave : SlaveReplicationClient) (turns : List Turn) (last : Server)
    (frames : List Frame) : Prop :=
  ∃ slave', last.masterConnection = some slave' ∧ slave'.isHandshakeCompleted = true ∧
    slave'.client.readBuffer = [] ∧ slave.Ran slave' (turns.flatMap Turn.replicated) frames

/-- Aligned reads complete the handshake and run what was sent, if no bytes
come with the end of the file. -/
theorem aligned_handshake {text rdb : Bytes} {events : List Event} {turns : List Turn}
    {frames : List Frame} (connection : server.masterConnection = some slave)
    (awaiting : slave.Awaiting) (empty : slave.client.readBuffer = []) (oneLine : 13 ∉ text)
    (aligned : AlignedReads text rdb (receivedFromMaster events) frames)
    (bare : ∀ data, Event.endMaster data ∈ events → data = [])
    (ran : server.run events = .ok turns) :
    ∃ last, server.Leads turns last ∧ HandshakeDone slave turns last frames := by
  have expects : slave.Expects text rdb (receivedFromMaster events) frames := by
    generalize receivedFromMaster events = chunks at aligned
    cases aligned with
    | together whole some_ small batches =>
      refine .together awaiting (by rw [empty]; exact whole) some_ (batches _ List.mem_cons_self)
        (fun batch member => batches batch (List.mem_cons_of_mem _ member)) small
    | apart whole some_ small clean batches =>
      exact .apart awaiting (by rw [empty]; exact whole) some_ small clean batches
  obtain ⟨last, slave', leads, connected, done, nothing⟩ :=
    run_expects oneLine connection expects bare ran
  obtain ⟨completed, emptied, -⟩ := nothing.over
  exact ⟨last, leads, slave', connected, completed, emptied, done⟩

/-- A replica that has sent PSYNC. -/
def Server.replicaAwaiting : Server where
  config := { role := .slave }
  masterConnection := some { fd := 3, port := 6380, replicationStatus := .psyncSent }

/-- Reads of the connection to the master. -/
def masterReads (chunks : List Bytes) : List Event :=
  chunks.map fun chunk => .receiveMaster chunk [.sample]

private def setFrame : Frame := ⟨ascii "SET", [ascii "k", ascii "v"]⟩

private theorem setFrame_batch : Batch [setFrame] := by
  refine ⟨⟨by decide, by decide, ⟨by decide, fun absent => absurd absent (by decide), 2, rfl, .inl rfl⟩⟩,
    fun command stands unknown => ?_, trivial⟩
  rw [unknown] at stands
  cases stands

/-- The line comes in two pieces, the file and a frame with the second. -/
def alignedSample : List Event := masterReads
  [ascii "+FULLRESYNC", ascii " x 0\r\n" ++ rdbText emptyRdb ++ bytesOf [setFrame]]

theorem aligned_handshake_set : ∃ last,
    Server.replicaAwaiting.Leads
      ((Server.replicaAwaiting.run alignedSample).toOption.getD []) last ∧
    HandshakeDone { fd := 3, port := 6380, replicationStatus := .psyncSent }
      ((Server.replicaAwaiting.run alignedSample).toOption.getD []) last [setFrame] :=
  aligned_handshake rfl ⟨rfl, rfl⟩ rfl (by decide)
    (@AlignedReads.together (ascii "FULLRESYNC x 0") emptyRdb [ascii "+FULLRESYNC"]
      (ascii " x 0\r\n") [setFrame] [] (by decide) (by decide) (by decide) (by
        intro batch member
        rw [List.mem_singleton.mp member]
        exact setFrame_batch))
    (fun data closed => by simp [alignedSample, masterReads] at closed)
    (exec_getD [] (by decide +kernel))

/-- The RDB file is cut in two. -/
def cutSample : List Event := masterReads
  [ascii "+FULLRESYNC x 0\r\n" ++ (rdbText emptyRdb).take 9, (rdbText emptyRdb).drop 9]

/-- A replica never gets over an RDB file that is cut. -/
theorem cut_handshake_fails : ¬ ∀ (server : Server) (slave : SlaveReplicationClient)
    (text rdb : Bytes) (events : List Event) (turns : List Turn) (frames : List Frame),
    server.masterConnection = some slave → slave.Awaiting → slave.client.readBuffer = [] →
    13 ∉ text → Batch frames →
    (receivedFromMaster events).flatten = encodeSimpleString text ++ rdbText rdb ++ bytesOf frames →
    (∀ data, Event.endMaster data ∈ events → data = []) → server.run events = .ok turns →
    ∃ last, server.Leads turns last ∧ HandshakeDone slave turns last frames := by
  intro claim
  obtain ⟨last, leads, slave', connected, completed, -, -⟩ :=
    claim .replicaAwaiting _ (ascii "FULLRESYNC x 0") emptyRdb cutSample
      ((Server.replicaAwaiting.run cutSample).toOption.getD []) [] rfl ⟨rfl, rfl⟩ rfl (by decide)
      trivial (by decide) (fun data closed => by simp [cutSample, masterReads] at closed)
      (exec_getD [] (by decide +kernel))
  have stuck : ((Server.replicaAwaiting.behind
      ((Server.replicaAwaiting.run cutSample).toOption.getD [])).masterConnection.map
        SlaveReplicationClient.isHandshakeCompleted) = some false := by decide +kernel
  rw [← leads.last_eq, connected, Option.map_some, completed] at stuck
  cases stuck

end CarrotDb
