import CarrotDb.ReplicaCommands
import CarrotDb.ParsedCommands
import CarrotDb.Replication
import Mathlib

/-! What a replica does with the stream of its master, round by round: every
GETACK is acknowledged with the bytes processed before it, every other command
is run and its replies are dropped, and the first frame that is no command ends
the loop. -/
namespace CarrotDb
open Decimal Resp

/-- What a master sends behind the handshake: requests for an acknowledgement,
and the write commands it passes on. -/
inductive Message where
  | getAck
  | write (command : Command)

/-- The frame of a message. -/
def Message.frame : Message → Frame
  | .getAck => ⟨ascii "REPLCONF", [ascii "GETACK", ascii "*"]⟩
  | .write command => command.frame

/-- The bytes of messages. -/
def streamOf (messages : List Message) : Bytes := bytesOf (messages.map Message.frame)

theorem streamOf_cons (message : Message) (messages : List Message) :
    streamOf (message :: messages) = message.frame.bytes ++ streamOf messages := List.flatMap_cons

theorem getAck_bytes : Message.getAck.frame.bytes = getackCmd := by decide

/-- The acknowledgement of an offset. -/
def ackReply (offset : Int) : Bytes :=
  encodeBulkStringArray [ascii "REPLCONF", ascii "ACK", intToDecimal offset]

/-- The acknowledgements that a stream asks for: for each GETACK the length of
all frames before it, as a 64-bit integer. -/
def acknowledgements : (before : Nat) → List Message → List Bytes
  | _, [] => []
  | before, .getAck :: rest =>
    ackReply (i64 before) :: acknowledgements (before + Message.getAck.frame.bytes.length) rest
  | before, .write command :: rest =>
    acknowledgements (before + command.frame.bytes.length) rest

/-- What a round of `process_commands` does: it writes an acknowledgement, or
it runs a command. -/
inductive Round where
  | acknowledged (reply : Bytes)
  | executed (command : Command)

/-- The acknowledgement of a round. -/
def Round.reply : Round → Option Bytes
  | .acknowledged reply => some reply
  | .executed _ => none

/-- The command of a round. -/
def Round.command : Round → Option Command
  | .acknowledged _ => none
  | .executed command => some command

namespace SlaveReplicationClient

variable {σ : Type}

/-- The rounds of `processCommandsFrom`, in order. -/
def roundsFrom (execute : Client → Command → σ → Exec (Client × σ)) :
    (rounds : Nat) → SlaveReplicationClient → σ → List Round
  | 0, _, _ => []
  | rounds + 1, slave, state =>
    if slave.client.readBuffer = [] then []
    else
      match parseCommand slave.client.readBuffer with
      | .error _ => []
      | .ok parsed =>
        match parsed.command with
        | .unknow => []
        | .replConf .getAck .. =>
          .acknowledged (slave.acknowledge parsed).client.writeBuffer ::
            roundsFrom execute rounds (slave.acknowledge parsed) state
        | command =>
          match execute { slave.client with readBuffer := parsed.readBuffer } command state with
          | .error _ => []
          | .ok (client, state) =>
            .executed command :: roundsFrom execute rounds (slave.processed client parsed) state

/-- The rounds of `process_commands` in a read event. -/
def roundsOf (execute : Client → Command → σ → Exec (Client × σ)) (slave : SlaveReplicationClient)
    (data : Bytes) (state : σ) : List Round :=
  let slave := slave.withReadBuffer (slave.client.readBuffer ++ data)
  let slave := if slave.isHandshakeCompleted then slave else slave.handleHandshakeRead
  if slave.isHandshakeCompleted then
    roundsFrom execute slave.client.readBuffer.length slave state
  else []

variable {execute : Client → Command → σ → Exec (Client × σ)}
  {slave slave' : SlaveReplicationClient} {state state' : σ} {count : Nat}

section Rounds
variable {parsed : Parsed} (some_ : slave.client.readBuffer ≠ [])
  (read : parseCommand slave.client.readBuffer = .ok parsed)
include some_ read

theorem rounds_unknown (unknown : parsed.command = .unknow) :
    roundsFrom execute (count + 1) slave state = [] := by
  rw [roundsFrom, if_neg some_, read]
  dsimp only
  rw [unknown]

theorem rounds_getAck (getAck : parsed.command.isGetAck = true) :
    roundsFrom execute (count + 1) slave state =
      .acknowledged (ackReply slave.bytesProcessed) ::
        roundsFrom execute count (slave.acknowledge parsed) state := by
  rw [roundsFrom, if_neg some_, read]
  dsimp only
  cases command : parsed.command with
  | replConf subcommand port capability offset =>
    cases subcommand with
    | getAck => rfl
    | _ =>
      rw [command] at getAck
      cases getAck
  | _ =>
    rw [command] at getAck
    cases getAck

theorem rounds_command {client : Client} {state₁ : σ}
    (other : parsed.command.isGetAck = false) (known : parsed.command ≠ .unknow)
    (executed : execute { slave.client with readBuffer := parsed.readBuffer } parsed.command state =
      .ok (client, state₁)) :
    roundsFrom execute (count + 1) slave state =
      .executed parsed.command ::
        roundsFrom execute count (slave.processed client parsed) state₁ := by
  rw [roundsFrom, if_neg some_, read]
  dsimp only
  generalize found : parsed.command = command at executed other known ⊢
  cases command with
  | unknow => exact absurd rfl known
  | replConf subcommand port capability offset =>
    cases subcommand with
    | getAck => cases other
    | _ =>
      dsimp only
      rw [executed]
  | _ =>
    dsimp only
    rw [executed]

end Rounds

/-- The client and the state that the loop ends with are those its rounds make:
what each round keeps, with what has been done before it, they all keep. -/
theorem rounds_carry {holds : List Round → Client → σ → Prop}
    (reads : ∀ done client state readBuffer, holds done client state →
      holds done { client with readBuffer } state)
    (acknowledges : ∀ done client state reply, holds done client state →
      holds (done ++ [.acknowledged reply]) { client with writeBuffer := reply } state)
    (executes : ∀ done client command state client' state', holds done client state →
      execute client command state = .ok (client', state') →
      holds (done ++ [.executed command]) { client' with writeBuffer := [] } state')
    {done : List Round} (ran : processCommandsFrom execute count slave state = .ok (slave', state'))
    (held : holds done slave.client state) :
    holds (done ++ roundsFrom execute count slave state) slave'.client state' := by
  induction count generalizing slave state done with
  | zero =>
    cases ran
    rw [roundsFrom, List.append_nil]
    exact held
  | succ count ih =>
    rcases processCommandsFrom_cases ran with ⟨empty, rfl, rfl⟩ | ⟨parsed, some_, read,
      ⟨unknown, rfl, rfl⟩ | ⟨getAck, ran⟩ | ⟨other, known, client, state₁, executed, ran⟩⟩
    · rw [roundsFrom, if_pos empty, List.append_nil]
      exact held
    · rw [rounds_unknown some_ read unknown, List.append_nil]
      exact reads _ _ _ _ held
    · rw [rounds_getAck some_ read getAck, List.append_cons]
      exact ih ran (acknowledges _ _ _ _ (reads _ _ _ parsed.readBuffer held))
    · rw [rounds_command some_ read other known executed, List.append_cons]
      exact ih ran (executes _ _ _ _ _ _ (reads _ _ _ _ held) executed)

/-- The write buffer of the loop holds what its last round has written. -/
theorem rounds_written (ran : processCommandsFrom execute count slave state = .ok (slave', state')) :
    slave'.client.writeBuffer = (roundsFrom execute count slave state).foldl
      (fun _ round => round.reply.getD []) slave.client.writeBuffer := by
  refine @rounds_carry _ execute slave slave' state state' count (fun done client _ =>
    client.writeBuffer = done.foldl (fun _ round => round.reply.getD []) slave.client.writeBuffer)
    (fun _ _ _ _ held => held) ?_ ?_ [] ran rfl
  · intro done client state reply held
    rw [List.foldl_append]
    rfl
  · intro done client command state client' state' held executed
    rw [List.foldl_append]
    rfl

end SlaveReplicationClient

/-- A write command whose strings have no carriage return, or a GETACK. -/
def Message.Clean : Message → Prop
  | .getAck => True
  | .write command => command.isWriteCommand = true ∧ ∀ text ∈ command.texts, 13 ∉ text

theorem getAck_fits (rest : Bytes) : Message.getAck.frame.Fits rest where
  small := by decide
  clean := by decide
  taken := ⟨by decide, fun absent => absurd absent (by decide), 2, rfl, .inl rfl⟩

/-- The frame of a write command fits where the parser has read it. -/
theorem write_fits {command : Command} {rest : Bytes} {parsed : Parsed}
    (write : command.isWriteCommand = true) (clean : ∀ text ∈ command.texts, 13 ∉ text)
    (few : command.frame.args.length < 2 ^ 31) (small : command.frame.bytes.length < 2 ^ 64)
    (read : parseCommand (command.frame.bytes ++ rest) = .ok parsed) :
    command.frame.Fits rest where
  small := small
  clean := frame_clean write clean
  taken :=
    ⟨few, encodable_of_parse small (frame_clean write clean) few read,
      command.frame.args.length, frame_wanted write, .inl rfl⟩

/-- The frame of a write command with no more arguments than an `int` counts
is taken whole. -/
theorem read_write {command : Command} {rest : Bytes} {parsed : Parsed}
    (write : command.isWriteCommand = true) (clean : ∀ text ∈ command.texts, 13 ∉ text)
    (few : command.frame.args.length < 2 ^ 31) (small : command.frame.bytes.length < 2 ^ 64)
    (read : parseCommand (command.frame.bytes ++ rest) = .ok parsed) :
    ∃ found, command.frame.command = .ok found ∧
      parsed = ⟨found, command.frame.bytes.length, rest⟩ := by
  obtain ⟨found, stands, parsing⟩ :=
    Frame.parse_fits (write_fits write clean few small read)
  rw [parsing] at read
  cases read
  exact ⟨found, stands, rfl⟩

/-- A bulk string in front of the read buffer is dropped, and the line end
behind it is no command. -/
theorem parseCommand_bulkString {arg rest : Bytes} (small : arg.length < 2 ^ 64)
    (clean : 13 ∉ arg) :
    parseCommand (encodeBulkString arg ++ rest) = .ok ⟨.unknow, 0, crlf ++ rest⟩ := by
  have held : Holds (encodeBulkString arg ++ rest) 0 (encodeBulkString arg) := ⟨rest, rfl⟩
  have token := parse_bulkString held small
  rw [visible_clean clean] at token
  have shape : encodeBulkString arg ++ rest =
      (36 :: (toDecimal arg.length ++ crlf ++ arg)) ++ (crlf ++ rest) := by
    rw [encodeBulkString]
    simp only [List.cons_append, List.append_assoc]
  have behind : (encodeBulkString arg ++ rest).drop
      (payloadStart 0 arg + arg.length - 1 + 1) = crlf ++ rest := by
    have front : payloadStart 0 arg + arg.length - 1 + 1 =
        (36 :: (toDecimal arg.length ++ crlf ++ arg)).length := by
      simp only [payloadStart, crlf, List.length_cons, List.length_append, List.length_nil]
      omega
    rw [front, shape, List.drop_left]
  have some_ : (encodeBulkString arg ++ rest).length ≠ 0 := by
    rw [List.length_append, encodeBulkString_length]
    omega
  obtain ⟨rounds, more⟩ := Nat.exists_eq_succ_of_ne_zero some_
  rw [parseCommand, parseCommandFrom, token]
  dsimp only
  rw [behind, more]
  rfl

/-- A command that is no GETACK. -/
def NoGetAck (command : Command) : Prop := command.isGetAck = false

private theorem long_leftover {name : Bytes} {args : List Bytes} {rest : Bytes} {parsed : Parsed}
    {entry : Bytes × Tokens Command} (clean : ∀ arg ∈ name :: args, 13 ∉ arg)
    (many : 2 ^ 31 ≤ args.length) (small : (encodeBulkStringArray (name :: args)).length < 2 ^ 64)
    (found : (commandParsers (i32 args.length)).find? (fun entry => isEqual name entry.1) =
      some entry)
    (quiet : entry.2.Yields NoGetAck)
    (read : parseCommand (encodeBulkStringArray (name :: args) ++ rest) = .ok parsed) :
    parsed.command.isGetAck = false ∧ ∃ arg more, arg.length < 2 ^ 64 ∧ 13 ∉ arg ∧
      parsed.readBuffer = encodeBulkString arg ++ more := by
  obtain ⟨position, written, whole, parsing⟩ := @parseCommand_frame name args rest _ rfl small clean
  rw [parsing, commandParser, found] at read
  obtain ⟨⟨command, stop⟩, ran, same⟩ := exec_bind_ok.mp read
  cases same
  have other : NoGetAck command := Tokens.yields_of_run quiet ran
  refine ⟨other, ?_⟩
  have few := i32_large many
  obtain ⟨n, taken, counted⟩ := Tokens.run_atMost
    (Tokens.parsers_atMost _ entry (List.mem_of_find?_eq_some found)) written few.le ran
  obtain ⟨_, again⟩ := Tokens.run_within written counted (by omega)
  rw [again] at ran
  cases ran
  have left : n < args.length := by omega
  have split : args.flatMap encodeBulkString = (args.take n).flatMap encodeBulkString ++
      (encodeBulkString args[n] ++ (args.drop (n + 1)).flatMap encodeBulkString) := by
    conv_lhs => rw [← List.take_append_drop n args]
    rw [List.flatMap_append, List.drop_eq_getElem_cons left, List.flatMap_cons]
  refine ⟨args[n], (args.drop (n + 1)).flatMap encodeBulkString ++ rest,
    written.small _ (List.getElem_mem left), written.clean _ (List.getElem_mem left), ?_⟩
  have front : (encodeBulkStringArray (name :: args) ++ rest).drop position =
      args.flatMap encodeBulkString ++ rest := by
    obtain ⟨tail, ending⟩ := written.held
    have same := congrArg (List.drop (args.flatMap encodeBulkString).length) ending
    rw [List.drop_left, List.drop_drop, ← Tokens.behind, whole, List.drop_left] at same
    rw [← ending, same]
  dsimp only
  rw [Tokens.behind, ← List.drop_drop, front, split, List.append_assoc, List.drop_left,
    List.append_assoc]

private theorem quiet_keyed {total : Int} (make : Bytes → List Bytes → Command)
    (other : ∀ key values, NoGetAck (make key values)) :
    (expectBulkString fun key => decrement total 1 >>= fun total =>
      parseStrings total.toNat >>= fun values => pure (make key values)).Yields NoGetAck :=
  Tokens.yields_expect rfl fun key _ => Tokens.yields_decrement <|
    (Tokens.yields_strings _).bind fun values _ => Tokens.yields_pure (other key values)

private theorem quiet_acl {total : Int} : (parseACLCommand total).Yields NoGetAck := by
  rw [parseACLCommand]
  split
  · exact Tokens.yields_pure rfl
  · refine Tokens.yields_expect rfl fun cmdName _ => ?_
    split
    · exact Tokens.yields_pure rfl
    · split
      · split
        · exact Tokens.yields_pure rfl
        · split
          · exact Tokens.yields_expect rfl fun username _ => Tokens.yields_pure rfl
          · exact Tokens.yields_pure rfl
      · split
        · split
          · exact Tokens.yields_pure rfl
          · exact Tokens.yields_expect rfl fun username _ => (Tokens.yields_rules _ _ _).bind
              fun rules _ => Tokens.yields_pure rfl
        · exact Tokens.yields_pure rfl

/-- The name of a write command leads to a parser that never finds a GETACK. -/
private theorem write_parses {command : Command} (write : command.isWriteCommand = true)
    (total : Int) : ∃ entry,
      (commandParsers total).find? (fun entry => isEqual command.frame.name entry.1) = some entry ∧
        entry.2.Yields NoGetAck := by
  cases command with
  | rpush | lpush | zrem => exact ⟨_, rfl, quiet_keyed _ fun _ _ => rfl⟩
  | xadd =>
    have quiet : (parseXaddCommand total).Yields NoGetAck :=
      Tokens.yields_expect rfl fun key _ => Tokens.yields_expect rfl fun id _ =>
        Tokens.yields_decrement ((Tokens.yields_fieldValues _).bind fun pairs _ =>
          Tokens.yields_pure rfl)
    exact ⟨_, rfl, quiet⟩
  | zadd =>
    have quiet : (parseZaddCommand total).Yields NoGetAck :=
      Tokens.yields_expect rfl fun key _ => Tokens.yields_decrement
        ((Tokens.yields_scoreMembers _).bind fun pairs _ => Tokens.yields_pure rfl)
    exact ⟨_, rfl, quiet⟩
  | set =>
    have quiet : (parseSetCommand total).Yields NoGetAck :=
      Tokens.yields_expect rfl fun key _ => Tokens.yields_expect rfl fun value _ =>
        Tokens.yields_decrement ((Tokens.yields_setFlags _ (by simp) (by simp)).bind fun flags _ =>
          Tokens.yields_pure rfl)
    exact ⟨_, rfl, quiet⟩
  | lpop =>
    have quiet : (parseLpopCommand total).Yields NoGetAck := by
      refine Tokens.yields_expect rfl fun key _ => Tokens.yields_decrement ?_
      split
      · exact Tokens.yields_read fun count _ => Tokens.yields_pure rfl
      · exact Tokens.yields_pure rfl
    exact ⟨_, rfl, quiet⟩
  | geoAdd =>
    have quiet : (parseGeoAddCommand total).Yields NoGetAck :=
      Tokens.yields_expect rfl fun key _ => Tokens.yields_decrement
        ((Tokens.yields_geoPoints _ (by simp)).bind fun point _ => Tokens.yields_pure rfl)
    exact ⟨_, rfl, quiet⟩
  | aclSetUser => exact ⟨_, rfl, quiet_acl⟩
  | incr =>
    have quiet : parseIncrCommand.Yields NoGetAck :=
      Tokens.yields_expect rfl fun key _ => Tokens.yields_pure rfl
    exact ⟨_, rfl, quiet⟩
  | _ => cases write

/-- The frame of a write command stands for no GETACK. -/
theorem frame_quiet {command found : Command} (write : command.isWriteCommand = true)
    (clean : ∀ text ∈ command.texts, 13 ∉ text) (stands : command.frame.command = .ok found) :
    found.isGetAck = false := by
  obtain ⟨entry, listed, quiet⟩ := write_parses write command.frame.args.length
  rw [Frame.command, commandOf, commandParser, listed] at stands
  have other : NoGetAck found := Tokens.yields_of_valueOn quiet
    (fun arg inside => frame_clean write clean arg (List.mem_cons_of_mem _ inside)) stands
  exact other

/-- With more arguments than an `int` counts, the rest of the frame stays in
the read buffer. -/
theorem read_long {command : Command} {rest : Bytes} {parsed : Parsed}
    (write : command.isWriteCommand = true) (clean : ∀ text ∈ command.texts, 13 ∉ text)
    (many : 2 ^ 31 ≤ command.frame.args.length) (small : command.frame.bytes.length < 2 ^ 64)
    (read : parseCommand (command.frame.bytes ++ rest) = .ok parsed) :
    parsed.command.isGetAck = false ∧ ∃ arg more, arg.length < 2 ^ 64 ∧ 13 ∉ arg ∧
      parsed.readBuffer = encodeBulkString arg ++ more := by
  obtain ⟨entry, listed, quiet⟩ := write_parses write (i32 command.frame.args.length)
  exact long_leftover (frame_clean write clean) many small listed quiet read

namespace SlaveReplicationClient

variable {σ : Type} {execute : Client → Command → σ → Exec (Client × σ)}
  {slave slave' : SlaveReplicationClient} {state state' : σ} {count : Nat}

/-! ## A stream among the rounds -/

/-- The read buffer starts in the middle of a frame, in front of a bulk string
or behind one: the loop never gets over it. -/
def Stuck (slave : SlaveReplicationClient) : Prop :=
  slave.client.readBuffer.head? = some 13 ∨ ∃ arg more, arg.length < 2 ^ 64 ∧ 13 ∉ arg ∧
    slave.client.readBuffer = encodeBulkString arg ++ more

theorem stuck_append (stuck : slave.Stuck) (data : Bytes) :
    (slave.withReadBuffer (slave.client.readBuffer ++ data)).Stuck := by
  rcases stuck with line | ⟨arg, more, small, clean, buffer⟩
  · refine .inl ?_
    show (slave.client.readBuffer ++ data).head? = some 13
    rw [List.head?_append, line]
    rfl
  · refine .inr ⟨arg, more ++ data, small, clean, ?_⟩
    show slave.client.readBuffer ++ data = _
    rw [buffer, List.append_assoc]

/-- A loop that is stuck does nothing. -/
theorem stuck_run (stuck : slave.Stuck)
    (ran : processCommandsFrom execute count slave state = .ok (slave', state')) :
    slave'.Stuck ∧ roundsFrom execute count slave state = [] ∧ state' = state ∧
      slave'.isHandshakeCompleted = slave.isHandshakeCompleted := by
  cases count with
  | zero =>
    cases ran
    exact ⟨stuck, rfl, rfl, rfl⟩
  | succ count =>
    have some_ : slave.client.readBuffer ≠ [] := by
      rcases stuck with line | ⟨arg, more, -, -, buffer⟩
      · rintro empty
        rw [empty] at line
        cases line
      · rw [buffer]
        exact List.cons_ne_nil _ _
    obtain ⟨behind, read, line⟩ : ∃ behind,
        parseCommand slave.client.readBuffer = .ok ⟨.unknow, 0, behind⟩ ∧
          behind.head? = some 13 := by
      rcases stuck with line | ⟨arg, more, small, clean, buffer⟩
      · obtain ⟨byte, rest, buffer⟩ := List.exists_cons_of_ne_nil some_
        rw [buffer] at line ⊢
        cases line
        exact ⟨13 :: rest, rfl, rfl⟩
      · rw [buffer]
        exact ⟨_, parseCommand_bulkString small clean, rfl⟩
    rw [round_unknown some_ read rfl] at ran
    cases ran
    exact ⟨.inl line, rounds_unknown some_ read rfl, rfl, rfl⟩

/-- What the loop does with messages that stand whole in the read buffer. -/
inductive Replays : SlaveReplicationClient → List Message → List Round →
    SlaveReplicationClient → Prop where
  | done {slave : SlaveReplicationClient} :
    slave.client.readBuffer = [] → Replays slave [] [] slave
  | stopped {slave : SlaveReplicationClient} {message : Message} {messages : List Message} :
    message.frame.command = .ok .unknow →
    Replays slave (message :: messages) [] (slave.withReadBuffer (streamOf messages))
  | acknowledged {slave slave' : SlaveReplicationClient} {messages : List Message}
      {rounds : List Round} :
    Replays (slave.acknowledge ⟨.replConf .getAck [] [] 0, Message.getAck.frame.bytes.length,
      streamOf messages⟩) messages rounds slave' →
    Replays slave (.getAck :: messages)
      (.acknowledged (ackReply slave.bytesProcessed) :: rounds) slave'
  | executed {slave slave' : SlaveReplicationClient} {command read : Command}
      {messages : List Message} {rounds : List Round} {client : Client} :
    command.frame.command = .ok read → read ≠ .unknow →
    client.readBuffer = streamOf messages →
    Replays (slave.processed client ⟨read, command.frame.bytes.length, streamOf messages⟩)
      messages rounds slave' →
    Replays slave (.write command :: messages) (.executed read :: rounds) slave'
  | jammed {slave slave' : SlaveReplicationClient} {command : Command} {messages : List Message}
      {rounds : List Round} :
    2 ^ 31 ≤ command.frame.args.length → rounds.filterMap Round.reply = [] → slave'.Stuck →
    Replays slave (.write command :: messages) rounds slave'

theorem streamOf_ne_nil (message : Message) (messages : List Message) :
    streamOf (message :: messages) ≠ [] := by
  rw [streamOf_cons]
  exact fun absent => message.frame.bytes_ne_nil (List.append_eq_nil_iff.mp absent).1

/-- The loop on whole messages. -/
theorem replays_of_run {messages : List Message}
    (keeps : ∀ client command state client' state',
      execute client command state = .ok (client', state') →
      client'.readBuffer = client.readBuffer)
    (clean : ∀ message ∈ messages, message.Clean)
    (held : slave.client.readBuffer = streamOf messages) (small : (streamOf messages).length < 2 ^ 64)
    (enough : (streamOf messages).length ≤ count)
    (ran : processCommandsFrom execute count slave state = .ok (slave', state')) :
    Replays slave messages (roundsFrom execute count slave state) slave' := by
  induction messages generalizing count slave state with
  | nil =>
    have empty : slave.client.readBuffer = [] := held
    cases count with
    | zero =>
      cases ran
      exact .done empty
    | succ count =>
      rw [processCommandsFrom, if_pos empty] at ran
      cases ran
      rw [roundsFrom, if_pos empty]
      exact .done empty
  | cons message messages ih =>
    have some_ : slave.client.readBuffer ≠ [] := by
      rw [held]
      exact streamOf_ne_nil message messages
    have positive := List.length_pos_iff.mpr message.frame.bytes_ne_nil
    have front := held
    rw [streamOf_cons] at front small enough
    rw [List.length_append] at small enough
    obtain ⟨count, rfl⟩ := Nat.exists_eq_succ_of_ne_zero (show count ≠ 0 by omega)
    have later (client : SlaveReplicationClient) (state : σ)
        (behind : client.client.readBuffer = streamOf messages)
        (ran : processCommandsFrom execute count client state = .ok (slave', state')) :=
      ih (fun other member => clean other (List.mem_cons_of_mem _ member)) behind (by omega)
        (by omega) ran
    cases message with
    | getAck =>
      obtain ⟨command, stands, read⟩ := Frame.parse_fits (getAck_fits (streamOf messages))
      cases stands
      rw [← front] at read
      rw [round_getAck some_ read rfl] at ran
      rw [rounds_getAck some_ read rfl]
      exact .acknowledged (later _ state rfl ran)
    | write command =>
      obtain ⟨write, plain⟩ := clean _ List.mem_cons_self
      have size : (Message.write command).frame.bytes.length < 2 ^ 64 := by omega
      cases read : parseCommand slave.client.readBuffer with
      | error fault =>
        rw [processCommandsFrom, if_neg some_, read] at ran
        cases ran
      | ok parsed =>
        rw [front] at read
        by_cases few : command.frame.args.length < 2 ^ 31
        · obtain ⟨found, stands, rfl⟩ := read_write write plain few size read
          rw [← front] at read
          by_cases unknown : found = .unknow
          · subst unknown
            rw [round_unknown some_ read rfl] at ran
            cases ran
            rw [rounds_unknown some_ read rfl]
            exact .stopped stands
          · have other : found.isGetAck = false := frame_quiet write plain stands
            rw [round_command some_ read other unknown] at ran
            obtain ⟨⟨client, state₁⟩, executed, ran⟩ := exec_bind_ok.mp ran
            rw [rounds_command some_ read other unknown executed]
            have behind := keeps _ _ _ _ _ executed
            exact .executed stands unknown behind (later _ state₁ behind ran)
        · obtain ⟨other, arg, more, bounded, cleanArg, left⟩ :=
            read_long write plain (not_lt.mp few) size read
          rw [← front] at read
          by_cases unknown : parsed.command = .unknow
          · rw [round_unknown some_ read unknown] at ran
            cases ran
            rw [rounds_unknown some_ read unknown]
            exact .jammed (not_lt.mp few) rfl (.inr ⟨arg, more, bounded, cleanArg, left⟩)
          · rw [round_command some_ read other unknown] at ran
            obtain ⟨⟨client, state₁⟩, executed, ran⟩ := exec_bind_ok.mp ran
            rw [rounds_command some_ read other unknown executed]
            have behind := keeps _ _ _ _ _ executed
            have stuck : (slave.processed client parsed).Stuck :=
              .inr ⟨arg, more, bounded, cleanArg, behind.trans left⟩
            obtain ⟨still, none_, -, -⟩ := stuck_run stuck ran
            rw [none_]
            exact .jammed (not_lt.mp few) rfl still

end SlaveReplicationClient

/-- The frame of a write command other than that of a user is one of a
command. -/
theorem frame_known {command : Command} (write : command.isWriteCommand = true)
    (other : command.commandType ≠ .aclSetUser) : command.frame.command ≠ .ok .unknow := by
  intro unknown
  cases command with
  | aclSetUser => exact other rfl
  | set key value ex px => cases ex <;> cases px <;> cases unknown
  | lpop key count => cases count <;> cases unknown
  | geoAdd key longitude latitude score member invalid =>
    rw [frame_command write trivial, Command.reread] at unknown
    obtain ⟨point, -, impossible⟩ := exec_bind_ok.mp unknown
    cases impossible
  | rpush | lpush | zrem | xadd | zadd | incr =>
    rw [frame_command write trivial] at unknown
    cases unknown
  | _ => cases write

/-- A message that the replica knows: anything but a user, whose frame stands
for no command. -/
def Message.Known : Message → Prop
  | .getAck => True
  | .write command => command.commandType ≠ .aclSetUser

/-- A message of a master: its commands come from the parser. -/
def Message.Sound : Message → Prop
  | .getAck => True
  | .write command => command.isWriteCommand = true ∧ Parsable command

theorem Message.Sound.clean {message : Message} (sound : message.Sound) : message.Clean := by
  cases message with
  | getAck => trivial
  | write command => exact ⟨sound.1, (sendable_of_parsable sound.2 sound.1).clean⟩

theorem Message.Sound.few {message : Message} (sound : message.Sound) :
    message.frame.args.length < 2 ^ 31 := by
  cases message with
  | getAck => decide
  | write command => exact (sendable_of_parsable sound.2 sound.1).few

theorem known_iff {message : Message} (sound : message.Sound) :
    message.Known ↔ message.frame.command ≠ .ok .unknow := by
  cases message with
  | getAck =>
    refine ⟨fun _ unknown => ?_, fun _ => trivial⟩
    cases unknown
  | write command =>
    refine ⟨frame_known sound.1, fun known user => known ?_⟩
    cases command with
    | aclSetUser => rfl
    | _ => cases user

namespace SlaveReplicationClient

variable {σ : Type} {execute : Client → Command → σ → Exec (Client × σ)}
  {slave slave' : SlaveReplicationClient} {state state' : σ} {count : Nat}

/-! ## What follows for the stream -/

/-- The stream up to a point, counted in 64 bits. -/
theorem i64_advance (before size : Nat) : i64 (i64 before + size) = i64 ((before + size : Nat) : Int) := by
  rw [i64_add, Nat.cast_add]

/-- The acknowledgements are those the stream asks for, in order, as far as
the loop has come; where it gets through, the bytes are all counted. -/
theorem Replays.acks {messages : List Message} {rounds : List Round} {before : Nat}
    (replays : Replays slave messages rounds slave')
    (known : ∀ message ∈ messages, message.frame.command ≠ .ok .unknow)
    (counted : slave.bytesProcessed = i64 before) :
    rounds.filterMap Round.reply <+: acknowledgements before messages ∧
      (slave'.Stuck ∧ (∃ message ∈ messages, 2 ^ 31 ≤ message.frame.args.length) ∨
        rounds.filterMap Round.reply = acknowledgements before messages ∧
          slave'.client.readBuffer = [] ∧
          slave'.bytesProcessed = i64 ((before + (streamOf messages).length : Nat) : Int)) := by
  induction replays generalizing before with
  | done empty =>
    refine ⟨List.nil_prefix, .inr ⟨rfl, empty, ?_⟩⟩
    exact counted
  | stopped stands => exact absurd stands (known _ List.mem_cons_self)
  | @acknowledged slave slave' messages rounds _ ih =>
    obtain ⟨front, ends⟩ := @ih (before + Message.getAck.frame.bytes.length)
      (fun message member => known message (List.mem_cons_of_mem _ member)) (by
        show i64 (slave.bytesProcessed + _) = _
        rw [counted]
        exact i64_advance before _)
    have first : (Round.acknowledged (ackReply slave.bytesProcessed) :: rounds).filterMap Round.reply =
        ackReply (i64 before) :: rounds.filterMap Round.reply := by
      rw [List.filterMap_cons, counted]
      rfl
    rw [first, acknowledgements]
    refine ⟨List.cons_prefix_cons.mpr ⟨rfl, front⟩, ?_⟩
    rcases ends with ⟨stuck, long, member, many⟩ | ⟨all, empty, total⟩
    · exact .inl ⟨stuck, long, List.mem_cons_of_mem _ member, many⟩
    · refine .inr ⟨by rw [all], empty, ?_⟩
      rw [total, streamOf_cons, List.length_append, Nat.add_assoc]
  | @executed slave slave' command read messages rounds client _ _ _ _ ih =>
    obtain ⟨front, ends⟩ := @ih (before + command.frame.bytes.length)
      (fun message member => known message (List.mem_cons_of_mem _ member)) (by
        show i64 (slave.bytesProcessed + _) = _
        rw [counted]
        exact i64_advance before _)
    refine ⟨front, ?_⟩
    rcases ends with ⟨stuck, long, member, many⟩ | ⟨all, empty, total⟩
    · exact .inl ⟨stuck, long, List.mem_cons_of_mem _ member, many⟩
    · refine .inr ⟨all, empty, ?_⟩
      rw [total, streamOf_cons, List.length_append, Nat.add_assoc]
      rfl
  | jammed many none_ stuck =>
    rw [none_]
    exact ⟨List.nil_prefix, .inl ⟨stuck, _, List.mem_cons_self, many⟩⟩

/-- The commands are all run, and nothing stays in the read buffer, just when
none of them is a user. -/
theorem Replays.drains_iff {messages : List Message} {rounds : List Round}
    (replays : Replays slave messages rounds slave') {commands : List Command}
    (writes : messages = commands.map .write)
    (sound : ∀ message ∈ messages, message.Sound) :
    slave'.client.readBuffer = [] ∧
      commands.mapM Command.reread = .ok (rounds.filterMap Round.command) ↔
        ∀ command ∈ commands, command.commandType ≠ .aclSetUser := by
  induction replays generalizing commands with
  | done empty =>
    cases commands with
    | nil => exact iff_of_true ⟨empty, rfl⟩ fun command absent => absurd absent List.not_mem_nil
    | cons command commands => cases writes
  | @stopped slave message messages stands =>
    cases commands with
    | nil => cases writes
    | cons command commands =>
      obtain ⟨rfl, rfl⟩ := List.cons.inj writes
      have user : ¬ command.commandType ≠ .aclSetUser := fun other =>
        (known_iff (sound _ List.mem_cons_self)).mp other stands
      refine iff_of_false ?_ fun all => user (all command List.mem_cons_self)
      rintro ⟨-, ran⟩
      rw [List.mapM_cons] at ran
      obtain ⟨first, -, ran⟩ := exec_bind_ok.mp ran
      obtain ⟨others, -, same⟩ := exec_bind_ok.mp ran
      cases same
  | acknowledged _ ih =>
    cases commands with
    | nil => cases writes
    | cons command commands => cases writes
  | @executed slave slave' command read messages rounds client stands known _ _ ih =>
    cases commands with
    | nil => cases writes
    | cons first commands =>
      obtain ⟨same, rfl⟩ := List.cons.inj writes
      cases same
      obtain ⟨write, parsable⟩ := sound _ List.mem_cons_self
      have rereads : command.reread = .ok read := by
        rw [← frame_command write (sendable_of_parsable parsable write).fit]
        exact stands
      have other : command.commandType ≠ .aclSetUser :=
        (known_iff (sound _ List.mem_cons_self)).mpr fun unknown => known (by
          rw [Message.frame, stands] at unknown
          cases unknown
          rfl)
      have rest := ih rfl fun message member => sound message (List.mem_cons_of_mem _ member)
      have mapped : (command :: commands).mapM Command.reread =
          .ok ((Round.executed read :: rounds).filterMap Round.command) ↔
            commands.mapM Command.reread = .ok (rounds.filterMap Round.command) := by
        rw [List.mapM_cons, rereads, exec_ok_bind]
        cases commands.mapM Command.reread with
        | error fault =>
          constructor <;> intro impossible <;> cases impossible
        | ok log =>
          show Except.ok (read :: log) = Except.ok (read :: rounds.filterMap Round.command) ↔ _
          rw [Except.ok.injEq, Except.ok.injEq, List.cons.injEq]
          exact ⟨And.right, fun same => ⟨rfl, same⟩⟩
      rw [mapped, rest, List.forall_mem_cons]
      exact ⟨fun all => ⟨other, all⟩, And.right⟩
  | jammed many _ _ => exact absurd (sound _ List.mem_cons_self).few (not_lt.mpr many)

/-- What ends the loop: the end of the stream, or a message that is not known. -/
def Ends : List Message → Prop
  | [] => True
  | message :: _ => ¬ message.Known

/-- No round is made just where the stream ends. -/
theorem Replays.none_iff {messages : List Message} {rounds : List Round}
    (replays : Replays slave messages rounds slave')
    (sound : ∀ message ∈ messages, message.Sound) :
    (rounds = [] ↔ Ends messages) ∧
      (rounds = [] → slave'.client.writeBuffer = slave.client.writeBuffer) := by
  have some_ {round : Round} {rest : List Round} (none_ : round :: rest = []) : False := by
    cases none_
  cases replays with
  | done empty => exact ⟨iff_of_true rfl trivial, fun _ => rfl⟩
  | stopped stands =>
    refine ⟨iff_of_true rfl fun known => ?_, fun _ => rfl⟩
    exact (known_iff (sound _ List.mem_cons_self)).mp known stands
  | acknowledged _ => exact ⟨iff_of_false some_ fun ends => ends trivial, fun none_ => (some_ none_).elim⟩
  | executed stands known _ _ =>
    refine ⟨iff_of_false some_ fun ends => ends ?_, fun none_ => (some_ none_).elim⟩
    refine (known_iff (sound _ List.mem_cons_self)).mpr fun unknown => known ?_
    rw [Message.frame, stands] at unknown
    cases unknown
    rfl
  | jammed many _ _ => exact absurd (sound _ List.mem_cons_self).few (not_lt.mpr many)

/-- The loop ends with an acknowledgement just where a GETACK is followed by
the end of the stream. -/
theorem Replays.last_iff {messages : List Message} {rounds : List Round}
    (replays : Replays slave messages rounds slave')
    (sound : ∀ message ∈ messages, message.Sound) (n : Nat) :
    (∃ earlier offset, rounds = earlier ++ [.acknowledged (ackReply offset)] ∧ earlier.length = n ∧
      slave'.client.writeBuffer = ackReply offset) ↔
    ∃ earlier later, messages = earlier ++ .getAck :: later ∧ earlier.length = n ∧
      (∀ message ∈ earlier, message.Known) ∧ Ends later := by
  induction replays generalizing n with
  | done empty =>
    refine iff_of_false ?_ ?_
    · rintro ⟨earlier, offset, rounds, -⟩
      exact List.append_ne_nil_of_right_ne_nil _ (List.cons_ne_nil _ _) rounds.symm
    · rintro ⟨earlier, later, messages, -⟩
      exact List.append_ne_nil_of_right_ne_nil _ (List.cons_ne_nil _ _) messages.symm
  | @stopped slave message messages stands =>
    have unknown : ¬ message.Known := fun known =>
      (known_iff (sound _ List.mem_cons_self)).mp known stands
    refine iff_of_false ?_ ?_
    · rintro ⟨earlier, offset, rounds, -⟩
      exact List.append_ne_nil_of_right_ne_nil _ (List.cons_ne_nil _ _) rounds.symm
    · rintro ⟨earlier, later, split, -, known, -⟩
      cases earlier with
      | nil =>
        obtain ⟨rfl, -⟩ := List.cons.inj split
        exact unknown trivial
      | cons head earlier =>
        obtain ⟨rfl, -⟩ := List.cons.inj split
        exact unknown (known _ List.mem_cons_self)
  | @acknowledged slave slave' messages rounds replays ih =>
    have others (message : Message) (member : message ∈ messages) :=
      sound message (List.mem_cons_of_mem _ member)
    obtain ⟨ends, kept⟩ := replays.none_iff others
    cases n with
    | zero =>
      constructor
      · rintro ⟨earlier, offset, split, none_, -⟩
        rw [List.length_eq_zero_iff.mp none_, List.nil_append] at split
        exact ⟨[], messages, rfl, rfl, fun message absent => absurd absent List.not_mem_nil,
          ends.mp (List.cons.inj split).2⟩
      · rintro ⟨earlier, later, split, none_, -, ending⟩
        rw [List.length_eq_zero_iff.mp none_, List.nil_append] at split
        obtain ⟨-, rfl⟩ := List.cons.inj split
        have nothing := ends.mpr ending
        refine ⟨[], slave.bytesProcessed, ?_, rfl, kept nothing⟩
        rw [nothing, List.nil_append]
    | succ n =>
      have later := ih others n
      constructor
      · rintro ⟨earlier, offset, split, size, written⟩
        cases earlier with
        | nil => cases size
        | cons head earlier =>
          obtain ⟨earlier, rest, rfl, length, known, ending⟩ := later.mp
            ⟨earlier, offset, (List.cons.inj split).2, Nat.succ.inj size, written⟩
          refine ⟨.getAck :: earlier, rest, rfl, congrArg Nat.succ length, ?_, ending⟩
          exact List.forall_mem_cons.mpr ⟨trivial, known⟩
      · rintro ⟨earlier, rest, split, size, known, ending⟩
        cases earlier with
        | nil => cases size
        | cons head earlier =>
          obtain ⟨earlier, offset, rfl, length, written⟩ := later.mpr
            ⟨earlier, rest, (List.cons.inj split).2, Nat.succ.inj size,
              fun message member => known message (List.mem_cons_of_mem _ member), ending⟩
          exact ⟨_ :: earlier, offset, rfl, congrArg Nat.succ length, written⟩
  | @executed slave slave' command read messages rounds client stands known _ _ ih =>
    have others (message : Message) (member : message ∈ messages) :=
      sound message (List.mem_cons_of_mem _ member)
    have here : (Message.write command).Known :=
      (known_iff (sound _ List.mem_cons_self)).mpr fun unknown => known (by
        rw [Message.frame, stands] at unknown
        cases unknown
        rfl)
    cases n with
    | zero =>
      refine iff_of_false ?_ ?_
      · rintro ⟨earlier, offset, split, none_, -⟩
        rw [List.length_eq_zero_iff.mp none_] at split
        cases split
      · rintro ⟨earlier, later, split, none_, -⟩
        rw [List.length_eq_zero_iff.mp none_] at split
        cases split
    | succ n =>
      have later := ih others n
      constructor
      · rintro ⟨earlier, offset, split, size, written⟩
        cases earlier with
        | nil => cases size
        | cons head earlier =>
          obtain ⟨earlier, rest, rfl, length, known, ending⟩ := later.mp
            ⟨earlier, offset, (List.cons.inj split).2, Nat.succ.inj size, written⟩
          refine ⟨.write command :: earlier, rest, rfl, congrArg Nat.succ length, ?_, ending⟩
          exact List.forall_mem_cons.mpr ⟨here, known⟩
      · rintro ⟨earlier, rest, split, size, known, ending⟩
        cases earlier with
        | nil => cases size
        | cons head earlier =>
          obtain ⟨earlier, offset, rfl, length, written⟩ := later.mpr
            ⟨earlier, rest, (List.cons.inj split).2, Nat.succ.inj size,
              fun message member => known message (List.mem_cons_of_mem _ member), ending⟩
          exact ⟨_ :: earlier, offset, rfl, congrArg Nat.succ length, written⟩
  | jammed many _ _ => exact absurd (sound _ List.mem_cons_self).few (not_lt.mpr many)

end SlaveReplicationClient

end CarrotDb
