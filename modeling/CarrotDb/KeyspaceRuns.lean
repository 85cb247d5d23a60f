import CarrotDb.ChannelFlags
import CarrotDb.KeyspaceHandlers
import CarrotDb.Lib.Refinement
import CarrotDb.OneReply

/-! The server refines the keyspace. Whatever clients ask, in transactions and
outside, every one of them is sent what the keyspace answers it, as long as the
keyspace declines nothing, and the database keeps the keyspace. -/
namespace CarrotDb
open Resp Listpack Lockstep Refinement

variable {db db' : DB} {c : Context} {keyspace keyspace' : Keyspace} {key answer : Bytes}
  {after : Option Binding} {effects : List Effect}

/-- A database that keeps a keyspace, and in which no client waits. -/
structure DB.Represents (db : DB) (keyspace : Keyspace) : Prop where
  binds : ∀ key, db.Binds key (keyspace.lookup key)
  idle : ∀ key, db.blockedKeys.lookup key = none
  idleXread : ∀ key, db.blockedXreadKeys.lookup key = none

theorem represents_empty : DB.Represents {} ∅ where
  binds := fun _ => ⟨rfl, rfl⟩
  idle := fun _ => rfl
  idleXread := fun _ => rfl

theorem Settled.represents (settled : Settled db key after answer db' effects)
    (represents : db.Represents keyspace) : db'.Represents (place keyspace key after) where
  binds := fun other => by
    by_cases here : other = key
    · subst here
      rw [lookup_place]
      exact settled.binds
    · rw [lookup_place_ne _ _ here]
      exact (represents.binds other).congr (settled.store other here) (settled.expiration other here)
  idle := fun other => settled.blockedKeys ▸ represents.idle other
  idleXread := fun other => settled.blockedXreadKeys ▸ represents.idleXread other

section
variable {object : RedisObject} {stream : Stream} {text : Bytes} {rest : List (Bytes × Bytes)}
  {before : List (Bytes × List (Bytes × Bytes))}

/-- A key that holds no stream is passed over. -/
theorem collectReplies_untyped (lookup : db.store.lookup key = some object)
    (tag : object.type ≠ .stream) :
    collectReplies db c none ((key, text) :: rest) before = collectReplies db c none rest before := by
  conv_lhs => unfold collectReplies
  rw [lookup]
  dsimp only
  rw [if_neg fun both => Bool.false_ne_true both.1]
  split
  · rename_i same _
    exact absurd same tag
  · rfl

/-- So is a stream with nothing behind the text, and another one is read. -/
theorem collectReplies_reads (lookup : db.store.lookup key = some object)
    (tag : object.type = .stream) (pointer : object.streamPtr = some stream) :
    collectReplies db c none ((key, text) :: rest) before = collectReplies db c none rest
      (before ++ if (stream.xrangeData text (ascii "+") true).getD [] = [] then []
        else [(key, (stream.xrangeData text (ascii "+") true).getD [])]) := by
  conv_lhs => unfold collectReplies
  rw [lookup]
  dsimp only
  rw [if_neg fun both => Bool.false_ne_true both.1, tag, pointer]
  dsimp only
  rcases stream.xrangeData text (ascii "+") true with _ | _ | ⟨entry, entries⟩ <;> simp

end

/-- The entries of a reading as they are stored. -/
def storedReplies (replies : List (Bytes × List (StreamID × List (Bytes × Bytes)))) :
    List (Bytes × List (Bytes × Bytes)) :=
  replies.map fun reply => (reply.1, (storedLog reply.2).pairs)

theorem collectReplies_read (represents : db.Represents keyspace) {pairs : List (Bytes × Bytes)}
    {replies : List (Bytes × List (StreamID × List (Bytes × Bytes)))}
    (read : Keyspace.readBehind keyspace pairs = .ok replies) :
    (∀ before, collectReplies db c none pairs before =
      .ok (.inl (before ++ storedReplies replies))) ∧
    encodeReplies (storedReplies replies) = .ok (replies.flatMap fun (key, entries) =>
      encodeArrayHeader 2 ++ encodeBulkString key ++ encodeRange entries) := by
  induction pairs generalizing replies with
  | nil =>
    cases read
    exact ⟨fun before => by rw [collectReplies, storedReplies, List.map_nil, List.append_nil]; rfl, rfl⟩
  | cons pair rest ih =>
    obtain ⟨key, text⟩ := pair
    have binds := represents.binds key
    rw [Keyspace.readBehind] at read
    cases bound : keyspace.lookup key with
    | none =>
      rw [bound] at read
      cases read
    | some binding =>
      rw [bound] at read binds
      cases later : Keyspace.readBehind keyspace rest with
      | error declined =>
        rw [later] at read
        cases read
      | ok found =>
        obtain ⟨collected, encoded⟩ := ih later
        rw [later] at read
        have same := Except.ok.inj read
        obtain ⟨value, deadline⟩ := binding
        obtain ⟨⟨object, lookup, kept⟩, -⟩ := binds
        cases value with
        | stream entries =>
          obtain ⟨tag, stream, pointer, keeps⟩ := kept
          have behind := entriesBehind_logs keeps text
          have written := encodeEntries_keeps keeps (@entriesBehind_among text entries)
          change (if Keyspace.entriesBehind text entries = [] then found else
            (key, Keyspace.entriesBehind text entries) :: found) = replies at same
          generalize Keyspace.entriesBehind text entries = part at same behind written
          by_cases nothing : part = []
          · rw [if_pos nothing] at same
            subst nothing same
            refine ⟨fun before => ?_, encoded⟩
            have none : (storedLog []).pairs = [] := rfl
            rw [collectReplies_reads lookup tag pointer, behind, if_pos none, List.append_nil, collected]
          · rw [if_neg nothing] at same
            subst same
            refine ⟨fun before => ?_, ?_⟩
            · rw [collectReplies_reads lookup tag pointer, behind,
                if_neg fun empty => nothing (pairs_nil empty), collected, storedReplies, storedReplies,
                List.map_cons, List.append_assoc, List.singleton_append]
            · show encodeReplies ((key, (storedLog part).pairs) :: storedReplies found) = _
              rw [encodeReplies, written, exec_ok_bind, encoded, exec_ok_bind, exec_pure]
              simp [encodeRange, Log.pairs, storedLog]
        | text bytes | list xs | scores isGeo scores =>
          have passes : Keyspace.entriesBehind text [] = [] := by
            rw [Keyspace.entriesBehind]
            split <;> rfl
          change (if Keyspace.entriesBehind text [] = [] then found else
            (key, Keyspace.entriesBehind text []) :: found) = replies at same
          rw [if_pos passes] at same
          subst same
          have tag : object.type ≠ .stream := by rw [kept.type]; simp [Value.type]
          exact ⟨fun before => by rw [collectReplies_untyped lookup tag, collected], encoded⟩

theorem xread_refines (represents : db.Represents keyspace) {keys ids : List Bytes}
    (read : Keyspace.xread keyspace keys ids = .ok answer) :
    handleXread db c none keys ids = replying db answer := by
  rw [Keyspace.xread] at read
  rw [handleXread]
  split at read
  · rename_i uneven
    cases read
    rw [if_pos uneven]
  · rename_i even
    rw [if_neg even]
    cases found : Keyspace.readBehind keyspace (keys.zip ids) with
    | error declined =>
      rw [found] at read
      cases read
    | ok replies =>
      rw [found] at read
      cases read
      obtain ⟨collected, encoded⟩ := @collectReplies_read db c keyspace represents _ _ found
      rw [collected, exec_ok_bind, List.nil_append]
      cases replies with
      | nil => rfl
      | cons reply rest =>
        have size : (storedReplies (reply :: rest)).length = (reply :: rest).length := List.length_map _
        rw [Keyspace.encodeRead, ← size]
        show (do replying db (encodeArrayHeader (storedReplies (reply :: rest)).length ++
          (← encodeReplies (storedReplies (reply :: rest))))) = _
        rw [encoded, exec_ok_bind]

/-! ## One command -/

/-- What the keyspace says of a command, the database does. -/
theorem step_refines {command : Command} (represents : db.Represents keyspace)
    (calm : c.client.pubSub = false)
    (asked : Keyspace.ofRequest command = true → c.command = command)
    (stepped : Keyspace.step c.env.ndebug keyspace c.env.clock command = .ok (answer, keyspace')) :
    ∃ db' effects, callSimple db c command = .ok (db', effects) ∧ Tells answer effects ∧
      db'.Represents keyspace' := by
  unfold Keyspace.step at stepped
  split at stepped
  · cases stepped
    refine ⟨db, [.reply (encodeSimpleString (ascii "PONG"))], ?_, tells_one _, represents⟩
    rw [callSimple, handlePing, calm]
    rfl
  · cases stepped
    exact ⟨db, _, rfl, tells_one _, represents⟩
  · rename_i keys ids
    cases read : Keyspace.xread keyspace keys ids with
    | error declined =>
      rw [read] at stepped
      cases stepped
    | ok bytes =>
      rw [read] at stepped
      cases stepped
      exact ⟨db, _, xread_refines represents read, tells_one _, represents⟩
  · split at stepped
    · rename_i key about
      cases reacted : Keyspace.react (keyspace.lookup key) c.env.ndebug c.env.clock command with
      | error declined =>
        rw [reacted] at stepped
        cases stepped
      | ok reaction =>
        obtain ⟨bytes, after⟩ := reaction
        rw [reacted] at stepped
        cases stepped
        obtain ⟨db', effects, ran, settled⟩ := react_settles (represents.binds key)
          (represents.idle key) (represents.idleXread key) asked about reacted
        exact ⟨db', effects, ran, settled.replies, settled.represents represents⟩
    · cases stepped

/-- Behind EXEC the commands of sorted sets are refused. -/
theorem callSimple_ofRequest {command : Command} (exec : c.command = .exec)
    (refused : Keyspace.ofRequest command = true) :
    callSimple db c command = replying db invalidCommandType := by
  cases command <;> first | (cases refused; done) | skip
  case zadd => rw [callSimple, handleZadd, exec]
  case zrank => rw [callSimple, handleZrank, exec]
  case zrange => rw [callSimple, handleZrange, exec]
  case zcard => rw [callSimple, handleZcard, exec]
  case zscore => rw [callSimple, handleZscore, exec]
  case zrem => rw [callSimple, handleZrem, exec]
  case geoAdd => rw [callSimple, handleGeoadd, exec]
  case geoPos => rw [callSimple, handleGeopos, exec]
  case geoDist => rw [callSimple, handleGeodist, exec]
  case geoSearch => rw [callSimple, handleGeosearch, exec]

theorem carryOut_refines {command : Command} (represents : db.Represents keyspace)
    (calm : c.client.pubSub = false) (asked : c.command = .exec)
    (stepped : Keyspace.carryOut c.env.ndebug keyspace c.env.clock command = .ok (answer, keyspace')) :
    ∃ db' effects, callSimple db c command = .ok (db', effects) ∧ Tells answer effects ∧
      db'.Represents keyspace' := by
  rw [Keyspace.carryOut] at stepped
  split at stepped
  · rename_i refused
    cases stepped
    exact ⟨db, _, callSimple_ofRequest asked refused, tells_one _, represents⟩
  · rename_i carried
    exact step_refines represents calm (fun refused => absurd refused carried) stepped

/-- The commands of a transaction, all at once. -/
theorem exec_refines {commands : List Command} {envs : List Env}
    {ndebug : Bool} (represents : db.Represents keyspace) (built : ∀ env ∈ envs, env.ndebug = ndebug)
    (calm : c.client.pubSub = false) (asked : c.command = .exec)
    (ran : Keyspace.exec ndebug keyspace commands (envs.map Env.clock) = .ok (answer, keyspace')) :
    ∃ db' effects, runQueue db c commands envs = .ok (db', effects) ∧ Tells answer effects ∧
      db'.Represents keyspace' := by
  induction commands generalizing db keyspace answer envs with
  | nil =>
    cases ran
    exact ⟨db, [], rfl, tells_nil, represents⟩
  | cons command commands ih =>
    cases envs with
    | nil => cases ran
    | cons env envs =>
      have later := fun other member => built other (List.mem_cons_of_mem env member)
      obtain rfl := built env List.mem_cons_self
      rw [List.map_cons, Keyspace.exec] at ran
      cases stepped : Keyspace.carryOut env.ndebug keyspace env.clock command with
      | error declined =>
        rw [stepped] at ran
        cases ran
      | ok result =>
        obtain ⟨bytes, between⟩ := result
        rw [stepped] at ran
        cases rest : Keyspace.exec env.ndebug between commands (envs.map Env.clock) with
        | error declined =>
          simp [bind, Except.bind, rest] at ran
        | ok result =>
          obtain ⟨more, last⟩ := result
          simp only [bind, Except.bind, rest, Except.ok.injEq, Prod.mk.injEq] at ran
          obtain ⟨rfl, rfl⟩ := ran
          obtain ⟨db₁, effects, called, replies, represents₁⟩ :=
            @carryOut_refines db { c with env } keyspace between bytes command represents calm
              asked stepped
          obtain ⟨db', effects', queue, replies', represents'⟩ := ih represents₁ later rest
          refine ⟨db', effects ++ effects', ?_, replies.append replies', represents'⟩
          rw [runQueue, called, exec_ok_bind]
          dsimp only
          rw [queue, exec_ok_bind]
          rfl

/-! ## Clients -/

/-- The commands a client has queued, if it is in a transaction. -/
def Client.queued (client : Client) : Option (List Command) :=
  if client.multi then some client.queuedCommands else none

/-- What is to be seen of a client. -/
def Client.party (client : Client) : Party := ⟨client.writeBuffer, client.queued⟩

/-- A client that listens to no channel and has queued nothing outside of a
transaction. -/
structure Client.Plain (client : Client) : Prop where
  pubSub : client.pubSub = false
  queue : client.multi = false → client.queuedCommands = []

/-- A session that shows its clients a world. -/
structure Session.Shows (session : Session) (world : World) : Prop where
  db : session.db.Represents world.keyspace
  parties : ∀ fd, (session.clients.lookup fd).map Client.party = world.parties.lookup fd
  plain : ∀ fd client, session.clients.lookup fd = some client → client.Plain

/-- What a request asks of the world. -/
def Request.asks (request : Request) : World.Asked :=
  ⟨request.fd, request.command, request.env.clock, request.queue.map Env.clock⟩

/-- A request to a build with assertions, or to one without. -/
def Request.BuiltAs (ndebug : Bool) (request : Request) : Prop :=
  request.env.ndebug = ndebug ∧ ∀ env ∈ request.queue, env.ndebug = ndebug

/-- Replies and marks: the served client gets the bytes. -/
theorem applyEffects_tells (replies : Tells answer effects) (served fd : Fd) (client : Client) :
    ∃ dirty, applyEffects served fd effects client = { client with
      dirty, writeBuffer := client.writeBuffer ++ if served = fd then answer else [] } := by
  obtain ⟨rfl, quiet⟩ := replies
  induction effects generalizing client with
  | nil => exact ⟨client.dirty, by simp [applyEffects, repliedBytes]⟩
  | cons effect rest ih =>
    have later := fun client => ih client fun other member => quiet other (List.mem_cons_of_mem _ member)
    have step : applyEffects served fd (effect :: rest) client = applyEffects served fd rest
        (if effect.target served = some fd then effect.apply client else client) := rfl
    rw [step]
    rcases quiet effect List.mem_cons_self with ⟨bytes, rfl⟩ | ⟨marked, rfl⟩
    · simp only [Effect.target, Option.some.injEq]
      by_cases here : served = fd
      · obtain ⟨dirty, applied⟩ := later { client with writeBuffer := client.writeBuffer ++ bytes }
        refine ⟨dirty, ?_⟩
        rw [if_pos here]
        refine applied.trans ?_
        simp [here, repliedBytes]
      · obtain ⟨dirty, applied⟩ := later client
        exact ⟨dirty, by rw [if_neg here, applied, if_neg here, if_neg here]⟩
    · have silent : repliedBytes (.dirty marked :: rest) = repliedBytes rest := rfl
      simp only [silent, Effect.target, Option.some.injEq]
      by_cases here : marked = fd
      · obtain ⟨dirty, applied⟩ := later { client with dirty := true }
        exact ⟨dirty, by rw [if_pos here]; exact applied⟩
      · obtain ⟨dirty, applied⟩ := later client
        exact ⟨dirty, by rw [if_neg here, applied]⟩

/-- What a request of the keyspace does besides: it replies, marks clients, and
begins, fills or ends the transaction of its own. -/
def Effect.Modest : Effect → Prop
  | .reply _ | .dirty _ | .beginTransaction | .endTransaction | .queue _ => True
  | _ => False

theorem Tells.modest (replies : Tells answer effects) : ∀ effect ∈ effects, effect.Modest := by
  intro effect member
  rcases replies.quiet effect member with ⟨bytes, rfl⟩ | ⟨fd, rfl⟩ <;> trivial

/-- Other clients see marks at most. -/
theorem applyEffects_modest {served fd : Fd} (modest : ∀ effect ∈ effects, effect.Modest)
    (other : fd ≠ served) (client : Client) :
    ∃ dirty, applyEffects served fd effects client = { client with dirty } := by
  induction effects generalizing client with
  | nil => exact ⟨client.dirty, rfl⟩
  | cons effect rest ih =>
    have later := ih fun effect member => modest effect (List.mem_cons_of_mem _ member)
    have step : applyEffects served fd (effect :: rest) client = applyEffects served fd rest
        (if effect.target served = some fd then effect.apply client else client) := rfl
    have own : ¬ some served = some fd := fun same => other (Option.some.inj same).symm
    rw [step]
    have here := modest effect List.mem_cons_self
    cases effect with
    | dirty marked =>
      simp only [Effect.target, Option.some.injEq]
      by_cases marks : marked = fd
      · obtain ⟨dirty, applied⟩ := later { client with dirty := true }
        exact ⟨dirty, by rw [if_pos marks]; exact applied⟩
      · rw [if_neg marks]
        exact later client
    | reply bytes | beginTransaction | endTransaction | queue command =>
      simp only [Effect.target, own, if_false]
      exact later client
    | _ => exact here.elim

theorem applyEffects_append (served fd : Fd) (first second : List Effect) (client : Client) :
    applyEffects served fd (first ++ second) client =
      applyEffects served fd second (applyEffects served fd first client) :=
  List.foldl_append

variable {session : Session} {world world' : World} {request : Request} {client : Client}
  {rdbFilePath : Bytes} {ndebug : Bool}

/-- A request that was carried out: what is left shows the clients the new
world, if its own client is as that world has it. -/
theorem Session.Shows.next (shows : session.Shows world)
    (connected : session.clients.lookup request.fd = some client) {executed : Executed}
    (represents : executed.db.Represents keyspace')
    (modest : ∀ effect ∈ executed.effects, effect.Modest)
    {own : Client} (applied : applyEffects request.fd request.fd executed.effects client = own)
    (plain : own.Plain) :
    Session.Shows ⟨executed.db, executed.acl,
        applyToClients request.fd executed.effects session.clients⟩
      ⟨keyspace', world.parties.insert request.fd own.party⟩ where
  db := represents
  parties := fun fd => by
    dsimp only
    rw [lookup_applyToClients]
    by_cases here : fd = request.fd
    · subst here
      rw [connected, Finmap.lookup_insert, Option.map_some, Option.map_some, applied]
    · rw [Finmap.lookup_insert_of_ne _ here, ← shows.parties fd]
      cases session.clients.lookup fd with
      | none => rfl
      | some other =>
        obtain ⟨dirty, marked⟩ := applyEffects_modest modest here other
        rw [Option.map_some, Option.map_some, Option.map_some, marked]
        rfl
  plain := fun fd other lookup => by
    dsimp only at lookup
    rw [lookup_applyToClients] at lookup
    by_cases here : fd = request.fd
    · subst here
      rw [connected, Option.map_some, applied] at lookup
      cases lookup
      exact plain
    · cases held : session.clients.lookup fd with
      | none =>
        rw [held] at lookup
        cases lookup
      | some before =>
        obtain ⟨dirty, marked⟩ := applyEffects_modest modest here before
        rw [held, Option.map_some, marked] at lookup
        cases lookup
        have kept := shows.plain fd before held
        exact ⟨kept.pubSub, kept.queue⟩

/-- What a request comes to: it is executed, its client is told the answer and
is left in the transaction, and the database keeps the new keyspace. -/
structure Carried (session : Session) (rdbFilePath : Bytes) (request : Request) (client : Client)
    (answer : Bytes) (keyspace' : Keyspace) (transaction : Option (List Command))
    (executed : Executed) : Prop where
  ran : execute session.db (session.context client request) rdbFilePath request.queue = .ok executed
  represents : executed.db.Represents keyspace'
  modest : ∀ effect ∈ executed.effects, effect.Modest
  replied : repliedBytes executed.effects = answer
  party : (applyEffects request.fd request.fd executed.effects client).party =
    ⟨client.writeBuffer ++ answer, transaction⟩
  plain : (applyEffects request.fd request.fd executed.effects client).Plain

/-- A command whose replies go out as they are. -/
theorem carried_tells {own : Option Command} (multi : client.multi = false) (plain : client.Plain)
    (ran : execute session.db (session.context client request) rdbFilePath request.queue =
      .ok ⟨db', session.acl, effects, own⟩)
    (replies : Tells answer effects) (represents : db'.Represents keyspace') :
    Carried session rdbFilePath request client answer keyspace' none
      ⟨db', session.acl, effects, own⟩ := by
  obtain ⟨dirty, applied⟩ := applyEffects_tells replies request.fd request.fd client
  rw [if_pos rfl] at applied
  refine ⟨ran, represents, replies.modest, replies.replied, ?_, ?_⟩
  · simp only [applied, Client.party, Client.queued, multi]
    rfl
  · rw [applied]
    exact ⟨plain.pubSub, plain.queue⟩

/-- What the keyspace answers is called with nothing before or behind. -/
theorem direct_of_step {command : Command} {clock : Clock} {result : Bytes × Keyspace}
    (stepped : Keyspace.step ndebug keyspace clock command = .ok result) (other : command ≠ .exec) :
    command.Direct := by
  cases command <;> trivial

theorem plain_carried {transaction : Option (List Command)}
    (represents : session.db.Represents keyspace) (plain : client.Plain)
    (built : request.BuiltAs ndebug) (multi : client.multi = false)
    (asked : World.plain ndebug keyspace request.asks = .ok (answer, keyspace', transaction)) :
    ∃ executed, Carried session rdbFilePath request client answer keyspace' transaction executed := by
  unfold World.plain at asked
  split at asked
  · rename_i command
    cases asked
    have applied : applyEffects request.fd request.fd
        [.beginTransaction, .reply (encodeSimpleString (ascii "OK"))] client = { client with
          multi := true, writeBuffer := client.writeBuffer ++ encodeSimpleString (ascii "OK") } := by
      simp [applyEffects, Effect.target, Effect.apply]
    refine ⟨_, @execute_multi session.db (session.context client request) _ _ multi plain.pubSub
      command, represents, by simp [Effect.Modest], rfl, ?_, ?_⟩
    · dsimp only
      rw [applied]
      simp [Client.party, Client.queued, plain.queue multi]
    · dsimp only
      rw [applied]
      exact ⟨plain.pubSub, fun closed => absurd closed.symm Bool.false_ne_true⟩
  · rename_i command
    cases asked
    have ran : execute session.db (session.context client request) rdbFilePath request.queue =
        .ok ⟨session.db, session.acl, [.reply (encodeError (ascii "EXEC without MULTI"))],
          some request.command⟩ := by
      have asked : request.command = .exec := command
      simp [execute, Session.context, asked, multi, plain.pubSub, Command.commandType, call,
        handleExec, replying]
    exact ⟨_, carried_tells multi plain ran (tells_one _) represents⟩
  · rename_i command
    cases asked
    have ran : execute session.db (session.context client request) rdbFilePath request.queue =
        .ok ⟨session.db, session.acl, [.reply (encodeError (ascii "DISCARD without MULTI"))],
          some request.command⟩ := by
      have asked : request.command = .discard := command
      simp [execute, Session.context, asked, multi, plain.pubSub, Command.commandType, call,
        callSimple, handleDiscard, replying]
    exact ⟨_, carried_tells multi plain ran (tells_one _) represents⟩
  · rename_i other _
    cases stepped : Keyspace.step ndebug keyspace request.asks.clock request.asks.command with
    | error declined =>
      rw [stepped] at asked
      cases asked
    | ok result =>
      obtain ⟨bytes, between⟩ := result
      rw [stepped] at asked
      cases asked
      obtain ⟨rfl, -⟩ := built
      obtain ⟨db', effects, called, replies, represents⟩ := @step_refines session.db
        (session.context client request) _ _ _ request.command represents plain.pubSub
        (fun _ => rfl) stepped
      have ran : execute session.db (session.context client request) rdbFilePath request.queue =
          .ok ⟨db', session.acl, effects, some request.command⟩ := by
        rw [@execute_direct session.db (session.context client request) _ _ multi plain.pubSub
          (direct_of_step stepped other), show (session.context client request).command =
          request.command from rfl, called]
        rfl
      exact ⟨_, carried_tells multi plain ran replies represents⟩

/-- What a transaction has queued, and the watcher it has become, nobody sees. -/
theorem represents_queueCommand (represents : db.Represents keyspace) :
    (queueCommand db c).1.Represents keyspace :=
  ⟨fun key => (represents.binds key).congr rfl rfl, represents.idle, represents.idleXread⟩

theorem commandType_queueable {command : Command} (exec : command ≠ .exec)
    (discard : command ≠ .discard) (whoami : command ≠ .aclWhoami) :
    command.commandType ≠ .exec ∧ command.commandType ≠ .discard ∧
      command.commandType ≠ .aclWhoami := by
  cases command <;> simp_all [Command.commandType]

theorem queued_carried {commands : List Command} {transaction : Option (List Command)}
    (represents : session.db.Represents keyspace) (plain : client.Plain)
    (built : request.BuiltAs ndebug) (multi : client.multi = true) (queue : client.queuedCommands = commands)
    (asked : World.queued ndebug keyspace commands request.asks = .ok (answer, keyspace', transaction)) :
    ∃ executed, Carried session rdbFilePath request client answer keyspace' transaction executed := by
  unfold World.queued at asked
  split at asked
  · rename_i command
    cases ran : Keyspace.exec ndebug keyspace commands request.asks.clocks with
    | error declined =>
      rw [ran] at asked
      cases asked
    | ok result =>
      obtain ⟨answers, between⟩ := result
      rw [ran] at asked
      cases asked
      obtain ⟨db', effects, queued, replies, represents⟩ := @exec_refines session.db
        (session.context client request) _ _ _ commands request.queue _ represents built.2
        plain.pubSub command ran
      have executes : execute session.db (session.context client request) rdbFilePath request.queue =
          .ok ⟨db', session.acl, .reply (encodeArrayHeader commands.length) :: effects ++
            [.endTransaction], some request.command⟩ := by
        rw [@execute_exec session.db (session.context client request) _ _ multi plain.pubSub command]
        have same : (session.context client request).client.queuedCommands = commands := queue
        rw [same, queued]
        rfl
      have headed := (tells_one (encodeArrayHeader commands.length)).append replies
      obtain ⟨dirty, applied⟩ := applyEffects_tells headed request.fd request.fd client
      have ended : applyEffects request.fd request.fd
          (.reply (encodeArrayHeader commands.length) :: effects ++ [.endTransaction]) client =
          { client with
            writeBuffer := client.writeBuffer ++ (encodeArrayHeader commands.length ++ answers)
            queuedCommands := [], multi := false, dirty := false, pubSub := false } := by
        rw [applyEffects_append]
        refine (congrArg _ applied).trans ?_
        rw [if_pos rfl]
        simp [applyEffects, Effect.target, Effect.apply]
      refine ⟨_, executes, represents, ?_, ?_, ?_, ?_⟩
      · intro effect member
        rcases List.mem_append.mp member with before | last
        · exact headed.modest effect before
        · rw [List.mem_singleton.mp last]
          trivial
      · show repliedBytes ([.reply (encodeArrayHeader commands.length)] ++ effects ++
          [.endTransaction]) = _
        rw [repliedBytes_append, headed.replied]
        exact List.append_nil _
      · dsimp only
        rw [ended]
        rfl
      · dsimp only
        rw [ended]
        exact ⟨rfl, fun _ => rfl⟩
  · rename_i command
    cases asked
    have ended : applyEffects request.fd request.fd
        [.endTransaction, .reply (encodeSimpleString (ascii "OK"))] client = { client with
          writeBuffer := client.writeBuffer ++ encodeSimpleString (ascii "OK")
          queuedCommands := [], multi := false, dirty := false, pubSub := false } := by
      simp [applyEffects, Effect.target, Effect.apply]
    refine ⟨_, @execute_discard session.db (session.context client request) _ _ multi plain.pubSub
      command, represents, by simp [Effect.Modest], rfl, ?_, ?_⟩
    · dsimp only
      rw [ended]
      rfl
    · dsimp only
      rw [ended]
      exact ⟨rfl, fun _ => rfl⟩
  · cases asked
  · rename_i notExec notDiscard notWhoami
    cases asked
    have kind : request.command.commandType ≠ .exec ∧ request.command.commandType ≠ .discard ∧
        request.command.commandType ≠ .aclWhoami :=
      commandType_queueable notExec notDiscard notWhoami
    have ran : execute session.db (session.context client request) rdbFilePath request.queue =
        .ok ⟨(queueCommand session.db (session.context client request)).1, session.acl,
          [.queue request.command, .reply (encodeSimpleString (ascii "QUEUED"))], none⟩ := by
      simp [execute, Session.context, kind, multi, queueCommand]
    have applied : applyEffects request.fd request.fd
        [.queue request.command, .reply (encodeSimpleString (ascii "QUEUED"))] client = { client with
          queuedCommands := commands ++ [request.command]
          writeBuffer := client.writeBuffer ++ encodeSimpleString (ascii "QUEUED") } := by
      simp [applyEffects, Effect.target, Effect.apply, queue]
    refine ⟨_, ran, represents_queueCommand represents, by simp [Effect.Modest], rfl, ?_, ?_⟩
    · dsimp only
      rw [applied]
      simp only [Client.party, Client.queued, multi, Request.asks]
      rfl
    · dsimp only
      rw [applied]
      exact ⟨plain.pubSub, fun closed => absurd (multi.symm.trans closed) Bool.noConfusion⟩

/-- A request of a client that is as the world has it: it is carried out. -/
theorem asked_carried {party : Party} (represents : session.db.Represents world.keyspace)
    (plain : client.Plain) (built : request.BuiltAs ndebug) (queued : client.queued = party.queued)
    (known : world.parties.lookup request.fd = some party)
    (stepped : World.step ndebug world request.asks = .ok (answer, world')) :
    ∃ keyspace' transaction executed,
      Carried session rdbFilePath request client answer keyspace' transaction executed ∧
      world' = ⟨keyspace', world.parties.insert request.fd ⟨party.inbox ++ answer, transaction⟩⟩ := by
  have asking : world.parties.lookup request.asks.fd = some party := known
  rw [World.step, asking] at stepped
  dsimp only at stepped
  rw [← queued, Client.queued] at stepped
  cases multi : client.multi with
  | false =>
    rw [multi, if_neg Bool.false_ne_true] at stepped
    dsimp only at stepped
    cases answered : World.plain ndebug world.keyspace request.asks with
    | error declined =>
      rw [answered] at stepped
      cases stepped
    | ok result =>
      obtain ⟨bytes, keyspace', transaction⟩ := result
      rw [answered] at stepped
      cases stepped
      obtain ⟨executed, carried⟩ := plain_carried represents plain built multi answered
      exact ⟨keyspace', transaction, executed, carried, rfl⟩
  | true =>
    rw [multi, if_pos rfl] at stepped
    dsimp only at stepped
    cases answered : World.queued ndebug world.keyspace client.queuedCommands request.asks with
    | error declined =>
      rw [answered] at stepped
      cases stepped
    | ok result =>
      obtain ⟨bytes, keyspace', transaction⟩ := result
      rw [answered] at stepped
      cases stepped
      obtain ⟨executed, carried⟩ := queued_carried represents plain built multi rfl answered
      exact ⟨keyspace', transaction, executed, carried, rfl⟩

/-- A request is answered as the world has it. -/
theorem session_refines (rdbFilePath : Bytes) (ndebug : Bool) :
    Refines (fun world session => Session.Shows session world)
      (fun answer effects => repliedBytes effects = answer) Request.asks (Request.BuiltAs ndebug)
      (World.step ndebug) (Session.step rdbFilePath) := by
  intro world session request answer world' shows built stepped
  have known := (shows.parties request.fd).symm
  cases connected : session.clients.lookup request.fd with
  | none =>
    rw [connected] at known
    have nobody : world.parties.lookup request.asks.fd = none := known
    rw [World.step, nobody] at stepped
    cases stepped
    exact ⟨[], session, by rw [Session.step, connected]; rfl, rfl, shows⟩
  | some client =>
    rw [connected] at known
    have plain := shows.plain _ _ connected
    obtain ⟨keyspace', transaction, executed, carried, rfl⟩ :=
      @asked_carried answer session world world' request client rdbFilePath ndebug client.party
        shows.db plain built rfl known stepped
    have next := shows.next connected carried.represents carried.modest rfl carried.plain
    rw [carried.party] at next
    refine ⟨_, _, ?_, carried.replied, next⟩
    rw [Session.step, connected]
    dsimp only
    rw [carried.ran]
    rfl

/-- Whatever clients ask, if the keyspace declines none of it, the server
answers each of them what the keyspace does, and is left showing them the
same world. -/
theorem keyspace_served (rdbFilePath : Bytes) (ndebug : Bool) {requests : List Request} {answers : List Bytes}
    (shows : session.Shows world) (built : ∀ request ∈ requests, request.BuiltAs ndebug)
    (told : run (World.step ndebug) world (requests.map Request.asks) = .ok (answers, world')) :
    ∃ outputs session', run (Session.step rdbFilePath) session requests = .ok (outputs, session') ∧
      List.Forall₂ (fun answer effects => repliedBytes effects = answer) answers outputs ∧
      session'.Shows world' :=
  (session_refines rdbFilePath ndebug).run shows built told

/-- Two clients of an empty keyspace. -/
def World.empty : World := ⟨∅, (Finmap.singleton 5 { inbox := [] }).insert 6 { inbox := [] }⟩

/-- Their session. -/
def Session.empty : Session where
  db := {}
  acl := .new
  clients := (Finmap.singleton 5 {}).insert 6 {}

private theorem lookup_singleton_ne {β : Type} {fd other : Fd} {value : β} (different : fd ≠ other) :
    (Finmap.singleton other value : Map Fd β).lookup fd = none :=
  Finmap.lookup_eq_none.mpr fun member => different ((Finmap.mem_singleton fd other value).mp member)

theorem shows_empty : Session.empty.Shows World.empty where
  db := represents_empty
  parties := fun fd => by
    rw [Session.empty, World.empty]
    by_cases six : fd = 6
    · subst six
      rfl
    · rw [Finmap.lookup_insert_of_ne _ six, Finmap.lookup_insert_of_ne _ six]
      by_cases five : fd = 5
      · subst five
        rfl
      · rw [lookup_singleton_ne five, lookup_singleton_ne five]
        rfl
  plain := fun fd client lookup => by
    rw [Session.empty] at lookup
    have new : client = {} := by
      by_cases six : fd = 6
      · subst six
        exact (Option.some.inj lookup).symm
      · rw [Finmap.lookup_insert_of_ne _ six] at lookup
        by_cases five : fd = 5
        · subst five
          exact (Option.some.inj lookup).symm
        · rw [lookup_singleton_ne five] at lookup
          cases lookup
    subst new
    exact ⟨rfl, fun _ => rfl⟩

/-- One client pops in a transaction what the other one has pushed. -/
def popping : List Request :=
  let env := Context.sample.env
  [⟨5, .rpush (ascii "k") [ascii "a", ascii "b"], env, []⟩, ⟨6, .multi, env, []⟩,
    ⟨6, .lpop (ascii "k") none, env, []⟩, ⟨5, .llen (ascii "k"), env, []⟩, ⟨6, .exec, env, [env]⟩]

theorem keyspace_served_pop : ∃ outputs session' world',
    run (Session.step []) Session.empty popping = .ok (outputs, session') ∧
    List.Forall₂ (fun answer effects => repliedBytes effects = answer)
      [encodeInteger 2, encodeSimpleString (ascii "OK"), encodeSimpleString (ascii "QUEUED"),
        encodeInteger 2, encodeArrayHeader 1 ++ encodeBulkString (ascii "a")] outputs ∧
    session'.Shows world' := by
  have replied : (run (World.step false) .empty (popping.map Request.asks)).map Prod.fst =
      .ok [encodeInteger 2, encodeSimpleString (ascii "OK"), encodeSimpleString (ascii "QUEUED"),
        encodeInteger 2, encodeArrayHeader 1 ++ encodeBulkString (ascii "a")] := by decide +kernel
  cases asked : run (World.step false) .empty (popping.map Request.asks) with
  | error declined =>
    rw [asked] at replied
    cases replied
  | ok result =>
    obtain ⟨answers, world'⟩ := result
    rw [asked] at replied
    cases replied
    obtain ⟨outputs, session', ran, told, shows⟩ := keyspace_served [] false shows_empty
      (by simp [popping, Request.BuiltAs, Context.sample]) asked
    exact ⟨outputs, session', world', ran, told, shows⟩

end CarrotDb
