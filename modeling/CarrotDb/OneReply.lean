import CarrotDb.DbNeeds
import CarrotDb.WakeUps

/-! One command, one reply. A client that is in no mode gets one complete
reply to a command that does not make it wait, unless the command is silent on
the value it finds, answers once for each parameter, or serves its own client
as one that waited. -/
namespace CarrotDb
open Resp Listpack

variable {db db' : DB} {c : Context} {effects first second : List Effect} {fd : Fd} {key : Bytes}
  {rdbFilePath : Bytes} {envs : List Env}

/-- Effects that write to no client send the served one what is replied. -/
theorem Own.appended (own : Own effects) : appended fd fd effects = repliedBytes effects := by
  induction effects with
  | nil => rfl
  | cons effect rest ih =>
    obtain ⟨here, later⟩ := own.tail
    have rest_ := ih later
    rw [CarrotDb.appended] at rest_
    rw [repliedBytes] at rest_
    rw [CarrotDb.appended, repliedBytes, List.flatMap_cons, List.flatMap_cons, rest_]
    cases effect with
    | reply bytes =>
      dsimp only
      rw [if_pos rfl]
    | write other bytes => exact here.elim
    | _ => rfl

/-- What is written to a client, one reply at a time. -/
theorem replies_written {written : List (Fd × Bytes)} (each : ∀ one ∈ written, Reply one.2) :
    Replies ((written.filter fun one => one.1 = fd).map Prod.snd)
      (written.flatMap fun one => if one.1 = fd then one.2 else []) := by
  induction written with
  | nil => exact replies_nil
  | cons one rest ih =>
    have later := ih fun other member => each other (List.mem_cons_of_mem _ member)
    rw [List.flatMap_cons]
    by_cases same : one.1 = fd
    · rw [List.filter_cons_of_pos (by exact decide_eq_true same), if_pos same]
      exact (replies_single (each one List.mem_cons_self)).append later
    · rw [List.filter_cons_of_neg (by simpa using same), if_neg same, List.nil_append]
      exact later

/-- Replies of the served client's own, and then what it is written. -/
theorem replies_appended {written : List (Fd × Bytes)} (own : Own first)
    (answer : Reply (repliedBytes first)) (silent : repliedBytes second = [])
    (writes_ : writes second = written) (each : ∀ one ∈ written, Reply one.2) :
    Replies (repliedBytes first :: (written.filter fun one => one.1 = fd).map Prod.snd)
      (appended fd fd (first ++ second)) := by
  rw [appended_append, own.appended, appended_writes fun _ => silent, writes_]
  exact (replies_single answer).append (replies_written each)

/-- The same with what is written in front. -/
theorem replies_appended' {written : List (Fd × Bytes)} (own : Own second)
    (answer : Reply (repliedBytes second)) (silent : repliedBytes first = [])
    (writes_ : writes first = written) (each : ∀ one ∈ written, Reply one.2) :
    Replies ((written.filter fun one => one.1 = fd).map Prod.snd ++ [repliedBytes second])
      (appended fd fd (first ++ second)) := by
  rw [appended_append, own.appended, appended_writes fun _ => silent, writes_]
  exact (replies_written each).append (replies_single answer)

theorem one_of_replies {rs : List Bytes} {bytes : Bytes} (replies : Replies rs bytes) :
    Reply bytes ↔ rs.length = 1 := by
  constructor
  · intro reply
    rw [replies_unique replies (replies_single reply)]
    rfl
  · intro single
    obtain ⟨one, rfl⟩ := List.length_eq_one_iff.mp single
    rw [replies.2, List.flatten_singleton]
    exact replies.1 one List.mem_cons_self

private theorem nobody_iff {written : List (Fd × Bytes)} :
    (written.filter fun one => one.1 = fd).length = 0 ↔ fd ∉ written.map Prod.fst := by
  rw [List.length_eq_zero_iff, List.filter_eq_nil_iff, List.mem_map]
  constructor
  · rintro none_ ⟨one, member, same⟩
    exact none_ one member (decide_eq_true same)
  · intro none_ one member same
    exact none_ ⟨one, member, of_decide_eq_true same⟩

theorem repliedBytes_handOver (handed : List (Fd × Bytes)) : repliedBytes (handOver handed) = [] := by
  induction handed with
  | nil => rfl
  | cons one rest ih => exact ih

theorem repliedBytes_deliver (env : Env) (frame : Bytes) (subscribers : List Fd) :
    repliedBytes (deliver env frame subscribers) = [] := by
  induction subscribers with
  | nil => rfl
  | cons fd rest ih =>
    rw [deliver, List.flatMap_cons, repliedBytes_append]
    rw [deliver] at ih
    rw [ih]
    split <;> rfl

/-- A push serves its own client a second time when that is the one that
waits at the front. -/
theorem handlePush_one {isPrepend : Bool} {values : List Bytes} {command : Command}
    (wakes : command.wakes db c = if values = [] then [] else
      (((queueOf db.blockedKeys key).take 1).map BlockedClient.clientFd).filter c.env.alive)
    (ran : handlePush db c isPrepend key values = .ok (db', effects)) :
    Reply (appended c.fd c.fd effects) ↔ c.fd ∉ command.wakes db c := by
  by_cases plain : queueOf db.blockedKeys key = [] ∨ values = []
  · rw [handlePush_plain plain] at ran
    obtain ⟨⟨db₁, len⟩, -, ran⟩ := exec_bind_ok.mp ran
    cases ran
    have nobody : command.wakes db c = [] := by
      rw [wakes]
      rcases plain with empty | empty
      · rw [empty]
        exact ite_self _
      · rw [if_pos empty]
    have own := own_append (own_dirty db' c.env key) (own_reply (encodeInteger len))
    rw [nobody, own.appended, repliedBytes_append, repliedBytes_dirty, List.nil_append, repliedBytes,
      List.flatMap_singleton]
    exact iff_of_true (reply_integer _) List.not_mem_nil
  · obtain ⟨held, nonempty⟩ := not_or.mp plain
    obtain ⟨blocked, queue, waiting⟩ := List.exists_cons_of_ne_nil held
    obtain ⟨value, rest, rfl⟩ := List.exists_cons_of_ne_nil nonempty
    rw [handlePush_waiter waiting] at ran
    obtain ⟨⟨db₁, len⟩, -, ran⟩ := exec_bind_ok.mp ran
    cases ran
    rw [if_neg nonempty, waiting] at wakes
    have count : encodeInteger ((value :: rest).length : Nat) =
        repliedBytes [.reply (encodeInteger ((value :: rest).length : Nat))] := by
      rw [repliedBytes, List.flatMap_singleton]
    have answer := reply_integer ((value :: rest).length : Nat)
    rw [count] at answer
    by_cases alive : c.env.alive blocked.clientFd = true
    · have woken : command.wakes db c =
          [(blocked.clientFd, encodeBulkStringArray [key, value])].map Prod.fst := by
        rw [wakes]
        exact List.filter_cons_of_pos alive
      rw [if_pos alive, woken, ← nobody_iff]
      have replies := @replies_appended' [.write blocked.clientFd (encodeBulkStringArray [key, value]),
        .unblock blocked.clientFd] _ c.fd [(blocked.clientFd, encodeBulkStringArray [key, value])]
        (own_reply _) answer rfl rfl fun one member => by
          rw [List.mem_singleton.mp member]
          exact reply_bulkStringArray _
      rw [one_of_replies replies, List.length_append, List.length_map, List.length_singleton]
      exact Nat.succ_inj
    · have woken : command.wakes db c = [] := by
        rw [wakes]
        exact List.filter_cons_of_neg alive
      rw [if_neg alive, woken, List.nil_append, (own_reply _).appended]
      exact iff_of_true answer List.not_mem_nil

/-- XADD serves its own client a second time when that waits for the stream. -/
theorem handleXadd_one {streamId : Bytes} {fieldValues : List (Bytes × Bytes)}
    (ran : handleXadd db c key streamId fieldValues = .ok (db', effects)) :
    Reply (appended c.fd c.fd effects) ↔
      c.fd ∉ (Command.xadd key streamId fieldValues).wakes db c := by
  rcases (handleXadd_hands ran).1 with ⟨reply, formed, rfl, nobody⟩ |
    ⟨text, watched, handed, rfl, each, wakes⟩
  · rw [nobody, (own_reply reply).appended, repliedBytes, List.flatMap_singleton]
    exact iff_of_true formed List.not_mem_nil
  · have answer : Reply (repliedBytes (.reply (encodeBulkString text) ::
        markWatchingClientsDirty watched c.env key)) := by
      rw [← List.singleton_append, repliedBytes_append, repliedBytes_dirty, List.append_nil,
        repliedBytes, List.flatMap_singleton]
      exact .bulk text
    have replies := @replies_appended _ _ c.fd handed
      (own_append (own_reply (encodeBulkString text)) (own_dirty watched c.env key)) answer
      (repliedBytes_handOver handed) (writes_handOver handed) each
    rw [wakes, ← nobody_iff]
    refine (one_of_replies replies).trans ?_
    rw [List.length_cons, List.length_map]
    exact Nat.succ_inj

/-- PUBLISH serves its own client a second time when that listens. -/
theorem handlePublish_one {channelName message : Bytes} (asked : c.command = .publish channelName message)
    (ran : handlePublish db c = .ok (db', effects)) :
    Reply (appended c.fd c.fd effects) ↔
      c.fd ∉ (queueOf db.pubsubClients channelName).filter c.env.alive := by
  have shape : effects = deliver c.env
      (encodeBulkStringArray [ascii "message", channelName, message])
      (queueOf db.pubsubClients channelName) ++
        [.reply (encodeInteger ((queueOf db.pubsubClients channelName).filter c.env.alive).length)] := by
    rw [handlePublish, asked] at ran
    cases ran
    rfl
  have answer := reply_integer ((queueOf db.pubsubClients channelName).filter c.env.alive).length
  have replies := @replies_appended' _ _ c.fd _ (own_reply _)
    (by rw [repliedBytes, List.flatMap_singleton]; exact answer)
    (repliedBytes_deliver c.env (encodeBulkStringArray [ascii "message", channelName, message])
      (queueOf db.pubsubClients channelName)) (writes_deliver _ _ _) fun one member => by
        obtain ⟨other, -, rfl⟩ := List.mem_map.mp member
        exact reply_bulkStringArray _
  rw [shape]
  refine (one_of_replies replies).trans ?_
  rw [List.length_append, List.length_map, List.length_singleton, Nat.add_eq_right, nobody_iff,
    List.map_map, Function.comp_def, List.map_id'']
  exact fun _ => rfl

/-! ## Commands that only answer -/

/-- GET and TYPE are silent on some types. A key whose time has come holds a
string, so none of them is about to expire. -/
theorem handleGetOrType_one {isTypeCommand : Bool} (timed : db.Timed)
    (ran : handleGetOrType db c isTypeCommand key = .ok (db', effects)) :
    Reply (appended c.fd c.fd effects) ↔ ∀ object, db.store.lookup key = some object →
      object.type = .string ∨ isTypeCommand = true ∧ object.type = .stream := by
  obtain ⟨-, own, answer⟩ := handleGetOrType_ordinary ran
  rw [own.appended]
  constructor
  · intro reply object lookup
    by_contra other
    obtain ⟨notString, notStream⟩ := not_or.mp other
    rw [handleGetOrType] at ran
    obtain ⟨db₁, expired, -, same | ⟨-, held, lookup', isString⟩⟩ :=
      timed.expireIfDue c.env.clock.steady key
    · subst same
      rw [expired, exec_ok_bind, lookup] at ran
      dsimp only at ran
      have silent : effects = [] := by
        split at ran
        · exact absurd ‹_› notString
        · split at ran
          · exact absurd ⟨‹_›, ‹_›⟩ notStream
          · cases ran
            rfl
        · cases ran
          rfl
      rw [silent] at reply
      exact reply_ne_nil reply rfl
    · rw [lookup] at lookup'
      cases lookup'
      exact notString isString
  · intro speaks
    refine answer.resolve_right ?_
    rintro ⟨⟨object, lookup, notString, notStream⟩, -⟩
    rcases speaks object lookup with isString | ⟨isType, isStream⟩
    · exact notString isString
    · exact notStream isType isStream

/-- A command that serves nobody and does not wait replies once. -/
theorem Conduct.one {command : Command} (conduct : Conduct db c command effects)
    (nobody : command.wakes db c = []) (goesOn : command.waits db c = false)
    (plain : ∀ channelName message, c.command ≠ .publish channelName message)
    (speaks : ¬ Unanswered db c command) : Reply (appended c.fd c.fd effects) := by
  cases conduct with
  | answer own answer =>
    rw [own.appended]
    exact answer.resolve_right fun silent => speaks silent.1
  | wait _ waits => exact absurd (goesOn.symm.trans waits) Bool.false_ne_true
  | wake ownBefore ownAfter answer _ wakes =>
    rw [nobody] at wakes
    rw [List.map_eq_nil_iff.mp wakes.symm, handOver, List.flatMap_nil, List.append_nil,
      (own_append ownBefore ownAfter).appended]
    exact answer
  | publish asked => exact absurd asked (plain _ _)

/-! ## One command, one reply -/

/-- The command runs to an end, so reads no key that is missing, and appends
one complete reply to the write buffer of its client. -/
def OneReply (db : DB) (c : Context) (rdbFilePath : Bytes) (envs : List Env) : Prop :=
  ∃ executed, execute db c rdbFilePath envs = .ok executed ∧
    Reply (appended c.fd c.fd executed.effects)

/-- A command has something to reply: GET finds a string, TYPE a string or a
stream, and CONFIG GET is asked for the directory once. -/
def Command.Speaks (db : DB) : Command → Prop
  | .get key => ∀ object, db.store.lookup key = some object → object.type = .string
  | .type key => ∀ object, db.store.lookup key = some object →
    object.type = .string ∨ object.type = .stream
  | .getConfig parameters => (parameters.filter fun p => isEqual p (ascii "dir")).length = 1
  | _ => True

/-- A command does not serve its own client as one that waited or listens. -/
def Command.Apart (db : DB) (c : Context) : Command → Prop
  | .publish channelName _ => c.fd ∉ (queueOf db.pubsubClients channelName).filter c.env.alive
  | command => c.fd ∉ command.wakes db c

/-- A command is answered once. -/
structure Command.Answered (db : DB) (c : Context) (command : Command) : Prop where
  speaks : command.Speaks db
  finds : command.Finds db
  apart : command.Apart db c
  defined : command.Defined db c

/-- The commands that are called with nothing before or behind. -/
def Command.Direct : Command → Prop
  | .exec | .getConfig _ | .aclSetUser .. | .auth .. | .aclWhoami => False
  | _ => True

theorem callSimple_one {command : Command} (timed : db.Timed) (asked : c.command = command)
    (goesOn : command.waits db c = false) (direct : command.Direct)
    (ran : callSimple db c command = .ok (db', effects)) :
    Reply (appended c.fd c.fd effects) ↔ command.Speaks db ∧ command.Apart db c := by
  have conduct := callSimple_conduct ran
  have plain (calm : ∀ channelName message, command ≠ .publish channelName message)
      (speaks : ¬ Unanswered db c command) (nobody : command.wakes db c = []) :
      Reply (appended c.fd c.fd effects) :=
    conduct.one nobody goesOn (fun channelName message same =>
      calm channelName message (asked ▸ same)) speaks
  cases command <;> first | exact absurd direct id | skip
  case get key =>
    refine (handleGetOrType_one timed ran).trans ?_
    constructor
    · intro speaks
      refine ⟨fun object lookup => ?_, List.not_mem_nil⟩
      exact (speaks object lookup).resolve_right fun stream => Bool.false_ne_true stream.1
    · exact fun both object lookup => .inl (both.1 object lookup)
  case type key =>
    refine (handleGetOrType_one timed ran).trans ?_
    constructor
    · exact fun speaks => ⟨fun object lookup => (speaks object lookup).imp_right And.right,
        List.not_mem_nil⟩
    · exact fun both object lookup => (both.1 object lookup).imp_right fun stream => ⟨rfl, stream⟩
  case rpush => exact (handlePush_one rfl ran).trans (and_iff_right trivial).symm
  case lpush => exact (handlePush_one rfl ran).trans (and_iff_right trivial).symm
  case xadd => exact (handleXadd_one ran).trans (and_iff_right trivial).symm
  case publish => exact (handlePublish_one asked ran).trans (and_iff_right trivial).symm
  case keys pattern =>
    refine iff_of_true (plain (by intro _ _ same; cases same) (fun silent => ?_) rfl)
      ⟨trivial, List.not_mem_nil⟩
    exact silent pattern asked
  all_goals
    exact iff_of_true (plain (by intro _ _ same; cases same) (fun silent => silent) rfl)
      ⟨trivial, List.not_mem_nil⟩

/-- A client in no mode has its command called. -/
theorem execute_direct (multi : c.client.multi = false) (pubSub : c.client.pubSub = false)
    (direct : c.command.Direct) :
    execute db c rdbFilePath envs = (do
      let outcome ← callSimple db c c.command
      pure ⟨outcome.1, c.acl, outcome.2, some c.command⟩) := by
  rw [execute]
  dsimp only
  have known : ¬ (c.command.commandType = .aclWhoami ∧ (!c.client.isAuthenticated) = true) := by
    rintro ⟨type, -⟩
    cases named : c.command <;> rw [named] at type direct <;> first | exact False.elim direct | cases type
  rw [if_neg known, multi, pubSub, if_neg fun queued => Bool.false_ne_true queued.1,
    if_neg Bool.false_ne_true]
  cases named : c.command <;> rw [named] at direct <;> first | rfl | exact absurd direct id

private theorem reply_single {bytes : Bytes} (reply : Reply bytes) :
    Reply (appended fd fd [.reply bytes]) := by
  rw [(own_reply bytes).appended, repliedBytes, List.flatMap_singleton]
  exact reply

private theorem reply_auth (username password : Bytes) :
    Reply (appended fd fd (handleAuth c username password)) := by
  have accepted : Reply (appended fd fd
      [.authenticate username, .reply (encodeSimpleString (ascii "OK"))]) :=
    reply_single (reply_simpleString (by decide))
  have refused : Reply (appended fd fd [.reply (encodeError
      (ascii "invalid username-password pair or user is disabled") (ascii "WRONGPASS"))]) :=
    reply_single (reply_error (by decide) (by decide))
  rw [handleAuth]
  split
  · exact refused
  · split
    · exact refused
    · split
      · exact accepted
      · split
        · exact accepted
        · exact refused

/-- What the other commands do to their client. -/
theorem execute_apart (multi : c.client.multi = false) (pubSub : c.client.pubSub = false)
    (apart : ¬ c.command.Direct) :
    ∃ executed, execute db c rdbFilePath envs = .ok executed ∧
      (Reply (appended c.fd c.fd executed.effects) ↔ c.command.Speaks db) := by
  cases named : c.command <;> rw [named] at apart <;> first | exact absurd trivial apart | skip
  case exec =>
    refine ⟨⟨db, c.acl, [.reply (encodeError (ascii "EXEC without MULTI"))], some .exec⟩, ?_, ?_⟩
    · simp [execute, named, multi, pubSub, call, handleExec, replying, Command.commandType]
    · exact iff_of_true (reply_single (reply_error (by decide) (by decide))) trivial
  case getConfig parameters =>
    let reply : Bytes := encodeArrayHeader 2 ++ encodeBulkString (ascii "dir") ++
      encodeBulkString rdbFilePath
    let asked := parameters.filter fun p => isEqual p (ascii "dir")
    refine ⟨⟨db, c.acl, asked.map fun _ => .reply reply, some (.getConfig parameters)⟩, ?_, ?_⟩
    · simp [execute, named, multi, pubSub, handleGetConfig, Command.commandType, reply, asked]
    · have pair : Reply reply := by
        have both := reply_array ((replies_single (.bulk (ascii "dir"))).append
          (replies_single (.bulk rdbFilePath))) rfl
        rwa [← List.append_assoc] at both
      have own : Own (asked.map fun _ => .reply reply) := fun effect member => by
        obtain ⟨_, -, rfl⟩ := List.mem_map.mp member
        trivial
      have replies : Replies (asked.map fun _ => reply)
          (appended c.fd c.fd (asked.map fun _ => .reply reply)) := by
        refine ⟨fun r member => ?_, ?_⟩
        · obtain ⟨_, -, rfl⟩ := List.mem_map.mp member
          exact pair
        · rw [own.appended, repliedBytes, List.flatMap_map, List.flatMap_def]
      refine (one_of_replies replies).trans ?_
      rw [List.length_map]
      exact Iff.rfl
  case aclSetUser username password flags =>
    refine ⟨⟨db, (handleAclSetuser c username password).1,
      [.reply (encodeSimpleString (ascii "OK"))], some (.aclSetUser username password flags)⟩, ?_, ?_⟩
    · simp [execute, named, multi, pubSub, handleAclSetuser, Command.commandType]
    · exact iff_of_true (reply_single (reply_simpleString (by decide))) trivial
  case auth username password =>
    refine ⟨⟨db, c.acl, handleAuth c username password, some (.auth username password)⟩, ?_, ?_⟩
    · simp [execute, named, multi, pubSub, Command.commandType]
    · exact iff_of_true (reply_auth username password) trivial
  case aclWhoami =>
    cases known : c.client.isAuthenticated with
    | false =>
      refine ⟨⟨db, c.acl, [.reply (encodeError (ascii "Authentication required.") (ascii "NOAUTH"))],
        some .aclWhoami⟩, ?_, ?_⟩
      · simp [execute, named, known, Command.commandType]
      · exact iff_of_true (reply_single (reply_error (by decide) (by decide))) trivial
    | true =>
      refine ⟨⟨db, c.acl, [.reply (encodeBulkString (c.client.user.getD (ascii "default")))],
        some .aclWhoami⟩, ?_, ?_⟩
      · simp [execute, named, multi, pubSub, known, Command.commandType, call, callSimple,
          handleAclWhoami, replying]
      · exact iff_of_true (reply_single (.bulk _)) trivial

/-- In every reachable database and for every client in neither mode, a
command that does not wait is replied to once exactly when it has something to
reply, finds the keys it reads, does not serve its own client, and stays within
the defined behaviour. -/
theorem replies_once_iff (reached : db.Reachable) (multi : c.client.multi = false)
    (pubSub : c.client.pubSub = false) (goesOn : c.command.waits db c = false) :
    OneReply db c rdbFilePath envs ↔ c.command.Answered db c := by
  have sound := reachable_sound reached
  have timed := reachable_timed reached
  have stands : ∀ key set, db.HasSortedSet key set → set.Stands :=
    fun key set holds => holds.stands reached
  by_cases direct : c.command.Direct
  · rw [OneReply, execute_direct multi pubSub direct]
    constructor
    · rintro ⟨executed, ran, reply⟩
      obtain ⟨⟨db', effects⟩, called, ran⟩ := exec_bind_ok.mp ran
      cases ran
      obtain ⟨speaks, apart⟩ := (callSimple_one timed rfl goesOn direct called).mp reply
      have tagged := reachable_objects listTagged_kept listTagged_pushed reached
      exact ⟨speaks, finds_of_runs ⟨_, called⟩, apart,
        defined_of_runs sound tagged stands rfl ⟨_, called⟩⟩
    · rintro ⟨speaks, finds, apart, defined⟩
      have simple : c.command ≠ .exec := fun same => by rw [same] at direct; exact direct
      obtain ⟨⟨db', effects⟩, called⟩ :=
        callSimple_runs sound timed stands defined finds goesOn rfl simple
      refine ⟨_, by rw [called]; rfl, ?_⟩
      exact (callSimple_one timed rfl goesOn direct called).mpr ⟨speaks, apart⟩
  · obtain ⟨executed, ran, once⟩ := @execute_apart db c rdbFilePath envs multi pubSub direct
    have others : c.command.Finds db ∧ c.command.Apart db c ∧ c.command.Defined db c := by
      cases named : c.command <;> rw [named] at direct <;>
        first | exact absurd trivial direct | exact ⟨trivial, List.not_mem_nil, trivial⟩
    constructor
    · rintro ⟨executed', ran', reply⟩
      rw [ran] at ran'
      cases ran'
      exact ⟨once.mp reply, others.1, others.2.1, others.2.2⟩
    · exact fun answered => ⟨executed, ran, once.mpr answered.speaks⟩

/-- INCR of a missing key. -/
theorem replies_once_iff_incr :
    OneReply {} { Context.sample with command := .incr (ascii "k") } [] [] :=
  (@replies_once_iff {} { Context.sample with command := .incr (ascii "k") } [] [] .empty rfl rfl
    rfl).mpr ⟨trivial, trivial, List.not_mem_nil, fun _ _ _ missing => nomatch missing⟩

/-- A push to a list, and then a GET of it. -/
def getPushed : Exec (Executed × Executed) := do
  let pushed ← execute {} { Context.sample with command := .rpush (ascii "l") [ascii "a"] } [] []
  let got ← execute pushed.db { Context.sample with command := .get (ascii "l") } [] []
  pure (pushed, got)

/-- GET of a list is not replied to. -/
theorem get_is_silent : ¬ ∀ db : DB, db.Reachable → ∀ (c : Context) rdbFilePath envs,
    c.client.multi = false → c.client.pubSub = false →
    (∃ buffer parsed, parseCommand buffer = .ok parsed ∧ parsed.command = c.command) →
    c.command.waits db c = false → OneReply db c rdbFilePath envs := by
  intro claim
  have computed : getPushed.toOption.any (fun pair => pair.2.effects.isEmpty) = true := by
    decide +kernel
  cases ran : getPushed with
  | error fault =>
    rw [ran] at computed
    cases computed
  | ok pair =>
    rw [ran] at computed
    obtain ⟨pushed, pushing, ran⟩ := exec_bind_ok.mp ran
    obtain ⟨got, getting, ran⟩ := exec_bind_ok.mp ran
    cases ran
    have silent : got.effects = [] := List.isEmpty_iff.mp computed
    have read := exec_getD ⟨.ping, 0, []⟩ (by decide +kernel :
      (parseCommand (encodeBulkStringArray [ascii "GET", ascii "l"])).isOk = true)
    obtain ⟨executed, again, reply⟩ := claim pushed.db (.executed .empty pushing)
      { Context.sample with command := .get (ascii "l") } [] [] rfl rfl
      ⟨_, _, read, rfl⟩ rfl
    rw [getting] at again
    cases again
    rw [silent] at reply
    exact reply_ne_nil reply rfl

end CarrotDb
