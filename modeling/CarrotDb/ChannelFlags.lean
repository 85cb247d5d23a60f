import CarrotDb.Channels

/-! The mode of a subscriber. A client carries a flag and a counter beside the
entries it has in the channels. SUBSCRIBE sets the flag and counts every entry,
UNSUBSCRIBE counts down and leaves the flag, so the three agree as long as no
client subscribes to a channel again or unsubscribes from its last one. -/
namespace CarrotDb
open Resp Lockstep

/-- The channels in which a client has an entry. -/
def DB.channelsOf (db : DB) (fd : Fd) : Finset Bytes :=
  db.pubsubClients.keys.filter fun channel => fd ∈ db.subscribers channel

/-- The flag of every client tells whether it counts a channel, and it counts
the channels in which it has an entry. -/
def Session.FlagsAgree (session : Session) : Prop :=
  ∀ fd client, session.clients.lookup fd = some client →
    (client.pubSub = true ↔ 0 < client.totalSubscribedChannels) ∧
      client.totalSubscribedChannels = (session.db.channelsOf fd).card

/-- The requests that change the mode of a client. -/
def Command.OfModes : Command → Prop
  | .subscribe _ | .unSubscribe _ | .multi | .exec | .discard => True
  | _ => False

/-- A request that leaves flag, counter and entries in agreement: no SUBSCRIBE
to a channel the client is in (nor to one more than can be counted), no
UNSUBSCRIBE from its only channel (nor one that meets a client that is gone),
and no EXEC of a transaction with a SUBSCRIBE. -/
def Request.KeepsFlags (request : Request) (session : Session) : Prop :=
  ∀ client, session.clients.lookup request.fd = some client →
    match request.command with
    | .subscribe channel => client.multi = false →
      request.fd ∉ session.db.subscribers channel ∧ client.totalSubscribedChannels + 1 < 2 ^ 64
    | .unSubscribe channel => client.multi = false → client.pubSub = true →
      session.db.channelsOf request.fd ≠ {channel} ∧
        ∀ other ∈ visited request.fd (session.db.subscribers channel), request.env.alive other = true
    | .exec => client.multi = true →
      ∀ command ∈ client.queuedCommands, command.commandType ≠ .subscribe
    | _ => True

variable {db : DB} {c : Context} {rdbFilePath channel : Bytes} {envs : List Env} {fd : Fd}
  {client : Client} {effects : List Effect}

/-- What is queued in a transaction. -/
def Command.Queueable : Command → Prop
  | .subscribe _ | .unSubscribe _ | .multi => True
  | _ => False

theorem execute_queued (multi : c.client.multi = true) (queueable : c.command.Queueable) :
    execute db c rdbFilePath envs = .ok ⟨{ db with
      watchingKeys := db.watchingKeys.insert c.command.key
        ((db.watchingKeys.lookup c.command.key).getD [] ++ [c.fd]) }, c.acl,
      [.queue c.command, .reply (encodeSimpleString (ascii "QUEUED"))], none⟩ := by
  have kind : c.command.commandType ≠ .aclWhoami ∧ c.command.commandType ≠ .exec ∧
      c.command.commandType ≠ .discard := by
    cases asked : c.command <;> rw [asked] at queueable <;> first | exact queueable.elim | skip
    all_goals simp [Command.commandType]
  simp [execute, multi, kind, queueCommand]

/-- In subscribed mode MULTI, EXEC and DISCARD are refused. -/
theorem execute_refused (multi : c.client.multi = false) (listening : c.client.pubSub = true)
    (asked : c.command = .multi ∨ c.command = .exec ∨ c.command = .discard) :
    ∃ reply, execute db c rdbFilePath envs = .ok ⟨db, c.acl, [.reply reply], some c.command⟩ := by
  refine ⟨encodeError (formatError c.command.commandType), ?_⟩
  rcases asked with asked | asked | asked <;>
    simp [execute, asked, multi, listening, Command.commandType, handlePubSub, replying]

theorem execute_multi (multi : c.client.multi = false) (listening : c.client.pubSub = false)
    (asked : c.command = .multi) :
    execute db c rdbFilePath envs = .ok ⟨db, c.acl,
      [.beginTransaction, .reply (encodeSimpleString (ascii "OK"))], some c.command⟩ := by
  simp [execute, asked, multi, listening, Command.commandType, call, callSimple, handleMulti]

/-- Outside of a transaction EXEC and DISCARD are refused. -/
theorem execute_outside (multi : c.client.multi = false) (listening : c.client.pubSub = false)
    (asked : c.command = .exec ∨ c.command = .discard) :
    ∃ reply, execute db c rdbFilePath envs = .ok ⟨db, c.acl, [.reply reply], some c.command⟩ := by
  rcases asked with asked | asked
  · exact ⟨encodeError (ascii "EXEC without MULTI"), by
      simp [execute, asked, multi, listening, Command.commandType, call, handleExec, replying]⟩
  · exact ⟨encodeError (ascii "DISCARD without MULTI"), by
      simp [execute, asked, multi, listening, Command.commandType, call, callSimple, handleDiscard,
        replying]⟩

theorem execute_discard (multi : c.client.multi = true) (listening : c.client.pubSub = false)
    (asked : c.command = .discard) :
    execute db c rdbFilePath envs = .ok ⟨db, c.acl,
      [.endTransaction, .reply (encodeSimpleString (ascii "OK"))], some c.command⟩ := by
  simp [execute, asked, multi, listening, Command.commandType, call, callSimple, handleDiscard]

theorem execute_exec (multi : c.client.multi = true) (listening : c.client.pubSub = false)
    (asked : c.command = .exec) :
    execute db c rdbFilePath envs = (do
      let (db', effects) ← runQueue db c c.client.queuedCommands envs
      pure ⟨db', c.acl, .reply (encodeArrayHeader c.client.queuedCommands.length) :: effects ++
        [.endTransaction], some c.command⟩) := by
  simp only [execute, asked, multi, listening, Command.commandType, call, handleExec]
  cases runQueue db c c.client.queuedCommands envs <;> simp

/-- Effects that change neither counter nor flag of their client, and are about
it alone. -/
def Effect.Calm : Effect → Prop
  | .reply _ | .beginTransaction => True
  | _ => False

/-- A queue of UNSUBSCRIBEs, answered as PING there, and MULTIs. -/
theorem runQueue_calm {commands : List Command} (queueable : ∀ command ∈ commands, command.Queueable)
    (calm : ∀ command ∈ commands, command.commandType ≠ .subscribe)
    (enough : commands.length ≤ envs.length) :
    ∃ effects, runQueue db c commands envs = .ok (db, effects) ∧ ∀ effect ∈ effects, effect.Calm := by
  induction commands generalizing envs with
  | nil => exact ⟨[], rfl, by simp⟩
  | cons command commands ih =>
    cases envs with
    | nil => simp at enough
    | cons env envs =>
      obtain ⟨later, ran, laterCalm⟩ := @ih envs
        (fun other member => queueable other (List.mem_cons_of_mem _ member))
        (fun other member => calm other (List.mem_cons_of_mem _ member)) (by simpa using enough)
      have first : ∃ effects, callSimple db { c with env } command = .ok (db, effects) ∧
          ∀ effect ∈ effects, effect.Calm := by
        have known := queueable command List.mem_cons_self
        have other := calm command List.mem_cons_self
        cases command <;> first | exact known.elim | skip
        case subscribe => exact absurd rfl other
        case unSubscribe => exact ⟨_, rfl, by simp [Effect.Calm]⟩
        case multi => exact ⟨_, rfl, by simp [Effect.Calm]⟩
      obtain ⟨effects, called, firstCalm⟩ := first
      refine ⟨effects ++ later, ?_, ?_⟩
      · simp [runQueue, called, ran]
      · intro effect member
        rcases List.mem_append.mp member with here | there
        · exact firstCalm effect here
        · exact laterCalm effect there

/-- A queued SUBSCRIBE casts the EXEC it is run for. -/
theorem runQueue_subscribe {commands : List Command} {command : Command} {result : DB × List Effect}
    (queueable : ∀ command ∈ commands, command.Queueable) (asked : c.command = .exec)
    (member : command ∈ commands) (subscribes : command.commandType = .subscribe) :
    runQueue db c commands envs ≠ .ok result := by
  intro ran
  induction commands generalizing db envs result with
  | nil => cases member
  | cons first rest ih =>
    cases envs with
    | nil => cases ran
    | cons env envs =>
      obtain ⟨⟨db₁, effects⟩, called, ran⟩ := exec_bind_ok.mp ran
      obtain ⟨⟨db₂, later⟩, ran, -⟩ := exec_bind_ok.mp ran
      have known := queueable first List.mem_cons_self
      cases member with
      | head =>
        cases command <;> first | exact known.elim | skip
        case subscribe => simp [callSimple, handleSubscribe, asked] at called
        all_goals cases subscribes
      | tail _ inside =>
        exact ih (fun other member => queueable other (List.mem_cons_of_mem _ member)) inside ran

/-! ## One request -/

theorem mem_channelsOf : channel ∈ db.channelsOf fd ↔ fd ∈ db.subscribers channel := by
  simp only [DB.channelsOf, Finset.mem_filter, Finmap.mem_keys, and_iff_right_iff_imp]
  intro member
  unfold DB.subscribers at member
  cases lookup : db.pubsubClients.lookup channel with
  | none => simp [lookup] at member
  | some entries => exact Finmap.mem_of_lookup_eq_some lookup

/-- The channels of a client behind a change of the entries of one. -/
theorem channelsOf_insert (db : DB) (channel : Bytes) (entries : List Fd) (fd : Fd) :
    DB.channelsOf { db with pubsubClients := db.pubsubClients.insert channel entries } fd =
      if fd ∈ entries then insert channel (db.channelsOf fd) else (db.channelsOf fd).erase channel := by
  ext name
  rw [mem_channelsOf, subscribers_insert]
  by_cases same : channel = name
  · subst same
    by_cases member : fd ∈ entries <;> simp [member]
  · by_cases member : fd ∈ entries <;> simp [member, same, Ne.symm same, mem_channelsOf]

/-- The channels of a client whose entry in one is as it was. -/
theorem channelsOf_insert_same {entries : List Fd} (same : fd ∈ entries ↔ fd ∈ db.subscribers channel) :
    DB.channelsOf { db with pubsubClients := db.pubsubClients.insert channel entries } fd =
      db.channelsOf fd := by
  rw [channelsOf_insert]
  split
  · exact Finset.insert_eq_of_mem (mem_channelsOf.mpr (same.mp ‹_›))
  · exact Finset.erase_eq_of_notMem fun member => ‹fd ∉ entries› (same.mpr (mem_channelsOf.mp member))

/-- A client agrees with its entries, and its modes exclude one another. -/
structure Client.Agrees (client : Client) (channels : Finset Bytes) : Prop where
  flag : client.pubSub = true ↔ 0 < client.totalSubscribedChannels
  total : client.totalSubscribedChannels = channels.card
  bounded : client.totalSubscribedChannels < 2 ^ 64
  modes : client.multi = true → client.pubSub = false
  queued : ∀ command ∈ client.queuedCommands, command.Queueable

/-- Every client agrees, no client has two entries in a channel, and no queue
is longer than the number of requests so far. -/
structure Session.Tidy (session : Session) (longest : Nat) : Prop where
  once : ∀ channel, (session.db.subscribers channel).Nodup
  agrees : ∀ fd client, session.clients.lookup fd = some client →
    client.Agrees (session.db.channelsOf fd)
  short : ∀ fd client, session.clients.lookup fd = some client →
    client.queuedCommands.length ≤ longest

theorem Session.Tidy.flagsAgree {session : Session} {longest : Nat} (tidy : session.Tidy longest) :
    session.FlagsAgree := by
  intro fd client lookup
  have agrees := tidy.agrees fd client lookup
  exact ⟨agrees.flag, agrees.total⟩

/-- Effects about no other client. -/
def Effect.Private : Effect → Prop
  | .write .. | .dirty _ => False
  | _ => True

theorem applyEffects_other {served : Fd} (own : ∀ effect ∈ effects, effect.Private)
    (other : served ≠ fd) (client : Client) : applyEffects served fd effects client = client := by
  apply applyEffects_view id
  intro effect member target
  have alone := own effect member
  cases effect <;> first | exact alone.elim | skip
  all_goals simp only [Effect.target, Option.some.injEq, reduceCtorEq] at target
  all_goals exact absurd target other

variable {session next : Session} {longest : Nat} {request : Request} {executed : Executed}

/-- What a step leaves is tidy if it is for its own client, and the other
clients keep their entries. -/
theorem Session.Tidy.after (tidy : session.Tidy longest)
    (connected : session.clients.lookup request.fd = some client)
    (clients : next.clients = applyToClients request.fd effects session.clients)
    (own : ∀ effect ∈ effects, effect.Private)
    (once : ∀ channel, (next.db.subscribers channel).Nodup)
    (others : ∀ fd, request.fd ≠ fd → next.db.channelsOf fd = session.db.channelsOf fd)
    (agrees : (applyEffects request.fd request.fd effects client).Agrees
      (next.db.channelsOf request.fd))
    (short : (applyEffects request.fd request.fd effects client).queuedCommands.length ≤ longest + 1) :
    next.Tidy (longest + 1) := by
  have held (fd : Fd) (after : Client) (lookup : next.clients.lookup fd = some after) :
      ∃ before, session.clients.lookup fd = some before ∧
        applyEffects request.fd fd effects before = after := by
    rw [clients, lookup_applyToClients] at lookup
    exact Option.map_eq_some_iff.mp lookup
  refine ⟨once, ?_, ?_⟩
  · intro fd after lookup
    obtain ⟨before, found, rfl⟩ := held fd after lookup
    by_cases mine : request.fd = fd
    · subst mine
      rw [connected] at found
      cases found
      exact agrees
    · rw [applyEffects_other own mine, others fd mine]
      exact tidy.agrees fd before found
  · intro fd after lookup
    obtain ⟨before, found, rfl⟩ := held fd after lookup
    by_cases mine : request.fd = fd
    · subst mine
      rw [connected] at found
      cases found
      exact short
    · rw [applyEffects_other own mine]
      have := tidy.short fd before found
      omega

/-- The same where no entry changes, nor the flag and the counter of the client. -/
theorem Session.Tidy.unmoved (tidy : session.Tidy longest)
    (connected : session.clients.lookup request.fd = some client)
    (clients : next.clients = applyToClients request.fd effects session.clients)
    (own : ∀ effect ∈ effects, effect.Private)
    (entries : ∀ channel, next.db.subscribers channel = session.db.subscribers channel)
    {after : Client} (result : applyEffects request.fd request.fd effects client = after)
    (flag : after.pubSub = client.pubSub)
    (total : after.totalSubscribedChannels = client.totalSubscribedChannels)
    (modes : after.multi = true → client.pubSub = false)
    (queued : ∀ command ∈ after.queuedCommands, command.Queueable)
    (short : after.queuedCommands.length ≤ longest + 1) : next.Tidy (longest + 1) := by
  have same (fd : Fd) : next.db.channelsOf fd = session.db.channelsOf fd := by
    ext channel
    simp [mem_channelsOf, entries]
  have agrees := tidy.agrees _ client connected
  refine tidy.after connected clients own (fun channel => entries channel ▸ tidy.once channel)
    (fun fd _ => same fd) ?_ (result ▸ short)
  rw [result, same]
  constructor
  · rw [flag, total]
    exact agrees.flag
  · rw [total]
    exact agrees.total
  · rw [total]
    exact agrees.bounded
  · rw [flag]
    exact modes
  · exact queued

theorem applyEffects_reply (fd : Fd) (reply : Bytes) (client : Client) :
    applyEffects fd fd [.reply reply] client =
      { client with writeBuffer := client.writeBuffer ++ reply } := by
  simp [applyEffects, Effect.target, Effect.apply]

/-- A request that is only replied to. -/
theorem Session.Tidy.replied (tidy : session.Tidy longest)
    (connected : session.clients.lookup request.fd = some client) {reply : Bytes}
    (ran : execute session.db (session.context client request) rdbFilePath request.queue =
      .ok ⟨session.db, session.acl, [.reply reply], some request.command⟩) :
    ∃ effects next, session.step rdbFilePath request = .ok (effects, next) ∧
      next.Tidy (longest + 1) := by
  have agrees := tidy.agrees _ client connected
  have short := tidy.short _ client connected
  refine ⟨_, _, lookup_step connected ran, ?_⟩
  refine tidy.unmoved connected rfl (by simp [Effect.Private]) (fun _ => rfl)
    (applyEffects_reply _ reply client) rfl rfl agrees.modes agrees.queued ?_
  exact short.trans (Nat.le_succ _)

theorem applyEffects_calm (fd : Fd) (calm : ∀ effect ∈ effects, effect.Calm) (client : Client) :
    ∃ writeBuffer multi, applyEffects fd fd effects client = { client with writeBuffer, multi } := by
  induction effects generalizing client with
  | nil => exact ⟨client.writeBuffer, client.multi, rfl⟩
  | cons effect rest ih =>
    have here := calm effect List.mem_cons_self
    have there := ih fun other member => calm other (List.mem_cons_of_mem _ member)
    cases effect <;> first | exact here.elim | skip
    case reply bytes =>
      obtain ⟨writeBuffer, multi, later⟩ :=
        there { client with writeBuffer := client.writeBuffer ++ bytes }
      exact ⟨writeBuffer, multi, by simpa [applyEffects, Effect.target, Effect.apply] using later⟩
    case beginTransaction =>
      obtain ⟨writeBuffer, multi, later⟩ := there { client with multi := true }
      exact ⟨writeBuffer, multi, by simpa [applyEffects, Effect.target, Effect.apply] using later⟩

/-- The client behind the end of its transaction. -/
theorem applyEffects_ended (fd : Fd) (calm : ∀ effect ∈ effects, effect.Calm) (client : Client) :
    ∃ writeBuffer, applyEffects fd fd (effects ++ [.endTransaction]) client =
      { client with
        writeBuffer, queuedCommands := [], multi := false, dirty := false, pubSub := false } := by
  obtain ⟨writeBuffer, multi, same⟩ := applyEffects_calm fd calm client
  refine ⟨writeBuffer, ?_⟩
  have whole : applyEffects fd fd (effects ++ [.endTransaction]) client =
      applyEffects fd fd [.endTransaction] (applyEffects fd fd effects client) := by
    simp [applyEffects]
  rw [whole, same]
  simp [applyEffects, Effect.target, Effect.apply]

/-- SUBSCRIBE outside of a transaction. -/
theorem Session.Tidy.subscribe (rdbFilePath : Bytes) (tidy : session.Tidy longest)
    (connected : session.clients.lookup request.fd = some client) (multi : client.multi = false)
    (asked : request.command = .subscribe channel) :
    ∃ effects next, session.step rdbFilePath request = .ok (effects, next) ∧
      (request.KeepsFlags session → next.Tidy (longest + 1)) ∧
      (next.FlagsAgree → request.KeepsFlags session) := by
  obtain ⟨reply, ran⟩ := @execute_subscribe session.db (session.context client request) rdbFilePath
    channel request.queue multi asked
  have agrees := tidy.agrees _ client connected
  have result : applyEffects request.fd request.fd [.subscribe, .reply reply] client =
      { client with
        pubSub := true
        totalSubscribedChannels := u64 (client.totalSubscribedChannels + 1)
        writeBuffer := client.writeBuffer ++ reply } := by
    simp [applyEffects, Effect.target, Effect.apply]
  have channels : DB.channelsOf { session.db with
      pubsubClients := session.db.pubsubClients.insert channel
        (session.db.subscribers channel ++ [request.fd]) } request.fd =
      insert channel (session.db.channelsOf request.fd) := by
    rw [channelsOf_insert, if_pos (by simp)]
  refine ⟨_, _, lookup_step connected ran, ?_, ?_⟩
  · intro keeps
    have condition := keeps client connected
    rw [asked] at condition
    obtain ⟨absent, countable⟩ := condition multi
    have counted : u64 (client.totalSubscribedChannels + 1) = client.totalSubscribedChannels + 1 :=
      u64_of_lt countable
    refine tidy.after connected rfl (by simp [Effect.Private]) ?_ ?_ ?_ ?_
    · intro name
      rw [subscribers_insert]
      split
      · exact (tidy.once channel).append (List.nodup_singleton _)
          (by simpa [Session.context] using absent)
      · exact tidy.once name
    · intro fd other
      apply channelsOf_insert_same
      simp [Session.context, Ne.symm other]
    · rw [result]
      have fresh : channel ∉ session.db.channelsOf request.fd := fun member =>
        absent (mem_channelsOf.mp member)
      constructor
      · simp [counted]
      · simp only [Session.context, channels, Finset.card_insert_of_notMem fresh]
        rw [counted, agrees.total]
      · simp only [counted]
        exact countable
      · intro multi'
        rw [multi] at multi'
        cases multi'
      · exact agrees.queued
    · rw [result]
      exact (tidy.short _ client connected).trans (Nat.le_succ _)
  · intro agree other lookup
    rw [connected] at lookup
    cases lookup
    rw [asked]
    intro _
    have mine : (applyToClients request.fd [.subscribe, .reply reply] session.clients).lookup
        request.fd = some (applyEffects request.fd request.fd [.subscribe, .reply reply] client) := by
      rw [lookup_applyToClients, connected]
      rfl
    obtain ⟨flag, total⟩ := agree request.fd _ mine
    rw [result] at flag total
    simp only [Session.context, channels] at flag total
    have positive : 0 < u64 (client.totalSubscribedChannels + 1) := by simpa using flag
    have bounded := agrees.bounded
    constructor
    · intro member
      rw [Finset.insert_eq_of_mem (mem_channelsOf.mpr member), ← agrees.total] at total
      unfold u64 at total
      omega
    · unfold u64 at positive
      omega

/-- The client behind an UNSUBSCRIBE that has found its entry. -/
private theorem applyEffects_unsubscribe (fd : Fd) (reply : Bytes) (client : Client) :
    applyEffects fd fd [.unsubscribe, .reply reply] client =
      { client with
        totalSubscribedChannels := sub64 client.totalSubscribedChannels 1
        writeBuffer := client.writeBuffer ++ reply } := by
  simp [applyEffects, Effect.target, Effect.apply]

/-- UNSUBSCRIBE in subscribed mode, if it meets no client that is gone. -/
private theorem Session.Tidy.unSubscribed (rdbFilePath : Bytes) (tidy : session.Tidy longest)
    (connected : session.clients.lookup request.fd = some client) (multi : client.multi = false)
    (listening : client.pubSub = true) (asked : request.command = .unSubscribe channel)
    (alive : ∀ other ∈ visited request.fd (session.db.subscribers channel),
      request.env.alive other = true) :
    ∃ effects next, session.step rdbFilePath request = .ok (effects, next) ∧
      (session.db.channelsOf request.fd ≠ {channel} → next.Tidy (longest + 1)) ∧
      (next.FlagsAgree → session.db.channelsOf request.fd ≠ {channel}) := by
  obtain ⟨reply, ran⟩ := @execute_unSubscribe session.db (session.context client request)
    rdbFilePath channel request.queue multi listening asked alive
  have agrees := tidy.agrees _ client connected
  have bounded := agrees.bounded
  have positive := agrees.flag.mp listening
  have left : request.fd ∉ (session.db.subscribers channel).erase request.fd :=
    (tidy.once channel).not_mem_erase
  have channels : DB.channelsOf { session.db with
      pubsubClients := session.db.pubsubClients.insert channel
        ((session.db.subscribers channel).erase request.fd) } request.fd =
      (session.db.channelsOf request.fd).erase channel := by
    rw [channelsOf_insert, if_neg left]
  have once : ∀ name, (DB.subscribers { session.db with
      pubsubClients := session.db.pubsubClients.insert channel
        ((session.db.subscribers channel).erase request.fd) } name).Nodup := by
    intro name
    rw [subscribers_insert]
    split
    · exact (tidy.once channel).erase request.fd
    · exact tidy.once name
  have others : ∀ fd, request.fd ≠ fd → DB.channelsOf { session.db with
      pubsubClients := session.db.pubsubClients.insert channel
        ((session.db.subscribers channel).erase request.fd) } fd = session.db.channelsOf fd :=
    fun fd other => channelsOf_insert_same (List.mem_erase_of_ne (Ne.symm other))
  have short := (tidy.short _ client connected).trans (Nat.le_succ longest)
  by_cases member : request.fd ∈ session.db.subscribers channel
  · have inside := mem_channelsOf.mpr member
    have total := agrees.total
    have counted : sub64 client.totalSubscribedChannels 1 = client.totalSubscribedChannels - 1 :=
      sub64_of_le positive bounded
    have fewer := Finset.card_erase_of_mem inside
    rw [show (session.context client request).fd = request.fd from rfl, if_pos member] at ran
    have result := applyEffects_unsubscribe request.fd reply client
    refine ⟨_, _, lookup_step connected ran, ?_, ?_⟩
    · intro more
      have nonempty : 0 < ((session.db.channelsOf request.fd).erase channel).card := by
        apply Finset.card_pos.mpr
        rw [Finset.nonempty_iff_ne_empty]
        intro empty
        rcases (Finset.erase_eq_empty_iff _ _).mp empty with none_ | only
        · simp [none_] at inside
        · exact more only
      refine tidy.after connected rfl (by simp [Effect.Private]) once others ?_ ?_
      · show (applyEffects request.fd request.fd [.unsubscribe, .reply reply] client).Agrees
          (DB.channelsOf _ request.fd)
        rw [result]
        constructor
        · simp only [listening, counted, true_iff]
          omega
        · simp only [channels, counted]
          omega
        · simp only [counted]
          omega
        · exact agrees.modes
        · exact agrees.queued
      · show (applyEffects request.fd request.fd [.unsubscribe, .reply reply]
          client).queuedCommands.length ≤ longest + 1
        rw [result]
        exact short
    · intro agree only
      have mine : (applyToClients request.fd [.unsubscribe, .reply reply] session.clients).lookup
          request.fd = some (applyEffects request.fd request.fd [.unsubscribe, .reply reply] client) := by
        rw [lookup_applyToClients, connected]
        rfl
      obtain ⟨flag, -⟩ := agree request.fd _ mine
      rw [result] at flag
      simp only [listening, counted, true_iff] at flag
      rw [only, Finset.card_singleton] at total
      omega
  · have outside : session.db.channelsOf request.fd ≠ {channel} := fun only => by
      have inside : channel ∈ session.db.channelsOf request.fd := by simp [only]
      exact member (mem_channelsOf.mp inside)
    rw [show (session.context client request).fd = request.fd from rfl, if_neg member] at ran
    refine ⟨_, _, lookup_step connected ran, fun _ => ?_, fun _ => outside⟩
    refine tidy.unmoved connected rfl (by simp [Effect.Private]) ?_
      (applyEffects_reply request.fd reply client) rfl rfl agrees.modes agrees.queued short
    intro name
    rw [subscribers_insert]
    split
    · rename_i same
      rw [List.erase_of_not_mem member, same]
    · rfl

/-- A request that goes through and leaves what is tidy. -/
def Request.Goes (rdbFilePath : Bytes) (request : Request) (session : Session) (longest : Nat) : Prop :=
  ∃ effects next, session.step rdbFilePath request = .ok (effects, next) ∧ next.Tidy (longest + 1)

/-- A request inside of a transaction. -/
private theorem Session.Tidy.queued (rdbFilePath : Bytes) (tidy : session.Tidy longest)
    (about : request.command.OfModes) (connected : session.clients.lookup request.fd = some client)
    (multi : client.multi = true)
    (enough : longest ≤ request.queue.length) :
    (request.KeepsFlags session → request.Goes rdbFilePath session longest) ∧
      ∀ effects next, session.step rdbFilePath request = .ok (effects, next) →
        request.KeepsFlags session := by
  have agrees := tidy.agrees _ client connected
  have short := tidy.short _ client connected
  have silent := agrees.modes multi
  have keeps (holds : request.command = .exec →
      ∀ command ∈ client.queuedCommands, command.commandType ≠ .subscribe) :
      request.KeepsFlags session := by
    intro other lookup
    rw [connected] at lookup
    cases lookup
    split
    · exact fun plain => by simp [multi] at plain
    · exact fun plain => by simp [multi] at plain
    · exact fun _ => holds ‹_›
    · trivial
  cases asked : request.command <;> rw [asked] at about <;> first | exact about.elim | skip
  case discard =>
    refine ⟨fun _ => ⟨_, _, lookup_step connected (execute_discard multi silent asked), ?_⟩,
      fun _ _ _ => keeps (by simp [asked])⟩
    refine tidy.unmoved connected rfl (by simp [Effect.Private]) (fun _ => rfl) rfl ?_ ?_ ?_ ?_ ?_ <;>
      simp [applyEffects, Effect.target, Effect.apply, silent]
  case exec =>
    by_cases calm : ∀ command ∈ client.queuedCommands, command.commandType ≠ .subscribe
    · refine ⟨fun _ => ?_, fun _ _ _ => keeps fun _ => calm⟩
      obtain ⟨effects, ran, quiet⟩ := @runQueue_calm session.db
        (session.context client request) request.queue _ agrees.queued calm
        (short.trans enough)
      have executed := @execute_exec session.db (session.context client request) rdbFilePath
        request.queue multi silent asked
      have whole : (session.context client request).client.queuedCommands = client.queuedCommands := rfl
      rw [whole, ran, exec_ok_bind] at executed
      dsimp only at executed
      rw [exec_pure] at executed
      have quiet' : ∀ effect ∈ Effect.reply (encodeArrayHeader client.queuedCommands.length) :: effects,
          effect.Calm := by
        intro effect member
        cases member with
        | head => trivial
        | tail _ inside => exact quiet effect inside
      obtain ⟨writeBuffer, result⟩ := applyEffects_ended request.fd quiet' client
      refine ⟨_, _, lookup_step connected executed, ?_⟩
      refine tidy.unmoved connected rfl ?_ (fun _ => rfl) result silent.symm rfl ?_ ?_ ?_
      · intro effect member
        rcases List.mem_append.mp member with before | last
        · have calm := quiet' effect before
          cases effect <;> trivial
        · rw [List.mem_singleton.mp last]
          trivial
      · exact fun _ => silent
      · simp
      · simp
    · constructor
      · intro kept
        have condition := kept client connected
        rw [asked] at condition
        exact absurd (condition multi) calm
      · intro effects next stepped
        -- The SUBSCRIBE of the queue would have to be run for it.
        obtain ⟨command, member, subscribes⟩ : ∃ command ∈ client.queuedCommands,
            command.commandType = .subscribe := by
          simpa using calm
        obtain ⟨executed, ran, -⟩ := execute_of_step connected stepped
        rw [execute_exec multi silent asked] at ran
        obtain ⟨result, ran, -⟩ := exec_bind_ok.mp ran
        exact absurd ran (runQueue_subscribe agrees.queued asked member subscribes)
  all_goals
    have queueable : request.command.Queueable := by simp [asked, Command.Queueable]
    have ran := @execute_queued session.db (session.context client request) rdbFilePath
      request.queue multi queueable
    refine ⟨fun _ => ⟨_, _, lookup_step connected ran, ?_⟩, fun _ _ _ => keeps (by simp [asked])⟩
    refine tidy.unmoved connected rfl (by simp [Effect.Private]) (fun _ => rfl) rfl ?_ ?_ ?_ ?_ ?_
    · simp [applyEffects, Effect.target, Effect.apply]
    · simp [applyEffects, Effect.target, Effect.apply]
    · exact fun _ => silent
    · intro command member
      simp only [applyEffects, Effect.target, Effect.apply, List.foldl_cons, List.foldl_nil, if_true,
        List.mem_append, List.mem_singleton] at member
      rcases member with before | rfl
      · exact agrees.queued command before
      · exact queueable
    · simpa [applyEffects, Effect.target, Effect.apply] using short

/-- A request outside of transactions. -/
private theorem Session.Tidy.plain (tidy : session.Tidy longest) (about : request.command.OfModes)
    (connected : session.clients.lookup request.fd = some client) (multi : client.multi = false) :
    (request.KeepsFlags session → request.Goes rdbFilePath session longest) ∧
      ∀ effects next, session.step rdbFilePath request = .ok (effects, next) →
        next.FlagsAgree → request.KeepsFlags session := by
  have agrees := tidy.agrees _ client connected
  have short := tidy.short _ client connected
  have keeps (holds : ∀ channel, request.command = .unSubscribe channel → client.pubSub = true →
      session.db.channelsOf request.fd ≠ {channel} ∧
        ∀ other ∈ visited request.fd (session.db.subscribers channel), request.env.alive other = true)
      (other : ∀ channel, request.command ≠ .subscribe channel) : request.KeepsFlags session := by
    intro found lookup
    rw [connected] at lookup
    cases lookup
    split
    · exact absurd ‹_› (other _)
    · exact fun _ => holds _ ‹_›
    · exact fun begun => by simp [multi] at begun
    · trivial
  cases asked : request.command <;> rw [asked] at about <;> first | exact about.elim | skip
  case subscribe channel =>
    obtain ⟨effects, next, stepped, goes, agree⟩ :=
      tidy.subscribe rdbFilePath connected multi asked
    refine ⟨fun kept => ⟨effects, next, stepped, goes kept⟩, fun effects' next' stepped' => ?_⟩
    rw [stepped] at stepped'
    cases stepped'
    exact agree
  case unSubscribe channel =>
    cases listening : client.pubSub with
    | false =>
      refine ⟨fun _ => ?_, fun _ _ _ _ => keeps (by simp [listening]) (by simp [asked])⟩
      exact tidy.replied connected (execute_unSubscribe_plain multi listening asked)
    | true =>
      constructor
      · intro kept
        have condition := kept client connected
        rw [asked] at condition
        obtain ⟨more, alive⟩ := condition multi listening
        obtain ⟨effects, next, stepped, goes, -⟩ :=
          tidy.unSubscribed rdbFilePath connected multi listening asked alive
        exact ⟨effects, next, stepped, goes more⟩
      · intro effects next stepped agree
        obtain ⟨executed, ran, -⟩ := execute_of_step connected stepped
        have alive := execute_unSubscribe_gone (c := session.context client request) multi listening
          asked ran
        obtain ⟨effects', next', stepped', -, more⟩ :=
          tidy.unSubscribed rdbFilePath connected multi listening asked alive
        rw [stepped] at stepped'
        cases stepped'
        refine keeps (fun name same _ => ?_) (by simp [asked])
        rw [asked] at same
        cases same
        exact ⟨more agree, alive⟩
  all_goals
    refine ⟨fun _ => ?_, fun _ _ _ _ => keeps (by simp [asked]) (by simp [asked])⟩
    cases listening : client.pubSub
  case multi.false =>
    refine ⟨_, _, lookup_step connected (execute_multi multi listening asked), ?_⟩
    refine tidy.unmoved connected rfl (by simp [Effect.Private]) (fun _ => rfl) rfl ?_ ?_ ?_ ?_ ?_
    · simp [applyEffects, Effect.target, Effect.apply]
    · simp [applyEffects, Effect.target, Effect.apply]
    · exact fun _ => listening
    · simpa [applyEffects, Effect.target, Effect.apply] using agrees.queued
    · simpa [applyEffects, Effect.target, Effect.apply] using short.trans (Nat.le_succ longest)
  case exec.false =>
    obtain ⟨reply, ran⟩ := @execute_outside session.db (session.context client request) rdbFilePath
      request.queue multi listening (.inl asked)
    exact tidy.replied connected ran
  case discard.false =>
    obtain ⟨reply, ran⟩ := @execute_outside session.db (session.context client request) rdbFilePath
      request.queue multi listening (.inr asked)
    exact tidy.replied connected ran
  all_goals
    obtain ⟨reply, ran⟩ := @execute_refused session.db (session.context client request) rdbFilePath
      request.queue multi listening
      (by simp [Session.context, asked])
    exact tidy.replied connected ran

/-- What one request does, and when flag, counter and entries agree behind it. -/
theorem Session.Tidy.step (rdbFilePath : Bytes) (tidy : session.Tidy longest)
    (about : request.command.OfModes) (connected : session.clients.lookup request.fd = some client)
    (enough : longest ≤ request.queue.length) :
    (request.KeepsFlags session → request.Goes rdbFilePath session longest) ∧
      ∀ effects next, session.step rdbFilePath request = .ok (effects, next) →
        next.FlagsAgree → request.KeepsFlags session := by
  cases multi : client.multi with
  | true =>
    obtain ⟨goes, kept⟩ := tidy.queued rdbFilePath about connected multi enough
    exact ⟨goes, fun effects next stepped _ => kept effects next stepped⟩
  | false => exact tidy.plain about connected multi

/-! ## Runs -/

/-- Flag, counter and entries agree in every state of a run, which goes through. -/
def AgreeThroughout (rdbFilePath : Bytes) (session : Session) : List Request → Prop
  | [] => session.FlagsAgree
  | request :: requests => session.FlagsAgree ∧ ∃ effects next,
    session.step rdbFilePath request = .ok (effects, next) ∧ AgreeThroughout rdbFilePath next requests

/-- Every request of a run keeps them in agreement, in the state it comes in. -/
def KeepThroughout (rdbFilePath : Bytes) (session : Session) : List Request → Prop
  | [] => True
  | request :: requests => request.KeepsFlags session ∧ ∀ effects next,
    session.step rdbFilePath request = .ok (effects, next) → KeepThroughout rdbFilePath next requests

variable {requests : List Request} {start : Session}

private theorem agreeThroughout_iff (tidy : session.Tidy longest)
    (asked : ∀ request ∈ requests, request.command.OfModes ∧
      (session.clients.lookup request.fd).isSome ∧ longest + requests.length ≤ request.queue.length) :
    AgreeThroughout rdbFilePath session requests ↔ KeepThroughout rdbFilePath session requests := by
  induction requests generalizing session longest with
  | nil => exact iff_of_true tidy.flagsAgree trivial
  | cons request requests ih =>
    obtain ⟨about, connected, enough⟩ := asked request List.mem_cons_self
    obtain ⟨client, connected⟩ := Option.isSome_iff_exists.mp connected
    obtain ⟨goes, kept⟩ := tidy.step rdbFilePath about connected (by omega)
    have later {effects : List Effect} {next : Session} (tidy' : next.Tidy (longest + 1))
        (stepped : session.step rdbFilePath request = .ok (effects, next)) :
        AgreeThroughout rdbFilePath next requests ↔ KeepThroughout rdbFilePath next requests := by
      apply ih tidy'
      intro other member
      obtain ⟨about, connected, enough⟩ := asked other (List.mem_cons_of_mem _ member)
      rw [connected_step stepped]
      simp only [List.length_cons] at enough
      exact ⟨about, connected, by omega⟩
    constructor
    · rintro ⟨-, effects, next, stepped, agree⟩
      have agreeNext : next.FlagsAgree := by
        cases requests with
        | nil => exact agree
        | cons => exact agree.1
      have keeps := kept effects next stepped agreeNext
      obtain ⟨effects', next', stepped', tidy'⟩ := goes keeps
      rw [stepped] at stepped'
      cases stepped'
      refine ⟨keeps, fun effects' next' stepped' => ?_⟩
      rw [stepped] at stepped'
      cases stepped'
      exact (later tidy' stepped).mp agree
    · rintro ⟨keeps, rest⟩
      obtain ⟨effects, next, stepped, tidy'⟩ := goes keeps
      exact ⟨tidy.flagsAgree, effects, next, stepped, (later tidy' stepped).mpr (rest _ _ stepped)⟩

/-- In a run of SUBSCRIBE, UNSUBSCRIBE, MULTI, EXEC and DISCARD by any clients,
flag, counter and entries of every client agree in every state exactly if every
request keeps them in agreement. -/
theorem flags_agree_iff (fresh : start.Fresh)
    (asked : ∀ request ∈ requests, request.command.OfModes ∧
      (start.clients.lookup request.fd).isSome ∧ requests.length ≤ request.queue.length) :
    AgreeThroughout rdbFilePath start requests ↔ KeepThroughout rdbFilePath start requests := by
  have nobody : ∀ channel, start.db.subscribers channel = [] := by
    intro channel
    simp [DB.subscribers, fresh.channels]
  have tidy : start.Tidy 0 := by
    refine ⟨by simp [nobody], fun fd client lookup => ?_, fun fd client lookup => ?_⟩
    · obtain ⟨multi, pubSub, total, queue⟩ := fresh.clients fd client lookup
      have channels : start.db.channelsOf fd = ∅ := by
        ext channel
        simp [mem_channelsOf, nobody]
      exact ⟨by simp [pubSub, total], by simp [total, channels], by simp [total], by simp [multi],
        by simp [queue]⟩
    · simp [(fresh.clients fd client lookup).2.2.2]
  apply agreeThroughout_iff tidy
  simpa using asked

/-- A client takes two channels and leaves one of them, and another begins a
transaction. -/
def channelRun : List Request :=
  [(6, Command.subscribe (ascii "c")), (6, .subscribe (ascii "d")), (5, .multi),
    (6, .unSubscribe (ascii "c"))].map fun asked =>
      ⟨asked.1, asked.2, Context.sample.env, List.replicate 4 Context.sample.env⟩

theorem flags_agree_channels : AgreeThroughout [] twoClients channelRun := by
  apply (flags_agree_iff twoClients_fresh ?_).mpr
  · refine ⟨?_, fun effects next ran => ?_⟩
    · intro client lookup _
      cases lookup
      exact ⟨List.not_mem_nil, by simp⟩
    cases ran
    refine ⟨?_, fun effects next ran => ?_⟩
    · intro client lookup _
      cases lookup
      exact ⟨by decide +kernel, by decide +kernel⟩
    cases ran
    refine ⟨fun _ _ => trivial, fun effects next ran => ?_⟩
    cases ran
    refine ⟨?_, fun _ _ _ => trivial⟩
    intro client lookup _ _
    exact ⟨by decide +kernel, by decide +kernel⟩
  · intro request member
    fin_cases member <;> exact ⟨trivial, rfl, le_refl 4⟩

/-- SUBSCRIBE and UNSUBSCRIBE for one channel: the flag stays. -/
theorem unsubscribe_leaves_flag :
    ∃ outputs session client,
      run (Session.step []) twoClients [.sample 6 (.subscribe (ascii "c")),
        .sample 6 (.unSubscribe (ascii "c"))] = .ok (outputs, session) ∧
      session.clients.lookup 6 = some client ∧ client.pubSub = true ∧
      client.totalSubscribedChannels = 0 ∧ ¬ session.FlagsAgree := by
  refine ⟨_, _, _, rfl, rfl, rfl, rfl, ?_⟩
  intro agree
  obtain ⟨flag, -⟩ := agree 6 _ rfl
  exact absurd (flag.mp rfl) (lt_irrefl 0)

end CarrotDb
