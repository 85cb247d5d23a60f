import CarrotDb.DbWaiting
import CarrotDb.ExpiredKeys

/-! Publish and subscribe. A channel is the list of entries of its subscribers,
in the order of their requests, so what PUBLISH delivers is read off the
requests before it: one message for each entry. SUBSCRIBE adds an entry whether
the client has one or not, and UNSUBSCRIBE takes one out. -/
namespace CarrotDb
open Resp Lockstep

/-- The entries of a channel. -/
def DB.subscribers (db : DB) (channel : Bytes) : List Fd := (db.pubsubClients.lookup channel).getD []

/-- What PUBLISH writes to a subscriber. -/
def messageFrame (channel message : Bytes) : Bytes :=
  encodeBulkStringArray [ascii "message", channel, message]

variable {db : DB} {c : Context} {rdbFilePath channel : Bytes} {envs : List Env} {fd : Fd}

/-- The entries that a search for a client visits. -/
def visited (fd : Fd) (entries : List Fd) : List Fd := entries.take (entries.idxOf fd + 1)

theorem visited_cons (fd other : Fd) (entries : List Fd) :
    visited fd (other :: entries) = other :: if other = fd then [] else visited fd entries := by
  by_cases same : other = fd
  · simp [visited, same]
  · simp [visited, same, List.idxOf_cons_ne]

/-- The search of UNSUBSCRIBE goes through if it meets no client that is gone,
and takes out the first entry of its client. -/
theorem removeSubscriber_ok (env : Env) (fd : Fd) (entries : List Fd)
    (alive : ∀ other ∈ visited fd entries, env.alive other = true) :
    removeSubscriber env fd entries = .ok (if fd ∈ entries then some (entries.erase fd) else none) := by
  induction entries with
  | nil => rfl
  | cons other rest ih =>
    rw [visited_cons] at alive
    have here := alive other List.mem_cons_self
    unfold removeSubscriber
    by_cases same : other = fd
    · subst same
      simp [here]
    · rw [if_neg same] at alive
      have later := ih fun one member => alive one (List.mem_cons_of_mem _ member)
      simp only [here, Bool.not_true, Bool.false_eq_true, if_false, same, later, exec_ok_bind]
      by_cases member : fd ∈ rest
      · simp [member, same]
      · simp [member, Ne.symm same]

theorem removeSubscriber_gone {env : Env} {fd : Fd} {entries : List Fd} {remaining : Option (List Fd)}
    (ran : removeSubscriber env fd entries = .ok remaining) :
    ∀ other ∈ visited fd entries, env.alive other = true := by
  induction entries generalizing remaining with
  | nil => simp [visited]
  | cons other rest ih =>
    unfold removeSubscriber at ran
    split at ran
    · cases ran
    · rename_i here
      simp only [Bool.not_eq_true', Bool.not_eq_false] at here
      rw [visited_cons]
      intro one member
      cases member with
      | head => exact here
      | tail _ inside =>
        split at ran
        · rename_i same
          rw [if_pos same] at inside
          cases inside
        · rename_i different
          rw [if_neg different] at inside
          obtain ⟨left, ran, -⟩ := exec_bind_ok.mp ran
          exact ih ran one inside

/-- SUBSCRIBE of a client outside of transactions adds an entry, in any mode. -/
theorem execute_subscribe (plain : c.client.multi = false) (asked : c.command = .subscribe channel) :
    ∃ reply, execute db c rdbFilePath envs = .ok ⟨{ db with
      pubsubClients := db.pubsubClients.insert channel (db.subscribers channel ++ [c.fd]) },
      c.acl, [.subscribe, .reply reply], some c.command⟩ := by
  unfold execute
  cases listening : c.client.pubSub with
  | false =>
    exact ⟨_, by simp [asked, plain, Command.commandType, call, callSimple, handleSubscribe,
      DB.subscribers]; rfl⟩
  | true =>
    exact ⟨_, by simp [asked, plain, Command.commandType, handlePubSub, handleSubscribe,
      DB.subscribers]; rfl⟩

theorem handleUnSubscribe_ok (alive : ∀ other ∈ visited c.fd (db.subscribers channel),
    c.env.alive other = true) :
    ∃ reply, handleUnSubscribe db c channel = .ok ({ db with
      pubsubClients := db.pubsubClients.insert channel ((db.subscribers channel).erase c.fd) },
      (if c.fd ∈ db.subscribers channel then [.unsubscribe] else []) ++ [.reply reply]) := by
  have removed := removeSubscriber_ok c.env c.fd (db.subscribers channel) alive
  unfold handleUnSubscribe
  unfold DB.subscribers at removed ⊢
  dsimp only
  rw [removed]
  split
  · exact ⟨_, rfl⟩
  · rename_i absent
    rw [List.erase_of_not_mem absent]
    exact ⟨_, rfl⟩

/-- UNSUBSCRIBE in subscribed mode takes out an entry if there is one. -/
theorem execute_unSubscribe (plain : c.client.multi = false) (listening : c.client.pubSub = true)
    (asked : c.command = .unSubscribe channel)
    (alive : ∀ other ∈ visited c.fd (db.subscribers channel), c.env.alive other = true) :
    ∃ reply, execute db c rdbFilePath envs = .ok ⟨{ db with
      pubsubClients := db.pubsubClients.insert channel ((db.subscribers channel).erase c.fd) },
      c.acl, (if c.fd ∈ db.subscribers channel then [.unsubscribe] else []) ++ [.reply reply],
      some c.command⟩ := by
  obtain ⟨reply, removed⟩ := handleUnSubscribe_ok alive
  have handled : handlePubSub db c = handleUnSubscribe db c channel := by
    unfold handlePubSub
    rw [asked]
  refine ⟨reply, ?_⟩
  simp only [execute, asked, plain, listening, Command.commandType, handled, removed, exec_ok_bind]
  simp

/-- In subscribed mode it goes through only if it meets no client that is gone. -/
theorem execute_unSubscribe_gone (plain : c.client.multi = false) (listening : c.client.pubSub = true)
    (asked : c.command = .unSubscribe channel) {executed : Executed}
    (ran : execute db c rdbFilePath envs = .ok executed) :
    ∀ other ∈ visited c.fd (db.subscribers channel), c.env.alive other = true := by
  simp only [execute, asked, plain, listening, Command.commandType, handlePubSub, handleUnSubscribe,
    false_and, if_false, if_true, reduceCtorEq, Bool.false_eq_true] at ran
  obtain ⟨outcome, ran, -⟩ := exec_bind_ok.mp ran
  obtain ⟨remaining, removed, -⟩ := exec_bind_ok.mp ran
  exact removeSubscriber_gone removed

/-- Outside of it, it is answered as PING. -/
theorem execute_unSubscribe_plain (plain : c.client.multi = false) (listening : c.client.pubSub = false)
    (asked : c.command = .unSubscribe channel) :
    execute db c rdbFilePath envs = .ok ⟨db, c.acl, [.reply (encodeSimpleString (ascii "PONG"))],
      some c.command⟩ := by
  simp [execute, asked, plain, listening, Command.commandType, call, callSimple, handlePing, replying]

/-- The messages to the entries of a channel. -/
def messages (env : Env) (frame : Bytes) (entries : List Fd) : List Effect :=
  entries.flatMap fun fd => if env.alive fd then [.write fd frame, .ready fd] else [.ready fd]

theorem execute_publish (plain : c.client.multi = false) (listening : c.client.pubSub = false)
    {message : Bytes} (asked : c.command = .publish channel message) :
    execute db c rdbFilePath envs = .ok ⟨{ db with
      pubsubClients := db.pubsubClients.insert channel (db.subscribers channel) }, c.acl,
      messages c.env (messageFrame channel message) (db.subscribers channel) ++
        [.reply (encodeInteger ((db.subscribers channel).filter c.env.alive).length)],
      some c.command⟩ := by
  simp [execute, asked, plain, listening, Command.commandType, call, callSimple, handlePublish,
    messages, messageFrame, DB.subscribers]

/-- PUBLISH in subscribed mode is refused. -/
theorem execute_publish_refused (plain : c.client.multi = false) (listening : c.client.pubSub = true)
    {message : Bytes} (asked : c.command = .publish channel message) :
    execute db c rdbFilePath envs =
      .ok ⟨db, c.acl, [.reply (encodeError (formatError .publish))], some c.command⟩ := by
  simp [execute, asked, plain, listening, Command.commandType, handlePubSub, replying]

/-- What a request does to the entries of a channel. -/
def Request.edit (channel : Bytes) (entries : List Fd) (request : Request) : List Fd :=
  match request.command with
  | .subscribe name => if name = channel then entries ++ [request.fd] else entries
  | .unSubscribe name => if name = channel then entries.erase request.fd else entries
  | _ => entries

/-- The entries of a channel behind some requests. -/
def entriesAfter (channel : Bytes) (history : List Request) : List Fd :=
  history.foldl (Request.edit channel) []

/-- The last SUBSCRIBE or UNSUBSCRIBE of a client for a channel was a SUBSCRIBE. -/
def lastSubscribed (fd : Fd) (channel : Bytes) (history : List Request) : Bool :=
  history.foldl (fun listens request =>
    if request.fd = fd then
      match request.command with
      | .subscribe name => listens || name = channel
      | .unSubscribe name => listens && name ≠ channel
      | _ => listens
    else listens) false

/-- A client has sent a SUBSCRIBE. -/
def hasSubscribed (fd : Fd) (history : List Request) : Bool :=
  history.any fun request => request.fd = fd && request.command.commandType = .subscribe

/-- The requests that channels are about. -/
def Command.OfChannels : Command → Prop
  | .subscribe _ | .unSubscribe _ | .publish .. => True
  | _ => False

/-- An UNSUBSCRIBE in subscribed mode meets no client that is gone. -/
def Request.MeetsNoneGone (history : List Request) (request : Request) : Prop :=
  ∀ channel, request.command = .unSubscribe channel → hasSubscribed request.fd history = true →
    ∀ other ∈ visited request.fd (entriesAfter channel history), request.env.alive other = true

/-- The channels and the modes of the clients are those behind some requests. -/
structure Session.Follows (history : List Request) (session : Session) : Prop where
  entries : ∀ channel, session.db.subscribers channel = entriesAfter channel history
  modes : ∀ fd client, session.clients.lookup fd = some client →
    client.multi = false ∧ client.pubSub = hasSubscribed fd history

variable {history : List Request} {request : Request} {session session' : Session} {client : Client}
  {effects : List Effect}

@[simp] theorem entriesAfter_append (channel : Bytes) (history : List Request) (request : Request) :
    entriesAfter channel (history ++ [request]) =
      request.edit channel (entriesAfter channel history) := by
  simp [entriesAfter]

@[simp] theorem hasSubscribed_append (fd : Fd) (history : List Request) (request : Request) :
    hasSubscribed fd (history ++ [request]) = (hasSubscribed fd history ||
      (request.fd = fd && request.command.commandType = .subscribe)) := by
  simp [hasSubscribed]

/-- Every entry is of a client that has subscribed. -/
theorem hasSubscribed_of_mem (member : fd ∈ entriesAfter channel history) :
    hasSubscribed fd history = true := by
  induction history using List.reverseRecOn with
  | nil => cases member
  | append_singleton before request ih =>
    rw [entriesAfter_append] at member
    unfold Request.edit at member
    rw [hasSubscribed_append]
    split at member
    · rename_i name asked
      split at member
      · rcases List.mem_append.mp member with earlier | here
        · simp [ih earlier]
        · simp [List.mem_singleton.mp here, asked, Command.commandType]
      · simp [ih member]
    · split at member
      · simp [ih (List.mem_of_mem_erase member)]
      · simp [ih member]
    · simp [ih member]

/-- What no effect about a client changes of it stays. -/
theorem applyEffects_view {β : Type} (view : Client → β) {served : Fd}
    (kept : ∀ effect ∈ effects, effect.target served = some fd →
      ∀ client, view (effect.apply client) = view client) (client : Client) :
    view (applyEffects served fd effects client) = view client := by
  induction effects generalizing client with
  | nil => rfl
  | cons effect rest ih =>
    unfold applyEffects
    rw [List.foldl_cons]
    have later := ih (fun other member => kept other (List.mem_cons_of_mem _ member))
      (if effect.target served = some fd then effect.apply client else client)
    unfold applyEffects at later
    rw [later]
    split
    · exact kept effect List.mem_cons_self ‹_› client
    · rfl

/-- Effects that change no mode. -/
def Effect.Quiet : Effect → Prop
  | .reply _ | .write .. | .ready _ | .unsubscribe => True
  | _ => False

private theorem modes_counted (client : Client) (channels : Nat) :
    (({ client with totalSubscribedChannels := channels } : Client).multi,
      ({ client with totalSubscribedChannels := channels } : Client).pubSub) =
      (client.multi, client.pubSub) := rfl

theorem modes_of_quiet {served : Fd} (quiet : ∀ effect ∈ effects, effect.Quiet) (client : Client) :
    (applyEffects served fd effects client).multi = client.multi ∧
      (applyEffects served fd effects client).pubSub = client.pubSub := by
  apply Prod.mk.inj
  apply applyEffects_view fun client => (client.multi, client.pubSub)
  intro effect member _ client
  have calm := quiet effect member
  cases effect with
  | unsubscribe => exact modes_counted client _
  | reply | write | ready => rfl
  | _ => exact calm.elim

theorem quiet_messages (env : Env) (frame : Bytes) (entries : List Fd) :
    ∀ effect ∈ messages env frame entries, effect.Quiet := by
  intro effect member
  obtain ⟨fd, -, inside⟩ := List.mem_flatMap.mp member
  split at inside
  · simp only [List.mem_cons, List.not_mem_nil, or_false] at inside
    rcases inside with rfl | rfl <;> trivial
  · simp only [List.mem_cons, List.not_mem_nil, or_false] at inside
    subst inside
    trivial

theorem subscribers_insert (db : DB) (channel name : Bytes) (entries : List Fd) :
    DB.subscribers { db with pubsubClients := db.pubsubClients.insert channel entries } name =
      if channel = name then entries else db.subscribers name := by
  unfold DB.subscribers
  by_cases same : channel = name
  · simp [same]
  · rw [Finmap.lookup_insert_of_ne _ (Ne.symm same), if_neg same]

/-- What a step leaves of a client. -/
theorem lookup_step {executed : Executed}
    (connected : session.clients.lookup request.fd = some client)
    (ran : execute session.db (session.context client request) rdbFilePath request.queue =
      .ok executed) :
    session.step rdbFilePath request = .ok (executed.effects, {
      db := executed.db
      acl := executed.acl
      clients := applyToClients request.fd executed.effects session.clients }) := by
  unfold Session.step
  rw [connected]
  dsimp only
  rw [ran, exec_ok_bind, exec_pure]

/-- A step that goes through has run its command. -/
theorem execute_of_step (connected : session.clients.lookup request.fd = some client)
    (ran : session.step rdbFilePath request = .ok (effects, session')) :
    ∃ executed, execute session.db (session.context client request) rdbFilePath request.queue =
      .ok executed ∧ effects = executed.effects ∧ session'.db = executed.db ∧
        session'.clients = applyToClients request.fd executed.effects session.clients := by
  unfold Session.step at ran
  rw [connected] at ran
  obtain ⟨executed, inside, ran⟩ := exec_bind_ok.mp ran
  cases ran
  exact ⟨executed, inside, rfl, rfl, rfl⟩

/-- A request that changes no mode. -/
private theorem Session.Follows.quietly (follows : session.Follows history)
    (quiet : ∀ effect ∈ effects, effect.Quiet) (other : request.command.commandType ≠ .subscribe)
    (clients : session'.clients = applyToClients request.fd effects session.clients)
    (entries : ∀ channel, session'.db.subscribers channel =
      request.edit channel (session.db.subscribers channel)) :
    session'.Follows (history ++ [request]) := by
  constructor
  · intro channel
    rw [entries, follows.entries, entriesAfter_append]
  · intro fd client lookup
    rw [clients, lookup_applyToClients] at lookup
    obtain ⟨before, held, rfl⟩ := Option.map_eq_some_iff.mp lookup
    obtain ⟨multi, pubSub⟩ := follows.modes fd before held
    obtain ⟨multi', pubSub'⟩ := @modes_of_quiet fd effects request.fd quiet before
    simp [multi', pubSub', multi, pubSub, other]

/-- A request about channels goes through exactly if an UNSUBSCRIBE meets no
client that is gone. -/
theorem Session.Follows.runs (rdbFilePath : Bytes) (follows : session.Follows history)
    (about : request.command.OfChannels) (connected : session.clients.lookup request.fd = some client) :
    (∃ effects session', session.step rdbFilePath request = .ok (effects, session')) ↔
      request.MeetsNoneGone history := by
  obtain ⟨multi, pubSub⟩ := follows.modes _ client connected
  constructor
  · rintro ⟨effects, session', ran⟩ channel asked listening
    obtain ⟨executed, ran, -⟩ := execute_of_step connected ran
    rw [← pubSub] at listening
    have met := execute_unSubscribe_gone (c := session.context client request) multi listening asked ran
    rwa [Session.context, follows.entries] at met
  · intro meetsNone
    cases asked : request.command <;> rw [asked] at about <;> first | exact about.elim | skip
    case subscribe channel =>
      obtain ⟨reply, ran⟩ := @execute_subscribe session.db (session.context client request) rdbFilePath
        channel request.queue multi asked
      exact ⟨_, _, lookup_step connected ran⟩
    case publish channel message =>
      cases listening : client.pubSub with
      | false => exact ⟨_, _, lookup_step connected (execute_publish multi listening asked)⟩
      | true => exact ⟨_, _, lookup_step connected (execute_publish_refused multi listening asked)⟩
    case unSubscribe channel =>
      cases listening : client.pubSub with
      | false => exact ⟨_, _, lookup_step connected (execute_unSubscribe_plain multi listening asked)⟩
      | true =>
        have alive := meetsNone channel asked (pubSub ▸ listening)
        rw [← follows.entries] at alive
        obtain ⟨reply, ran⟩ := @execute_unSubscribe session.db (session.context client request)
          rdbFilePath channel request.queue multi listening asked alive
        exact ⟨_, _, lookup_step connected ran⟩

/-- A step leaves every client connected. -/
theorem connected_step (ran : session.step rdbFilePath request = .ok (effects, session')) (fd : Fd) :
    (session'.clients.lookup fd).isSome = (session.clients.lookup fd).isSome := by
  cases connected : session.clients.lookup request.fd with
  | none =>
    unfold Session.step at ran
    rw [connected] at ran
    cases ran
    rfl
  | some client =>
    obtain ⟨executed, -, -, -, clients⟩ := execute_of_step connected ran
    rw [clients, lookup_applyToClients]
    simp

/-- A request about channels does to entries and modes what the history says. -/
theorem Session.Follows.step (follows : session.Follows history) (about : request.command.OfChannels)
    (connected : session.clients.lookup request.fd = some client)
    (ran : session.step rdbFilePath request = .ok (effects, session')) :
    session'.Follows (history ++ [request]) := by
  obtain ⟨multi, pubSub⟩ := follows.modes _ client connected
  obtain ⟨executed, inside, -, db', clients'⟩ := execute_of_step connected ran
  cases asked : request.command <;> rw [asked] at about <;> first | exact about.elim | skip
  case subscribe channel =>
    obtain ⟨reply, ran⟩ := @execute_subscribe session.db (session.context client request) rdbFilePath
        channel request.queue multi asked
    rw [ran] at inside
    cases inside
    constructor
    · intro name
      rw [db', subscribers_insert, follows.entries, follows.entries, entriesAfter_append]
      by_cases same : channel = name
      · simp [same, Request.edit, asked, Session.context]
      · simp [same, Request.edit, asked]
    · intro fd after lookup
      rw [clients', lookup_applyToClients] at lookup
      obtain ⟨before, held, rfl⟩ := Option.map_eq_some_iff.mp lookup
      obtain ⟨multi', pubSub'⟩ := follows.modes fd before held
      by_cases own : request.fd = fd
      · subst own
        simp [applyEffects, Effect.target, Effect.apply, multi', asked, Command.commandType]
      · simp [applyEffects, Effect.target, own, multi', pubSub']
  case publish channel message =>
    cases listening : client.pubSub with
    | false =>
      rw [execute_publish multi listening asked] at inside
      cases inside
      refine follows.quietly ?_ (by simp [asked, Command.commandType]) clients' fun name => ?_
      · intro effect member
        rcases List.mem_append.mp member with message | reply
        · exact quiet_messages _ _ _ effect message
        · rw [List.mem_singleton.mp reply]
          trivial
      · rw [db', subscribers_insert]
        split
        · rename_i same
          rw [same]
          simp [Request.edit, asked]
        · simp [Request.edit, asked]
    | true =>
      rw [execute_publish_refused multi listening asked] at inside
      cases inside
      refine follows.quietly ?_ (by simp [asked, Command.commandType]) clients' fun name => ?_
      · intro effect member
        rw [List.mem_singleton.mp member]
        trivial
      · rw [db']
        simp [Request.edit, asked]
  case unSubscribe channel =>
    cases listening : client.pubSub with
    | false =>
      rw [execute_unSubscribe_plain multi listening asked] at inside
      cases inside
      refine follows.quietly ?_ (by simp [asked, Command.commandType]) clients' fun name => ?_
      · intro effect member
        rw [List.mem_singleton.mp member]
        trivial
      · -- A client that has never subscribed has no entry to lose.
        have absent : request.fd ∉ entriesAfter name history := fun member => by
          have subscribed := hasSubscribed_of_mem member
          simp [← pubSub, listening] at subscribed
        simp [db', follows.entries, Request.edit, asked, List.erase_of_not_mem absent]
    | true =>
      have alive := execute_unSubscribe_gone (c := session.context client request) multi listening
        asked inside
      obtain ⟨reply, ran⟩ := @execute_unSubscribe session.db (session.context client request)
          rdbFilePath channel request.queue multi listening asked alive
      rw [ran] at inside
      cases inside
      refine follows.quietly ?_ (by simp [asked, Command.commandType]) clients' fun name => ?_
      · intro effect member
        split at member
        · simp only [List.mem_append, List.mem_singleton] at member
          rcases member with rfl | rfl <;> trivial
        · rw [List.mem_singleton.mp member]
          trivial
      · rw [db', subscribers_insert]
        by_cases same : channel = name
        · simp [same, Request.edit, asked, Session.context]
        · simp [same, Request.edit, asked]

/-! ## Runs -/

/-- Nobody has subscribed or begun a transaction yet. -/
structure Session.Fresh (session : Session) : Prop where
  channels : session.db.pubsubClients = ∅
  clients : ∀ fd client, session.clients.lookup fd = some client →
    client.multi = false ∧ client.pubSub = false ∧ client.totalSubscribedChannels = 0 ∧
      client.queuedCommands = []

/-- No UNSUBSCRIBE of a run meets a client that is gone. -/
def MeetNoneGone (history requests : List Request) : Prop :=
  ∀ before request after, requests = before ++ request :: after →
    request.MeetsNoneGone (history ++ before)

/-- Requests about channels, of clients that are connected. -/
def Session.Asked (session : Session) (requests : List Request) : Prop :=
  ∀ request ∈ requests, request.command.OfChannels ∧ (session.clients.lookup request.fd).isSome

variable {requests : List Request} {outputs : List (List Effect)} {start last : Session}

theorem Session.Fresh.follows (fresh : start.Fresh) : start.Follows [] := by
  constructor
  · intro channel
    simp [DB.subscribers, fresh.channels, entriesAfter]
  · intro fd client lookup
    obtain ⟨multi, pubSub, -⟩ := fresh.clients fd client lookup
    exact ⟨multi, pubSub⟩

theorem meetNoneGone_cons :
    MeetNoneGone history (request :: requests) ↔
      request.MeetsNoneGone history ∧ MeetNoneGone (history ++ [request]) requests := by
  constructor
  · intro all
    constructor
    · simpa using all [] request requests rfl
    · intro before next after split
      have later := all (request :: before) next after (by rw [split]; rfl)
      rwa [List.append_cons] at later
  · rintro ⟨first, later⟩ before next after split
    cases before with
    | nil =>
      cases split
      simpa using first
    | cons other before =>
      cases split
      have := later before next after rfl
      rwa [List.append_cons]

/-- Where clients stay for good, no request meets one that is gone. -/
theorem meetNoneGone_of_alive (alive : ∀ request ∈ requests, ∀ fd, request.env.alive fd = true) :
    MeetNoneGone history requests := by
  intro before request after split channel _ _ other _
  exact alive request (by simp [split]) other

/-- A run about channels does what its requests say. -/
theorem run_follows (follows : session.Follows history) (asked : session.Asked requests)
    (ran : run (Session.step rdbFilePath) session requests = .ok (outputs, last)) :
    last.Follows (history ++ requests) ∧
      ∀ fd, (last.clients.lookup fd).isSome = (session.clients.lookup fd).isSome := by
  induction requests generalizing history session outputs with
  | nil =>
    cases ran
    simpa using follows
  | cons request requests ih =>
    obtain ⟨about, connected⟩ := asked request List.mem_cons_self
    obtain ⟨client, connected⟩ := Option.isSome_iff_exists.mp connected
    obtain ⟨⟨effects, next⟩, stepped, ran⟩ := exec_bind_ok.mp ran
    obtain ⟨⟨later, last'⟩, ran, same⟩ := exec_bind_ok.mp ran
    cases same
    have stay := connected_step stepped
    obtain ⟨follows', stays⟩ := ih (follows.step about connected stepped)
      (fun other member => by simpa [stay] using asked other (List.mem_cons_of_mem _ member)) ran
    constructor
    · simpa using follows'
    · intro fd
      rw [stays, stay]

/-- It goes through exactly if no UNSUBSCRIBE meets a client that is gone. -/
theorem run_runs_iff (follows : session.Follows history) (asked : session.Asked requests) :
    (∃ outputs last, run (Session.step rdbFilePath) session requests = .ok (outputs, last)) ↔
      MeetNoneGone history requests := by
  induction requests generalizing history session with
  | nil => simp [run, MeetNoneGone]
  | cons request requests ih =>
    obtain ⟨about, connected⟩ := asked request List.mem_cons_self
    obtain ⟨client, connected⟩ := Option.isSome_iff_exists.mp connected
    have asked' {effects : List Effect} {next : Session}
        (stepped : session.step rdbFilePath request = .ok (effects, next)) : next.Asked requests := by
      intro other member
      simpa [connected_step stepped] using asked other (List.mem_cons_of_mem _ member)
    rw [meetNoneGone_cons, ← follows.runs rdbFilePath about connected]
    constructor
    · rintro ⟨outputs, last, ran⟩
      obtain ⟨⟨effects, next⟩, stepped, ran⟩ := exec_bind_ok.mp ran
      obtain ⟨⟨later, last'⟩, ran, -⟩ := exec_bind_ok.mp ran
      exact ⟨⟨effects, next, stepped⟩,
        (ih (follows.step about connected stepped) (asked' stepped)).mp ⟨later, last', ran⟩⟩
    · rintro ⟨⟨effects, next, stepped⟩, later⟩
      obtain ⟨outputs, last, ran⟩ :=
        (ih (follows.step about connected stepped) (asked' stepped)).mpr later
      refine ⟨effects :: outputs, last, ?_⟩
      simp only [run, stepped, exec_ok_bind, ran]

/-! ## What PUBLISH delivers -/

/-- The live clients whose last request for a channel was a SUBSCRIBE. -/
def listeners (alive : Fd → Bool) (channel : Bytes) (history : List Request) : Finset Fd :=
  (history.map Request.fd).toFinset.filter fun fd =>
    alive fd && lastSubscribed fd channel history

/-- A PUBLISH writes one message to each listener and nothing to any other
client, and replies with the number of listeners. -/
def Delivers (listeners : Finset Fd) (channel message : Bytes) (effects : List Effect) : Prop :=
  (∀ fd, (writes effects).filter (fun written => written.1 = fd) =
      if fd ∈ listeners then [(fd, messageFrame channel message)] else []) ∧
    repliedBytes effects = encodeInteger listeners.card

theorem lastSubscribed_mem (last : lastSubscribed fd channel history = true) :
    fd ∈ history.map Request.fd := by
  induction history using List.reverseRecOn with
  | nil => cases last
  | append_singleton before request ih =>
    by_cases own : request.fd = fd
    · simp [own]
    · have earlier : lastSubscribed fd channel before = true := by
        simpa [lastSubscribed, own] using last
      simp [ih earlier]

theorem mem_listeners {alive : Fd → Bool} :
    fd ∈ listeners alive channel history ↔
      alive fd = true ∧ lastSubscribed fd channel history = true := by
  simp only [listeners, Finset.mem_filter, List.mem_toFinset, Bool.and_eq_true]
  constructor
  · exact And.right
  · exact fun both => ⟨lastSubscribed_mem both.2, both⟩

theorem messages_cons (env : Env) (frame : Bytes) (fd : Fd) (rest : List Fd) :
    messages env frame (fd :: rest) = messages env frame [fd] ++ messages env frame rest := by
  simp [messages]

theorem writes_messages (env : Env) (frame reply : Bytes) (entries : List Fd) :
    writes (messages env frame entries ++ [.reply reply]) =
      (entries.filter env.alive).map fun fd => (fd, frame) := by
  induction entries with
  | nil => rfl
  | cons fd rest ih =>
    rw [messages_cons, List.append_assoc, writes_append, ih]
    by_cases here : env.alive fd = true <;> simp [messages, here, writes]

theorem repliedBytes_messages (env : Env) (frame reply : Bytes) (entries : List Fd) :
    repliedBytes (messages env frame entries ++ [.reply reply]) = reply := by
  induction entries with
  | nil => simp [messages, repliedBytes]
  | cons fd rest ih =>
    rw [messages_cons, List.append_assoc, repliedBytes_append, ih]
    by_cases here : env.alive fd = true <;> simp [messages, here, repliedBytes]

/-- A client is written one message for each of its entries, if it is alive. -/
theorem written_messages (env : Env) (frame reply : Bytes) (entries : List Fd) (fd : Fd) :
    (writes (messages env frame entries ++ [.reply reply])).filter (fun written => written.1 = fd) =
      if env.alive fd then List.replicate (entries.count fd) (fd, frame) else [] := by
  rw [writes_messages, List.filter_map]
  have same : (fun written : Fd × Bytes => decide (written.1 = fd)) ∘ (fun fd => (fd, frame)) =
      fun other => decide (other = fd) := rfl
  rw [same, List.filter_filter]
  by_cases here : env.alive fd = true
  · have kept : (fun other => decide (other = fd) && env.alive other) =
        fun other => decide (other = fd) := by
      funext other
      by_cases own : other = fd <;> simp [own, here]
    rw [kept, List.filter_eq, List.map_replicate, if_pos here]
  · have none_ : (fun other => decide (other = fd) && env.alive other) = fun _ => false := by
      funext other
      by_cases own : other = fd <;> simp [own, here]
    simp [none_, here]

/-- Messages to the entries of a channel reach each listener once exactly if
each live client has one entry if it listens, and none otherwise. -/
theorem delivers_messages_iff (env : Env) (message : Bytes) (entries : List Fd) :
    Delivers (listeners env.alive channel history) channel message
        (messages env (messageFrame channel message) entries ++
          [.reply (encodeInteger (entries.filter env.alive).length)]) ↔
      ∀ fd, env.alive fd = true →
        entries.count fd = if lastSubscribed fd channel history then 1 else 0 := by
  unfold Delivers
  simp only [written_messages, repliedBytes_messages, mem_listeners]
  constructor
  · rintro ⟨once, -⟩ fd here
    have counted := congrArg List.length (once fd)
    by_cases listens : lastSubscribed fd channel history = true
    · simpa [here, listens] using counted
    · simpa [here, listens] using counted
  · intro once
    constructor
    · intro fd
      by_cases here : env.alive fd = true
      · rw [if_pos here, once fd here]
        by_cases listens : lastSubscribed fd channel history = true <;> simp [here, listens]
      · simp [here]
    · -- Entries of live clients are distinct, so there are as many as listeners.
      have distinct : (entries.filter env.alive).Nodup := by
        apply List.nodup_iff_count_le_one.mpr
        intro fd
        by_cases here : env.alive fd = true
        · rw [List.count_filter here, once fd here]
          split <;> omega
        · have absent : fd ∉ entries.filter env.alive := by simp [here]
          simp [List.count_eq_zero_of_not_mem absent]
      have same : (entries.filter env.alive).toFinset = listeners env.alive channel history := by
        ext fd
        rw [mem_listeners, List.mem_toFinset, List.mem_filter]
        constructor
        · rintro ⟨member, here⟩
          refine ⟨here, ?_⟩
          by_contra silent
          have counted := once fd here
          rw [if_neg silent] at counted
          exact List.count_eq_zero.mp counted member
        · rintro ⟨here, listens⟩
          refine ⟨?_, here⟩
          have counted := once fd here
          rw [if_pos listens] at counted
          exact List.count_pos_iff.mp (by omega)
      rw [← List.toFinset_card_of_nodup distinct, same]

/-- In every run of SUBSCRIBE, UNSUBSCRIBE and PUBLISH, the next PUBLISH writes
one message to each live client whose last request for the channel was a
SUBSCRIBE, and tells their number, exactly if its own client has never
subscribed and each live client has one entry in the channel if it listens, and
none otherwise; and no UNSUBSCRIBE before has met a client that is gone. -/
theorem publish_delivers_iff (fresh : start.Fresh) (asked : start.Asked (requests ++ [request]))
    {message : Bytes} (publish : request.command = .publish channel message) :
    (∃ outputs session effects next,
        run (Session.step rdbFilePath) start requests = .ok (outputs, session) ∧
        session.step rdbFilePath request = .ok (effects, next) ∧
        Delivers (listeners request.env.alive channel requests) channel message effects) ↔
      MeetNoneGone [] requests ∧ hasSubscribed request.fd requests = false ∧
        ∀ fd, request.env.alive fd = true →
          (entriesAfter channel requests).count fd =
            if lastSubscribed fd channel requests then 1 else 0 := by
  have before : start.Asked requests := fun other member => asked other (List.mem_append_left _ member)
  obtain ⟨about, connected⟩ := asked request (by simp)
  -- What the PUBLISH does behind a run that goes through.
  have published {outputs : List (List Effect)} {session : Session}
      (ran : run (Session.step rdbFilePath) start requests = .ok (outputs, session)) :
      ∃ effects next, session.step rdbFilePath request = .ok (effects, next) ∧
        (Delivers (listeners request.env.alive channel requests) channel message effects ↔
          hasSubscribed request.fd requests = false ∧ ∀ fd, request.env.alive fd = true →
            (entriesAfter channel requests).count fd =
              if lastSubscribed fd channel requests then 1 else 0) := by
    obtain ⟨follows, stays⟩ := run_follows fresh.follows before ran
    rw [List.nil_append] at follows
    rw [← stays] at connected
    obtain ⟨client, connected⟩ := Option.isSome_iff_exists.mp connected
    obtain ⟨multi, pubSub⟩ := follows.modes _ client connected
    cases listening : client.pubSub with
    | false =>
      refine ⟨_, _, lookup_step connected (execute_publish multi listening publish), ?_⟩
      have delivers := @delivers_messages_iff channel requests
        request.env message (entriesAfter channel requests)
      rw [follows.entries]
      rw [← pubSub, listening]
      simpa [Session.context] using delivers
    | true =>
      refine ⟨_, _, lookup_step connected (execute_publish_refused multi listening publish), ?_⟩
      rw [← pubSub, listening]
      constructor
      · rintro ⟨-, replied⟩
        simp [repliedBytes, encodeError, encodeInteger] at replied
      · simp
  constructor
  · rintro ⟨outputs, session, effects, next, ran, stepped, delivers⟩
    obtain ⟨effects', next', stepped', iff⟩ := published ran
    rw [stepped] at stepped'
    cases stepped'
    have gone : MeetNoneGone [] requests := (run_runs_iff fresh.follows before).mp ⟨_, _, ran⟩
    exact ⟨gone, iff.mp delivers⟩
  · rintro ⟨gone, holds⟩
    obtain ⟨outputs, session, ran⟩ := (run_runs_iff fresh.follows before).mpr gone
    obtain ⟨effects, next, stepped, iff⟩ := published ran
    exact ⟨outputs, session, effects, next, ran, stepped, iff.mpr holds⟩

/-- Two clients that have just connected. -/
def twoClients : Session where
  db := {}
  acl := .new
  clients := (Finmap.singleton 5 {}).insert 6 {}

/-- A request on a machine where clients stay for good. -/
def Request.sample (fd : Fd) (command : Command) : Request := ⟨fd, command, Context.sample.env, []⟩

theorem twoClients_fresh : twoClients.Fresh := by
  constructor
  · rfl
  · intro fd client lookup
    have new : client = {} := by
      by_cases second : fd = 6
      · subst second
        rw [twoClients, Finmap.lookup_insert] at lookup
        exact (Option.some.inj lookup).symm
      · rw [twoClients, Finmap.lookup_insert_of_ne _ second] at lookup
        by_cases first : fd = 5
        · subst first
          rw [Finmap.lookup_singleton_eq] at lookup
          exact (Option.some.inj lookup).symm
        · have member := Finmap.mem_of_lookup_eq_some lookup
          rw [Finmap.mem_singleton] at member
          exact absurd member first
    simp [new]

/-- One SUBSCRIBE: the message arrives once. -/
theorem publish_delivers_one :
    ∃ outputs session effects next,
      run (Session.step []) twoClients [.sample 6 (.subscribe (ascii "c"))] = .ok (outputs, session) ∧
      session.step [] (.sample 5 (.publish (ascii "c") (ascii "m"))) = .ok (effects, next) ∧
      Delivers (listeners (fun _ => true) (ascii "c") [.sample 6 (.subscribe (ascii "c"))])
        (ascii "c") (ascii "m") effects := by
  have asked : twoClients.Asked ([.sample 6 (.subscribe (ascii "c"))] ++
      [.sample 5 (.publish (ascii "c") (ascii "m"))]) := by
    intro request member
    simp only [List.mem_append, List.mem_singleton] at member
    rcases member with rfl | rfl
    · exact ⟨trivial, rfl⟩
    · exact ⟨trivial, rfl⟩
  refine (publish_delivers_iff twoClients_fresh asked rfl).mpr ⟨?_, rfl, ?_⟩
  · apply meetNoneGone_of_alive
    intro request member fd
    rw [List.mem_singleton.mp member]
    rfl
  · intro fd _
    by_cases own : 6 = fd
    · subst own
      rfl
    · simp [entriesAfter, Request.edit, Request.sample, lastSubscribed, own]

/-- Two SUBSCRIBEs for one channel: the message arrives twice. -/
theorem publish_repeats :
    ∃ outputs session effects next,
      run (Session.step []) twoClients [.sample 6 (.subscribe (ascii "c")),
        .sample 6 (.subscribe (ascii "c"))] = .ok (outputs, session) ∧
      session.step [] (.sample 5 (.publish (ascii "c") (ascii "m"))) = .ok (effects, next) ∧
      writes effects = [(6, messageFrame (ascii "c") (ascii "m")),
        (6, messageFrame (ascii "c") (ascii "m"))] ∧
      repliedBytes effects = encodeInteger 2 ∧
      ¬ Delivers (listeners (fun _ => true) (ascii "c") [.sample 6 (.subscribe (ascii "c")),
        .sample 6 (.subscribe (ascii "c"))]) (ascii "c") (ascii "m") effects := by
  refine ⟨_, _, _, _, rfl, rfl, ?_, ?_, ?_⟩
  · rfl
  · rfl
  · rintro ⟨once, -⟩
    have counted := congrArg List.length (once 6)
    split at counted <;> cases counted

end CarrotDb
