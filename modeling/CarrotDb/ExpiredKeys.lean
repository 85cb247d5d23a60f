import CarrotDb.DbErasure
import CarrotDb.Clients
import CarrotDb.Lib.Lockstep

/-! Keys whose time is up. Deadlines are looked at by GET and TYPE alone, so an
expired key goes unseen only as long as these are the first to ask for it. -/
namespace CarrotDb
open Resp Lockstep

variable {db db' : DB} {c : Context} {key : Bytes} {effects : List Effect} {deadline : Int}

/-- A command that drops an expired key before it looks, or writes value and
deadline anew without looking. -/
def Command.Renews (key : Bytes) : Command → Prop
  | .get name | .type name => name = key
  | .set name _ ex px => name = key ∧ (ex.isSome ∨ px.isSome)
  | _ => False

theorem expireIfDue_late {now : Int} (timed : db.Timed)
    (due : db.expiration.lookup key = some deadline) (late : deadline ≤ now) :
    expireIfDue db now key = .ok (db.without key) := by
  obtain ⟨object, lookup, -⟩ := timed key deadline due
  rw [expireIfDue, due]
  dsimp only
  rw [if_pos late, lookup]
  rfl

theorem expireIfDue_gone (now : Int) :
    expireIfDue (db.without key) now key = .ok (db.without key) := by
  have gone : (db.without key).expiration.lookup key = none := Finmap.lookup_erase key _
  rw [expireIfDue, gone]
  rfl

theorem insert_erase_same {map : Map Bytes α} {value : α} :
    (map.erase key).insert key value = map.insert key value := by
  refine Finmap.ext_lookup fun other => ?_
  by_cases here : other = key
  · subst here
    rw [Finmap.lookup_insert, Finmap.lookup_insert]
  · rw [Finmap.lookup_insert_of_ne _ here, Finmap.lookup_insert_of_ne _ here,
      Finmap.lookup_erase_ne here]

theorem handleSet_renews {value : Bytes} {ex px : Option Nat} (timed : ex.isSome ∨ px.isSome) :
    handleSet (db.without key) c key value ex px = handleSet db c key value ex px := by
  unfold handleSet
  cases ex with
  | some seconds =>
    dsimp only [DB.without]
    rw [insert_erase_same, insert_erase_same]
  | none =>
    cases px with
    | some milliseconds =>
      dsimp only [DB.without]
      rw [insert_erase_same, insert_erase_same]
    | none => exact absurd timed (by decide)

/-- Behind a command that renews the key, it does not matter whether the
expired key was still there. -/
theorem callSimple_renews {command : Command} (timed : db.Timed)
    (due : db.expiration.lookup key = some deadline) (late : deadline ≤ c.env.clock.steady)
    (renews : command.Renews key) :
    callSimple (db.without key) c command = callSimple db c command := by
  have got (isTypeCommand : Bool) : handleGetOrType (db.without key) c isTypeCommand key =
      handleGetOrType db c isTypeCommand key := by
    rw [handleGetOrType, handleGetOrType, expireIfDue_late timed due late, expireIfDue_gone]
  cases command <;> first | exact False.elim renews | skip
  case get => exact renews ▸ got false
  case type => exact renews ▸ got true
  case set =>
    obtain ⟨rfl, expires⟩ := renews
    exact handleSet_renews expires

/-- GET and TYPE of one key leave the deadlines of the others. -/
theorem handleGetOrType_deadline {name : Bytes} {isTypeCommand : Bool} (different : name ≠ key)
    (ran : handleGetOrType db c isTypeCommand name = .ok (db', effects)) :
    db'.expiration.lookup key = db.expiration.lookup key := by
  have expired := handleGetOrType_expires ran
  rw [expireIfDue] at expired
  split at expired
  · split at expired
    · split at expired
      · cases expired
        exact Finmap.lookup_erase_ne (Ne.symm different)
      · cases expired
    · cases expired
      rfl
  · cases expired
    rfl

theorem callSimple_deadline {command : Command} (apart : ¬ command.Touches c key)
    (ran : callSimple db c command = .ok (db', effects)) :
    db'.expiration.lookup key = db.expiration.lookup key := by
  by_cases timing : command.Timing
  · cases command <;> first | exact False.elim timing | skip
    case get => exact handleGetOrType_deadline apart ran
    case type => exact handleGetOrType_deadline apart ran
    case set name value ex px =>
      cases ran
      cases ex <;> cases px <;> first | rfl | exact Finmap.lookup_insert_of_ne _ (Ne.symm apart)
  · rw [(callSimple_keeps timing ran).deadlines]

theorem runQueue_without {commands : List Command} {envs : List Env} (sound : db.Sound)
    (apart : ∀ command ∈ commands, ¬ command.Touches c key) :
    runQueue (db.without key) c commands envs = dropping key (runQueue db c commands envs) := by
  induction commands generalizing db envs with
  | nil => rfl
  | cons command commands ih =>
    cases envs with
    | nil => rfl
    | cons env envs =>
      have here := apart command List.mem_cons_self
      rw [runQueue, runQueue, @callSimple_without db { c with env } key command sound here]
      cases called : callSimple db { c with env } command with
      | error fault => rfl
      | ok result =>
        rw [dropping_ok, exec_ok_bind, exec_ok_bind]
        dsimp only
        rw [ih (callSimple_sound sound called)
          fun other member => apart other (List.mem_cons_of_mem _ member), dropping_bind]
        cases runQueue result.1 c commands envs <;> rfl

/-- A queue in which the first command about the key renews it. -/
theorem runQueue_renews {front back : List Command} {command : Command} {envs : List Env}
    (sound : db.Sound) (timed : db.Timed) (due : db.expiration.lookup key = some deadline)
    (late : ∀ env ∈ envs, deadline ≤ env.clock.steady)
    (apart : ∀ one ∈ front, ¬ one.Touches c key) (renews : command.Renews key) :
    runQueue (db.without key) c (front ++ command :: back) envs =
      runQueue db c (front ++ command :: back) envs := by
  induction front generalizing db envs with
  | nil =>
    cases envs with
    | nil => rfl
    | cons env envs =>
      rw [List.nil_append, runQueue, runQueue, @callSimple_renews db { c with env } key deadline
        command timed due (late env List.mem_cons_self) renews]
  | cons first front ih =>
    cases envs with
    | nil => rfl
    | cons env envs =>
      have here : ¬ first.Touches { c with env } key := apart first List.mem_cons_self
      rw [List.cons_append, runQueue, runQueue, callSimple_without sound here]
      cases called : callSimple db { c with env } first with
      | error fault => rfl
      | ok result =>
        rw [dropping_ok, exec_ok_bind, exec_ok_bind]
        dsimp only
        rw [ih (callSimple_sound sound called) (timed_invariant.command _ _ _ _ _ called timed)
          ((callSimple_deadline here called).trans due)
          (fun env member => late env (List.mem_cons_of_mem _ member))
          fun other member => apart other (List.mem_cons_of_mem _ member)]

/-- What a request leaves, without a key. -/
def Executed.without (executed : Executed) (gone : Bytes) : Executed :=
  { executed with db := executed.db.without gone }

theorem handlePubSub_without :
    handlePubSub (db.without key) c = dropping key (handlePubSub db c) := by
  rw [handlePubSub, handlePubSub]
  split
  · rw [handleSubscribe, handleSubscribe]
    split <;> rfl
  · rw [handleUnSubscribe, handleUnSubscribe, dropping_bind]
    rfl
  · rfl
  · rfl

theorem call_without {envs : List Env} {command : Command} (sound : db.Sound)
    (apart : command.commandType ≠ .exec → ¬ command.Touches c key)
    (queued : command = .exec → c.client.multi → ∀ one ∈ c.client.queuedCommands,
      ¬ one.Touches c key) :
    call (db.without key) c envs command = dropping key (call db c envs command) := by
  rcases @call_cases (db.without key) c command envs with ⟨exec, same⟩ | ⟨other, same⟩
  · subst exec
    rw [call, call, handleExec, handleExec]
    split
    · rfl
    · rename_i inMulti
      dsimp only
      rw [runQueue_without sound (queued rfl (by simpa using inMulti)), dropping_bind]
      cases runQueue db c c.client.queuedCommands envs <;> rfl
  · rcases @call_cases db c command envs with ⟨exec, -⟩ | ⟨-, same'⟩
    · exact absurd (by rw [exec]; rfl) other
    · rw [same, same', callSimple_without sound (apart other)]

theorem execute_without {rdbFilePath : Bytes} {envs : List Env} (sound : db.Sound)
    (apart : ∀ command ∈ c.calls, ¬ command.Touches c key) :
    execute (db.without key) c rdbFilePath envs =
      (execute db c rdbFilePath envs).map (·.without key) := by
  have wrapped (outcome : Outcome) :
      (dropping key outcome >>= fun result =>
        pure (⟨result.1, c.acl, result.2, some c.command⟩ : Executed)) =
      (outcome >>= fun result => pure (⟨result.1, c.acl, result.2, some c.command⟩ : Executed)).map
        (·.without key) := by
    cases outcome <;> rfl
  rw [execute, execute]
  dsimp only
  split
  · rfl
  · split
    · rfl
    · rename_i queueing
      split
      · rw [handlePubSub_without, wrapped]
      · rename_i listening
        have calls : c.calls = if c.command.commandType = .exec then
            if c.client.multi then c.client.queuedCommands else [] else [c.command] :=
          if_neg (not_or.mpr ⟨queueing, listening⟩)
        rw [calls] at apart
        split
        · exact wrapped (handleGetConfig db rdbFilePath _)
        · rfl
        · rfl
        · rw [call_without sound, wrapped]
          · intro other
            rw [if_neg other] at apart
            exact apart c.command (List.mem_singleton_self _)
          · intro exec inMulti
            rw [if_pos (by rw [exec]; rfl), if_pos inMulti] at apart
            exact apart

/-- A request of which the first command about the key renews it. -/
def Context.Renews (c : Context) (key : Bytes) : Prop :=
  ∃ front command back, c.calls = front ++ command :: back ∧
    (∀ one ∈ front, ¬ one.Touches c key) ∧ command.Renews key

private theorem execute_calls {rdbFilePath : Bytes} {envs : List Env}
    (queueing : ¬ (c.client.multi ∧ c.command.commandType ≠ .exec ∧
      c.command.commandType ≠ .discard)) (listening : ¬ c.client.pubSub)
    (plain : c.command.commandType = .exec ∨ c.command.Renews key) :
    execute db c rdbFilePath envs = (call db c envs c.command >>= fun outcome =>
      pure ⟨outcome.1, c.acl, outcome.2, some c.command⟩) := by
  have other : c.command.commandType ≠ .aclWhoami := by
    intro same
    rw [same] at plain
    rcases plain with exec | renews
    · cases exec
    · cases command : c.command <;> rw [command] at same renews <;> first
        | exact False.elim renews | cases same
  rw [execute]
  dsimp only
  rw [if_neg (not_and_of_not_left _ other), if_neg queueing, if_neg listening]
  cases command : c.command <;> rw [command] at plain <;> first
    | rfl
    | exact absurd plain (by rintro (exec | renews); cases exec; exact renews)

theorem execute_renews {rdbFilePath : Bytes} {envs : List Env} (sound : db.Sound)
    (timed : db.Timed) (due : db.expiration.lookup key = some deadline)
    (late : deadline ≤ c.env.clock.steady) (queueLate : ∀ env ∈ envs, deadline ≤ env.clock.steady)
    (renews : c.Renews key) :
    execute (db.without key) c rdbFilePath envs = execute db c rdbFilePath envs := by
  obtain ⟨front, command, back, calls, apart, renews⟩ := renews
  have running : ¬ (c.client.multi ∧ c.command.commandType ≠ .exec ∧
      c.command.commandType ≠ .discard ∨ c.client.pubSub) := by
    intro idle
    rw [Context.calls, if_pos idle] at calls
    exact absurd calls (by simp)
  obtain ⟨queueing, listening⟩ := not_or.mp running
  rw [Context.calls, if_neg running] at calls
  split at calls
  · rename_i exec
    split at calls
    · rename_i inMulti
      have commanded : c.command = .exec := by
        rcases @call_cases db c c.command envs with ⟨same, -⟩ | ⟨other, -⟩
        · exact same
        · exact absurd exec other
      rw [@execute_calls _ c key _ _ queueing listening (.inl exec),
        @execute_calls _ c key _ _ queueing listening (.inl exec), commanded, call, call, handleExec,
        handleExec, inMulti]
      dsimp only
      rw [calls, runQueue_renews sound timed due queueLate apart renews]
      rfl
    · exact absurd calls (by simp)
  · rename_i simple
    obtain ⟨rfl, ⟨rfl, rfl⟩⟩ : front = [] ∧ c.command = command ∧ back = [] := by
      cases front with
      | nil => exact ⟨rfl, List.cons.inj calls |>.1, (List.cons.inj calls).2.symm⟩
      | cons one front => exact absurd (List.cons.inj calls).2 (by simp)
    have same := callSimple_renews timed due late renews
    rw [execute_calls queueing listening (.inr renews),
      execute_calls queueing listening (.inr renews)]
    rcases @call_cases db c c.command envs with ⟨exec, -⟩ | ⟨-, one⟩
    · exact absurd (by rw [exec]; rfl) simple
    · rcases @call_cases (db.without key) c c.command envs with ⟨exec, -⟩ | ⟨-, two⟩
      · exact absurd (by rw [exec]; rfl) simple
      · rw [one, two, same]

theorem execute_deadline {rdbFilePath : Bytes} {envs : List Env} {executed : Executed}
    (apart : ∀ command ∈ c.calls, ¬ command.Touches c key)
    (due : db.expiration.lookup key = some deadline)
    (ran : execute db c rdbFilePath envs = .ok executed) :
    executed.db.expiration.lookup key = some deadline := by
  refine @execute_carries db c (fun db => db.expiration.lookup key = some deadline) ?_ ?_ due _ _ _ ran
  · intro db db' _ deadlines _ due
    rw [deadlines]
    exact due
  · intro command member db db' env effects called due
    have here : ¬ command.Touches { c with env } key := apart command member
    exact (callSimple_deadline here called).trans due

/-! ## Sequences of commands -/

/-- The database, the users and the clients. -/
structure Session where
  db : DB
  acl : ACLManager
  clients : Map Fd Client

/-- A command of a client, the reading it is run at, and those that the
commands of its transaction are run at. -/
structure Request where
  fd : Fd
  command : Command
  env : Env
  queue : List Env

namespace Session

def context (session : Session) (client : Client) (request : Request) : Context :=
  ⟨request.fd, client, request.command, session.acl, request.env⟩

/-- A command that arrives: what it replies and what it leaves. -/
def step (rdbFilePath : Bytes) (session : Session) (request : Request) :
    Exec (List Effect × Session) :=
  match session.clients.lookup request.fd with
  | none => pure ([], session)
  | some client => do
    let executed ←
      execute session.db (session.context client request) rdbFilePath request.queue
    pure (executed.effects, {
      db := executed.db
      acl := executed.acl
      clients := applyToClients request.fd executed.effects session.clients })

def without (session : Session) (gone : Bytes) : Session :=
  { session with db := session.db.without gone }

/-- No command that the request runs is about the key. -/
def Passes (key : Bytes) (session : Session) (request : Request) : Prop :=
  ∀ client, session.clients.lookup request.fd = some client →
    ∀ command ∈ (session.context client request).calls,
      ¬ command.Touches (session.context client request) key

/-- The first command about the key that the request runs renews it. -/
def Renews (key : Bytes) (session : Session) (request : Request) : Prop :=
  ∃ client, session.clients.lookup request.fd = some client ∧
    (session.context client request).Renews key

/-- The second session is the first without a key whose time is up. -/
structure Hides (key : Bytes) (deadline : Int) (first second : Session) : Prop where
  sound : first.db.Sound
  timed : first.db.Timed
  due : first.db.expiration.lookup key = some deadline
  without : second = first.without key

end Session

/-- Every reading of the request is behind the deadline. -/
def Request.After (deadline : Int) (request : Request) : Prop :=
  ∀ env ∈ request.env :: request.queue, deadline ≤ env.clock.steady

variable {rdbFilePath : Bytes} {request : Request} {requests : List Request}
  {session first second : Session}

theorem step_passes (hides : Session.Hides key deadline first second)
    (passes : first.Passes key request) :
    Agree (Session.Hides key deadline) (first.step rdbFilePath request)
      (second.step rdbFilePath request) := by
  obtain ⟨sound, timed, due, rfl⟩ := hides
  have clients : (first.without key).clients = first.clients := rfl
  rw [Session.step, Session.step, clients]
  cases connected : first.clients.lookup request.fd with
  | none => exact .output [] ⟨sound, timed, due, rfl⟩
  | some client =>
    have apart := passes client connected
    have same : execute (first.without key).db ((first.without key).context client request)
        rdbFilePath request.queue = (execute first.db (first.context client request) rdbFilePath
          request.queue).map (·.without key) := execute_without sound apart
    dsimp only
    rw [same]
    cases ran : execute first.db (first.context client request) rdbFilePath request.queue with
    | error fault => exact .fault fault
    | ok executed => exact .output executed.effects ⟨execute_sound sound ran,
        timed_invariant.execute timed ran, execute_deadline apart due ran, rfl⟩

theorem step_renews (hides : Session.Hides key deadline first second)
    (late : request.After deadline) (renews : first.Renews key request) :
    first.step rdbFilePath request = second.step rdbFilePath request := by
  obtain ⟨sound, timed, due, rfl⟩ := hides
  obtain ⟨client, connected, renews⟩ := renews
  have clients : (first.without key).clients = first.clients := rfl
  have same : execute (first.without key).db ((first.without key).context client request)
      rdbFilePath request.queue = execute first.db (first.context client request) rdbFilePath
        request.queue :=
    execute_renews sound timed due (late _ List.mem_cons_self)
      (fun env member => late env (List.mem_cons_of_mem _ member)) renews
  rw [Session.step, Session.step, clients, connected]
  dsimp only
  rw [same]

/-- Runs from a reachable state that holds an expired key, and from that state
without it. Up to the first GET or TYPE of the key, or SET of it with an expiry,
no command may be about the key. If one of these comes, then replies and final
state are the same. If none comes, then replies are the same, and the states
differ in the expired key. -/
theorem expired_unseen (reached : session.db.Reachable)
    (due : session.db.expiration.lookup key = some deadline)
    (late : ∀ request ∈ requests, request.After deadline) :
    (UntilMet (Session.step rdbFilePath) (Session.Passes key) (Session.Renews key) False session
        requests →
      run (Session.step rdbFilePath) session requests =
        run (Session.step rdbFilePath) (session.without key) requests) ∧
    (UntilMet (Session.step rdbFilePath) (Session.Passes key) (Session.Renews key) True session
        requests →
      Agree (fun first second => first = second ∨
          first.db.expiration.lookup key = some deadline ∧ second = first.without key)
        (run (Session.step rdbFilePath) session requests)
        (run (Session.step rdbFilePath) (session.without key) requests)) := by
  have hides : Session.Hides key deadline session (session.without key) :=
    ⟨reachable_sound reached, reachable_timed reached, due, rfl⟩
  have agree (ends : Prop) := @run_agree Fault Session Request (List Effect)
    (Session.step rdbFilePath) (Session.Hides key deadline) (Session.Passes key)
    (Session.Renews key) ends (Request.After deadline) session (session.without key) requests
    (fun _ _ _ hides _ passes => step_passes hides passes)
    (fun _ _ _ hides late renews => step_renews hides late renews) hides late
  refine ⟨fun met => Agree.eq ((agree False met).mono fun first second alike => ?_),
    fun met => (agree True met).mono fun first second alike => ?_⟩
  · rcases alike with same | ⟨absurd, -⟩
    · exact same
    · exact absurd.elim
  · rcases alike with same | ⟨-, hides⟩
    · exact .inl same
    · exact .inr ⟨hides.due, hides.without⟩

/-- A session of one client with a snapshot that held one key. -/
def Session.loaded : Session where
  db := DB.setWithExpiry {} 0 0 (ascii "k") (ascii "5") 1
  acl := .new
  clients := Finmap.singleton 5 {}

/-- A command of that client, a second later. -/
def Request.later (command : Command) : Request :=
  ⟨5, command, { Context.sample.env with clock := ⟨10 ^ 9, 10 ^ 9⟩ }, []⟩

/-- A GET of an expired key and then an INCR of it. -/
theorem expired_unseen_get :
    run (Session.step []) .loaded [.later (.get (ascii "k")), .later (.incr (ascii "k"))] =
      run (Session.step []) (Session.loaded.without (ascii "k"))
        [.later (.get (ascii "k")), .later (.incr (ascii "k"))] := by
  have late : ∀ request ∈ [Request.later (.get (ascii "k")), .later (.incr (ascii "k"))],
      request.After 1000000 := by
    intro request member env reading
    fin_cases member <;> fin_cases reading <;> decide
  refine (@expired_unseen (ascii "k") 1000000 [] _ .loaded (.loadedWithExpiry 0 0 _ _ 1 .empty)
    (Finmap.lookup_insert _) late).1 (.inl ?_)
  exact ⟨{}, Finmap.lookup_singleton_eq, [], .get (ascii "k"), [], rfl, fun _ absent => (nomatch absent), rfl⟩

/-- An INCR counts on from the value of an expired key: already the replies
are not those of the state without the key. -/
theorem incr_sees_expired : ¬ ∀ (session : Session) (key : Bytes) (deadline : Int)
    (rdbFilePath : Bytes) (requests : List Request), session.db.Reachable →
    session.db.expiration.lookup key = some deadline →
    (∀ request ∈ requests, request.After deadline) →
    (run (Session.step rdbFilePath) session requests).map Prod.fst =
      (run (Session.step rdbFilePath) (session.without key) requests).map Prod.fst := by
  intro claim
  have late : ∀ request ∈ [Request.later (.incr (ascii "k"))], request.After 1000000 := by
    intro request member env reading
    fin_cases member
    fin_cases reading
    decide
  have same := claim .loaded (ascii "k") 1000000 [] [.later (.incr (ascii "k"))]
    (.loadedWithExpiry 0 0 _ _ 1 .empty) (Finmap.lookup_insert _) late
  have replies := congrArg (fun outcome => outcome.toOption.map (·.map repliedBytes)) same
  exact absurd replies (by decide +kernel)

end CarrotDb
