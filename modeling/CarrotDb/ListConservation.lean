import CarrotDb.DbListStates
import CarrotDb.DbWaiting

/-! Where pushed values go. A value that was pushed is in its list until LPOP
or BLPOP replies with it, or a push hands it to a client that waits. -/
namespace CarrotDb
open Resp Listpack Ledger

/-- A value in a reply: the client it was sent to, and the key it came from. -/
structure Delivery where
  fd : Fd
  key : Bytes
  value : Bytes

/-- One request of a run: RPUSH, LPUSH, LPOP or BLPOP. -/
structure ListRequest where
  context : Context
  command : Command

/-- The reply of LPOP to the values it took. -/
def poppedReply : List Bytes → Bytes
  | [] => encodeNullBulkString
  | [value] => encodeBulkString value
  | values => encodeBulkStringArray values

/-- What a request hands out, as the bytes it sends tell: a push only to
clients that wait and still exist, the others to the requester. -/
def HandsOut (request : ListRequest) (effects : List Effect) (deliveries : List Delivery) : Prop :=
  match request.command with
  | .rpush key _ | .lpush key _ =>
    (∃ count, repliedBytes effects = encodeInteger count) ∧
      writes effects = deliveries.map (fun d => (d.fd, encodeBulkStringArray [key, d.value])) ∧
      ∀ d ∈ deliveries, d.key = key ∧ request.context.env.alive d.fd = true
  | .lpop key _ =>
    repliedBytes effects = poppedReply (deliveries.map Delivery.value) ∧ writes effects = [] ∧
      ∀ d ∈ deliveries, d.key = key ∧ d.fd = request.context.fd
  | .blpop keys _ =>
    writes effects = [] ∧
      (repliedBytes effects = [] ∧ deliveries = [] ∨
        ∃ value, repliedBytes effects = encodeBulkStringArray [keys.headD [], value] ∧
          deliveries = [⟨request.context.fd, keys.headD [], value⟩])
  | _ => False

/-- The key a request is about. -/
def ListRequest.key (request : ListRequest) : Bytes :=
  match request.command with
  | .blpop keys _ => keys.headD []
  | command => command.key

/-- The values a request pushes. -/
def ListRequest.values (request : ListRequest) : List Bytes :=
  match request.command with
  | .rpush _ values | .lpush _ values => values
  | _ => []

/-- The request is one of the four, on a missing key or a list. -/
def ListRequest.OnList (db : DB) (request : ListRequest) : Prop :=
  (match request.command with
    | .rpush .. | .lpush .. | .lpop .. | .blpop .. => True
    | _ => False) ∧
  ∃ xs, db.ListAt request.key xs

/-- A push with a first waiting client: the client still exists. Every value
that goes to the list has room in a listpack of its own. -/
def ListRequest.Safe (db : DB) (request : ListRequest) : Prop :=
  match queueOf db.blockedKeys request.key with
  | [] => ∀ value ∈ request.values, used [value] ≤ 2 ^ 32 - 1
  | blocked :: _ => (request.values ≠ [] → request.context.env.alive blocked.clientFd = true) ∧
    ∀ value ∈ request.values.tail, used [value] ≤ 2 ^ 32 - 1

theorem safe_of_waiter {db : DB} {request : ListRequest} {blocked : BlockedClient}
    {queue : List BlockedClient} (waits : queueOf db.blockedKeys request.key = blocked :: queue)
    (alive : request.values ≠ [] → request.context.env.alive blocked.clientFd = true)
    (small : ∀ value ∈ request.values.tail, used [value] ≤ 2 ^ 32 - 1) : request.Safe db := by
  unfold ListRequest.Safe
  rw [waits]
  exact ⟨alive, small⟩

/-- A run of requests. -/
def runRequests (db : DB) : List ListRequest → Exec (DB × List (List Effect))
  | [] => pure (db, [])
  | request :: rest => do
    let (db, effects) ← callSimple db request.context request.command
    let (db, later) ← runRequests db rest
    pure (db, effects :: later)

/-- A condition on each request and the database it meets, along a run. -/
def AlongRun (condition : DB → ListRequest → Prop) : DB → List ListRequest → Prop
  | _, [] => True
  | db, request :: rest => condition db request ∧
    ∀ db' effects, callSimple db request.context request.command = .ok (db', effects) →
      AlongRun condition db' rest

/-- The values a run pushes to a key. -/
def pushedTo (key : Bytes) (requests : List ListRequest) : List Bytes :=
  (requests.filter fun request => request.key = key).flatMap ListRequest.values

/-- The values of a key that were handed out. -/
def deliveredFrom (key : Bytes) (deliveries : List Delivery) : List Bytes :=
  (deliveries.filter fun d => d.key = key).map Delivery.value

/-- Every value of every list is either still there or in one reply. -/
def Conserves (db : DB) (requests : List ListRequest) (db' : DB) (outputs : List (List Effect)) : Prop :=
  ∃ deliveries : List (List Delivery),
    List.Forall₂ (fun (output : ListRequest × List Effect) handed => HandsOut output.1 output.2 handed)
      (requests.zip outputs) deliveries ∧
    ∀ key xs, db.ListAt key xs → ∃ ys, db'.ListAt key ys ∧
      (xs ++ pushedTo key requests).Perm (ys ++ deliveredFrom key deliveries.flatten)

variable {db db' : DB} {c : Context} {effects : List Effect} {key : Bytes} {xs : List Bytes}

/-- What a push does to its list, and whom it hands a value. -/
theorem handlePush_hands (held : db.ListAt key xs) {isPrepend : Bool} {values : List Bytes}
    (safe : match queueOf db.blockedKeys key with
      | [] => ∀ value ∈ values, used [value] ≤ 2 ^ 32 - 1
      | blocked :: _ => (values ≠ [] → c.env.alive blocked.clientFd = true) ∧
        ∀ value ∈ values.tail, used [value] ≤ 2 ^ 32 - 1)
    (ran : handlePush db c isPrepend key values = .ok (db', effects)) :
    ∃ (deliveries : List Delivery) (ys : List Bytes),
      (∃ count, repliedBytes effects = encodeInteger count) ∧
      writes effects = deliveries.map (fun d => (d.fd, encodeBulkStringArray [key, d.value])) ∧
      (∀ d ∈ deliveries, d.key = key ∧ c.env.alive d.fd = true) ∧
      db'.ListAt key ys ∧ (xs ++ values).Perm (ys ++ deliveries.map Delivery.value) ∧
      ∀ other, other ≠ key → db'.store.lookup other = db.store.lookup other := by
  have plain (idle : queueOf db.blockedKeys key = [] ∨ values = [])
      (small : ∀ value ∈ values, used [value] ≤ 2 ^ 32 - 1) :
      ∃ (deliveries : List Delivery) (ys : List Bytes),
        (∃ count, repliedBytes effects = encodeInteger count) ∧
        writes effects = deliveries.map (fun d => (d.fd, encodeBulkStringArray [key, d.value])) ∧
        (∀ d ∈ deliveries, d.key = key ∧ c.env.alive d.fd = true) ∧
        db'.ListAt key ys ∧ (xs ++ values).Perm (ys ++ deliveries.map Delivery.value) ∧
        ∀ other, other ≠ key → db'.store.lookup other = db.store.lookup other := by
    rw [handlePush_plain idle] at ran
    obtain ⟨⟨db₁, len⟩, pushes, ran⟩ := exec_bind_ok.mp ran
    obtain ⟨store, rfl, same⟩ := pushValues_frame pushes
    have held₁ := pushValues_listAt held small pushes
    cases ran
    refine ⟨[], _, ⟨len, ?_⟩, ?_, fun _ absent => (nomatch absent), held₁, ?_, same⟩
    · rw [repliedBytes_append, repliedBytes_dirty]
      exact List.append_nil _
    · rw [writes_append, writes_dirty]
      rfl
    · rw [List.map_nil, List.append_nil]
      exact (pushAll_perm isPrepend xs values).symm
  cases waits : queueOf db.blockedKeys key with
  | nil =>
    rw [waits] at safe
    exact plain (.inl waits) safe
  | cons blocked queue =>
    rw [waits] at safe
    cases values with
    | nil => exact plain (.inr rfl) fun _ absent => nomatch absent
    | cons first rest =>
      obtain ⟨alive, small⟩ := safe
      have lives : c.env.alive blocked.clientFd = true := alive (List.cons_ne_nil _ _)
      rw [handlePush_waiter waits] at ran
      obtain ⟨⟨db₁, len⟩, pushes, ran⟩ := exec_bind_ok.mp ran
      obtain ⟨store, rfl, same⟩ := pushValues_frame pushes
      have held₀ : DB.ListAt { db with blockedKeys := popFront db.blockedKeys key queue } key xs :=
        held.congr rfl
      have held₁ := pushValues_listAt held₀ small pushes
      rw [if_pos lives] at ran
      cases ran
      refine ⟨[⟨blocked.clientFd, key, first⟩], _, ⟨_, List.append_nil _⟩, rfl, ?_, held₁, ?_, same⟩
      · intro d member
        rw [List.mem_singleton.mp member]
        exact ⟨rfl, lives⟩
      · have kept := pushAll_perm isPrepend xs rest
        refine List.Perm.trans ?_ (kept.symm.append_right [first])
        rw [List.append_assoc]
        exact List.Perm.append_left xs (List.perm_append_singleton first rest).symm

private theorem repliedBytes_popped (result : List Bytes) :
    repliedBytes [.reply (match result with
      | [] => encodeNullBulkString
      | [value] => encodeBulkString value
      | _ => encodeBulkStringArray result)] = poppedReply result := by
  rcases result with _ | ⟨value, _ | ⟨next, rest⟩⟩ <;> exact List.append_nil _

/-- What LPOP takes off its list. -/
theorem handleLpop_hands (held : db.ListAt key xs) {count : Option Nat}
    (ran : handleLpop db c key count = .ok (db', effects)) :
    repliedBytes effects = poppedReply (xs.take (count.getD 1)) ∧ writes effects = [] ∧
      db'.ListAt key (xs.drop (count.getD 1)) ∧
      ∀ other, other ≠ key → db'.store.lookup other = db.store.lookup other := by
  rw [handleLpop] at ran
  rcases held with ⟨missing, rfl⟩ | ⟨object, lp, lookup, tag, pointer, formed⟩
  · rw [missing] at ran
    cases ran
    rw [List.take_nil, List.drop_nil]
    exact ⟨List.append_nil _, rfl, .inl ⟨missing, rfl⟩, fun _ _ => rfl⟩
  · rw [lookup] at ran
    dsimp only at ran
    rw [tag, pointer] at ran
    dsimp only at ran
    obtain ⟨⟨result, left⟩, popped, ran⟩ := exec_bind_ok.mp ran
    obtain ⟨rfl, lp', rfl, formed'⟩ := popElements_inv formed popped
    cases ran
    refine ⟨?_, ?_, .inr ⟨_, lp', Finmap.lookup_insert _, rfl, rfl, formed'⟩,
      fun other different => Finmap.lookup_insert_of_ne _ different⟩
    · rw [repliedBytes_append]
      split
      · exact repliedBytes_popped _
      · rw [repliedBytes_dirty]
        exact repliedBytes_popped _
    · rw [writes_append]
      split
      · rfl
      · rw [writes_dirty]
        rfl

/-- BLPOP takes the first value, or waits for one. -/
theorem handleBlpop_hands {keys : List Bytes} (held : db.ListAt (keys.headD []) xs) {timeout : Float}
    (ran : handleBlpop db c keys timeout = .ok (db', effects)) :
    (∀ other, other ≠ keys.headD [] → db'.store.lookup other = db.store.lookup other) ∧
      writes effects = [] ∧
      (repliedBytes effects = [] ∧ db'.ListAt (keys.headD []) xs ∨
        ∃ value rest, xs = value :: rest ∧ db'.ListAt (keys.headD []) rest ∧
          repliedBytes effects = encodeBulkStringArray [keys.headD [], value]) := by
  have waited {key : Bytes} (held : db.ListAt key xs) (ran : (do
      let blocked ← BlockedClient.make c.env.clock.steady c.fd timeout
      let queue := (db.blockedKeys.lookup key).getD [] ++ [blocked]
      pure ({ db with blockedKeys := db.blockedKeys.insert key queue }, [.block]) : Outcome) =
        .ok (db', effects)) :
      db'.store = db.store ∧ writes effects = [] ∧ repliedBytes effects = [] ∧ db'.ListAt key xs := by
    obtain ⟨blocked, -, ran⟩ := exec_bind_ok.mp ran
    cases ran
    exact ⟨rfl, rfl, rfl, held.congr rfl⟩
  rw [handleBlpop] at ran
  dsimp only at ran
  generalize keys.headD [] = key at *
  have whole := held
  rcases held with ⟨missing, rfl⟩ | ⟨object, lp, lookup, tag, pointer, formed⟩
  · rw [missing] at ran
    obtain ⟨same, silent, quiet, held'⟩ := waited whole ran
    exact ⟨fun other _ => by rw [same], silent, .inl ⟨quiet, held'⟩⟩
  · rw [lookup] at ran
    dsimp only at ran
    rw [tag, pointer] at ran
    dsimp only at ran
    obtain ⟨first, found, ran⟩ := exec_bind_ok.mp ran
    have place := lpFirst_inv formed found
    cases xs with
    | nil =>
      subst place
      obtain ⟨same, silent, quiet, held'⟩ := waited whole ran
      exact ⟨fun other _ => by rw [same], silent, .inl ⟨quiet, held'⟩⟩
    | cons x rest =>
      subst place
      obtain ⟨value, read, ran⟩ := exec_bind_ok.mp ran
      obtain rfl := Except.ok.inj ((elementAt_first formed).symm.trans read)
      obtain ⟨lp', newp, deleted, formed'⟩ := lpDelete_first formed c.env.ndebug
      rw [deleted, exec_ok_bind] at ran
      cases ran
      exact ⟨fun other different => Finmap.lookup_insert_of_ne _ different, rfl,
        .inr ⟨x, rest, rfl, .inr ⟨_, lp', Finmap.lookup_insert _, rfl, rfl, formed'⟩, List.append_nil _⟩⟩

/-- What one request hands out, and what it leaves in its list. -/
theorem request_hands {request : ListRequest} (onList : request.OnList db) (safe : request.Safe db)
    (ran : callSimple db request.context request.command = .ok (db', effects)) :
    ∃ deliveries, HandsOut request effects deliveries ∧ (∀ d ∈ deliveries, d.key = request.key) ∧
      (∀ xs, db.ListAt request.key xs → ∃ ys, db'.ListAt request.key ys ∧
        (xs ++ request.values).Perm (ys ++ deliveries.map Delivery.value)) ∧
      ∀ other, other ≠ request.key → db'.store.lookup other = db.store.lookup other := by
  obtain ⟨kind, xs, held⟩ := onList
  obtain ⟨c, command⟩ := request
  have unique {P : List Bytes → Prop} {key : Bytes} (held : db.ListAt key xs) (proved : P xs) :
      ∀ zs, db.ListAt key zs → P zs := fun zs other => listAt_unique held other ▸ proved
  cases command <;> first | exact False.elim kind | skip
  case rpush key values =>
    obtain ⟨deliveries, ys, counted, written, lives, held', kept, same⟩ :=
      handlePush_hands held safe ran
    exact ⟨deliveries, ⟨counted, written, lives⟩, fun d member => (lives d member).1,
      unique held ⟨ys, held', kept⟩, same⟩
  case lpush key values =>
    obtain ⟨deliveries, ys, counted, written, lives, held', kept, same⟩ :=
      handlePush_hands held safe ran
    exact ⟨deliveries, ⟨counted, written, lives⟩, fun d member => (lives d member).1,
      unique held ⟨ys, held', kept⟩, same⟩
  case lpop key count =>
    obtain ⟨replied, silent, held', same⟩ := handleLpop_hands held ran
    refine ⟨(xs.take (count.getD 1)).map fun value => ⟨c.fd, key, value⟩, ⟨?_, silent, ?_⟩, ?_,
      unique held ⟨_, held', ?_⟩, same⟩
    · rwa [List.map_map, show Delivery.value ∘ (fun value => (⟨c.fd, key, value⟩ : Delivery)) = id
        from rfl, List.map_id]
    · intro d member
      obtain ⟨value, -, rfl⟩ := List.mem_map.mp member
      exact ⟨rfl, rfl⟩
    · intro d member
      obtain ⟨value, -, rfl⟩ := List.mem_map.mp member
      rfl
    · rw [List.map_map, show Delivery.value ∘ (fun value => (⟨c.fd, key, value⟩ : Delivery)) = id
        from rfl, List.map_id, show ListRequest.values ⟨c, .lpop key count⟩ = [] from rfl, List.append_nil]
      have whole := List.take_append_drop (count.getD 1) xs
      exact (List.Perm.of_eq whole.symm).trans List.perm_append_comm
  case blpop keys timeout =>
    obtain ⟨same, silent, ⟨quiet, held'⟩ | ⟨value, rest, rfl, held', replied⟩⟩ :=
      handleBlpop_hands held ran
    · exact ⟨[], ⟨silent, .inl ⟨quiet, rfl⟩⟩, fun _ absent => (nomatch absent),
        unique held ⟨xs, held', List.Perm.refl _⟩, same⟩
    · refine ⟨[⟨c.fd, keys.headD [], value⟩], ⟨silent, .inr ⟨value, replied, rfl⟩⟩, ?_,
        unique held ⟨rest, held', ?_⟩, same⟩
      · intro d member
        rw [List.mem_singleton.mp member]
        rfl
      · rw [show ListRequest.values ⟨c, .blpop keys timeout⟩ = [] from rfl, List.append_nil]
        exact (List.perm_append_singleton value rest).symm

/-! ## Runs -/

theorem pushedTo_cons (key : Bytes) (request : ListRequest) (rest : List ListRequest) :
    pushedTo key (request :: rest) =
      (if request.key = key then request.values else []) ++ pushedTo key rest := by
  rw [pushedTo, List.filter_cons, pushedTo]
  by_cases same : request.key = key
  · simp [same]
  · simp [same]

theorem deliveredFrom_append (key : Bytes) (first second : List Delivery) :
    deliveredFrom key (first ++ second) = deliveredFrom key first ++ deliveredFrom key second := by
  rw [deliveredFrom, List.filter_append, List.map_append, deliveredFrom, deliveredFrom]

private theorem deliveredFrom_own {deliveries : List Delivery} {own : Bytes}
    (all : ∀ d ∈ deliveries, d.key = own) (key : Bytes) :
    deliveredFrom key deliveries = if own = key then deliveries.map Delivery.value else [] := by
  rw [deliveredFrom]
  by_cases same : own = key
  · rw [if_pos same, List.filter_eq_self.mpr fun d member => decide_eq_true ((all d member).trans same)]
  · rw [if_neg same, List.filter_eq_nil_iff.mpr fun d member kept =>
      same ((all d member).symm.trans (of_decide_eq_true kept)), List.map_nil]

/-- Over every run in which no push meets a first waiting client that is gone,
nothing is lost and nothing is delivered twice. -/
theorem run_conserves {requests : List ListRequest} {outputs : List (List Effect)}
    (onList : AlongRun (fun db request => request.OnList db) db requests)
    (safe : AlongRun (fun db request => request.Safe db) db requests)
    (ran : runRequests db requests = .ok (db', outputs)) : Conserves db requests db' outputs := by
  induction requests generalizing db outputs with
  | nil =>
    cases ran
    exact ⟨[], .nil, fun key xs held => ⟨xs, held, List.Perm.refl _⟩⟩
  | cons request rest ih =>
    obtain ⟨⟨db₁, effects⟩, first, ran⟩ := exec_bind_ok.mp ran
    obtain ⟨⟨db₂, later⟩, following, ran⟩ := exec_bind_ok.mp ran
    cases ran
    obtain ⟨deliveries, hands, own, moved, same⟩ := request_hands onList.1 safe.1 first
    obtain ⟨handed, all, kept⟩ := ih (onList.2 db₁ effects first) (safe.2 db₁ effects first) following
    refine ⟨deliveries :: handed, .cons hands all, fun key xs held => ?_⟩
    rw [pushedTo_cons, List.flatten_cons, deliveredFrom_append, deliveredFrom_own own]
    by_cases here : request.key = key
    · subst here
      obtain ⟨ys, held₁, perm₁⟩ := moved xs held
      obtain ⟨zs, held₂, perm₂⟩ := kept _ ys held₁
      refine ⟨zs, held₂, ?_⟩
      rw [if_pos rfl, if_pos rfl, ← List.append_assoc]
      refine (perm₁.append_right _).trans ?_
      rw [List.append_assoc]
      refine (List.perm_append_comm_assoc _ _ _).trans ((perm₂.append_left _).trans ?_)
      exact List.perm_append_comm_assoc _ _ _
    · obtain ⟨zs, held₂, perm₂⟩ := kept key xs (held.congr (same key fun equal => here equal.symm))
      exact ⟨zs, held₂, by rwa [if_neg here, if_neg here]⟩

/-- A client that waits for a key of the empty database. -/
private theorem sample_waits
    (ran : handleBlpop {} Context.sample [ascii "k"] 0.0 = .ok (db', effects)) :
    db'.store.lookup (ascii "k") = none ∧
      queueOf db'.blockedKeys (ascii "k") = [⟨5, timePointMax⟩] := by
  have made : BlockedClient.make 0 5 0.0 = .ok ⟨5, timePointMax⟩ := by
    rw [BlockedClient.make, if_pos (by decide +kernel)]
    rfl
  rw [show handleBlpop {} Context.sample [ascii "k"] 0.0 = (do
    let blocked ← BlockedClient.make 0 5 0.0
    pure ({ blockedKeys := Finmap.insert (ascii "k") ([] ++ [blocked]) ∅ }, [.block])) from rfl, made]
    at ran
  cases ran
  exact ⟨rfl, queueOf_insert _ _ _⟩

/-- A client waits, and a push hands it a value and keeps another. -/
theorem run_conserves_handover : ∃ db' outputs,
    runRequests {} [⟨Context.sample, .blpop [ascii "k"] 0.0⟩,
        ⟨{ Context.sample with fd := 6 }, .rpush (ascii "k") [ascii "v", ascii "w"]⟩] =
      .ok (db', outputs) ∧
    Conserves {} [⟨Context.sample, .blpop [ascii "k"] 0.0⟩,
        ⟨{ Context.sample with fd := 6 }, .rpush (ascii "k") [ascii "v", ascii "w"]⟩] db' outputs := by
  obtain ⟨⟨db', outputs⟩, ran⟩ := @exec_of_isOk _ (runRequests {}
    [⟨Context.sample, .blpop [ascii "k"] 0.0⟩,
      ⟨{ Context.sample with fd := 6 }, .rpush (ascii "k") [ascii "v", ascii "w"]⟩]) (by decide +kernel)
  refine ⟨db', outputs, ran, run_conserves ?_ ?_ ran⟩
  · refine ⟨⟨trivial, [], .inl ⟨rfl, rfl⟩⟩, fun db₁ effects first =>
      ⟨⟨trivial, [], .inl ⟨?_, rfl⟩⟩, fun _ _ _ => trivial⟩⟩
    exact (sample_waits first).1
  · refine ⟨?_, fun db₁ effects first => ⟨?_, fun _ _ _ => trivial⟩⟩
    · exact fun _ absent => nomatch absent
    · refine safe_of_waiter (sample_waits first).2 (fun _ => rfl) fun value member => ?_
      rw [List.mem_singleton.mp member]
      decide +kernel

/-- A client starts to wait and disappears; then another client pushes. -/
def orphanedRun : List ListRequest :=
  [⟨Context.sample, .blpop [ascii "k"] 0.0⟩,
    ⟨{ Context.sample with fd := 6, env := { Context.sample.env with alive := (· ≠ 5) } },
      .rpush (ascii "k") [ascii "v"]⟩]

/-- The pushed value is in no list and in no reply. -/
theorem run_loses_value : ¬ ∀ db requests db' outputs,
    AlongRun (fun db request => request.OnList db) db requests →
      runRequests db requests = .ok (db', outputs) → Conserves db requests db' outputs := by
  intro all
  have computed : (match runRequests {} orphanedRun with
      | .ok (db', outputs) => decide (outputs.map writes = [[], []]) &&
          decide (outputs.map repliedBytes = [[], encodeInteger 1]) &&
          (db'.store.lookup (ascii "k")).isNone
      | .error _ => false) = true := by decide +kernel
  cases ran : runRequests {} orphanedRun with
  | error fault =>
    rw [ran] at computed
    cases computed
  | ok result =>
    obtain ⟨db', outputs⟩ := result
    rw [ran] at computed
    simp only [Bool.and_eq_true, decide_eq_true_eq, Option.isNone_iff_eq_none] at computed
    obtain ⟨⟨silent, replied⟩, missing⟩ := computed
    have onList : AlongRun (fun db request => request.OnList db) {} orphanedRun :=
      ⟨⟨trivial, [], .inl ⟨rfl, rfl⟩⟩, fun _ _ first =>
        ⟨⟨trivial, [], .inl ⟨(sample_waits first).1, rfl⟩⟩, fun _ _ _ => trivial⟩⟩
    obtain ⟨deliveries, hands, kept⟩ := all {} orphanedRun db' outputs onList ran
    obtain ⟨ys, held, perm⟩ := kept (ascii "k") [] (.inl ⟨rfl, rfl⟩)
    obtain rfl := listAt_unique held (.inl ⟨missing, rfl⟩)
    -- neither request hands anything out
    have nothing : deliveries = [[], []] := by
      obtain ⟨first, second, rfl⟩ : ∃ first second, outputs = [first, second] := by
        exact List.length_eq_two.mp (by simpa using congrArg List.length silent)
      simp only [List.map_cons, List.map_nil, List.cons.injEq, and_true] at silent replied
      rcases hands with _ | ⟨blpop, hands⟩
      rcases hands with _ | ⟨push, hands⟩
      cases hands
      rename_i handedFirst handedSecond
      obtain ⟨-, ⟨-, rfl⟩ | ⟨value, carried, -⟩⟩ := blpop
      · obtain ⟨-, written, -⟩ := push
        rw [silent.2] at written
        rw [List.map_eq_nil_iff.mp written.symm]
      · rw [replied.1] at carried
        cases carried
    rw [nothing] at perm
    cases perm.length_eq

end CarrotDb
