import CarrotDb.Replication

/-! How long the event loop sleeps. `Server::run` gives epoll the smaller of
two timeouts: one from the fronts of the queues of blocked BLPOP and XREAD
clients, one from all blocked WAIT clients. The first does not see who stands
behind the front, and both are narrowed to `int`. -/
namespace CarrotDb

/-- `duration_cast<milliseconds>(deadline - now).count()`. -/
def leftMs (now deadline : Int) : Int := (i64 (deadline - now)).tdiv (10 ^ 6)

/-- The scan of `get_next_timeout_ms` over one map of queues. -/
def scanFronts (timeoutAt : α → Int) (queues : Map Bytes (List α)) (keys : List Bytes)
    (minTimeout : Int) : Int :=
  keys.foldl (fun minTimeout key =>
    match queues.lookup key with
    | some (front :: _) => if timeoutAt front < minTimeout then timeoutAt front else minTimeout
    | _ => minTimeout) minTimeout

/-- `get_next_timeout_ms`. -/
def getNextTimeoutMs (db : DB) (env : Env) : Int :=
  if db.blockedKeys.keys = ∅ ∧ db.blockedXreadKeys.keys = ∅ then -1
  else
    let minTimeout := scanFronts BlockedClient.timeoutAt db.blockedKeys (env.walk db.blockedKeys.keys)
      timePointMax
    let minTimeout := scanFronts BlockedXreadClient.timeoutAt db.blockedXreadKeys
      (env.walk db.blockedXreadKeys.keys) minTimeout
    if minTimeout = timePointMax then -1
    else
      let duration := leftMs env.clock.steady minTimeout
      if duration ≤ 0 then 0 else i32 duration

/-- The loop of `get_next_wait_timeout_ms`. -/
def scanWaits (now : Int) : List BlockedWaitClient → Int → Int
  | [], minTimeout => minTimeout
  | blocked :: rest, minTimeout =>
    if blocked.timeoutAt = timePointMax then scanWaits now rest minTimeout
    else
      let remaining := leftMs now blocked.timeoutAt
      if remaining ≤ 0 then 0
      else if minTimeout = -1 ∨ remaining < minTimeout then scanWaits now rest (i32 remaining)
      else scanWaits now rest minTimeout

/-- `get_next_wait_timeout_ms`. -/
def getNextWaitTimeoutMs (server : Server) (env : Env) : Int :=
  scanWaits env.clock.steady server.blockedWaitClients (-1)

/-- The timeout that `Server::run` passes to epoll. -/
def Server.timeoutMs (server : Server) (env : Env) : Int :=
  let timeoutMs := getNextTimeoutMs server.db env
  let waitTimeoutMs := getNextWaitTimeoutMs server env
  if waitTimeoutMs ≥ 0 then
    if timeoutMs < 0 then waitTimeoutMs else min timeoutMs waitTimeoutMs
  else timeoutMs

/-- A client blocked by BLPOP or XREAD has a deadline. -/
def DB.Deadline (db : DB) (deadline : Int) : Prop :=
  (∃ key queue, db.blockedKeys.lookup key = some queue ∧
    ∃ blocked ∈ queue, blocked.timeoutAt = deadline) ∨
  ∃ key queue, db.blockedXreadKeys.lookup key = some queue ∧
    ∃ blocked ∈ queue, blocked.timeoutAt = deadline

/-- A blocked client has a deadline that is not infinite. -/
def Server.Deadline (server : Server) (deadline : Int) : Prop :=
  deadline ≠ timePointMax ∧
    (server.db.Deadline deadline ∨ ∃ blocked ∈ server.blockedWaitClients, blocked.timeoutAt = deadline)

/-- The whole milliseconds that remain, none behind the deadline. -/
def remainingMs (now deadline : Int) : Int := max 0 ((deadline - now) / 10 ^ 6)

/-- A timeout does not sleep past a deadline: it is negative only if there is
none, and otherwise not more than what remains to any of them. -/
def Server.SleepsInTime (server : Server) (now timeoutMs : Int) : Prop :=
  (timeoutMs < 0 → ∀ deadline, ¬ server.Deadline deadline) ∧
    (0 ≤ timeoutMs → ∀ deadline, server.Deadline deadline → timeoutMs ≤ remainingMs now deadline)

/-- A client at the front of a queue has a deadline. -/
def DB.FrontDeadline (db : DB) (deadline : Int) : Prop :=
  (∃ key front rest, db.blockedKeys.lookup key = some (front :: rest) ∧ front.timeoutAt = deadline) ∨
  ∃ key front rest, db.blockedXreadKeys.lookup key = some (front :: rest) ∧ front.timeoutAt = deadline

/-- Milliseconds as they are narrowed to `int`, none if they are not positive. -/
def narrowMs (left : Int) : Int := if left ≤ 0 then 0 else i32 left

/-- The milliseconds in which the event loop is sure to wake for a client
blocked by WAIT: none if one is due; what remains to the first, once it is
narrowed and unless it is negative then; and what remains to one behind it.
A client without a deadline does not count, nor one whose low 32 bits are all
set. -/
inductive WaitsWake (now : Int) : List BlockedWaitClient → Int → Prop
  | due {waits : List BlockedWaitClient} {blocked : BlockedWaitClient} :
    blocked ∈ waits → blocked.timeoutAt ≠ timePointMax → leftMs now blocked.timeoutAt ≤ 0 →
    WaitsWake now waits 0
  | first {blocked : BlockedWaitClient} {rest : List BlockedWaitClient} :
    blocked.timeoutAt ≠ timePointMax → 0 ≤ i32 (leftMs now blocked.timeoutAt) →
    WaitsWake now (blocked :: rest) (i32 (leftMs now blocked.timeoutAt))
  | later {blocked other : BlockedWaitClient} {rest : List BlockedWaitClient} :
    blocked.timeoutAt ≠ timePointMax → 0 ≤ i32 (leftMs now blocked.timeoutAt) →
    other ∈ rest → other.timeoutAt ≠ timePointMax →
    WaitsWake now (blocked :: rest) (leftMs now other.timeoutAt)
  | skip {blocked : BlockedWaitClient} {rest : List BlockedWaitClient} {left : Int} :
    blocked.timeoutAt = timePointMax ∨ i32 (leftMs now blocked.timeoutAt) = -1 →
    WaitsWake now rest left → WaitsWake now (blocked :: rest) left

/-- The milliseconds in which it is sure to wake for a blocked client: also
what remains to the nearest front with a deadline, narrowed and not negative
then. -/
inductive Server.WakesIn (server : Server) (now : Int) : Int → Prop
  | front {deadline : Int} :
    server.db.FrontDeadline deadline → deadline < timePointMax →
    (∀ other, server.db.FrontDeadline other → deadline ≤ other) →
    0 ≤ narrowMs (leftMs now deadline) → server.WakesIn now (narrowMs (leftMs now deadline))
  | wait {left : Int} : WaitsWake now server.blockedWaitClients left → server.WakesIn now left

variable {now left : Int}

/-- A client that is due ends the scan. -/
theorem scanWaits_due {waits : List BlockedWaitClient} {blocked : BlockedWaitClient}
    (member : blocked ∈ waits) (finite : blocked.timeoutAt ≠ timePointMax)
    (due : leftMs now blocked.timeoutAt ≤ 0) (minTimeout : Int) :
    scanWaits now waits minTimeout = 0 := by
  induction waits generalizing minTimeout with
  | nil => cases member
  | cons first rest ih =>
    unfold scanWaits
    cases member with
    | head => simp [finite, due]
    | tail _ inside =>
      dsimp only
      split
      · exact ih inside minTimeout
      · split
        · rfl
        · split
          · exact ih inside _
          · exact ih inside minTimeout

/-- Once a timeout is found, the scan takes the least. -/
theorem scanWaits_found {waits : List BlockedWaitClient} {minTimeout : Int} (found : 0 ≤ minTimeout)
    (narrow : minTimeout < 2 ^ 31) (within : 0 ≤ left) :
    0 ≤ scanWaits now waits minTimeout ∧ scanWaits now waits minTimeout ≤ left ↔
      minTimeout ≤ left ∨
        ∃ blocked ∈ waits, blocked.timeoutAt ≠ timePointMax ∧ leftMs now blocked.timeoutAt ≤ left := by
  induction waits generalizing minTimeout with
  | nil => simp [scanWaits, found]
  | cons first rest ih =>
    unfold scanWaits
    split
    · rename_i infinite
      simp [ih found narrow, infinite]
    · rename_i finite
      dsimp only
      split
      · rename_i due
        have reached : leftMs now first.timeoutAt ≤ left := due.trans within
        simp [within, finite, reached]
      · rename_i ahead
        split
        · rename_i nearer
          have same : i32 (leftMs now first.timeoutAt) = leftMs now first.timeoutAt := by
            apply i32_of_range <;> omega
          rw [same, ih (by omega) (by omega)]
          simp only [List.mem_cons, exists_eq_or_imp, finite, ne_eq, not_false_eq_true, true_and]
          constructor
          · exact .inr
          · rintro (first | others)
            · exact .inl (by omega)
            · exact others
        · rename_i farther
          rw [ih found narrow]
          simp only [List.mem_cons, exists_eq_or_imp, finite, ne_eq, not_false_eq_true, true_and]
          constructor
          · rintro (first | others)
            · exact .inl first
            · exact .inr (.inr others)
          · rintro (first | second | others)
            · exact .inl first
            · exact .inl (by omega)
            · exact .inr others

/-- A timeout that the narrowing has made negative stays, but for a client that
is due. -/
theorem scanWaits_negative {waits : List BlockedWaitClient} {minTimeout : Int}
    (negative : minTimeout < -1) :
    0 ≤ scanWaits now waits minTimeout ↔
      ∃ blocked ∈ waits, blocked.timeoutAt ≠ timePointMax ∧ leftMs now blocked.timeoutAt ≤ 0 := by
  constructor
  · intro found
    induction waits with
    | nil => exact absurd found (by simp [scanWaits]; omega)
    | cons first rest ih =>
      unfold scanWaits at found
      split at found
      · obtain ⟨blocked, member, rest⟩ := ih found
        exact ⟨blocked, List.mem_cons_of_mem _ member, rest⟩
      · rename_i finite
        dsimp only at found
        split at found
        · exact ⟨first, List.mem_cons_self, finite, ‹_›⟩
        · rw [if_neg (by omega)] at found
          obtain ⟨blocked, member, rest⟩ := ih found
          exact ⟨blocked, List.mem_cons_of_mem _ member, rest⟩
  · rintro ⟨blocked, member, finite, due⟩
    rw [scanWaits_due member finite due]

/-- What the scan of WAIT clients returns is soon enough for a client exactly
if one of the timeouts that count is. -/
theorem scanWaits_within {waits : List BlockedWaitClient} (within : 0 ≤ left) :
    0 ≤ scanWaits now waits (-1) ∧ scanWaits now waits (-1) ≤ left ↔
      ∃ wakes, WaitsWake now waits wakes ∧ wakes ≤ left := by
  constructor
  · intro soon
    induction waits with
    | nil => simp [scanWaits] at soon
    | cons first rest ih =>
      unfold scanWaits at soon
      split at soon
      · rename_i infinite
        obtain ⟨wakes, wake, enough⟩ := ih soon
        exact ⟨wakes, .skip (.inl infinite) wake, enough⟩
      · rename_i finite
        dsimp only at soon
        split at soon
        · exact ⟨0, .due List.mem_cons_self finite ‹_›, within⟩
        · rw [if_pos (.inl rfl)] at soon
          -- What the narrowing leaves decides which of the later clients count.
          rcases lt_trichotomy (i32 (leftMs now first.timeoutAt)) (-1) with less | same | more
          · obtain ⟨blocked, member, finite', due⟩ := (scanWaits_negative less).mp soon.1
            exact ⟨0, .due (List.mem_cons_of_mem _ member) finite' due, within⟩
          · rw [same] at soon
            obtain ⟨wakes, wake, enough⟩ := ih soon
            exact ⟨wakes, .skip (.inr same) wake, enough⟩
          · have narrowed : 0 ≤ i32 (leftMs now first.timeoutAt) := by omega
            rcases (scanWaits_found narrowed (i32_range _).2 within).mp soon with
              enough | ⟨other, member, finite', enough⟩
            · exact ⟨_, .first finite narrowed, enough⟩
            · exact ⟨_, .later finite narrowed member finite', enough⟩
  · rintro ⟨wakes, wake, enough⟩
    by_cases due : ∃ blocked ∈ waits, blocked.timeoutAt ≠ timePointMax ∧
        leftMs now blocked.timeoutAt ≤ 0
    · obtain ⟨blocked, member, finite, due⟩ := due
      rw [scanWaits_due member finite due]
      exact ⟨le_refl 0, within⟩
    · induction wake with
      | due member finite passed => exact absurd ⟨_, member, finite, passed⟩ due
      | @first blocked rest finite narrowed =>
        have ahead : ¬ leftMs now blocked.timeoutAt ≤ 0 := fun passed =>
          due ⟨blocked, List.mem_cons_self, finite, passed⟩
        simp only [scanWaits, finite, ahead, if_false, true_or, if_true]
        exact (scanWaits_found narrowed (i32_range _).2 within).mpr (.inl enough)
      | @later blocked other rest finite narrowed member finite' =>
        have ahead : ¬ leftMs now blocked.timeoutAt ≤ 0 := fun passed =>
          due ⟨blocked, List.mem_cons_self, finite, passed⟩
        simp only [scanWaits, finite, ahead, if_false, true_or, if_true]
        exact (scanWaits_found narrowed (i32_range _).2 within).mpr
          (.inr ⟨other, member, finite', enough⟩)
      | @skip blocked rest left' skipped wake ih =>
        have later := ih enough fun ⟨other, member, passed⟩ =>
          due ⟨other, List.mem_cons_of_mem _ member, passed⟩
        unfold scanWaits
        split
        · exact later
        · rename_i finite
          have ahead : ¬ leftMs now blocked.timeoutAt ≤ 0 := fun passed =>
            due ⟨blocked, List.mem_cons_self, finite, passed⟩
          have allSet := skipped.resolve_left finite
          simpa only [ahead, if_false, true_or, if_true, allSet] using later

/-! ## The scan of fronts -/

/-- One queue of the scan. -/
private theorem scanFronts_cons {timeoutAt : α → Int} {queues : Map Bytes (List α)} {key : Bytes}
    {keys : List Bytes} {start : Int} :
    ∃ next, scanFronts timeoutAt queues (key :: keys) start = scanFronts timeoutAt queues keys next ∧
      next ≤ start ∧
      (∀ front rest, queues.lookup key = some (front :: rest) → next ≤ timeoutAt front) ∧
      (next = start ∨ ∃ front rest, queues.lookup key = some (front :: rest) ∧ next = timeoutAt front) := by
  refine ⟨_, rfl, ?_⟩
  dsimp only
  split
  · rename_i front rest lookup
    rw [lookup]
    split
    · rename_i sooner
      refine ⟨sooner.le, ?_, .inr ⟨front, rest, rfl, rfl⟩⟩
      intro _ _ same
      cases same
      exact le_refl _
    · rename_i later
      refine ⟨le_refl _, ?_, .inl rfl⟩
      intro _ _ same
      cases same
      exact not_lt.mp later
  · rename_i nobody
    exact ⟨le_refl _, fun front rest lookup => absurd lookup (nobody front rest), .inl rfl⟩

/-- The scan finds the least of the fronts that are sooner than where it
starts. -/
theorem scanFronts_least {timeoutAt : α → Int} {queues : Map Bytes (List α)} {keys : List Bytes}
    {start : Int} :
    scanFronts timeoutAt queues keys start ≤ start ∧
      (∀ key ∈ keys, ∀ front rest, queues.lookup key = some (front :: rest) →
        scanFronts timeoutAt queues keys start ≤ timeoutAt front) ∧
      (scanFronts timeoutAt queues keys start = start ∨
        ∃ key front rest, queues.lookup key = some (front :: rest) ∧
          scanFronts timeoutAt queues keys start = timeoutAt front) := by
  induction keys generalizing start with
  | nil => simp [scanFronts]
  | cons key others ih =>
    obtain ⟨next, whole, below, least, origin⟩ := @scanFronts_cons _ timeoutAt queues key others start
    obtain ⟨below', least', origin'⟩ := @ih next
    rw [whole]
    refine ⟨below'.trans below, ?_, ?_⟩
    · intro other member front rest lookup
      cases member with
      | head => exact below'.trans (least front rest lookup)
      | tail _ inside => exact least' other inside front rest lookup
    · rcases origin' with same | found
      · rw [same]
        rcases origin with unmoved | ⟨front, rest, lookup, here⟩
        · exact .inl unmoved
        · exact .inr ⟨key, front, rest, lookup, here⟩
      · exact .inr found

variable {db : DB} {env : Env}

theorem mem_walk {keys : Finset Bytes} {key : Bytes} : key ∈ env.walk keys ↔ key ∈ keys := by
  rw [← Multiset.mem_coe, env.walk_all, Finset.mem_val]

/-- The nearest front of all, as `get_next_timeout_ms` finds it. -/
private def nearestFront (db : DB) (env : Env) : Int :=
  scanFronts BlockedXreadClient.timeoutAt db.blockedXreadKeys (env.walk db.blockedXreadKeys.keys)
    (scanFronts BlockedClient.timeoutAt db.blockedKeys (env.walk db.blockedKeys.keys) timePointMax)

private theorem nearestFront_least :
    nearestFront db env ≤ timePointMax ∧
      (∀ deadline, db.FrontDeadline deadline → nearestFront db env ≤ deadline) ∧
      (nearestFront db env = timePointMax ∨ db.FrontDeadline (nearestFront db env)) := by
  obtain ⟨below, least, origin⟩ := @scanFronts_least _ BlockedClient.timeoutAt db.blockedKeys
    (env.walk db.blockedKeys.keys) timePointMax
  obtain ⟨below', least', origin'⟩ := @scanFronts_least _ BlockedXreadClient.timeoutAt
    db.blockedXreadKeys (env.walk db.blockedXreadKeys.keys)
    (scanFronts BlockedClient.timeoutAt db.blockedKeys (env.walk db.blockedKeys.keys) timePointMax)
  have listed {α : Type} {queues : Map Bytes (List α)} {key : Bytes} {queue : List α}
      (lookup : queues.lookup key = some queue) : key ∈ env.walk queues.keys := by
    rw [mem_walk, Finmap.mem_keys]
    exact Finmap.mem_of_lookup_eq_some lookup
  refine ⟨below'.trans below, ?_, ?_⟩
  · rintro deadline (⟨key, front, rest, lookup, rfl⟩ | ⟨key, front, rest, lookup, rfl⟩)
    · exact below'.trans (least key (listed lookup) front rest lookup)
    · exact least' key (listed lookup) front rest lookup
  · rcases origin' with same | ⟨key, front, rest, lookup, here⟩
    · rcases origin with unmoved | ⟨key, front, rest, lookup, here⟩
      · exact .inl (same.trans unmoved)
      · exact .inr (.inl ⟨key, front, rest, lookup, (same.trans here).symm⟩)
    · exact .inr (.inr ⟨key, front, rest, lookup, here.symm⟩)

/-- What the scan of fronts returns is soon enough for a client exactly if the
nearest front with a deadline counts and is. -/
theorem getNextTimeoutMs_within :
    0 ≤ getNextTimeoutMs db env ∧ getNextTimeoutMs db env ≤ left ↔
      ∃ deadline, db.FrontDeadline deadline ∧ deadline < timePointMax ∧
        (∀ other, db.FrontDeadline other → deadline ≤ other) ∧
        0 ≤ narrowMs (leftMs env.clock.steady deadline) ∧
        narrowMs (leftMs env.clock.steady deadline) ≤ left := by
  obtain ⟨below, least, origin⟩ := @nearestFront_least db env
  by_cases none_blocked : db.blockedKeys.keys = ∅ ∧ db.blockedXreadKeys.keys = ∅
  · have nobody : ∀ deadline, ¬ db.FrontDeadline deadline := by
      rintro deadline (⟨key, front, rest, lookup, -⟩ | ⟨key, front, rest, lookup, -⟩)
      · have := Finmap.mem_keys.mpr (Finmap.mem_of_lookup_eq_some lookup)
        simp [none_blocked.1] at this
      · have := Finmap.mem_keys.mpr (Finmap.mem_of_lookup_eq_some lookup)
        simp [none_blocked.2] at this
    simp [getNextTimeoutMs, none_blocked, nobody]
  · have scanned : getNextTimeoutMs db env = if nearestFront db env = timePointMax then -1 else
        narrowMs (leftMs env.clock.steady (nearestFront db env)) := by
      unfold getNextTimeoutMs
      rw [if_neg none_blocked]
      rfl
    rw [scanned]
    split
    · rename_i infinite
      constructor
      · rintro ⟨negative, -⟩
        omega
      · rintro ⟨deadline, front, finite, -⟩
        have := least deadline front
        omega
    · rename_i finite
      have front := origin.resolve_left finite
      constructor
      · rintro ⟨counts, enough⟩
        exact ⟨_, front, lt_of_le_of_ne below finite, least, counts, enough⟩
      · rintro ⟨deadline, front', finite', nearest, counts, enough⟩
        have same : deadline = nearestFront db env := le_antisymm (nearest _ front) (least _ front')
        rw [← same]
        exact ⟨counts, enough⟩

variable {server : Server}

/-- The merged timeout is soon enough for a client exactly if one of the two is. -/
theorem timeoutMs_within :
    0 ≤ server.timeoutMs env ∧ server.timeoutMs env ≤ left ↔
      (0 ≤ getNextTimeoutMs server.db env ∧ getNextTimeoutMs server.db env ≤ left) ∨
      (0 ≤ getNextWaitTimeoutMs server env ∧ getNextWaitTimeoutMs server env ≤ left) := by
  unfold Server.timeoutMs
  dsimp only
  split
  · split <;> omega
  · omega

/-- The event loop sleeps past no deadline exactly if for each client with a
deadline one of the timeouts that count is soon enough. -/
theorem sleepsInTime_iff (server : Server) (env : Env) :
    server.SleepsInTime env.clock.steady (server.timeoutMs env) ↔
      ∀ deadline, server.Deadline deadline →
        ∃ wakes, server.WakesIn env.clock.steady wakes ∧
          wakes ≤ remainingMs env.clock.steady deadline := by
  have counted (deadline : Int) : (0 ≤ server.timeoutMs env ∧
      server.timeoutMs env ≤ remainingMs env.clock.steady deadline) ↔
      ∃ wakes, server.WakesIn env.clock.steady wakes ∧
        wakes ≤ remainingMs env.clock.steady deadline := by
    have within : 0 ≤ remainingMs env.clock.steady deadline := le_max_left _ _
    rw [timeoutMs_within, getNextTimeoutMs_within, getNextWaitTimeoutMs, scanWaits_within within]
    constructor
    · rintro (⟨front, blocked, finite, nearest, counts, enough⟩ | ⟨wakes, wake, enough⟩)
      · exact ⟨_, .front blocked finite nearest counts, enough⟩
      · exact ⟨wakes, .wait wake, enough⟩
    · rintro ⟨wakes, wake, enough⟩
      cases wake with
      | front blocked finite nearest counts => exact .inl ⟨_, blocked, finite, nearest, counts, enough⟩
      | wait wake => exact .inr ⟨wakes, wake, enough⟩
  constructor
  · intro inTime deadline blocked
    apply (counted deadline).mp
    by_cases negative : server.timeoutMs env < 0
    · exact absurd blocked (inTime.1 negative deadline)
    · exact ⟨not_lt.mp negative, inTime.2 (not_lt.mp negative) deadline blocked⟩
  · intro soon
    constructor
    · intro negative deadline blocked
      have := ((counted deadline).mpr (soon deadline blocked)).1
      omega
    · intro _ deadline blocked
      exact ((counted deadline).mpr (soon deadline blocked)).2

/-- A client that waits for ever in front of one that waits for a second. -/
def hiddenDeadline : Server where
  db := { blockedKeys := Finmap.singleton (ascii "k") [⟨5, timePointMax⟩, ⟨6, 10 ^ 9⟩] }

/-- The event loop sleeps without a timeout then. -/
theorem sleeps_past_hidden :
    hiddenDeadline.timeoutMs Context.sample.env = -1 ∧
      ¬ hiddenDeadline.SleepsInTime 0 (hiddenDeadline.timeoutMs Context.sample.env) := by
  have asleep : hiddenDeadline.timeoutMs Context.sample.env = -1 := by
    simp [Server.timeoutMs, getNextTimeoutMs, getNextWaitTimeoutMs, scanFronts, scanWaits,
      hiddenDeadline, Context.sample, Finmap.keys_singleton, timePointMax]
  refine ⟨asleep, ?_⟩
  rw [asleep]
  rintro ⟨nobody, -⟩
  apply nobody (by simp) (10 ^ 9)
  refine ⟨by simp [timePointMax], .inl (.inl ⟨ascii "k", _, Finmap.lookup_singleton_eq, ⟨6, 10 ^ 9⟩, ?_⟩)⟩
  simp

end CarrotDb
