import CarrotDb.DbListStates
import CarrotDb.DbWaiting
import CarrotDb.DbSound

/-! A push to a key that clients wait for, against what it stands for: all
values are pushed, and then the waiting clients take the head of the list one
after another. -/
namespace CarrotDb
open Resp Listpack

/-- Waiting clients that still exist take the head of a list in turn: what
they are sent, who waits on, and what is left of the list. -/
def serveWaiting (alive : Fd → Bool) :
    List BlockedClient → List Bytes → List (Fd × Bytes) × List BlockedClient × List Bytes
  | [], list => ([], [], list)
  | blocked :: rest, list =>
    if alive blocked.clientFd then
      match list with
      | [] =>
        let (replies, still, left) := serveWaiting alive rest []
        (replies, blocked :: still, left)
      | value :: values =>
        let (replies, still, left) := serveWaiting alive rest values
        ((blocked.clientFd, value) :: replies, still, left)
    else serveWaiting alive rest list

/-- The clients of a queue that still exist. -/
def living (alive : Fd → Bool) (queue : List BlockedClient) : List BlockedClient :=
  queue.filter fun blocked => alive blocked.clientFd

/-- The push leaves the list, the waiting clients and the replies that pushing
first and serving then would leave. -/
def PushServes (db : DB) (c : Context) (isPrepend : Bool) (key : Bytes) (xs values : List Bytes) :
    Prop :=
  let (replies, still, left) :=
    serveWaiting c.env.alive (queueOf db.blockedKeys key) (pushAll isPrepend xs values)
  ∃ db' effects, handlePush db c isPrepend key values = .ok (db', effects) ∧
    db'.ListAt key left ∧ living c.env.alive (queueOf db'.blockedKeys key) = still ∧
    (∀ other, other ≠ key → queueOf db'.blockedKeys other = queueOf db.blockedKeys other) ∧
    writes effects = replies.map fun reply => (reply.1, encodeBulkStringArray [key, reply.2])

/-- Handing the first value to the first client and pushing the others comes
to the same: that client exists, it is the only one that does or its value is
the only one, and the value it is handed is the head of the list. -/
def HandoverAgrees (alive : Fd → Bool) (queue : List BlockedClient) (isPrepend : Bool)
    (xs values : List Bytes) : Prop :=
  match queue, values with
  | blocked :: rest, first :: others =>
    alive blocked.clientFd = true ∧ (living alive rest = [] ∨ xs = [] ∧ others = []) ∧
      if isPrepend then ∀ value ∈ others, value = first else ∀ x ∈ xs, x = first
  | _, _ => True

/-- The values that go to the list. -/
def keptValues (queue : List BlockedClient) (values : List Bytes) : List Bytes :=
  if queue = [] then values else values.tail

theorem serveWaiting_eq (alive : Fd → Bool) (queue : List BlockedClient) (list : List Bytes) :
    serveWaiting alive queue list =
      (((living alive queue).map BlockedClient.clientFd).zip list,
        (living alive queue).drop list.length, list.drop (living alive queue).length) := by
  induction queue generalizing list with
  | nil => simp [serveWaiting, living]
  | cons blocked rest ih =>
    unfold serveWaiting
    by_cases lives : alive blocked.clientFd = true
    · have here : living alive (blocked :: rest) = blocked :: living alive rest :=
        List.filter_cons_of_pos lives
      rw [if_pos lives, here]
      cases list with
      | nil =>
        dsimp only
        rw [ih]
        simp
      | cons value values =>
        dsimp only
        rw [ih]
        simp
    · have here : living alive (blocked :: rest) = living alive rest := List.filter_cons_of_neg lives
      rw [if_neg lives, here, ih]

private theorem append_rotate {a : Bytes} {xs ys zs : List Bytes}
    (same : xs ++ a :: ys = a :: (xs ++ zs)) : (∀ x ∈ xs, x = a) ∧ ys = zs := by
  induction xs with
  | nil => exact ⟨fun _ absent => (nomatch absent), (List.cons.inj same).2⟩
  | cons x xs ih =>
    obtain ⟨rfl, rest⟩ := List.cons.inj same
    obtain ⟨all, tails⟩ := ih rest
    exact ⟨fun y member => (List.mem_cons.mp member).elim id (all y), tails⟩

private theorem map_rotate {f : Bytes → Bytes} {a c : Bytes} (fixed : f c = c) {r : List Bytes}
    (same : r ++ [a] = c :: r.map f) : (∀ x ∈ r, x = c) ∧ a = c := by
  induction r with
  | nil => exact ⟨fun _ absent => (nomatch absent), (List.cons.inj same).1⟩
  | cons x r ih =>
    rw [List.cons_append, List.map_cons, List.cons.injEq] at same
    obtain ⟨rfl, rest⟩ := same
    rw [fixed] at rest
    obtain ⟨all, last⟩ := ih rest
    exact ⟨fun y member => (List.mem_cons.mp member).elim id (all y), last⟩

/-- A reversed run of pushes that starts with its own last value. -/
private theorem reverse_rotate {a : Bytes} {r : List Bytes} (same : r ++ [a] = a :: r.map stored) :
    (∀ x ∈ r, x = a) ∧ r.map stored = r := by
  cases r with
  | nil => exact ⟨fun _ absent => (nomatch absent), rfl⟩
  | cons x rest =>
    have last := congrArg (fun list : List Bytes => list.getLast?) same
    simp only [List.getLast?_append, List.getLast?_singleton, Option.some_or] at last
    rw [List.map_cons, List.getLast?_cons_cons, ← List.map_cons, List.getLast?_map] at last
    obtain ⟨final, -, whole⟩ := Option.map_eq_some_iff.mp last.symm
    have fixed : stored a = a := by rw [← whole, stored_stored]
    obtain ⟨all, -⟩ := map_rotate fixed same
    refine ⟨all, (List.map_congr_left fun y member => ?_).trans (List.map_id _)⟩
    rw [all y member, fixed]
    rfl

/-- The rest behind the head is what pushing the other values gives, just when
the head moves through the list unnoticed. -/
private theorem head_handed {isPrepend : Bool} {xs others : List Bytes} {first : Bytes}
    (same : pushAll isPrepend xs (first :: others) =
      first :: pushAll isPrepend xs (others.map stored)) :
    (if isPrepend then ∀ value ∈ others, value = first else ∀ x ∈ xs, x = first) ∧
      others.map stored = others := by
  cases isPrepend with
  | false =>
    rw [pushAll_append, pushAll_append] at same
    obtain ⟨all, tails⟩ := append_rotate same
    exact ⟨all, tails.symm⟩
  | true =>
    rw [pushAll_prepend, pushAll_prepend, List.reverse_cons, ← List.cons_append,
      List.append_cancel_right_eq, ← List.map_reverse] at same
    obtain ⟨all, fixed⟩ := reverse_rotate same
    refine ⟨fun value member => all value (List.mem_reverse.mpr member), ?_⟩
    rw [List.map_reverse] at fixed
    exact List.reverse_injective fixed

private theorem head_unnoticed {isPrepend : Bool} {xs others : List Bytes} {first : Bytes}
    (all : if isPrepend then ∀ value ∈ others, value = first else ∀ x ∈ xs, x = first) :
    pushAll isPrepend xs (first :: others) = first :: pushAll isPrepend xs others := by
  cases isPrepend with
  | false =>
    rw [pushAll_append, pushAll_append]
    have all : ∀ x ∈ xs, x = first := all
    clear * - all
    induction xs with
    | nil => rfl
    | cons x rest ih =>
      obtain rfl := all x List.mem_cons_self
      have later := ih fun y member => all y (List.mem_cons_of_mem _ member)
      rw [List.cons_append, later, List.cons_append]
  | true =>
    have same : others = List.replicate others.length first := List.eq_replicate_of_mem all
    rw [pushAll_prepend, pushAll_prepend, same, List.reverse_cons, List.reverse_replicate,
      ← List.replicate_succ', List.replicate_succ, List.cons_append]

theorem pushAll_injective {isPrepend : Bool} {xs first second : List Bytes}
    (same : pushAll isPrepend xs first = pushAll isPrepend xs second) : first = second := by
  cases isPrepend with
  | false =>
    rw [pushAll_append, pushAll_append] at same
    exact List.append_cancel_left same
  | true =>
    rw [pushAll_prepend, pushAll_prepend] at same
    exact List.reverse_injective (List.append_cancel_right same)

theorem pushAll_ne_nil (isPrepend : Bool) (xs : List Bytes) {values : List Bytes}
    (nonempty : values ≠ []) : pushAll isPrepend xs values ≠ [] := by
  have length := pushAll_length isPrepend xs values
  have positive := List.length_pos_iff.mpr nonempty
  exact List.length_pos_iff.mp (by omega)

/-- Values that go through are stored as they are. -/
theorem pushes_stored {ndebug isPrepend : Bool} {xs values : List Bytes}
    (pushes : Pushes ndebug isPrepend xs values) : values.map stored = values := by
  induction values generalizing xs with
  | nil => rfl
  | cons value rest ih =>
    obtain ⟨-, fits, later⟩ := pushes
    rw [List.map_cons, ih later, stored_of_lt (length_of_used fits)]

/-! ## The push -/

variable {db : DB} {c : Context} {key : Bytes} {isPrepend : Bool} {xs values : List Bytes}

/-- Where a push leaves a list, every value that goes to the list has gone
through. -/
theorem handlePush_through {db' : DB} {effects : List Effect} {ys : List Bytes}
    (held : db.ListAt key xs)
    (ran : handlePush db c isPrepend key values = .ok (db', effects)) (held' : db'.ListAt key ys) :
    Pushes c.env.ndebug isPrepend xs
        ((keptValues (queueOf db.blockedKeys key) values).map stored) ∧
      ys = pushAll isPrepend xs ((keptValues (queueOf db.blockedKeys key) values).map stored) := by
  cases waits : queueOf db.blockedKeys key with
  | nil =>
    rw [handlePush_plain (.inl waits)] at ran
    obtain ⟨⟨db₁, len⟩, pushes, ran⟩ := exec_bind_ok.mp ran
    cases ran
    exact pushValues_inv held pushes held'
  | cons blocked queue =>
    have same : DB.ListAt { db with blockedKeys := popFront db.blockedKeys key queue } key xs :=
      held.congr rfl
    cases values with
    | nil =>
      rw [handlePush_plain (.inr rfl)] at ran
      cases ran
      exact ⟨trivial, listAt_unique held' held⟩
    | cons first rest =>
      rw [handlePush_waiter waits] at ran
      obtain ⟨⟨db₁, len⟩, pushes, ran⟩ := exec_bind_ok.mp ran
      cases ran
      exact pushValues_inv same pushes held'

/-- A push that leaves the list with all values has gone through. -/
theorem pushes_of_handlePush {db' : DB} {effects : List Effect} (held : db.ListAt key xs)
    (idle : queueOf db.blockedKeys key = [])
    (ran : handlePush db c isPrepend key values = .ok (db', effects))
    (held' : db'.ListAt key (pushAll isPrepend xs values)) :
    Pushes c.env.ndebug isPrepend xs values := by
  obtain ⟨through, same⟩ := handlePush_through held ran held'
  rw [idle, keptValues, if_pos rfl] at through same
  rwa [← pushAll_injective same] at through

private theorem pushServes_plain (held : db.ListAt key xs) (idle : queueOf db.blockedKeys key = []) :
    PushServes db c isPrepend key xs values ↔ Pushes c.env.ndebug isPrepend xs values := by
  unfold PushServes
  rw [idle, handlePush_plain (.inl idle)]
  constructor
  · rintro ⟨db', effects, ran, held', -⟩
    rw [← handlePush_plain (.inl idle)] at ran
    exact pushes_of_handlePush held idle ran held'
  · intro pushes
    have whole := pushes_stored pushes
    obtain ⟨db₁, len, ran, held₁⟩ := @pushValues_layout _ c.env.ndebug isPrepend key xs values 0 held
      (by rwa [whole])
    obtain ⟨store, rfl, -⟩ := pushValues_frame ran
    rw [whole] at held₁
    refine ⟨_, _, by rw [ran]; rfl, held₁, ?_, fun _ _ => rfl, ?_⟩
    · rw [show queueOf ({ db with store } : DB).blockedKeys key = [] from idle]
      rfl
    · rw [writes_append, writes_dirty]
      rfl

/-- A handover writes once, so one client lives or one value was there. -/
private theorem one_write {fd : Fd} {first head : Bytes} {fds : List Fd} {tail : List Bytes} {count : Int}
    (written : writes ([.write fd (encodeBulkStringArray [key, first]), .unblock fd] ++
        [.reply (encodeInteger count)]) =
      ((fd :: fds).zip (head :: tail)).map fun reply =>
        (reply.1, encodeBulkStringArray [key, reply.2])) :
    head = first ∧ (fds = [] ∨ tail = []) := by
  rw [show writes ([.write fd (encodeBulkStringArray [key, first]), .unblock fd] ++
    [.reply (encodeInteger count)]) = [(fd, encodeBulkStringArray [key, first])] from rfl,
    List.zip_cons_cons, List.map_cons, List.cons.injEq, Prod.mk.injEq] at written
  obtain ⟨⟨-, same⟩, none⟩ := written
  refine ⟨?_, List.zip_eq_nil_iff.mp (List.map_eq_nil_iff.mp none.symm)⟩
  have texts : encodeBulkString first ++ [] = encodeBulkString head ++ [] :=
    List.append_cancel_left (List.append_cancel_left same)
  rw [List.append_nil, List.append_nil] at texts
  exact (encodeBulkString_injective texts).symm

private theorem pushServes_waiter (held : db.ListAt key xs) {blocked : BlockedClient}
    {rest : List BlockedClient} (waits : queueOf db.blockedKeys key = blocked :: rest)
    (first : Bytes) (others : List Bytes) :
    PushServes db c isPrepend key xs (first :: others) ↔
      HandoverAgrees c.env.alive (blocked :: rest) isPrepend xs (first :: others) ∧
        Pushes c.env.ndebug isPrepend xs others := by
  have held₀ : DB.ListAt { db with blockedKeys := popFront db.blockedKeys key rest } key xs :=
    held.congr rfl
  have nonempty := pushAll_ne_nil isPrepend xs (List.cons_ne_nil first others)
  have size := pushAll_length isPrepend xs (first :: others)
  unfold PushServes
  rw [waits, handlePush_waiter waits, serveWaiting_eq]
  dsimp only
  constructor
  · rintro ⟨db', effects, ran, held', still, -, written⟩
    obtain ⟨⟨db₁, len⟩, pushes, ran⟩ := exec_bind_ok.mp ran
    cases ran
    obtain ⟨through, left⟩ := pushValues_inv held₀ pushes held'
    by_cases lives : c.env.alive blocked.clientFd = true
    · have here : living c.env.alive (blocked :: rest) = blocked :: living c.env.alive rest :=
        List.filter_cons_of_pos lives
      obtain ⟨head, tail, shape⟩ := List.exists_cons_of_ne_nil nonempty
      rw [here, shape, if_pos lives] at written
      rw [here, shape] at left
      rw [shape] at size
      obtain ⟨rfl, alone⟩ := one_write written
      rcases alone with alone | rfl
      · have only : living c.env.alive rest = [] := List.map_eq_nil_iff.mp alone
        rw [only] at left
        obtain ⟨all, whole⟩ := head_handed (shape.trans (congrArg (head :: ·) left))
        rw [whole] at through
        exact ⟨⟨lives, .inl only, all⟩, through⟩
      · have empty : xs = [] ∧ others = [] := by
          simp only [List.length_cons, List.length_nil] at size
          exact ⟨List.length_eq_zero_iff.mp (by omega), List.length_eq_zero_iff.mp (by omega)⟩
        obtain ⟨rfl, rfl⟩ := empty
        refine ⟨⟨lives, .inr ⟨rfl, rfl⟩, ?_⟩, trivial⟩
        split <;> exact fun _ absent => nomatch absent
    · have here : living c.env.alive (blocked :: rest) = living c.env.alive rest :=
        List.filter_cons_of_neg lives
      rw [here, if_neg lives] at written
      rw [here] at left
      have none : living c.env.alive rest = [] := by
        rcases List.zip_eq_nil_iff.mp (List.map_eq_nil_iff.mp written.symm) with gone | gone
        · exact List.map_eq_nil_iff.mp gone
        · exact absurd gone nonempty
      rw [none] at left
      have short := congrArg List.length left
      rw [List.length_nil, List.drop_zero, size, pushAll_length, List.length_map, List.length_cons] at short
      omega
  · rintro ⟨⟨lives, one, all⟩, pushes⟩
    have whole := pushes_stored pushes
    have here : living c.env.alive (blocked :: rest) = blocked :: living c.env.alive rest :=
      List.filter_cons_of_pos lives
    obtain ⟨db₁, len, ran, held₁⟩ :=
      @pushValues_layout _ c.env.ndebug isPrepend key xs others 0 held₀ (by rwa [whole])
    obtain ⟨store, rfl, -⟩ := pushValues_frame ran
    rw [whole] at held₁
    rw [ran, here, head_unnoticed all]
    refine ⟨_, _, rfl, ?_, ?_, fun other different => queueOf_popFront_ne rest different, ?_⟩
    · rcases one with only | ⟨rfl, rfl⟩
      · rw [only]
        exact held₁
      · rw [List.length_cons, List.drop_succ_cons, show pushAll isPrepend [] [] = [] from rfl,
          List.drop_nil]
        exact held₁
    · rw [show queueOf (DB.blockedKeys _) key = queueOf (popFront db.blockedKeys key rest) key from rfl,
        queueOf_popFront, List.length_cons, List.drop_succ_cons]
      rcases one with only | ⟨rfl, rfl⟩
      · rw [only, List.drop_nil]
      · rfl
    · rw [if_pos lives, writes_append, List.map_cons, List.zip_cons_cons, List.map_cons]
      rcases one with only | ⟨rfl, rfl⟩
      · rw [only]
        rfl
      · rw [show pushAll isPrepend [] [] = [] from rfl, List.zip_nil_right]
        rfl

/-- A push comes to pushing first and serving then, just when the handover
agrees and the values that go to the list go through. -/
theorem push_serves_iff (held : db.ListAt key xs) (nonempty : values ≠ []) :
    PushServes db c isPrepend key xs values ↔
      HandoverAgrees c.env.alive (queueOf db.blockedKeys key) isPrepend xs values ∧
        Pushes c.env.ndebug isPrepend xs (keptValues (queueOf db.blockedKeys key) values) := by
  cases waits : queueOf db.blockedKeys key with
  | nil =>
    rw [pushServes_plain held waits]
    exact ⟨fun pushes => ⟨trivial, pushes⟩, And.right⟩
  | cons blocked rest =>
    cases values with
    | nil => exact absurd rfl nonempty
    | cons first others => exact pushServes_waiter held waits first others

/-- BLPOP of a key by two clients, one after the other. -/
def twoWaiters : Exec DB := do
  let command : Command := .blpop [ascii "k"] 0.0
  let first ← execute {} { Context.sample with command } [] []
  let second ← execute first.db { Context.sample with command, fd := 6 } [] []
  pure second.db

theorem twoWaiters_wait : ∃ db : DB, db.Reachable ∧ db.ListAt (ascii "k") [] ∧
    (queueOf db.blockedKeys (ascii "k")).map BlockedClient.clientFd = [5, 6] := by
  have computed : (twoWaiters.toOption.any fun db => (db.store.lookup (ascii "k")).isNone &&
      decide ((queueOf db.blockedKeys (ascii "k")).map BlockedClient.clientFd = [5, 6])) = true := by
    decide +kernel
  cases ran : twoWaiters with
  | error fault =>
    rw [ran] at computed
    cases computed
  | ok db =>
    rw [ran] at computed
    simp only [Except.toOption, Option.any_some, Bool.and_eq_true, decide_eq_true_eq,
      Option.isNone_iff_eq_none] at computed
    obtain ⟨missing, waits⟩ := computed
    obtain ⟨first, firstRan, ran⟩ := exec_bind_ok.mp ran
    obtain ⟨second, secondRan, ran⟩ := exec_bind_ok.mp ran
    cases ran
    exact ⟨_, .executed (.executed .empty firstRan) secondRan, .inl ⟨missing, rfl⟩, waits⟩

/-- One value serves the first of two clients, and two values would not serve
both. -/
theorem push_serves_iff_waiters : ∃ db : DB, db.Reachable ∧
    (queueOf db.blockedKeys (ascii "k")).map BlockedClient.clientFd = [5, 6] ∧
    PushServes db Context.sample false (ascii "k") [] [ascii "v"] ∧
    ¬ PushServes db Context.sample false (ascii "k") [] [ascii "v", ascii "w"] := by
  obtain ⟨db, reached, held, waits⟩ := twoWaiters_wait
  have one : PushServes db Context.sample false (ascii "k") [] [ascii "v"] ↔ _ :=
    push_serves_iff held (List.cons_ne_nil _ _)
  have two : PushServes db Context.sample false (ascii "k") [] [ascii "v", ascii "w"] ↔ _ :=
    push_serves_iff held (List.cons_ne_nil _ _)
  obtain ⟨first, second, queue⟩ := List.length_eq_two.mp (show (queueOf db.blockedKeys
    (ascii "k")).length = 2 by simpa using congrArg List.length waits)
  refine ⟨db, reached, waits, one.mpr ?_, fun served => ?_⟩
  · rw [queue]
    exact ⟨⟨rfl, .inr ⟨rfl, rfl⟩, fun _ absent => absurd absent List.not_mem_nil⟩, trivial⟩
  · obtain ⟨agrees, -⟩ := two.mp served
    rw [queue] at agrees
    obtain ⟨-, alone | ⟨-, alone⟩, -⟩ := agrees
    · cases alone
    · cases alone

/-- Two clients wait for a list, and a push of two values serves only one. -/
theorem push_leaves_waiter : ¬ ∀ db c isPrepend key xs values, DB.Reachable db → db.ListAt key xs →
    values ≠ [] → PushServes db c isPrepend key xs values := by
  intro all
  obtain ⟨db, reached, held, waits⟩ := twoWaiters_wait
  obtain ⟨one, other, queue⟩ := List.length_eq_two.mp (show (queueOf db.blockedKeys
    (ascii "k")).length = 2 by simpa using congrArg List.length waits)
  have served := all _ Context.sample false _ _ [ascii "v", ascii "w"] reached held (List.cons_ne_nil _ _)
  obtain ⟨agrees, -⟩ := (pushServes_waiter held queue (ascii "v") [ascii "w"]).mp served
  obtain ⟨-, alone | ⟨-, alone⟩, -⟩ := agrees
  · cases alone
  · cases alone

end CarrotDb
