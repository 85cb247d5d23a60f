import CarrotDb.XreadWaits

/-! XREAD with BLOCK. The loop over the keys stops at the first one that is
missing or has no entries behind its identifier, and the client waits for that
key alone. -/
namespace CarrotDb
open Decimal Resp

variable {db db₁ db' : DB} {c : Context} {effects : List Effect} {key text : Bytes} {log : Log}
  {pairs : List (Bytes × Bytes)} {timeout : Float}

/-- The loop stops at a key that has a log, but no entries behind its text. -/
def DB.Stops (db : DB) (pair : Bytes × Bytes) : Prop :=
  ∃ log, db.KeyLogs pair.1 log ∧ log.behind pair.2 = []

private theorem behind_nil (text : Bytes) : Log.behind [] text = [] := by
  rw [Log.behind]
  split <;> rfl

section
variable {block : Option Float} {rest : List (Bytes × Bytes)} {object : RedisObject} {stream : Stream}
  {replies : List (Bytes × List (Bytes × Bytes))}

private theorem collectReplies_missing (lookup : db.store.lookup key = none) (named : text ≠ ascii "$") :
    collectReplies db c (some timeout) ((key, text) :: rest) replies =
      (do pure (.inr (← markClientBlocking db c key text timeout))) := by
  conv_lhs => unfold collectReplies
  rw [lookup]
  dsimp only
  rw [if_neg named]

private theorem collectReplies_other (lookup : db.store.lookup key = some object)
    (named : text ≠ ascii "$") (tag : object.type ≠ .stream) :
    collectReplies db c block ((key, text) :: rest) replies = collectReplies db c block rest replies := by
  cases block
  all_goals
    conv_lhs => unfold collectReplies
    rw [lookup]
    dsimp only
    rw [if_neg fun both => named both.2]
    split
    · rename_i tag' pointer
      exact absurd tag' tag
    · rfl

private theorem collectReplies_found (lookup : db.store.lookup key = some object)
    (named : text ≠ ascii "$") (tag : object.type = .stream) (pointer : object.streamPtr = some stream)
    {entry : Bytes × Bytes} {entries : List (Bytes × Bytes)}
    (present : stream.xrangeData text (ascii "+") true = some (entry :: entries)) :
    collectReplies db c block ((key, text) :: rest) replies =
      collectReplies db c block rest (replies ++ [(key, entry :: entries)]) := by
  cases block
  all_goals
    conv_lhs => unfold collectReplies
    rw [lookup]
    dsimp only
    rw [if_neg fun both => named both.2, tag, pointer]
    dsimp only
    rw [present]

private theorem collectReplies_nothing (lookup : db.store.lookup key = some object)
    (named : text ≠ ascii "$") (tag : object.type = .stream) (pointer : object.streamPtr = some stream)
    (nothing : (stream.xrangeData text (ascii "+") true).getD [] = []) :
    collectReplies db c (some timeout) ((key, text) :: rest) replies =
      (do pure (.inr (← markClientBlocking db c key text timeout))) := by
  conv_lhs => unfold collectReplies
  rw [lookup]
  dsimp only
  rw [if_neg fun both => named both.2, tag, pointer]
  dsimp only
  split
  · rename_i present
    rw [present] at nothing
    cases nothing
  · rename_i stays _
    cases stays
    rfl
  · rename_i absent _
    cases absent

end

/-- The loop waits for the first key it stops at; where it stops at none, it
collects what the loop without BLOCK collects. -/
theorem collectReplies_block (sound : db.Sound) (explicit : ∀ pair ∈ pairs, pair.2 ≠ ascii "$")
    (replies : List (Bytes × List (Bytes × Bytes))) :
    (∃ front pair back, pairs = front ++ pair :: back ∧ (∀ other ∈ front, ¬ db.Stops other) ∧
      db.Stops pair ∧ collectReplies db c (some timeout) pairs replies =
        (do pure (.inr (← markClientBlocking db c pair.1 pair.2 timeout)))) ∨
    (∀ pair ∈ pairs, ¬ db.Stops pair) ∧ ∃ replies',
      collectReplies db c (some timeout) pairs replies = .ok (.inl replies') ∧
        collectReplies db c none pairs replies = .ok (.inl replies') := by
  induction pairs generalizing replies with
  | nil => exact .inr ⟨fun _ absent => absurd absent List.not_mem_nil, replies, rfl, rfl⟩
  | cons pair rest ih =>
    have explicit' : ∀ other ∈ rest, other.2 ≠ ascii "$" := fun other member =>
      explicit other (List.mem_cons_of_mem _ member)
    -- the loop goes on behind a key it does not stop at
    have passes (skips : ¬ db.Stops pair) (replies₁ : List (Bytes × List (Bytes × Bytes)))
        (blocking : collectReplies db c (some timeout) (pair :: rest) replies =
          collectReplies db c (some timeout) rest replies₁)
        (reading : collectReplies db c none (pair :: rest) replies =
          collectReplies db c none rest replies₁) :
        (∃ front pair' back, pair :: rest = front ++ pair' :: back ∧
          (∀ other ∈ front, ¬ db.Stops other) ∧ db.Stops pair' ∧
          collectReplies db c (some timeout) (pair :: rest) replies =
            (do pure (.inr (← markClientBlocking db c pair'.1 pair'.2 timeout)))) ∨
        (∀ pair' ∈ pair :: rest, ¬ db.Stops pair') ∧ ∃ replies',
          collectReplies db c (some timeout) (pair :: rest) replies = .ok (.inl replies') ∧
            collectReplies db c none (pair :: rest) replies = .ok (.inl replies') := by
      rw [blocking, reading]
      rcases ih explicit' replies₁ with ⟨front, pair', back, split, others, stops, ran⟩ |
        ⟨none_, replies', ran, ran'⟩
      · refine .inl ⟨pair :: front, pair', back, congrArg _ split, fun other member => ?_, stops, ran⟩
        rcases List.mem_cons.mp member with rfl | inside
        · exact skips
        · exact others other inside
      · refine .inr ⟨fun other member => ?_, replies', ran, ran'⟩
        rcases List.mem_cons.mp member with rfl | inside
        · exact skips
        · exact none_ other inside
    obtain ⟨key, text⟩ := pair
    have named : text ≠ ascii "$" := explicit (key, text) List.mem_cons_self
    cases lookup : db.store.lookup key with
    | none =>
      refine .inl ⟨[], (key, text), rest, rfl, fun _ absent => absurd absent List.not_mem_nil,
        ⟨[], .inl ⟨lookup, rfl⟩, behind_nil text⟩, ?_⟩
      exact collectReplies_missing lookup named
    | some object =>
      by_cases tag : object.type = .stream
      · obtain ⟨stream, log, pointer, logs⟩ := stream_of_sound (sound.objects _ _ lookup) tag
        have held : db.KeyLogs key log := .inr ⟨object, stream, lookup, tag, pointer, logs⟩
        have found := xrangeData_behind logs text
        by_cases empty : log.behind text = []
        · rw [empty] at found
          exact .inl ⟨[], (key, text), rest, rfl, fun _ absent => absurd absent List.not_mem_nil,
            ⟨log, held, empty⟩, collectReplies_nothing lookup named tag pointer found⟩
        · have skips : ¬ db.Stops (key, text) := fun ⟨other, held', nothing⟩ =>
            empty (keyLogs_unique held held' ▸ nothing)
          obtain ⟨entry, entries, present⟩ : ∃ entry entries,
              stream.xrangeData text (ascii "+") true = some (entry :: entries) := by
            cases present : stream.xrangeData text (ascii "+") true with
            | none =>
              rw [present] at found
              exact absurd (List.map_eq_nil_iff.mp found.symm) empty
            | some entries =>
              rw [present, Option.getD_some] at found
              cases entries with
              | nil => exact absurd (List.map_eq_nil_iff.mp found.symm) empty
              | cons entry entries => exact ⟨entry, entries, rfl⟩
          exact passes skips _ (collectReplies_found lookup named tag pointer present)
            (collectReplies_found lookup named tag pointer present)
      · have skips : ¬ db.Stops (key, text) := by
          rintro ⟨log, ⟨missing, -⟩ | ⟨object', stream, lookup', tag', -⟩, -⟩
          · rw [lookup] at missing
            cases missing
          · rw [lookup] at lookup'
            cases lookup'
            exact tag tag'
        exact passes skips replies (collectReplies_other lookup named tag)
          (collectReplies_other lookup named tag)

private theorem zip_pairs (pairs : List (Bytes × Bytes)) :
    (pairs.map Prod.fst).zip (pairs.map Prod.snd) = pairs := by
  induction pairs with
  | nil => rfl
  | cons pair rest ih => rw [List.map_cons, List.map_cons, List.zip_cons_cons, ih]

/-- XREAD on pairs of a key and a text. -/
def xreadOf (db : DB) (c : Context) (block : Option Float) (pairs : List (Bytes × Bytes)) : Outcome :=
  handleXread db c block (pairs.map Prod.fst) (pairs.map Prod.snd)

private theorem sizes_same (pairs : List (Bytes × Bytes)) :
    ¬ (pairs.map Prod.fst).length ≠ (pairs.map Prod.snd).length := by
  rw [List.length_map, List.length_map]
  exact fun different => different rfl

/-- XREAD with BLOCK waits for the first key the loop stops at, or it does
what it does without BLOCK. -/
theorem xreadOf_block (sound : db.Sound) (explicit : ∀ pair ∈ pairs, pair.2 ≠ ascii "$")
    (ran : xreadOf db c (some timeout) pairs = .ok (db₁, effects)) :
    (∃ front pair back blocked, pairs = front ++ pair :: back ∧ (∀ other ∈ front, ¬ db.Stops other) ∧
      db.Stops pair ∧ blocked.clientFd = c.fd ∧ blocked.streamKey = pair.1 ∧
      blocked.streamId = pair.2 ∧ effects = [.block] ∧
      db₁ = { db with blockedXreadKeys :=
        db.blockedXreadKeys.insert pair.1 (queueOf db.blockedXreadKeys pair.1 ++ [blocked]) }) ∨
    (∀ pair ∈ pairs, ¬ db.Stops pair) ∧ blocks effects = 0 ∧
      xreadOf db c none pairs = .ok (db₁, effects) := by
  rw [xreadOf, handleXread, if_neg (sizes_same pairs), zip_pairs] at ran ⊢
  rcases @collectReplies_block db c pairs timeout sound explicit [] with
    ⟨front, pair, back, split, others, stops, collected⟩ | ⟨none_, replies, blocking, reading⟩
  · rw [collected] at ran
    obtain ⟨outcome, stopped, ran⟩ := exec_bind_ok.mp ran
    obtain ⟨result, marked, stopped⟩ := exec_bind_ok.mp stopped
    cases stopped
    cases ran
    rw [markClientBlocking] at marked
    obtain ⟨blocked, made, marked⟩ := exec_bind_ok.mp marked
    cases marked
    obtain ⟨client, place, behind⟩ := BlockedXreadClient.make_fields made
    exact .inl ⟨front, pair, back, blocked, split, others, stops, client, place, behind, rfl, rfl⟩
  · rw [blocking, exec_ok_bind] at ran
    rw [reading, exec_ok_bind]
    refine .inr ⟨none_, ?_, ran⟩
    cases replies with
    | nil =>
      obtain ⟨-, rfl⟩ := replying_ok ran
      rfl
    | cons reply replies =>
      obtain ⟨bytes, -, ran⟩ := exec_bind_ok.mp ran
      obtain ⟨-, rfl⟩ := replying_ok ran
      rfl

/-- No key of an XREAD holds an entry behind its identifier. -/
def DB.NothingBehind (db : DB) (pairs : List (Bytes × Bytes)) : Prop :=
  ∀ pair ∈ pairs, ∀ log, db.KeyLogs pair.1 log → log.behind pair.2 = []

/-- Who has joined the queue of a key. -/
def joined (db db₁ : DB) (key : Bytes) : List BlockedXreadClient :=
  (queueOf db₁.blockedXreadKeys key).drop (queueOf db.blockedXreadKeys key).length

/-- A later database, in which the clients that have joined the queues still
wait among others, and the same database without them. -/
structure StillWaits (db db₁ later without : DB) : Prop where
  sound : later.Sound
  store : without.store = later.store
  queues : ∀ key, ∃ front back,
    queueOf later.blockedXreadKeys key = front ++ joined db db₁ key ++ back ∧
      queueOf without.blockedXreadKeys key = front ++ back

/-- An accepted XADD answers the waiting client: behind what it would send
without it, it sends the client entries of the key, the last of them the one
that is added. -/
def Answers (fd : Fd) (later without : DB) (c : Context) (key streamId : Bytes)
    (fieldValues : List (Bytes × Bytes)) (id : StreamID) : Prop :=
  ∃ later' effects without' effects₀ entries first last,
    handleXadd later c key streamId fieldValues = .ok (later', effects) ∧
    handleXadd without c key streamId fieldValues = .ok (without', effects₀) ∧
    writes effects₀ = first ++ last ∧
    writes effects = first ++
      (fd, streamReply key (entries ++ [(id, rawValue fieldValues)])) :: last

/-- XREAD with BLOCK is right: it waits just when no key holds an entry behind
its identifier, else it does what it does without BLOCK; and where it waits,
every later XADD of such an entry to any of the keys answers it. -/
structure XreadRight (db : DB) (c : Context) (pairs : List (Bytes × Bytes)) (db₁ : DB)
    (effects : List Effect) : Prop where
  waits : blocks effects ≠ 0 ↔ db.NothingBehind pairs
  reads : blocks effects = 0 → xreadOf db c none pairs = .ok (db₁, effects)
  answered : blocks effects ≠ 0 → ∀ later without, StillWaits db db₁ later without →
    ∀ pair ∈ pairs, ∀ c' streamId fieldValues low id,
      later.Accepts c' pair.1 streamId fieldValues id →
      fromStringForSearch pair.2 false = some low → StreamID.Lt low id →
      c'.env.alive c.fd = true → Answers c.fd later without c' pair.1 streamId fieldValues id

/-- Every key that is missing or a stream holds an entry behind its
identifier, and there is such a key. -/
def DB.AllBehind (db : DB) (pairs : List (Bytes × Bytes)) : Prop :=
  (∃ pair ∈ pairs, ∃ log, db.KeyLogs pair.1 log) ∧
    ∀ pair ∈ pairs, ∀ log, db.KeyLogs pair.1 log → log.behind pair.2 ≠ []

/-- No key holds an entry behind its identifier, some are missing or streams,
and all identifiers that an entry can be added behind are of the first such
key, where none is below its first. -/
def DB.OneKey (db : DB) (pairs : List (Bytes × Bytes)) : Prop :=
  db.NothingBehind pairs ∧ ∃ front key text back, pairs = front ++ (key, text) :: back ∧
    (∀ pair ∈ front, ¬ ∃ log, db.KeyLogs pair.1 log) ∧ (∃ log, db.KeyLogs key log) ∧
    ∀ pair ∈ pairs, ∀ low, fromStringForSearch pair.2 false = some low → low ≠ .greatest →
      pair.1 = key ∧ ∃ least, fromStringForSearch text false = some least ∧ StreamID.Le least low

/-! ## A later XADD -/

variable {later without : DB} {fieldValues : List (Bytes × Bytes)} {streamId : Bytes} {id : StreamID}
  {c' : Context}

theorem StillWaits.without_sound (waits : StillWaits db db₁ later without) : without.Sound where
  objects := waits.store ▸ waits.sound.objects
  waiting := fun key queue lookup blocked member => by
    obtain ⟨front, back, here, there⟩ := waits.queues key
    have left : queueOf without.blockedXreadKeys key = queue := by
      rw [queueOf, lookup]
      rfl
    have held : blocked ∈ queueOf later.blockedXreadKeys key := by
      rw [here, List.append_assoc]
      rw [left] at there
      rcases List.mem_append.mp (there ▸ member) with inFront | inBack
      · exact List.mem_append_left _ inFront
      · exact List.mem_append_right _ (List.mem_append_right _ inBack)
    rw [queueOf] at held
    cases found : later.blockedXreadKeys.lookup key with
    | none =>
      rw [found] at held
      cases held
    | some others =>
      rw [found] at held
      exact waits.sound.waiting key others found blocked held

/-- What an accepted XADD writes while the clients that joined still wait, and
what it would write without them. -/
theorem StillWaits.writes (waits : StillWaits db db₁ later without)
    (accepts : later.Accepts c' key streamId fieldValues id) :
    ∃ later' effects without' effects₀ log front back,
      handleXadd later c' key streamId fieldValues = .ok (later', effects) ∧
      handleXadd without c' key streamId fieldValues = .ok (without', effects₀) ∧
      later'.KeyLogs key (log ++ [(id, rawValue fieldValues)]) ∧
      writes effects₀ = answersIn c'.env key (log ++ [(id, rawValue fieldValues)]) front ++
        answersIn c'.env key (log ++ [(id, rawValue fieldValues)]) back ∧
      writes effects = answersIn c'.env key (log ++ [(id, rawValue fieldValues)]) front ++
        answersIn c'.env key (log ++ [(id, rawValue fieldValues)]) (joined db db₁ key) ++
          answersIn c'.env key (log ++ [(id, rawValue fieldValues)]) back := by
  have sound₀ := waits.without_sound
  obtain ⟨front, back, here, there⟩ := waits.queues key
  obtain ⟨later', effects, ran, replied⟩ := handleXadd_accepts waits.sound accepts
  obtain ⟨without', effects₀, ran₀, replied₀⟩ := handleXadd_accepts sound₀ (accepts.congr waits.store)
  obtain ⟨log, held, held', -, -, written, -⟩ := handleXadd_accepted waits.sound ran replied
  obtain ⟨log₀, held₀, -, -, -, written₀, -⟩ := handleXadd_accepted sound₀ ran₀ replied₀
  have held₁ : later.KeyLogs key log₀ := by
    rw [DB.KeyLogs, ← waits.store]
    exact held₀
  obtain rfl := keyLogs_unique held held₁
  refine ⟨later', effects, without', effects₀, log, front, back, ran, ran₀, held', ?_, ?_⟩
  · rw [written₀, there, answersIn_append]
  · rw [written, here, answersIn_append, answersIn_append]

theorem mem_answersIn {env : Env} {queue : List BlockedXreadClient} {one : Fd × Bytes} :
    one ∈ answersIn env key log queue ↔ ∃ blocked ∈ queue, env.alive blocked.clientFd = true ∧
      (blocked.clientFd, readReply key log blocked) = one := by
  rw [answersIn, List.mem_map]
  constructor
  · rintro ⟨blocked, member, same⟩
    exact ⟨blocked, (List.mem_filter.mp member).1, (List.mem_filter.mp member).2, same⟩
  · rintro ⟨blocked, member, lives, same⟩
    exact ⟨blocked, List.mem_filter.mpr ⟨member, lives⟩, same⟩

/-- Taking one element out of a list in two ways leaves it in what was put in. -/
private theorem mem_middle {α : Type} [DecidableEq α] {front middle back first last : List α} {one : α}
    (whole : front ++ middle ++ back = first ++ one :: last) (rest : front ++ back = first ++ last) :
    one ∈ middle := by
  have counts := congrArg (List.count one) whole
  have counts' := congrArg (List.count one) rest
  simp only [List.count_append, List.count_cons_self] at counts counts'
  exact List.count_pos_iff.mp (by omega)

/-- Who is answered with entries has joined the queue of the key, behind an
identifier below the one that is added. -/
theorem answers_joined (waits : StillWaits db db₁ later without)
    (accepts : later.Accepts c' key streamId fieldValues id) {fd : Fd}
    (answers : Answers fd later without c' key streamId fieldValues id) :
    ∃ blocked ∈ joined db db₁ key, ∃ low, fromStringForSearch blocked.recorded false = some low ∧
      StreamID.Lt low id := by
  obtain ⟨later', effects, without', effects₀, log, front, back, ran, ran₀, held, written₀, written⟩ :=
    waits.writes accepts
  obtain ⟨_, _, _, _, entries, first, last, ran', ran₀', one, two⟩ := answers
  rw [ran] at ran'
  cases ran'
  rw [ran₀] at ran₀'
  cases ran₀'
  have member := mem_middle (written.symm.trans two) (written₀.symm.trans one)
  obtain ⟨blocked, inside, -, same⟩ := mem_answersIn.mp member
  refine ⟨blocked, inside, (behind_last held blocked.recorded).mp fun empty => ?_⟩
  have reply := (Prod.mk.inj same).2
  rw [readReply, if_pos empty] at reply
  exact streamReply_ne _ _ reply.symm

/-- A client that has joined the queue of the key alone, behind an identifier
below the one that is added, is answered. -/
theorem joined_answers (waits : StillWaits db db₁ later without)
    (accepts : later.Accepts c' key streamId fieldValues id) {blocked : BlockedXreadClient}
    (alone : joined db db₁ key = [blocked]) (lives : c'.env.alive blocked.clientFd = true) {low : StreamID}
    (read : fromStringForSearch blocked.recorded false = some low) (less : StreamID.Lt low id) :
    Answers blocked.clientFd later without c' key streamId fieldValues id := by
  obtain ⟨later', effects, without', effects₀, log, front, back, ran, ran₀, held, written₀, written⟩ :=
    waits.writes accepts
  have behind : (log ++ [(id, rawValue fieldValues)]).behind blocked.recorded =
      log.behind blocked.recorded ++ [(id, rawValue fieldValues)] := by
    have last : [(id, rawValue fieldValues)].filter (fun entry => entry.1.isGreater low) =
        [(id, rawValue fieldValues)] := List.filter_cons_of_pos less
    rw [Log.behind, Log.behind, read]
    dsimp only
    rw [List.filter_append, last]
  refine ⟨later', effects, without', effects₀, log.behind blocked.recorded, _, _, ran, ran₀, written₀, ?_⟩
  have answer : answersIn c'.env key (log ++ [(id, rawValue fieldValues)]) [blocked] =
      [(blocked.clientFd, streamReply key
        (log.behind blocked.recorded ++ [(id, rawValue fieldValues)]))] := by
    have kept : [blocked].filter (fun blocked => c'.env.alive blocked.clientFd) = [blocked] :=
      List.filter_cons_of_pos lives
    rw [answersIn, kept, List.map_singleton, readReply, behind, if_neg (by simp)]
  rw [written, alone, answer, List.append_assoc]
  rfl

/-! ## When the command is right -/

private theorem joined_registered {blocked : BlockedXreadClient} (place : Bytes)
    (registered : db₁ = { db with
      blockedXreadKeys := db.blockedXreadKeys.insert place
        (queueOf db.blockedXreadKeys place ++ [blocked]) }) (key : Bytes) :
    queueOf db₁.blockedXreadKeys key = queueOf db.blockedXreadKeys key ++ joined db db₁ key ∧
      joined db db₁ key = if key = place then [blocked] else [] := by
  rw [joined, registered]
  dsimp only
  by_cases same : key = place
  · rw [same, queueOf_insert, if_pos rfl, List.drop_left]
    exact ⟨rfl, rfl⟩
  · rw [queueOf_insert_ne _ same, if_neg same, List.drop_length, List.append_nil]
    exact ⟨rfl, rfl⟩

/-- The database behind the command, with all keys removed: whoever has joined
a queue still waits there. -/
private theorem emptied_waits (sound : db₁.Sound) (grown : ∀ key, queueOf db₁.blockedXreadKeys key =
    queueOf db.blockedXreadKeys key ++ joined db db₁ key) :
    StillWaits db db₁ { db₁ with store := ∅ }
      { db₁ with store := ∅, blockedXreadKeys := db.blockedXreadKeys } where
  sound := ⟨fun _ _ absent => (by cases absent), sound.waiting⟩
  store := rfl
  queues := fun key => ⟨queueOf db.blockedXreadKeys key, [], by rw [List.append_nil]; exact grown key,
    (List.append_nil _).symm⟩

private theorem first_unique {α : Type} {holds : α → Prop} {front back front' back' : List α}
    {one one' : α} (same : front ++ one :: back = front' ++ one' :: back')
    (before : ∀ other ∈ front, ¬ holds other) (here : holds one)
    (before' : ∀ other ∈ front', ¬ holds other) (here' : holds one') : one = one' := by
  rcases List.append_eq_append_iff.mp same with ⟨more, rfl, rest⟩ | ⟨more, rfl, rest⟩
  · cases more with
    | nil => exact (List.cons.inj rest).1
    | cons first more =>
      obtain ⟨rfl, -⟩ := List.cons.inj rest
      exact absurd here (before' _ (by simp))
  · cases more with
    | nil => exact (List.cons.inj rest).1.symm
    | cons first more =>
      obtain ⟨rfl, -⟩ := List.cons.inj rest
      exact absurd here' (before _ (by simp))

private theorem lt_greatest {id : StreamID} (fits : id.Fits) (other : id ≠ .greatest) :
    StreamID.Lt id .greatest := by
  rw [StreamID.lt_iff, StreamID.greatest]
  dsimp only
  have different : id.ms ≠ 2 ^ 64 - 1 ∨ id.seq ≠ 2 ^ 64 - 1 := by
    by_contra both
    rw [not_or, not_not, not_not] at both
    exact other (StreamID.eq_of both.1 both.2)
  have ms := fits.1
  have seq := fits.2
  omega

/-- XREAD with BLOCK and explicit identifiers is right just when all its keys
hold entries, or none does and the identifiers that matter are of one key. -/
theorem xread_right_iff (reached : db.Reachable) (explicit : ∀ pair ∈ pairs, pair.2 ≠ ascii "$")
    (ran : xreadOf db c (some timeout) pairs = .ok (db₁, effects)) :
    XreadRight db c pairs db₁ effects ↔ db.AllBehind pairs ∨ db.OneKey pairs := by
  have sound := reachable_sound reached
  have sound₁ : db₁.Sound := handleXread_sound sound ran
  rcases xreadOf_block sound explicit ran with
    ⟨front, ⟨key, text⟩, back, blocked, split, skipped, ⟨log, held, nothing⟩, client, place, behind,
      rfl, registered⟩ | ⟨none_, calm, reading⟩
  · have inside : (key, text) ∈ pairs := by
      rw [split]
      simp
    have waited : blocks [Effect.block] ≠ 0 := by decide
    have recorded : blocked.recorded = text := by
      rw [BlockedXreadClient.recorded, behind, if_neg (explicit _ inside)]
    constructor
    · intro right
      have empty := right.waits.mp waited
      -- what the answers of later XADDs tell about the keys
      have reaches (pair : Bytes × Bytes) (member : pair ∈ pairs) {low id : StreamID}
          (read : fromStringForSearch pair.2 false = some low) (less : StreamID.Lt low id)
          (fits : id.Fits) : pair.1 = key ∧
            ∃ least, fromStringForSearch text false = some least ∧ StreamID.Lt least id := by
        have waits := emptied_waits sound₁ fun key => (joined_registered _ registered key).1
        have positive : id ≠ ⟨0, 0⟩ := by
          rintro rfl
          rw [StreamID.lt_iff] at less
          dsimp only at less
          omega
        have missing : (({ db₁ with store := ∅ } : DB).store.lookup pair.1) = none := rfl
        have accepts := @accepts_missing _ { c with env := { c.env with alive := fun _ => true } }
          pair.1 missing id fits positive []
        obtain ⟨waiter, joins, least, found, below⟩ := answers_joined waits accepts
          (right.answered waited _ _ waits pair member _ _ _ _ _ accepts read less rfl)
        rw [(joined_registered _ registered pair.1).2] at joins
        split at joins
        · rename_i same
          rw [List.mem_singleton.mp joins, recorded] at found
          exact ⟨same, least, found, below⟩
        · cases joins
      refine .inr ⟨empty, front, key, text, back, split, ?_, ⟨log, held⟩, ?_⟩
      · rintro pair member ⟨other, held'⟩
        have member' : pair ∈ pairs := split ▸ List.mem_append_left _ member
        exact skipped pair member ⟨other, held', empty pair member' other held'⟩
      · intro pair member low read other
        have fits := fromStringForSearch_fits read
        obtain ⟨same, least, found, -⟩ := reaches pair member read (lt_greatest fits other)
          ⟨by decide, by decide⟩
        refine ⟨same, least, found, ?_⟩
        by_contra above
        have less : StreamID.Lt low least := by
          rw [StreamID.lt_iff]
          unfold StreamID.Le at above
          omega
        obtain ⟨-, least', found', less'⟩ :=
          reaches pair member read less (fromStringForSearch_fits found)
        rw [found] at found'
        cases found'
        exact StreamID.not_lt_self _ less'
    · rintro (⟨-, all⟩ | ⟨empty, front', key', text', back', split', closed, ⟨log', held'⟩, first⟩)
      · exact absurd nothing (all _ inside log held)
      · have closed' : ∀ pair ∈ front, ¬ ∃ log, db.KeyLogs pair.1 log := by
          rintro pair member ⟨other, opened⟩
          have member' : pair ∈ pairs := split ▸ List.mem_append_left _ member
          exact skipped pair member ⟨other, opened, empty pair member' other opened⟩
        have same : ((key, text) : Bytes × Bytes) = (key', text') :=
          @first_unique _ (fun pair => ∃ log, db.KeyLogs pair.1 log) _ _ _ _ _ _
            (split.symm.trans split') closed' ⟨log, held⟩ closed ⟨log', held'⟩
        cases same
        refine ⟨iff_of_true waited empty, fun calm => absurd calm waited, fun _ later without waits pair
          member c' streamId fieldValues low id accepts read less lives => ?_⟩
        have fits := accepts.fits waits.sound
        have other : low ≠ .greatest := by
          rintro rfl
          rw [StreamID.lt_iff, StreamID.greatest] at less
          have ms := fits.1
          have seq := fits.2
          dsimp only at less
          omega
        obtain ⟨same, least, found, le⟩ := first pair member low read other
        rw [same] at accepts ⊢
        have alone : joined db db₁ key = [blocked] := by
          rw [(joined_registered _ registered key).2]
          exact if_pos rfl
        rw [← client] at lives ⊢
        refine joined_answers waits accepts alone lives (recorded ▸ found) ?_
        rw [StreamID.lt_iff] at less ⊢
        unfold StreamID.Le at le
        omega
  · constructor
    · intro right
      have some_ : ¬ db.NothingBehind pairs := fun empty => right.waits.mpr empty calm
      refine .inl ⟨?_, fun pair member log held empty => none_ pair member ⟨log, held, empty⟩⟩
      by_contra closed
      exact some_ fun pair member log held => absurd ⟨pair, member, log, held⟩ closed
    · rintro (⟨⟨pair, member, log, held⟩, all⟩ | ⟨empty, front, key, text, back, split, -, ⟨log, held⟩, -⟩)
      · refine ⟨iff_of_false (fun waits => waits calm) fun empty => ?_, fun _ => reading,
          fun waits => absurd calm waits⟩
        exact all pair member log held (empty pair member log held)
      · have inside : (key, text) ∈ pairs := by
          rw [split]
          simp
        exact absurd ⟨log, held, empty _ inside log held⟩ (none_ _ inside)

/-- Whether a key holds a stream with entries behind an identifier. -/
def DB.filledBehind (db : DB) (key text : Bytes) : Bool :=
  (db.store.lookup key).any fun object => object.type = .stream && object.streamPtr.any fun stream =>
    (stream.xrangeData text (ascii "+") true).getD [] ≠ []

theorem behind_of_filled {key text : Bytes} {log : Log} (filled : db.filledBehind key text = true)
    (held : db.KeyLogs key log) : log.behind text ≠ [] := by
  obtain ⟨object, lookup, filled⟩ := (Option.any_eq_true _ _).mp filled
  rw [Bool.and_eq_true, decide_eq_true_eq] at filled
  obtain ⟨stream, pointer, some_⟩ := (Option.any_eq_true _ _).mp filled.2
  obtain ⟨missing, -⟩ | ⟨object', stream', lookup', -, pointer', logs⟩ := held
  · rw [lookup] at missing
    cases missing
  · rw [lookup] at lookup'
    cases lookup'
    rw [pointer] at pointer'
    cases pointer'
    intro nothing
    have found := xrangeData_behind logs text
    rw [nothing] at found
    exact of_decide_eq_true some_ found

theorem logs_of_filled {key text : Bytes} (sound : db.Sound)
    (filled : db.filledBehind key text = true) : ∃ log, db.KeyLogs key log := by
  obtain ⟨object, lookup, filled⟩ := (Option.any_eq_true _ _).mp filled
  rw [Bool.and_eq_true, decide_eq_true_eq] at filled
  obtain ⟨stream, log, pointer, logs⟩ := stream_of_sound (sound.objects _ _ lookup) filled.1
  exact ⟨log, .inr ⟨object, stream, lookup, filled.1, pointer, logs⟩⟩

/-- An XADD of one entry to a stream. -/
def oneEntry (db : DB) (key : Bytes) : Exec Executed :=
  execute db { Context.sample with command := .xadd key (ascii "1-1") [(ascii "f", ascii "v")] } [] []

/-- The database behind one to the stream `s`. -/
def oneEntryDb : DB := ((oneEntry {} (ascii "s")).toOption.map Executed.db).getD {}

theorem oneEntryDb_reachable : oneEntryDb.Reachable := by
  obtain ⟨executed, filled⟩ := @exec_of_isOk _ (oneEntry {} (ascii "s")) (by decide +kernel)
  rw [oneEntryDb, filled]
  exact .executed .empty filled

/-- Two streams that have entries are read, and the client does not wait. -/
theorem xread_right_iff_streams : ∃ db : DB, db.Reachable ∧ ∃ db₁ effects,
    xreadOf db Context.sample (some 0.0) [(ascii "s", ascii "0-0"), (ascii "t", ascii "0-5")] =
      .ok (db₁, effects) ∧
    XreadRight db Context.sample [(ascii "s", ascii "0-0"), (ascii "t", ascii "0-5")] db₁ effects := by
  have filled : ((oneEntry oneEntryDb (ascii "t")).toOption.any fun executed =>
      executed.db.filledBehind (ascii "s") (ascii "0-0") &&
        executed.db.filledBehind (ascii "t") (ascii "0-5") &&
        (xreadOf executed.db Context.sample (some 0.0)
          [(ascii "s", ascii "0-0"), (ascii "t", ascii "0-5")]).isOk) = true := by decide +kernel
  obtain ⟨executed, ran⟩ := @exec_of_isOk _ (oneEntry oneEntryDb (ascii "t")) (by decide +kernel)
  rw [ran] at filled
  simp only [Except.toOption, Option.any_some, Bool.and_eq_true] at filled
  obtain ⟨⟨one, two⟩, reads⟩ := filled
  have reached : executed.db.Reachable := .executed oneEntryDb_reachable ran
  obtain ⟨⟨db₁, effects⟩, read⟩ := exec_of_isOk reads
  refine ⟨executed.db, reached, db₁, effects, read, ?_⟩
  refine (xread_right_iff reached (by decide) read).mpr (.inl ⟨⟨_, List.mem_cons_self, ?_⟩, ?_⟩)
  · exact logs_of_filled (reachable_sound reached) one
  · intro pair member log held
    rcases List.mem_pair.mp member with rfl | rfl
    · exact behind_of_filled one held
    · exact behind_of_filled two held

/-- A key that is missing, and one that has an entry. -/
def missingFirst : List (Bytes × Bytes) := [(ascii "t", ascii "0-0"), (ascii "s", ascii "0-0")]

/-- A missing key in front of a stream with entries makes the client wait. -/
theorem xread_waits_early : ¬ ∀ db c timeout pairs db₁ effects, DB.Reachable db →
    (∀ pair ∈ pairs, pair.2 ≠ ascii "$") →
    xreadOf db c (some timeout) pairs = .ok (db₁, effects) → XreadRight db c pairs db₁ effects := by
  intro all
  have right := all oneEntryDb Context.sample 0.0 missingFirst _ _ oneEntryDb_reachable (by decide)
    (exec_getD ({}, []) (by decide +kernel))
  have empty := right.waits.mp (by decide +kernel)
  have filled : oneEntryDb.filledBehind (ascii "s") (ascii "0-0") = true := by decide +kernel
  obtain ⟨log, held⟩ := logs_of_filled (reachable_sound oneEntryDb_reachable) filled
  exact behind_of_filled filled held (empty (ascii "s", ascii "0-0") (by decide) log held)

end CarrotDb
