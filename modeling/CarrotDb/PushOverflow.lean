import CarrotDb.PushLengths

/-! A push that would take a listpack beyond 2^32-1 bytes. `lpInsert` owns the
only copy of the listpack when it checks the size and returns a null pointer,
which the push reads the count through. -/
namespace CarrotDb
open Resp Listpack

variable {db db' : DB} {c : Context} {key value : Bytes} {isPrepend ndebug : Bool}
  {xs values : List Bytes}

/-- A key is bound to the listpack of a list. -/
def DB.HoldsList (db : DB) (key : Bytes) (xs : List Bytes) : Prop :=
  ∃ object lp, db.store.lookup key = some object ∧ object.type = .listPack ∧
    object.listPack = some lp ∧ Layout lp xs

/-- One of the values would take the listpack beyond 2^32-1 bytes, with the
values before it already in the list. -/
def Oversize (isPrepend : Bool) (xs values : List Bytes) : Prop :=
  ∃ before value after, values = before ++ value :: after ∧
    2 ^ 32 - 1 < used (pushed isPrepend (pushAll isPrepend xs (before.map stored)) (stored value))

/-- A push that comes to its end and leaves the list as it was, but for some
first values that are in it. -/
def PushHarmless (db : DB) (c : Context) (isPrepend : Bool) (key : Bytes) (xs values : List Bytes) :
    Prop :=
  ∃ db' effects through, handlePush db c isPrepend key values = .ok (db', effects) ∧
    through <+: keptValues (queueOf db.blockedKeys key) values ∧
    db'.ListAt key (pushAll isPrepend xs (through.map stored))

/-- The fault of a push without room: the null pointer is read, unless the
check of the first element comes before that. -/
def OverflowFault (ndebug isPrepend : Bool) (fault : Fault) : Prop :=
  fault = .undefinedBehaviour ∨
    fault = .assertFailed ∧ ndebug = false ∧ isPrepend = true

theorem pushable_or (ndebug isPrepend : Bool) (xs : List Bytes) :
    Pushable ndebug isPrepend xs ∨ ndebug = false ∧ isPrepend = true := by
  cases ndebug with
  | true => exact .inl fun _ _ _ => .inl rfl
  | false =>
    cases isPrepend with
    | true => exact .inr ⟨rfl, rfl⟩
    | false => exact .inl fun wrong => absurd wrong Bool.false_ne_true

/-- A value that has room goes to the list, or a check fails. -/
theorem pushValueToList_fits (held : db.HoldsList key xs)
    (fits : used (pushed isPrepend xs (stored value)) ≤ 2 ^ 32 - 1) :
    (∃ db' len, pushValueToList db ndebug key value isPrepend = .ok (db', len) ∧
      db'.HoldsList key (pushed isPrepend xs (stored value))) ∨
    ∃ fault, pushValueToList db ndebug key value isPrepend = .error fault ∧
      OverflowFault ndebug isPrepend fault := by
  obtain ⟨object, lp, bound, tag, pointer, formed⟩ := held
  have target := @pushValueToList_bound db ndebug isPrepend key value object lp bound tag pointer
  by_cases pushable : Pushable ndebug isPrepend xs
  · obtain ⟨lp', added, formed'⟩ := addElement_layout formed pushable fits
    obtain ⟨count, counted, -⟩ := layout_count formed'
    left
    refine ⟨{ db with store := db.store.insert key { object with listPack := some lp' } }, count, ?_,
      { object with listPack := some lp' }, lp', Finmap.lookup_insert _, tag, rfl, formed'⟩
    simp [target, added, deref, counted]
  · have checks := (pushable_or ndebug isPrepend xs).resolve_left pushable
    right
    refine ⟨.assertFailed, ?_, .inr ⟨rfl, checks⟩⟩
    simp [target, addElement_unpushable formed pushable]

/-- A value that has no room never goes through. -/
theorem pushValueToList_beyond (held : db.HoldsList key xs)
    (beyond : 2 ^ 32 - 1 < used (pushed isPrepend xs (stored value))) :
    ∃ fault, pushValueToList db ndebug key value isPrepend = .error fault ∧
      OverflowFault ndebug isPrepend fault := by
  obtain ⟨object, lp, bound, tag, pointer, formed⟩ := held
  have target := @pushValueToList_bound db ndebug isPrepend key value object lp bound tag pointer
  by_cases pushable : Pushable ndebug isPrepend xs
  · have full := addElement_full formed pushable (stored_length value) beyond
    refine ⟨.undefinedBehaviour, ?_, .inl rfl⟩
    simp [target, full, deref]
  · have checks := (pushable_or ndebug isPrepend xs).resolve_left pushable
    refine ⟨.assertFailed, ?_, .inr ⟨rfl, checks⟩⟩
    simp [target, addElement_unpushable formed pushable]

theorem oversize_cons : Oversize isPrepend xs (value :: values) ↔
    2 ^ 32 - 1 < used (pushed isPrepend xs (stored value)) ∨
      Oversize isPrepend (pushed isPrepend xs (stored value)) values := by
  constructor
  · rintro ⟨before, found, after, split, beyond⟩
    cases before with
    | nil =>
      obtain ⟨rfl, rfl⟩ := List.cons.inj split
      exact .inl beyond
    | cons first before =>
      obtain ⟨rfl, rfl⟩ := List.cons.inj split
      exact .inr ⟨before, found, after, rfl, beyond⟩
  · rintro (beyond | ⟨before, found, after, rfl, beyond⟩)
    · exact ⟨[], value, values, rfl, beyond⟩
    · exact ⟨value :: before, found, after, rfl, beyond⟩

/-- The first value without room ends the run, if no check did before. -/
theorem pushValues_oversize {start : Nat} (held : db.HoldsList key xs)
    (oversize : Oversize isPrepend xs values) :
    ∃ fault, pushValues db ndebug key isPrepend values start = .error fault ∧
      OverflowFault ndebug isPrepend fault := by
  induction values generalizing db xs start with
  | nil =>
    obtain ⟨before, value, after, split, -⟩ := oversize
    simp at split
  | cons value rest ih =>
    by_cases fits : used (pushed isPrepend xs (stored value)) ≤ 2 ^ 32 - 1
    · rcases @pushValueToList_fits db key value isPrepend ndebug xs held fits with
        ⟨db', len, ran, held'⟩ | ⟨fault, ran, kind⟩
      · have later := (oversize_cons.mp oversize).resolve_left (Nat.not_lt.mpr fits)
        obtain ⟨fault, stopped, kind⟩ := @ih db' _ len held' later
        exact ⟨fault, by simp [pushValues, ran, stopped], kind⟩
      · exact ⟨fault, by simp [pushValues, ran], kind⟩
    · obtain ⟨fault, ran, kind⟩ :=
        @pushValueToList_beyond db key value isPrepend ndebug xs held (Nat.lt_of_not_le fits)
      exact ⟨fault, by simp [pushValues, ran], kind⟩

theorem handlePush_oversize (held : db.HoldsList key xs)
    (oversize : Oversize isPrepend xs (keptValues (queueOf db.blockedKeys key) values)) :
    ∃ fault, handlePush db c isPrepend key values = .error fault ∧
      OverflowFault c.env.ndebug isPrepend fault := by
  cases waits : queueOf db.blockedKeys key with
  | nil =>
    rw [waits] at oversize
    obtain ⟨fault, stopped, kind⟩ := @pushValues_oversize db key isPrepend c.env.ndebug xs values 0
      held oversize
    exact ⟨fault, by simp [handlePush_plain (.inl waits), stopped], kind⟩
  | cons blocked queue =>
    rw [waits] at oversize
    cases values with
    | nil =>
      obtain ⟨before, value, after, split, -⟩ := oversize
      simp [keptValues] at split
    | cons first rest =>
      have held' : DB.HoldsList { db with blockedKeys := popFront db.blockedKeys key queue } key xs :=
        held
      obtain ⟨fault, stopped, kind⟩ := @pushValues_oversize _ key isPrepend c.env.ndebug xs rest 0
        held' oversize
      exact ⟨fault, by simp [handlePush_waiter waits, stopped], kind⟩

theorem not_oversize_of_pushes (pushes : Pushes ndebug isPrepend xs (values.map stored)) :
    ¬ Oversize isPrepend xs values := by
  induction values generalizing xs with
  | nil =>
    rintro ⟨before, value, after, split, -⟩
    simp at split
  | cons value rest ih =>
    obtain ⟨-, fits, later⟩ := pushes
    rw [oversize_cons, not_or]
    exact ⟨Nat.not_lt.mpr fits, ih later⟩

theorem not_harmless_of_oversize (held : db.ListAt key xs)
    (oversize : Oversize isPrepend xs (keptValues (queueOf db.blockedKeys key) values)) :
    ¬ PushHarmless db c isPrepend key xs values := by
  rintro ⟨db', effects, through, ran, -, held'⟩
  obtain ⟨pushes, -⟩ := handlePush_through held ran held'
  exact not_oversize_of_pushes pushes oversize

/-- No push of a value that has no room is harmless, and on a stored list
every one that appends reads the null pointer. -/
theorem oversize_push_faults (held : db.ListAt key xs)
    (oversize : Oversize isPrepend xs (keptValues (queueOf db.blockedKeys key) values)) :
    ¬ PushHarmless db c isPrepend key xs values ∧
      (db.store.lookup key ≠ none → c.env.ndebug = true ∨ isPrepend = false →
        handlePush db c isPrepend key values = .error .undefinedBehaviour) := by
  constructor
  · exact not_harmless_of_oversize held oversize
  · intro bound unchecked
    have stands : db.HoldsList key xs := held.resolve_left fun missing => bound missing.1
    obtain ⟨fault, stopped, kind⟩ :=
      @handlePush_oversize db c key isPrepend xs values stands oversize
    rcases kind with rfl | ⟨-, checks, prepends⟩
    · exact stopped
    · simp [checks, prepends] at unchecked

/-! ## A full list -/

/-- One RPUSH into the empty database fills a list up to its last bytes. -/
private theorem filled_reached (nonempty : values ≠ []) (fits : used values ≤ 2 ^ 32 - 1) :
    ∃ db, DB.Reachable db ∧ db.HoldsList key values ∧ queueOf db.blockedKeys key = [] := by
  have held : DB.ListAt {} key [] := .inl ⟨rfl, rfl⟩
  obtain ⟨db, effects, ran, held', -⟩ := @handlePush_counted {}
    { Context.sample with command := .rpush key values } key false [] values 0 held rfl rfl nonempty
    (pushes_append (by simpa using fits))
  have executed : execute {} { Context.sample with command := .rpush key values } [] [] =
      .ok ⟨db, Context.sample.acl, effects, some (.rpush key values)⟩ := by
    simp [execute, Context.sample, Command.commandType, call, callSimple] at ran ⊢
    simp [ran]
  refine ⟨db, .executed .empty executed, ?_, ?_⟩
  · rw [pushAll_append, List.nil_append] at held'
    exact held'.resolve_left fun missing => nonempty missing.2
  · rw [handlePush_plain (.inl rfl)] at ran
    obtain ⟨⟨db₁, len⟩, pushes, ran⟩ := exec_bind_ok.mp ran
    cases ran
    obtain ⟨store, rfl, -⟩ := pushValues_frame pushes
    rfl

/-- The value "v" takes three bytes, and 1431655762 of them leave room for two. -/
private theorem full_reached : ∃ db, DB.Reachable db ∧
    db.HoldsList (ascii "k") (List.replicate 1431655762 (ascii "v")) ∧
    queueOf db.blockedKeys (ascii "k") = [] := by
  apply filled_reached
  · exact List.ne_nil_of_length_pos (by rw [List.length_replicate]; decide)
  · rw [used_replicate]
    decide

private theorem full_oversize :
    Oversize false (List.replicate 1431655762 (ascii "v")) [ascii "v"] := by
  refine ⟨[], ascii "v", [], rfl, ?_⟩
  change _ < used (pushed false (List.replicate 1431655762 (ascii "v")) (stored (ascii "v")))
  rw [used_pushed, used_replicate]
  decide

theorem oversize_push_faults_full : ∃ db,
    ¬ PushHarmless db Context.sample false (ascii "k") (List.replicate 1431655762 (ascii "v"))
        [ascii "v"] ∧
      (db.store.lookup (ascii "k") ≠ none → false = true ∨ false = false →
        handlePush db Context.sample false (ascii "k") [ascii "v"] = .error .undefinedBehaviour) := by
  obtain ⟨db, -, held, idle⟩ := full_reached
  have oversize := full_oversize
  exact ⟨db, oversize_push_faults (.inr held) (by rw [idle]; exact oversize)⟩

/-- RPUSH k v is not harmless when the list is that full. -/
theorem push_overflows : ¬ ∀ db c isPrepend key xs values, DB.Reachable db → db.ListAt key xs →
    Oversize isPrepend xs (keptValues (queueOf db.blockedKeys key) values) →
    PushHarmless db c isPrepend key xs values := by
  intro all
  obtain ⟨db, reached, held, idle⟩ := full_reached
  have oversize : Oversize false (List.replicate 1431655762 (ascii "v"))
      (keptValues (queueOf db.blockedKeys (ascii "k")) [ascii "v"]) := by
    rw [idle]
    exact full_oversize
  have harmless := all db Context.sample false (ascii "k") _ [ascii "v"] reached (.inr held) oversize
  exact not_harmless_of_oversize (.inr held) oversize harmless

end CarrotDb
