import CarrotDb.DbFrames

/-! List keys of the database, told as lists: what a key holds, and what
pushing values to it, one after another, makes of that. -/
namespace CarrotDb
open Listpack

variable {lp : Bytes}

/-- A key is missing, or holds the listpack of a list. -/
def DB.ListAt (db : DB) (key : Bytes) (xs : List Bytes) : Prop :=
  db.store.lookup key = none ∧ xs = [] ∨
    ∃ object lp, db.store.lookup key = some object ∧ object.type = .listPack ∧
      object.listPack = some lp ∧ Layout lp xs

/-- A listpack holds one list only. -/
theorem layout_unique {lp : Bytes} {xs ys : List Bytes} (first : Layout lp xs) (second : Layout lp ys) :
    xs = ys := by
  obtain ⟨_, readFirst, -⟩ := @popElements_layout lp xs true first (xs.length + ys.length)
    fun _ _ => .inl rfl
  obtain ⟨_, readSecond, -⟩ := @popElements_layout lp ys true second (xs.length + ys.length)
    fun _ _ => .inl rfl
  have same := (Prod.mk.inj (Except.ok.inj (readFirst.symm.trans readSecond))).1
  rwa [List.take_of_length_le (Nat.le_add_right _ _),
    List.take_of_length_le (Nat.le_add_left _ _)] at same

theorem listAt_unique {db : DB} {key : Bytes} {xs ys : List Bytes} (first : db.ListAt key xs)
    (second : db.ListAt key ys) : xs = ys := by
  rcases first with ⟨missing, rfl⟩ | ⟨object, lp, lookup, -, held, formed⟩
  · rcases second with ⟨-, rfl⟩ | ⟨object, lp, lookup, -⟩
    · rfl
    · rw [missing] at lookup
      cases lookup
  · rcases second with ⟨missing, -⟩ | ⟨object', lp', lookup', -, held', formed'⟩
    · rw [missing] at lookup
      cases lookup
    · rw [lookup] at lookup'
      cases lookup'
      rw [held] at held'
      cases held'
      exact layout_unique formed formed'

/-- Only the binding of the key matters. -/
theorem DB.ListAt.congr {db db' : DB} {key : Bytes} {xs : List Bytes} (held : db.ListAt key xs)
    (same : db'.store.lookup key = db.store.lookup key) : db'.ListAt key xs := by
  rw [DB.ListAt, same]
  exact held

theorem listAt_insert {store : Map Bytes RedisObject} {db : DB} {key lp : Bytes} {xs : List Bytes}
    {object : RedisObject} (tag : object.type = .listPack) (held : object.listPack = some lp)
    (formed : Layout lp xs) (bound : db.store = store.insert key object) : db.ListAt key xs :=
  .inr ⟨object, lp, by rw [bound, Finmap.lookup_insert], tag, held, formed⟩

/-- The bytes that are passed on when the length goes through 32 bits. -/
def stored (value : Bytes) : Bytes := value.take (u32 value.length)

theorem stored_of_lt {value : Bytes} (short : value.length < 2 ^ 32) : stored value = value := by
  rw [stored, u32_of_lt short, List.take_length]

theorem stored_length (value : Bytes) : (stored value).length < 2 ^ 32 := by
  have bound : u32 value.length < 2 ^ 32 := Nat.mod_lt _ (by decide)
  rw [stored, List.length_take]
  omega

theorem stored_stored (value : Bytes) : stored (stored value) = stored value :=
  stored_of_lt (stored_length value)

/-- What pushing values makes of a list. -/
def pushAll (isPrepend : Bool) (xs values : List Bytes) : List Bytes :=
  values.foldl (pushed isPrepend) xs

theorem pushAll_append (xs values : List Bytes) : pushAll false xs values = xs ++ values := by
  induction values generalizing xs with
  | nil => exact (List.append_nil xs).symm
  | cons value rest ih => exact (ih (xs ++ [value])).trans (List.append_assoc xs [value] rest)

theorem pushAll_prepend (xs values : List Bytes) : pushAll true xs values = values.reverse ++ xs := by
  induction values generalizing xs with
  | nil => rfl
  | cons value rest ih =>
    rw [List.reverse_cons, List.append_assoc]
    exact ih (value :: xs)

theorem pushAll_perm (isPrepend : Bool) (xs values : List Bytes) :
    (pushAll isPrepend xs values).Perm (xs ++ values) := by
  cases isPrepend with
  | false => rw [pushAll_append]
  | true =>
    rw [pushAll_prepend]
    exact (List.Perm.append_right xs values.reverse_perm).trans List.perm_append_comm

theorem pushAll_length (isPrepend : Bool) (xs values : List Bytes) :
    (pushAll isPrepend xs values).length = xs.length + values.length := by
  rw [(pushAll_perm isPrepend xs values).length_eq, List.length_append]

/-- Every push of a run of pushes goes through: the listpack has room, and the
element a prepending push looks at passes its check. -/
def Pushes (ndebug isPrepend : Bool) : List Bytes → List Bytes → Prop
  | _, [] => True
  | xs, value :: rest =>
    Pushable ndebug isPrepend xs ∧ used (pushed isPrepend xs value) ≤ 2 ^ 32 - 1 ∧
      Pushes ndebug isPrepend (pushed isPrepend xs value) rest

/-- A value that has room in a listpack is stored as it is. -/
theorem length_of_used {isPrepend : Bool} {xs : List Bytes} {value : Bytes}
    (fits : used (pushed isPrepend xs value) ≤ 2 ^ 32 - 1) : value.length < 2 ^ 32 := by
  have room := length_le_used xs
  have back := lpEncodeBacklenBytes_pos (payload value).length
  rw [used_pushed, entry_length] at fits
  have := length_lt_of_payload (show (payload value).length < 2 ^ 32 - 7 by omega)
  omega

variable {db db' : DB} {ndebug isPrepend : Bool} {key value : Bytes} {xs : List Bytes} {len : Nat}

/-- The element count in the header of the listpack a key holds; 0 when the
key is missing. -/
def DB.headerCount (db : DB) (key : Bytes) : Exec Nat :=
  match db.store.lookup key with
  | none => pure 0
  | some object => do lpGetTotalNumElements (← deref object.listPack)

theorem headerCount_insert {store : Map Bytes RedisObject} {object : RedisObject} {lp : Bytes}
    (held : object.listPack = some lp) :
    DB.headerCount { db with store := store.insert key object } key = lpGetTotalNumElements lp := by
  rw [DB.headerCount, Finmap.lookup_insert]
  dsimp only
  rw [held]
  rfl

theorem headerCount_listAt (held : db.ListAt key xs) :
    ∃ count, db.headerCount key = .ok count ∧ CountOk count xs.length := by
  rcases held with ⟨missing, rfl⟩ | ⟨object, lp, lookup, -, pointer, formed⟩
  · exact ⟨0, by rw [DB.headerCount, missing]; rfl, by decide, .inl rfl⟩
  · obtain ⟨count, counted, ok⟩ := layout_count formed
    refine ⟨count, ?_, ok⟩
    rw [DB.headerCount, lookup]
    dsimp only
    rw [pointer]
    exact counted

/-- A push to a bound key adds to its listpack and reads the count there. -/
theorem pushValueToList_bound {object : RedisObject} {lp : Bytes}
    (bound : db.store.lookup key = some object) (tag : object.type = .listPack)
    (pointer : object.listPack = some lp) :
    pushValueToList db ndebug key value isPrepend = (do
      let listPack ← addElement ndebug lp (stored value) isPrepend
      let len ← lpGetTotalNumElements (← deref listPack)
      pure ({ db with store := db.store.insert key { object with listPack } }, len)) := by
  simp only [pushValueToList, bound, appendToExistingList, tag, pointer, decide_true, exec_pure,
    cassert_true, exec_ok_bind, deref, stored]

/-- A push onto a key that holds a list goes to the listpack of that list; a
missing key gets a new one. The length it reports is the header's count. -/
theorem pushValueToList_target (held : db.ListAt key xs) :
    ∃ (lp : Bytes) (object : RedisObject) (field : Nat), object.type = .listPack ∧
      Counted lp xs field ∧ db.headerCount key = .ok field ∧
      ∀ ndebug isPrepend value, ∃ count : Option Bytes → Exec Nat,
        (∀ lp' ys, Counted lp' ys (countedUp field) → count (some lp') = .ok (countedUp field)) ∧
        (xs ≠ [] → ∀ len, count none ≠ .ok len) ∧
        pushValueToList db ndebug key value isPrepend = (do
          let listPack ← addElement ndebug lp (stored value) isPrepend
          let len ← count listPack
          pure ({ db with store := db.store.insert key { object with listPack } }, len)) := by
  rcases held with ⟨missing, rfl⟩ | ⟨object, lp, lookup, tag, pointer, formed⟩
  · obtain ⟨lp, made, fresh⟩ := lpNew_counted listPackInitialCapacity
    refine ⟨lp, { type := .listPack }, 0, rfl, fresh, by rw [DB.headerCount, missing]; rfl,
      fun ndebug isPrepend value =>
        ⟨fun _ => pure 1, fun _ _ _ => rfl, fun nonempty => absurd rfl nonempty, ?_⟩⟩
    rw [pushValueToList, missing]
    dsimp only
    rw [createNewList, made, exec_ok_bind]
    rfl
  · obtain ⟨field, counted, -⟩ := counted_of_layout formed
    refine ⟨lp, object, field, tag, counted, ?_, fun ndebug isPrepend value =>
      ⟨fun listPack => do lpGetTotalNumElements (← deref listPack), fun _ _ after => after.2,
        (by intro _ _ ran; cases ran), ?_⟩⟩
    · rw [DB.headerCount, lookup]
      dsimp only
      rw [pointer]
      exact counted.2
    · rw [pushValueToList_bound lookup tag pointer]
      cases addElement ndebug lp (stored value) isPrepend with
      | error fault => rfl
      | ok listPack => cases listPack <;> rfl

/-- A push that has room and looks at nothing it cannot check. -/
theorem pushValueToList_counted (held : db.ListAt key xs) (header : db.headerCount key = .ok count)
    (pushable : Pushable ndebug isPrepend xs)
    (fits : used (pushed isPrepend xs (stored value)) ≤ 2 ^ 32 - 1) :
    ∃ db', pushValueToList db ndebug key value isPrepend = .ok (db', countedUp count) ∧
      db'.ListAt key (pushed isPrepend xs (stored value)) ∧
      db'.headerCount key = .ok (countedUp count) := by
  obtain ⟨lp, object, field, tag, formed, same, spec⟩ := pushValueToList_target held
  rw [header] at same
  cases same
  obtain ⟨reports, counts, -, ran⟩ := spec ndebug isPrepend value
  obtain ⟨lp', added, formed'⟩ := addElement_counted formed pushable fits
  rw [added, exec_ok_bind, counts lp' _ formed', exec_ok_bind, exec_pure] at ran
  refine ⟨_, ran, ?_, (headerCount_insert rfl).trans formed'.2⟩
  exact @listAt_insert _ _ _ _ _ { object with listPack := some lp' } tag rfl formed'.1 rfl

/-- A push that did not abort had room, unless it left a list without a
listpack. -/
theorem pushValueToList_inv (held : db.ListAt key xs)
    (ran : pushValueToList db ndebug key value isPrepend = .ok (db', len)) :
    (Pushable ndebug isPrepend xs ∧ used (pushed isPrepend xs (stored value)) ≤ 2 ^ 32 - 1 ∧
      db'.ListAt key (pushed isPrepend xs (stored value))) ∨
    (2 ^ 32 - 1 < used (pushed isPrepend xs (stored value)) ∧ xs = []) ∧
      ∃ object, db'.store.lookup key = some object ∧ object.type = .listPack ∧ object.listPack = none := by
  obtain ⟨lp, object, field, tag, ⟨formed, -⟩, -, spec⟩ := pushValueToList_target held
  obtain ⟨count, counts, full, pushes⟩ := spec ndebug isPrepend value
  rw [pushes] at ran
  obtain ⟨listPack, added, ran⟩ := exec_bind_ok.mp ran
  obtain ⟨len', counted, ran⟩ := exec_bind_ok.mp ran
  cases ran
  by_cases pushable : Pushable ndebug isPrepend xs
  · by_cases fits : used (pushed isPrepend xs (stored value)) ≤ 2 ^ 32 - 1
    · obtain ⟨lp', added', formed'⟩ := addElement_layout formed pushable fits
      rw [added] at added'
      cases added'
      exact .inl ⟨pushable, fits, @listAt_insert _ _ _ _ _ { object with listPack := some lp' }
        tag rfl formed' rfl⟩
    · have beyond := Nat.lt_of_not_le fits
      rw [addElement_full formed pushable (stored_length value) beyond] at added
      cases added
      have empty : xs = [] := not_not.mp fun nonempty => full nonempty _ counted
      exact .inr ⟨⟨beyond, empty⟩, { object with listPack := none }, Finmap.lookup_insert _, tag, rfl⟩
  · rw [addElement_unpushable formed pushable] at added
    cases added

/-! ## All pushes of a command -/

/-- Pushes that all go through report the count that the header then has. -/
theorem pushValues_counted {values : List Bytes} {start : Nat} (held : db.ListAt key xs)
    (header : db.headerCount key = .ok count)
    (pushes : Pushes ndebug isPrepend xs (values.map stored)) :
    ∃ db', pushValues db ndebug key isPrepend values start =
        .ok (db', if values = [] then start else countedUp^[values.length] count) ∧
      db'.ListAt key (pushAll isPrepend xs (values.map stored)) ∧
      db'.headerCount key = .ok (countedUp^[values.length] count) := by
  induction values generalizing db xs start count with
  | nil => exact ⟨db, rfl, held, header⟩
  | cons value rest ih =>
    obtain ⟨pushable, fits, later⟩ := pushes
    obtain ⟨db₁, pushed, held₁, header₁⟩ := pushValueToList_counted held header pushable fits
    obtain ⟨db', ran, held', header'⟩ := @ih _ _ (countedUp count) _ held₁ header₁ later
    refine ⟨db', ?_, held', header'⟩
    rw [pushValues, pushed, exec_ok_bind]
    refine ran.trans ?_
    cases rest <;> rfl

theorem pushValues_layout {values : List Bytes} {start : Nat} (held : db.ListAt key xs)
    (pushes : Pushes ndebug isPrepend xs (values.map stored)) :
    ∃ db' len, pushValues db ndebug key isPrepend values start = .ok (db', len) ∧
      db'.ListAt key (pushAll isPrepend xs (values.map stored)) := by
  obtain ⟨count, header, -⟩ := headerCount_listAt held
  obtain ⟨db', ran, held', -⟩ := pushValues_counted held header pushes
  exact ⟨db', _, ran, held'⟩

/-- A list without a listpack cannot be pushed to, and is no list. -/
theorem broken_listAt {object : RedisObject} (lookup : db.store.lookup key = some object)
    (broken : object.listPack = none) : ¬ db.ListAt key xs := by
  rintro (⟨missing, -⟩ | ⟨object', lp, found, -, held, -⟩)
  · rw [missing] at lookup
    cases lookup
  · rw [lookup] at found
    cases found
    rw [broken] at held
    cases held

/-- Pushes of values that each have room in a new listpack. -/
theorem pushValues_listAt {values : List Bytes} {start : Nat} (held : db.ListAt key xs)
    (small : ∀ value ∈ values, used [value] ≤ 2 ^ 32 - 1)
    (ran : pushValues db ndebug key isPrepend values start = .ok (db', len)) :
    db'.ListAt key (pushAll isPrepend xs values) := by
  induction values generalizing db xs start with
  | nil =>
    cases ran
    exact held
  | cons value rest ih =>
    obtain ⟨⟨db₁, len₁⟩, first, ran⟩ := exec_bind_ok.mp ran
    have fits := small value List.mem_cons_self
    have whole : stored value = value :=
      stored_of_lt (@length_of_used false [] value fits)
    have alone : pushed isPrepend [] value = [value] := by cases isPrepend <;> rfl
    rcases pushValueToList_inv held first with ⟨-, -, held₁⟩ | ⟨⟨beyond, rfl⟩, -⟩
    · rw [whole] at held₁
      exact ih held₁ (fun other member => small other (List.mem_cons_of_mem _ member)) ran
    · rw [whole, alone] at beyond
      omega

/-- Pushes that end in a list all went through. -/
theorem pushValues_inv {values ys : List Bytes} {start : Nat} (held : db.ListAt key xs)
    (ran : pushValues db ndebug key isPrepend values start = .ok (db', len))
    (held' : db'.ListAt key ys) :
    Pushes ndebug isPrepend xs (values.map stored) ∧ ys = pushAll isPrepend xs (values.map stored) := by
  induction values generalizing db xs start with
  | nil =>
    cases ran
    exact ⟨trivial, listAt_unique held' held⟩
  | cons value rest ih =>
    obtain ⟨⟨db₁, len₁⟩, first, ran⟩ := exec_bind_ok.mp ran
    rcases pushValueToList_inv held first with ⟨pushable, fits, held₁⟩ | ⟨-, object, lookup, tag, broken⟩
    · obtain ⟨later, same⟩ := ih held₁ ran
      exact ⟨⟨pushable, fits, later⟩, same⟩
    · cases rest with
      | nil =>
        cases ran
        exact absurd held' (broken_listAt lookup broken)
      | cons next rest =>
        obtain ⟨⟨db₂, len₂⟩, second, -⟩ := exec_bind_ok.mp ran
        rw [pushValueToList, lookup] at second
        dsimp only at second
        rw [appendToExistingList, broken] at second
        obtain ⟨-, -, second⟩ := exec_bind_ok.mp second
        cases second

end CarrotDb
