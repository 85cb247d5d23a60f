import CarrotDb.ExpiredKeys
import CarrotDb.CommandParser

/-! Deadlines that SET records and those it leaves. An expiry is scaled and
added to the clock in 64 bits; without one, an old deadline of the key stays. -/
namespace CarrotDb
open Resp

variable {db db' : DB} {c : Context} {key value : Bytes} {effects : List Effect}

/-- The time to live a SET asks for, in nanoseconds; EX comes before PX. -/
def timeToLive : (ex px : Option Nat) → Option Nat
  | some seconds, _ => some (seconds * 10 ^ 9)
  | none, some milliseconds => some (milliseconds * 10 ^ 6)
  | none, none => none

/-- Narrowing, scaling and adding wrap as one reduction of the exact sum. -/
theorem i64_scaled (now : Int) (n unit : Nat) :
    i64 (now + i64 (i64 n * unit)) = i64 (now + (n * unit : Nat)) := by
  simp only [i64]
  push_cast
  simp [Int.add_bmod]

/-- SET always succeeds, and records the wrapped sum for a time to live. -/
theorem handleSet_deadline {ex px : Option Nat} {ttl : Nat} (asked : timeToLive ex px = some ttl)
    (ran : handleSet db c key value ex px = .ok (db', effects)) :
    db'.expiration.lookup key = some (i64 (c.env.clock.steady + ttl)) := by
  cases ran
  cases ex with
  | some seconds =>
    cases asked
    exact (Finmap.lookup_insert _).trans (congrArg some (i64_scaled _ seconds (10 ^ 9)))
  | none =>
    cases px with
    | some milliseconds =>
      cases asked
      exact (Finmap.lookup_insert _).trans (congrArg some (i64_scaled _ milliseconds (10 ^ 6)))
    | none => cases asked

/-- A sum in 64 bits is behind the clock exactly where it did not wrap. -/
theorem le_i64_add_iff {now : Int} (low : -2 ^ 63 ≤ now) (high : now < 2 ^ 63) (ttl : Nat) :
    now ≤ i64 (now + ttl) ↔ now + (ttl % 2 ^ 64 : Nat) < 2 ^ 63 := by
  rw [i64, Int.bmod_def]
  split <;> omega

/-- Strictly behind the clock, if the time to live did not wrap to nothing. -/
theorem lt_i64_add_iff {now : Int} (low : -2 ^ 63 ≤ now) (high : now < 2 ^ 63) (ttl : Nat) :
    now < i64 (now + ttl) ↔ now + (ttl % 2 ^ 64 : Nat) < 2 ^ 63 ∧ 0 < ttl % 2 ^ 64 := by
  rw [i64, Int.bmod_def]
  split <;> omega

/-- SET records a deadline that is not before the reading it is made from. -/
def SetsAhead (db : DB) (c : Context) (key value : Bytes) (ex px : Option Nat) : Prop :=
  ∃ db' effects deadline, handleSet db c key value ex px = .ok (db', effects) ∧
    db'.expiration.lookup key = some deadline ∧ c.env.clock.steady ≤ deadline

/-- A GET at that same reading finds the key. -/
def SetsAlive (db : DB) (c : Context) (key value : Bytes) (ex px : Option Nat) : Prop :=
  ∃ db' effects, handleSet db c key value ex px = .ok (db', effects) ∧
    expireIfDue db' c.env.clock.steady key = .ok db'

/-- An expired key does not survive being looked at. -/
theorem expireIfDue_same {now deadline : Int} (due : db.expiration.lookup key = some deadline) :
    expireIfDue db now key = .ok db ↔ now < deadline := by
  rw [expireIfDue, due]
  dsimp only
  by_cases late : now ≥ deadline
  · rw [if_pos late]
    constructor
    · intro same
      cases held : db.store.lookup key with
      | none =>
        rw [held] at same
        cases same
      | some object =>
        rw [held] at same
        have gone := congrArg (fun outcome : Exec DB => outcome.toOption.map (·.store.lookup key)) same
        exact absurd (gone.symm.trans (congrArg some (Finmap.lookup_erase key _)))
          (by rw [Except.toOption, Option.map_some, held]; simp)
    · intro ahead
      exact absurd ahead (not_lt.mpr late)
  · rw [if_neg late]
    exact ⟨fun _ => not_le.mp late, fun _ => rfl⟩

/-- The deadline of SET, with the clock in 64 bits: it lies ahead exactly where
the time to live, reduced to 64 bits, fits behind the reading; and a GET at
that reading finds the key where moreover it was not reduced to nothing. -/
theorem setsAhead_iff {ex px : Option Nat} {ttl : Nat} (low : -2 ^ 63 ≤ c.env.clock.steady)
    (high : c.env.clock.steady < 2 ^ 63) (asked : timeToLive ex px = some ttl) :
    (SetsAhead db c key value ex px ↔ c.env.clock.steady + (ttl % 2 ^ 64 : Nat) < 2 ^ 63) ∧
    (SetsAlive db c key value ex px ↔
      c.env.clock.steady + (ttl % 2 ^ 64 : Nat) < 2 ^ 63 ∧ 0 < ttl % 2 ^ 64) := by
  obtain ⟨⟨db', effects⟩, ran⟩ : ∃ result, handleSet db c key value ex px = .ok result := ⟨_, rfl⟩
  have recorded := handleSet_deadline asked ran
  rw [← lt_i64_add_iff low high, ← le_i64_add_iff low high, ← expireIfDue_same recorded]
  constructor
  · constructor
    · rintro ⟨_, _, deadline, same, due, ahead⟩
      rw [ran] at same
      cases same
      rw [recorded] at due
      cases due
      exact ahead
    · intro ahead
      exact ⟨db', effects, _, ran, recorded, ahead⟩
  · constructor
    · rintro ⟨_, _, same, alive⟩
      rw [ran] at same
      cases same
      exact alive
    · intro alive
      exact ⟨db', effects, ran, alive⟩

/-- A minute from the start of the clock. -/
theorem setsAhead_minute :
    SetsAhead {} Context.sample (ascii "k") (ascii "v") (some 60) none ∧
      SetsAlive {} Context.sample (ascii "k") (ascii "v") (some 60) none := by
  have ahead := @setsAhead_iff {} Context.sample (ascii "k") (ascii "v") (some 60) none
    (60 * 10 ^ 9) (by decide) (by decide) rfl
  exact ⟨ahead.1.mpr (by decide), ahead.2.mpr (by decide)⟩

/-- `SET k v EX 9223372037`, as a client sends it. -/
def farExpiry : Bytes :=
  encodeBulkStringArray [ascii "SET", ascii "k", ascii "v", ascii "EX", ascii "9223372037"]

/-- Some 292 years ahead, the deadline is recorded 292 years ago. -/
theorem far_expiry_not_ahead :
    (parseCommand farExpiry).toOption.map (·.command) =
        some (.set (ascii "k") (ascii "v") (some 9223372037) none) ∧
      ¬ SetsAhead {} Context.sample (ascii "k") (ascii "v") (some 9223372037) none := by
  refine ⟨rfl, ?_⟩
  rintro ⟨db', effects, deadline, ran, due, ahead⟩
  rw [handleSet_deadline rfl ran] at due
  cases due
  exact absurd ahead (by decide)

/-! ## Plain SET -/

/-- The command sets the key with an expiry. -/
def Command.Expires (key : Bytes) : Command → Prop
  | .set name _ ex px => name = key ∧ (ex.isSome ∨ px.isSome)
  | _ => False

/-- What comes of a database by commands of any clients, none of which sets
the key with an expiry, and by sweeps of the blocked clients. -/
inductive DB.Later (key : Bytes) (db : DB) : DB → Prop where
  | now : DB.Later key db db
  | executed {before : DB} {c : Context} {rdbFilePath : Bytes} {envs : List Env}
      {executed : Executed} : DB.Later key db before →
      (∀ command ∈ c.calls, ¬ command.Expires key) →
      execute before c rdbFilePath envs = .ok executed → DB.Later key db executed.db
  | swept {before : DB} (env : Env) : DB.Later key db before →
      DB.Later key db (checkAndExpireBlockedClients before env).1

/-- Plain SET leaves the keys and deadlines that `DB::set` leaves. -/
def SetsLikeLoader (db : DB) (c : Context) (key value : Bytes) : Prop :=
  ∃ db' effects, handleSet db c key value none none = .ok (db', effects) ∧
    db'.store = (db.set key value).store ∧ db'.expiration = (db.set key value).expiration

/-- Behind plain SET, no reading of the clock removes the key any more. -/
def SetsForGood (db : DB) (c : Context) (key value : Bytes) : Prop :=
  ∃ db' effects, handleSet db c key value none none = .ok (db', effects) ∧
    ∀ later, DB.Later key db' later → ∀ now, expireIfDue later now key = .ok later

theorem expireIfDue_untimed (untimed : db.expiration.lookup key = none) (now : Int) :
    expireIfDue db now key = .ok db := by
  rw [expireIfDue, untimed]
  rfl

/-- A key without a deadline gets one from no other command than SET. -/
theorem callSimple_untimed {command : Command} (plain : ¬ command.Expires key)
    (ran : callSimple db c command = .ok (db', effects))
    (untimed : db.expiration.lookup key = none) : db'.expiration.lookup key = none := by
  have got {isTypeCommand : Bool} {name : Bytes}
      (ran : handleGetOrType db c isTypeCommand name = .ok (db', effects)) :
      db'.expiration.lookup key = none := by
    by_cases here : name = key
    · subst here
      have same := handleGetOrType_expires ran
      rw [expireIfDue_untimed untimed] at same
      cases same
      exact untimed
    · exact (handleGetOrType_deadline here ran).trans untimed
  by_cases timing : command.Timing
  · cases command <;> first | exact False.elim timing | skip
    case get => exact got ran
    case type => exact got ran
    case set name value ex px =>
      cases ran
      cases ex with
      | some seconds =>
        have apart : key ≠ name := fun same => plain ⟨same.symm, .inl rfl⟩
        exact (Finmap.lookup_insert_of_ne _ apart).trans untimed
      | none =>
        cases px with
        | some milliseconds =>
          have apart : key ≠ name := fun same => plain ⟨same.symm, .inr rfl⟩
          exact (Finmap.lookup_insert_of_ne _ apart).trans untimed
        | none => exact untimed
  · rw [(callSimple_keeps timing ran).deadlines]
    exact untimed

theorem later_untimed {later : DB} (untimed : db.expiration.lookup key = none)
    (run : DB.Later key db later) : later.expiration.lookup key = none := by
  induction run with
  | now => exact untimed
  | @executed before c rdbFilePath envs executed _ plain ran ih =>
    refine @execute_carries before c (fun db => db.expiration.lookup key = none) ?_ ?_ ih _ _ _ ran
    · intro db db' _ deadlines _ untimed
      rw [deadlines]
      exact untimed
    · intro command member db db' env effects called untimed
      exact callSimple_untimed (plain command member) called untimed
  | swept env _ ih => exact ih

/-- Plain SET touches no deadline. -/
theorem handleSet_plain (db : DB) (c : Context) (key value : Bytes) :
    ∃ db' effects, handleSet db c key value none none = .ok (db', effects) ∧
      db'.store = (db.set key value).store ∧ db'.expiration = db.expiration :=
  ⟨_, _, rfl, rfl, rfl⟩

/-- The loader drops the deadline of the key, which changes nothing exactly
where there is none. -/
theorem setsLikeLoader_iff : SetsLikeLoader db c key value ↔ db.expiration.lookup key = none := by
  obtain ⟨db', effects, ran, store, deadlines⟩ := handleSet_plain db c key value
  have dropped : (db.set key value).expiration = db.expiration.erase key := rfl
  constructor
  · rintro ⟨_, _, same, -, loaded⟩
    rw [ran] at same
    cases same
    rw [← deadlines, loaded, dropped]
    exact Finmap.lookup_erase key _
  · intro untimed
    refine ⟨db', effects, ran, store, ?_⟩
    rw [deadlines, dropped]
    refine Finmap.ext_lookup fun other => ?_
    by_cases here : other = key
    · subst here
      rw [untimed, Finmap.lookup_erase]
    · rw [Finmap.lookup_erase_ne here]

/-- Where an old deadline stays, time removes the new value. -/
theorem setsForGood_iff : SetsForGood db c key value ↔ db.expiration.lookup key = none := by
  obtain ⟨db', effects, ran, -, deadlines⟩ := handleSet_plain db c key value
  rw [← deadlines]
  constructor
  · rintro ⟨_, _, same, good⟩
    rw [ran] at same
    cases same
    cases due : db'.expiration.lookup key with
    | none => rfl
    | some deadline => exact absurd ((expireIfDue_same due).mp (good _ .now deadline)) (lt_irrefl _)
  · intro untimed
    exact ⟨db', effects, ran, fun later run now => expireIfDue_untimed (later_untimed untimed run) now⟩

/-- Plain SET stores like the loader, and for good, exactly for a key that has
no deadline: an old one is left in place. -/
theorem plain_set_iff :
    SetsLikeLoader db c key value ∧ SetsForGood db c key value ↔
      db.expiration.lookup key = none := by
  rw [setsLikeLoader_iff, setsForGood_iff, and_self]

/-- A SET with an expiry, and then one without. -/
theorem plain_set_keeps_deadline :
    ∃ db effects, handleSet {} Context.sample (ascii "k") (ascii "1") (some 1) none =
        .ok (db, effects) ∧
      ¬ (SetsLikeLoader db Context.sample (ascii "k") (ascii "2") ∧
        SetsForGood db Context.sample (ascii "k") (ascii "2")) := by
  obtain ⟨⟨db, effects⟩, ran⟩ : ∃ result,
      handleSet {} Context.sample (ascii "k") (ascii "1") (some 1) none = .ok result := ⟨_, rfl⟩
  refine ⟨db, effects, ran, fun both => ?_⟩
  have untimed := setsLikeLoader_iff.mp both.1
  rw [handleSet_deadline rfl ran] at untimed
  cases untimed

end CarrotDb
