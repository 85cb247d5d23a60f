import CarrotDb.ExpiredKeys
import CarrotDb.StreamIds

/-! XADDs that are answered with an error. The key is bound before the
identifier is looked at, so the answer alone does not tell that nothing was
stored. -/
namespace CarrotDb
open Resp Lockstep

variable {db db' : DB} {c : Context} {key streamId : Bytes} {fieldValues : List (Bytes × Bytes)}
  {effects : List Effect}

/-- What an error must leave: the store with its streams, the clients that
wait, nothing sent but the error, and every later command answering as it
would have. -/
structure Traceless (db db' : DB) (effects : List Effect) : Prop where
  store : db'.store = db.store
  lists : db'.blockedKeys = db.blockedKeys
  readers : db'.blockedXreadKeys = db.blockedXreadKeys
  sent : ∃ message, effects = [.reply (encodeError message)]
  later : ∀ acl clients rdbFilePath requests,
    run (Session.step rdbFilePath) ⟨db', acl, clients⟩ requests =
      run (Session.step rdbFilePath) ⟨db, acl, clients⟩ requests

theorem openStream_bound (bound : db.store.lookup key ≠ none) : (openStream db key).1 = db := by
  obtain ⟨object, lookup⟩ := Option.ne_none_iff_exists'.mp bound
  rw [openStream, lookup]

theorem openStream_missing (missing : db.store.lookup key = none) :
    (openStream db key).1.store.lookup key = some { type := .stream, streamPtr := some Stream.new } := by
  rw [openStream, missing]
  exact Finmap.lookup_insert _

theorem xaddError_error {error : StreamErrorType} (refused : error ≠ .ok) :
    ∃ message, xaddError error = encodeError message := by
  cases error with
  | ok => exact absurd rfl refused
  | invalidIdFormat => exact ⟨_, rfl⟩
  | idNotGreaterThanLast => exact ⟨_, rfl⟩
  | notGreaterThanZero => exact ⟨_, rfl⟩

/-- XADD answers with an error, and has bound the key but nothing else, or with
an identifier. -/
theorem handleXadd_settles (ran : handleXadd db c key streamId fieldValues = .ok (db', effects)) :
    (db' = (openStream db key).1 ∧ ∃ message, effects = [.reply (encodeError message)]) ∨
      ∃ id rest, effects = .reply (encodeBulkString id) :: rest := by
  rw [handleXadd] at ran
  dsimp only at ran
  split at ran
  · obtain ⟨same, sent⟩ := replying_ok ran
    exact .inl ⟨same, _, sent⟩
  · obtain ⟨stream, -, ran⟩ := exec_bind_ok.mp ran
    split at ran
    · rename_i refused
      obtain ⟨same, sent⟩ := replying_ok ran
      obtain ⟨message, error⟩ := xaddError_error refused
      exact .inl ⟨same, message, error ▸ sent⟩
    · obtain ⟨woken, -, ran⟩ := exec_bind_ok.mp ran
      cases ran
      exact .inr ⟨_, _, rfl⟩

theorem handleXadd_refused (ran : handleXadd db c key streamId fieldValues = .ok (db', effects))
    (refused : (repliedBytes effects).head? = some 45) :
    db' = (openStream db key).1 ∧ ∃ message, effects = [.reply (encodeError message)] := by
  rcases handleXadd_settles ran with settled | ⟨id, rest, rfl⟩
  · exact settled
  · cases refused

/-- An XADD that is answered with an error leaves no trace just when the key
was bound. -/
theorem failed_xadd_traceless_iff
    (ran : handleXadd db c key streamId fieldValues = .ok (db', effects))
    (refused : (repliedBytes effects).head? = some 45) :
    Traceless db db' effects ↔ db.store.lookup key ≠ none := by
  obtain ⟨rfl, sent⟩ := handleXadd_refused ran refused
  constructor
  · intro traceless missing
    have created := openStream_missing missing
    rw [traceless.store, missing] at created
    cases created
  · intro bound
    rw [openStream_bound bound]
    exact ⟨rfl, rfl, rfl, sent, fun _ _ _ _ => rfl⟩

/-- A database with one stream, whose last entry is 5-1. -/
def oneStream : DB :=
  { store := Finmap.insert (ascii "k")
      { type := .stream, streamPtr := some (Stream.new.add ⟨0, ascii "5-1", []⟩).1 } ∅ }

theorem failed_xadd_traceless_repeated :
    Traceless oneStream oneStream [.reply (xaddError .idNotGreaterThanLast)] ↔
      oneStream.store.lookup (ascii "k") ≠ none :=
  @failed_xadd_traceless_iff oneStream oneStream .sample (ascii "k") (ascii "5-1") [] _ rfl rfl

/-- After an XADD with a bad identifier, TYPE finds a stream. -/
theorem failed_xadd_seen : ¬ ∀ (db db' : DB) (c : Context) (key streamId : Bytes)
    (fieldValues : List (Bytes × Bytes)) (effects : List Effect), db.Reachable →
    handleXadd db c key streamId fieldValues = .ok (db', effects) →
    (repliedBytes effects).head? = some 45 → Traceless db db' effects := by
  intro claim
  have ran : handleXadd {} .sample (ascii "k") (ascii "bad") [] =
      .ok ((openStream {} (ascii "k")).1, [.reply (xaddError .invalidIdFormat)]) := rfl
  have traceless := claim _ _ _ _ _ _ _ .empty ran rfl
  have answers := traceless.later .new (Finmap.singleton 5 {}) [] [.later (.type (ascii "k"))]
  have replies := congrArg (fun outcome => outcome.toOption.map fun final => final.1.map repliedBytes) answers
  exact absurd replies (by decide +kernel)

end CarrotDb
