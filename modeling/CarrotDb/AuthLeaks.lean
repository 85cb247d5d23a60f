import CarrotDb.AuthGate
import CarrotDb.PushLengths
import CarrotDb.WatchMarks

/-! What the missing gate lets through. Every command that looks at a key is
answered differently over two stores, and a request that is not harmless does
so, or reaches the data, a replica or another client. -/
namespace CarrotDb
open Resp Listpack

variable {server : Server} {fd : Fd} {client : Client} {command : Command} {machine : Machine}
  {db db₁ db₂ : DB} {c : Context} {effects first second : List Effect} {data data' : Data}
  {key : Bytes} {handler : DB → Outcome}

/-- A store with one key. -/
def Data.only (key : Bytes) (object : RedisObject) : Data := ⟨Finmap.singleton key object, ∅⟩

theorem empty_sound : Data.Sound {} where
  left := {
    objects := fun _ _ absent => by cases absent
    waiting := fun _ _ absent => by cases absent }
  right := fun _ _ absent => by cases absent

theorem only_lookup (key : Bytes) (object : RedisObject) :
    (db.withData (.only key object)).store.lookup key = some object :=
  Finmap.lookup_singleton_eq

theorem only_sound {object : RedisObject} (formed : object.Sound) : (Data.only key object).Sound := by
  refine ⟨⟨fun other found lookup => ?_, fun _ _ absent => ?_⟩, fun _ _ absent => ?_⟩
  · have inside : other ∈ (Finmap.singleton key object : Map Bytes RedisObject) :=
      Finmap.mem_of_lookup_eq_some lookup
    rw [(Finmap.mem_singleton other key object).mp inside, only_lookup] at lookup
    cases lookup
    exact formed
  · cases absent
  · cases absent

/-- A string of no bytes. -/
def RedisObject.blank : RedisObject := { type := .string, stringPtr := some [] }

theorem blank_sound : (Data.only key .blank).Sound := only_sound (sound_of_text rfl rfl)

/-- A list of one element. -/
def RedisObject.single : RedisObject :=
  { type := .listPack, listPack := some [11, 0, 0, 0, 1, 0, 0x82, 97, 98, 3, 0xFF] }

private theorem single_layout : Layout [11, 0, 0, 0, 1, 0, 0x82, 97, 98, 3, 0xFF] [ascii "ab"] :=
  ⟨by decide, 1, [], ⟨by decide, .inl rfl⟩, by decide⟩

theorem single_listAt : (db.withData (.only key .single)).ListAt key [ascii "ab"] :=
  .inr ⟨_, _, only_lookup key .single, rfl, rfl, single_layout⟩

theorem single_sound : (Data.only key .single).Sound :=
  only_sound (sound_of_list rfl fun _ held => ⟨_, Option.some.inj held ▸ single_layout⟩)

/-- A list of one element that was longer than the header can count, and whose
element does not fit in 32 bits. -/
def RedisObject.uncounted : RedisObject :=
  { type := .listPack
    listPack := some [17, 0, 0, 0, 255, 255, 0xF4, 0, 0, 0, 0, 1, 0, 0, 0, 9, 0xFF] }

private theorem uncounted_layout :
    Layout [17, 0, 0, 0, 255, 255, 0xF4, 0, 0, 0, 0, 1, 0, 0, 0, 9, 0xFF] [ascii "4294967296"] :=
  ⟨by decide, lpHdrNumeleUnknown, [], ⟨by decide, .inr rfl⟩, by decide⟩

theorem uncounted_sound : (Data.only key .uncounted).Sound :=
  only_sound (sound_of_list rfl fun _ held => ⟨_, Option.some.inj held ▸ uncounted_layout⟩)

/-! ## Handlers that see data -/

/-- Over any data the handler runs, tells its client the same, and leaves the
same around the data. -/
def Blind (fd : Fd) (handler : DB → Outcome) (db : DB) : Prop :=
  ∃ reply left, ∀ data, data.Sound → ∃ db' effects, handler (db.withData data) = .ok (db', effects) ∧
    appended fd fd effects = reply ∧ db'.withData {} = left

theorem Blind.runs (blind : Blind fd handler db) (sound : data.Sound) (fault : Fault) :
    handler (db.withData data) ≠ .error fault := by
  obtain ⟨reply, left, all⟩ := blind
  obtain ⟨db', effects, ran, -⟩ := all data sound
  rw [ran]
  simp

theorem Blind.same (blind : Blind fd handler db) (one : data.Sound) (two : data'.Sound)
    (ran : handler (db.withData data) = .ok (db₁, first))
    (ran' : handler (db.withData data') = .ok (db₂, second)) :
    appended fd fd first = appended fd fd second ∧ db₁.withData {} = db₂.withData {} := by
  obtain ⟨reply, left, all⟩ := blind
  obtain ⟨_, _, again, told, stays⟩ := all data one
  obtain ⟨_, _, again', told', stays'⟩ := all data' two
  rw [ran] at again
  rw [ran'] at again'
  cases again
  cases again'
  exact ⟨told.trans told'.symm, stays.trans stays'.symm⟩

@[simp] theorem appended_own (fd : Fd) (bytes : Bytes) (rest : List Effect) :
    appended fd fd (.reply bytes :: rest) = bytes ++ appended fd fd rest := by
  simp [appended]

@[simp] theorem appended_marks (served : Fd) (env : Env) (rest : List Effect) :
    appended served fd (markWatchingClientsDirty db env key ++ rest) = appended served fd rest := by
  rw [appended_append, markWatchingClientsDirty, appended, List.flatMap_map]
  simp

/-- A missing key is answered as a string is. -/
theorem Blind.replies {missing refused : Bytes} (blind : Blind fd handler db)
    (absent : handler (db.withData {}) = replying db₁ missing)
    (text : handler (db.withData (.only key .blank)) = replying db₂ refused) : missing = refused := by
  have same := (blind.same empty_sound blank_sound absent text).1
  rw [appended_own, appended_own] at same
  exact List.append_cancel_right same

theorem getOrType_shows (isTypeCommand : Bool) :
    ¬ Blind fd (fun db => handleGetOrType db c isTypeCommand key) db := by
  intro blind
  have text : handleGetOrType (db.withData (.only key .blank)) c isTypeCommand key =
      replying (db.withData (.only key .blank))
        (if isTypeCommand then encodeSimpleString (ascii "string") else encodeBulkString []) := by
    rw [handleGetOrType, show expireIfDue (db.withData (.only key .blank)) c.env.clock.steady key =
      .ok (db.withData (.only key .blank)) from rfl, exec_ok_bind, only_lookup]
    cases isTypeCommand <;> rfl
  have same := blind.replies rfl text
  cases isTypeCommand <;> exact absurd same (by decide)

theorem handleIncr_shows : ¬ Blind fd (fun db => handleIncr db c key) db := by
  intro blind
  have text : handleIncr (db.withData (.only key .blank)) c key = replying
      (db.withData (.only key .blank))
      (encodeError (ascii "value is not an integer or out of range")) := by
    rw [handleIncr, only_lookup]
    rfl
  have same := (blind.same empty_sound blank_sound rfl text).1
  rw [appended_marks, appended_own, appended_own] at same
  exact absurd same (by simp [appended]; decide)

theorem handleLlen_shows : ¬ Blind fd (fun db => handleLlen db c key) db := by
  intro blind
  have counted : (db.withData (.only key .single)).headerCount key = .ok 1 := by
    rw [DB.headerCount, only_lookup]
    rfl
  obtain ⟨db', ran⟩ := (@handleLlen_listAt _ c _ _ single_listAt).mpr fun full => by
    rw [counted] at full
    cases full
  have same := (blind.same empty_sound single_sound rfl ran).1
  exact absurd same (by simp [appended]; decide)

/-- LRANGE counts the list, whatever it is asked for. -/
theorem handleLrange_shows (debug : c.env.ndebug = false) {start stop : Int} :
    ¬ Blind fd (fun db => handleLrange db c key start stop) db := by
  intro blind
  obtain ⟨_, _, all⟩ := blind
  obtain ⟨db', effects, ran, -⟩ := all _ (@uncounted_sound key)
  dsimp only at ran
  rw [handleLrange, only_lookup] at ran
  obtain ⟨counted, count, -⟩ := exec_bind_ok.mp ran
  rw [debug] at count
  have wide : Wide (ascii "4294967296") := ⟨4294967296, by decide, .inr (by decide)⟩
  rcases lpLength_checks uncounted_layout rfl count _ List.mem_cons_self with off | narrow
  · cases off
  · exact narrow wide

theorem handleLpop_shows {count : Option Nat} (release : c.env.ndebug = true)
    (some_ : count ≠ some 0) : ¬ Blind fd (fun db => handleLpop db c key count) db := by
  intro blind
  have taken : [ascii "ab"].take (count.getD 1) = [ascii "ab"] := by
    cases count with
    | none => rfl
    | some n =>
      refine List.take_of_length_le (Nat.one_le_iff_ne_zero.mpr fun zero => some_ ?_)
      rw [show n = 0 from zero]
  obtain ⟨lp', popped, -⟩ := popElements_layout single_layout (count.getD 1)
    (fun _ _ => .inl rfl : ∀ x ∈ _, Checked true x)
  rw [taken] at popped
  obtain ⟨db', ran⟩ : ∃ db', handleLpop (db.withData (.only key .single)) c key count = .ok (db',
      markWatchingClientsDirty db c.env key ++ [.reply (encodeBulkString (ascii "ab"))]) := by
    rw [handleLpop, only_lookup]
    dsimp only [RedisObject.single]
    rw [release, popped, exec_ok_bind]
    exact ⟨_, rfl⟩
  have same := (blind.same empty_sound single_sound rfl ran).1
  rw [appended_marks] at same
  exact absurd same (by simp [appended]; decide)

theorem handleBlpop_shows {keys : List Bytes} {timeout : Float} :
    ¬ Blind fd (fun db => handleBlpop db c keys timeout) db := by
  intro blind
  obtain ⟨reply, left, all⟩ := id blind
  obtain ⟨db', effects, ran, -⟩ := all {} empty_sound
  have text : handleBlpop (db.withData (.only (keys.headD []) .blank)) c keys timeout =
      replying (db.withData (.only (keys.headD []) .blank)) encodeNullBulkString := by
    rw [handleBlpop]
    dsimp only
    rw [only_lookup]
    rfl
  have same := (blind.same empty_sound blank_sound ran text).1
  obtain ⟨blocked, -, ran⟩ := exec_bind_ok.mp ran
  cases ran
  exact absurd same (by simp [appended]; decide)

/-- A push over a string meets an assertion. -/
theorem pushValues_text {isPrepend : Bool} {value : Bytes} {values : List Bytes} {len : Nat}
    (text : db.store.lookup key = some .blank) :
    pushValues db false key isPrepend (value :: values) len = .error .assertFailed := by
  rw [pushValues, pushValueToList, text]
  rfl

theorem withSortedSet_shows {missing : Bytes} {reply : SortedSet → Exec Bytes}
    (runs : ∀ db, handler db = withSortedSet db key missing reply) (other : missing ≠ wrongType) :
    ¬ Blind fd handler db := by
  intro blind
  have absent : handler (db.withData {}) = replying (db.withData {}) missing := by
    rw [runs]
    rfl
  have text : handler (db.withData (.only key .blank)) =
      replying (db.withData (.only key .blank)) wrongType := by
    rw [runs, withSortedSet, only_lookup]
    rfl
  exact other (blind.replies absent text)

theorem handleZrem_shows {members : List Bytes} (asked : c.command = .zrem key members) :
    ¬ Blind fd (fun db => handleZrem db c) db := by
  intro blind
  have text : handleZrem (db.withData (.only key .blank)) c =
      replying (db.withData (.only key .blank)) wrongType := by
    simp only [handleZrem, asked]
    rw [only_lookup]
    rfl
  have missing : handleZrem (db.withData {}) c = replying (db.withData {}) (encodeInteger 0) := by
    simp only [handleZrem, asked]
    rfl
  exact absurd (blind.replies missing text) (by decide)

/-- An error is no other reply. -/
theorem error_apart {message kind : Bytes} {byte : UInt8} {bytes more more' : Bytes}
    (other : byte ≠ 45) : byte :: bytes ++ more ≠ encodeError message kind ++ more' := by
  intro same
  exact other (List.cons.inj same).1

theorem openSortedSet_text :
    openSortedSet (db.withData (.only key .blank)) key =
      (db.withData (.only key .blank), .blank) := by
  rw [openSortedSet, only_lookup]

theorem handleZadd_shows {scoreMembers : List (Float × Bytes)}
    (asked : c.command = .zadd key scoreMembers) : ¬ Blind fd (fun db => handleZadd db c) db := by
  intro blind
  have text : handleZadd (db.withData (.only key .blank)) c =
      replying (db.withData (.only key .blank)) wrongType := by
    simp only [handleZadd, asked, openSortedSet_text]
    rfl
  obtain ⟨_, _, all⟩ := id blind
  obtain ⟨db', effects, ran, -⟩ := all {} empty_sound
  have same := (blind.same empty_sound blank_sound ran text).1
  simp only [handleZadd, asked] at ran
  split at ran
  · rename_i odd
    exact odd rfl
  · obtain ⟨set, -, ran⟩ := exec_bind_ok.mp ran
    obtain ⟨inserted, -, ran⟩ := exec_bind_ok.mp ran
    cases ran
    rw [appended_own, appended_own] at same
    exact error_apart (by decide) same

theorem handleGeoadd_shows {longitude latitude score : Float} {member : Bytes}
    (asked : c.command = .geoAdd key longitude latitude score member false) :
    ¬ Blind fd (fun db => handleGeoadd db c) db := by
  intro blind
  have text : handleGeoadd (db.withData (.only key .blank)) c =
      replying (db.withData (.only key .blank)) wrongType := by
    simp only [handleGeoadd, asked, openSortedSet_text]
    rfl
  obtain ⟨_, _, all⟩ := id blind
  obtain ⟨db', effects, ran, -⟩ := all {} empty_sound
  have same := (blind.same empty_sound blank_sound ran text).1
  simp only [handleGeoadd, asked] at ran
  rw [if_neg Bool.false_ne_true] at ran
  split at ran
  · rename_i odd
    exact odd rfl
  · obtain ⟨set, -, ran⟩ := exec_bind_ok.mp ran
    obtain ⟨inserted, -, ran⟩ := exec_bind_ok.mp ran
    cases ran
    rw [appended_own, appended_own] at same
    exact error_apart (by decide) same

theorem handleXadd_shows {streamId : Bytes} {fieldValues : List (Bytes × Bytes)} :
    ¬ Blind fd (fun db => handleXadd db c key streamId fieldValues) db := by
  intro blind
  have text : handleXadd (db.withData (.only key .blank)) c key streamId fieldValues =
      replying (db.withData (.only key .blank))
        (encodeError (ascii "Key exists with different data type")) := by
    rw [handleXadd, openStream, only_lookup]
    rfl
  obtain ⟨_, _, all⟩ := id blind
  obtain ⟨db', effects, ran, -⟩ := all {} empty_sound
  have same := (blind.same empty_sound blank_sound ran text).1
  dsimp only at ran
  rw [handleXadd] at ran
  dsimp only at ran
  split at ran
  · rename_i odd
    exact odd rfl
  · obtain ⟨stream, -, ran⟩ := exec_bind_ok.mp ran
    split at ran
    · cases ran
      have apart (error : StreamErrorType) :
          xaddError error ≠ encodeError (ascii "Key exists with different data type") := by
        cases error <;> decide
      rw [appended_own, appended_own] at same
      exact apart _ (List.append_cancel_right same)
    · obtain ⟨served, -, ran⟩ := exec_bind_ok.mp ran
      cases ran
      rw [List.cons_append, appended_own, appended_own] at same
      exact error_apart (by decide) same

/-- KEYS * lists what there is. -/
theorem handleKeys_shows (asked : c.command = .keys (ascii "*")) :
    ¬ Blind fd (fun db => handleKeys db c) db := by
  intro blind
  have missing : handleKeys (db.withData {}) c = replying (db.withData {}) encodeEmptyArray := by
    have none_ : c.env.walk (db.withData {}).store.keys = [] :=
      (Multiset.coe_eq_zero _).mp (c.env.walk_all _)
    simp only [handleKeys, asked, if_pos]
    rw [none_]
    rfl
  have text : handleKeys (db.withData (.only [] .blank)) c =
      replying (db.withData (.only [] .blank)) (encodeBulkStringArray [[]]) := by
    have one : c.env.walk (db.withData (.only [] .blank)).store.keys = [[]] :=
      Multiset.coe_eq_singleton.mp (c.env.walk_all _)
    simp only [handleKeys, asked, if_pos]
    rw [one]
  exact absurd (blind.replies missing text) (by decide)

/-- A stream of one entry. -/
def Stream.holding (id : StreamID) : Stream :=
  ⟨some (RadixTree.insert none id.toBinary (rawValue [])), id⟩

theorem holding_logs {id : StreamID} (fits : id.Fits) (nonzero : id ≠ ⟨0, 0⟩) :
    (Stream.holding id).Logs [(id, rawValue [])] where
  fits := List.forall_mem_singleton.mpr fits
  positive := List.forall_mem_singleton.mpr nonzero
  lastFits := fits
  increasing := List.pairwise_singleton _ _
  bounded := List.forall_mem_singleton.mpr (.inr ⟨rfl, Nat.le_refl _⟩)
  fresh := fun absent => by cases absent
  stored := fun root shape => by
    obtain rfl := Option.some.inj shape
    refine ⟨by simp, nonzero, ?_⟩
    exact RadixTree.insert_entries RadixTree.emptyNode trivial id.toBinary (rawValue [])

/-- XRANGE with room shows an entry at its end. -/
theorem handleXrange_shows {start stop : Bytes} (room : Spans start stop) :
    ¬ Blind fd (fun db => handleXrange db key start stop) db := by
  intro blind
  obtain ⟨low, high, first, last, ordered, nonzero⟩ := room
  have fits := fromStringForSearch_fits last
  have logs := holding_logs fits nonzero
  let object : RedisObject := { type := .stream, streamPtr := some (.holding high) }
  have sound : (Data.only key object).Sound := only_sound (sound_of_stream rfl rfl logs)
  obtain ⟨_, _, all⟩ := id blind
  obtain ⟨db', effects, ran, -⟩ := all _ sound
  have same := (blind.same empty_sound sound rfl ran).1
  dsimp only at ran
  have found : (Stream.holding high).xrangeData start stop false =
      some [(high.toBinary, rawValue [])] := by
    have kept : Log.between [(high, rawValue [])] low high = [(high, rawValue [])] :=
      List.filter_eq_self.mpr (List.forall_mem_singleton.mpr
        (decide_eq_true ⟨ordered, .inr ⟨rfl, Nat.le_refl _⟩⟩))
    rw [xrangeData_logs logs first last (fromStringForSearch_fits first) fits,
      if_neg (List.cons_ne_nil _ _), kept]
    rfl
  rw [handleXrange, only_lookup] at ran
  dsimp only [object] at ran
  rw [found] at ran
  obtain ⟨entries, -, ran⟩ := exec_bind_ok.mp ran
  cases ran
  rw [appended_own, appended_own] at same
  exact absurd (List.cons.inj (List.cons.inj same).2).1 (by decide)

/-- Who waits for a key of XREAD waits behind an identifier. -/
theorem markClientBlocking_queue {id : Bytes} {timeout : Float}
    (marked : markClientBlocking db c key id timeout = .ok (db₁, effects)) :
    effects = [.block] ∧ ∃ blocked, blocked.streamId = id ∧
      db₁.blockedXreadKeys = db.blockedXreadKeys.insert key
        (queueOf db.blockedXreadKeys key ++ [blocked]) := by
  obtain ⟨blocked, made, marked⟩ := exec_bind_ok.mp marked
  cases marked
  refine ⟨rfl, blocked, ?_, rfl⟩
  rw [BlockedXreadClient.make] at made
  split at made
  · cases made
    rfl
  · obtain ⟨until_, -, made⟩ := exec_bind_ok.mp made
    cases made
    rfl

/-- Waiting for one key is not waiting for another, nor behind another
identifier. -/
theorem markClientBlocking_apart {other id later : Bytes} {timeout : Float}
    (one : markClientBlocking (db.withData data) c key id timeout = .ok (db₁, first))
    (two : markClientBlocking (db.withData data') c other later timeout = .ok (db₂, second))
    (different : other ≠ key ∨ later ≠ id) : db₁.withData {} ≠ db₂.withData {} := by
  intro same
  obtain ⟨-, blocked, behind, left⟩ := markClientBlocking_queue one
  obtain ⟨-, blocked', behind', left'⟩ := markClientBlocking_queue two
  have queues : db₁.blockedXreadKeys = db₂.blockedXreadKeys := by
    change (db₁.withData {}).blockedXreadKeys = (db₂.withData {}).blockedXreadKeys
    rw [same]
  have at_ : queueOf db₁.blockedXreadKeys key = queueOf db₂.blockedXreadKeys key := by rw [queues]
  rw [left, left', queueOf_insert] at at_
  by_cases here : other = key
  · subst here
    rw [queueOf_insert] at at_
    cases List.append_cancel_left at_
    exact (different.resolve_left (not_not.mpr rfl)) (behind'.symm.trans behind)
  · rw [queueOf_insert_ne _ (Ne.symm here)] at at_
    exact absurd (congrArg List.length at_) (by simp [DB.withData])

/-- A key that holds a string is passed over, or waited for behind `$`. -/
theorem collectReplies_text {timeout : Float} {asked : List (Bytes × Bytes)} {id : Bytes}
    (named : id ≠ ascii "$") {outcome : DB × List Effect}
    (ran : collectReplies (db.withData (.only key .blank)) c (some timeout) asked [] =
      .ok (.inr outcome)) :
    ∃ other later, (other ≠ key ∨ later ≠ id) ∧
      markClientBlocking (db.withData (.only key .blank)) c other later timeout = .ok outcome := by
  induction asked with
  | nil => cases ran
  | cons one rest ih =>
    obtain ⟨other, startId⟩ := one
    unfold collectReplies at ran
    by_cases here : other = key
    · subst here
      rw [only_lookup] at ran
      dsimp only at ran
      by_cases newest : startId = ascii "$"
      · rw [if_pos ⟨rfl, newest⟩] at ran
        obtain ⟨result, marked, ran⟩ := exec_bind_ok.mp ran
        cases ran
        rw [blockOnId, only_lookup] at marked
        exact ⟨other, startId, .inr (newest ▸ named.symm), marked⟩
      · rw [if_neg fun both => newest both.2] at ran
        exact ih ran
    · have missing : (db.withData (.only key .blank)).store.lookup other = none :=
        Finmap.lookup_eq_none.mpr fun inside => here ((Finmap.mem_singleton _ _ _).mp inside)
      rw [missing] at ran
      obtain ⟨result, marked, ran⟩ := exec_bind_ok.mp ran
      cases ran
      exact ⟨other, _, .inl here, marked⟩

/-- The first key of a reading that blocks, where it is missing. -/
theorem collectReplies_emptied {timeout : Float} {id : Bytes} {rest : List (Bytes × Bytes)} :
    collectReplies (db.withData {}) c (some timeout) ((key, id) :: rest) [] = (do
      pure (.inr (← markClientBlocking (db.withData {}) c key id timeout))) := by
  unfold collectReplies
  have same : (if id = ascii "$" then blockOnId (db.withData {}) key id else id) = id := by
    split <;> rfl
  rw [show (db.withData {}).store.lookup key = none from rfl]
  dsimp only
  rw [same]

theorem handleXread_shows {blockTimeout : Option Float} {keys ids : List Bytes}
    (asks : keys.length = ids.length) (some_ : keys ≠ []) :
    ¬ Blind fd (fun db => handleXread db c blockTimeout keys ids) db := by
  intro blind
  obtain ⟨_, _, all⟩ := id blind
  obtain ⟨db', effects, ran, -⟩ := all {} empty_sound
  dsimp only at ran
  rw [handleXread, if_neg (not_not.mpr asks)] at ran
  cases keys with
  | nil => exact some_ rfl
  | cons key keys =>
    cases ids with
    | nil => cases asks
    | cons id ids =>
      cases blockTimeout with
      | none => cases ran
      | some timeout =>
        rw [List.zip_cons_cons, collectReplies_emptied] at ran
        obtain ⟨result, found, ran⟩ := exec_bind_ok.mp ran
        obtain ⟨outcome, marked, found⟩ := exec_bind_ok.mp found
        cases found
        cases ran
        have waits : handleXread (db.withData {}) c (some timeout) (key :: keys) (id :: ids) =
            .ok (db', effects) := by
          rw [handleXread, if_neg (not_not.mpr asks), List.zip_cons_cons, collectReplies_emptied,
            marked]
          rfl
        by_cases newest : id = ascii "$"
        · let object : RedisObject := { type := .stream, streamPtr := some .new }
          have sound : (Data.only key object).Sound := only_sound (sound_of_stream rfl rfl new_logs)
          obtain ⟨db₂, second, ran, -⟩ := all _ sound
          have same := (blind.same empty_sound sound waits ran).2
          dsimp only at ran
          rw [handleXread, if_neg (not_not.mpr asks), List.zip_cons_cons] at ran
          obtain ⟨result, found, ran⟩ := exec_bind_ok.mp ran
          unfold collectReplies at found
          rw [only_lookup] at found
          dsimp only at found
          rw [if_pos ⟨rfl, newest⟩, blockOnId, only_lookup] at found
          obtain ⟨outcome, marked', found⟩ := exec_bind_ok.mp found
          cases found
          cases ran
          exact markClientBlocking_apart marked marked' (.inr (newest ▸ by decide)) same
        · obtain ⟨db₂, second, ran, -⟩ := all _ (@blank_sound key)
          have same := blind.same empty_sound blank_sound waits ran
          have quiet := (markClientBlocking_queue marked).1
          dsimp only at ran
          rw [handleXread, if_neg (not_not.mpr asks)] at ran
          obtain ⟨result, found, ran⟩ := exec_bind_ok.mp ran
          split at ran
          · cases ran
            obtain ⟨other, later, different, marked'⟩ := collectReplies_text newest found
            exact markClientBlocking_apart marked marked' different same.2
          · cases ran
            rw [quiet, appended_own] at same
            exact absurd same.1 (by simp [appended]; decide)
          · obtain ⟨replies, -, ran⟩ := exec_bind_ok.mp ran
            cases ran
            rw [quiet, appended_own] at same
            exact absurd same.1 (by simp [appended, encodeArrayHeader])

/-! ## Requests that reach something -/

/-- The readings for the commands of a transaction. -/
def Server.readings (server : Server) (machine : Machine) : List Env :=
  machine.queue.map fun env => { env with alive := server.alive }

/-- What the database does for a request, and what is passed on of it. -/
theorem serve_executes {bytesProcessed : Nat} {handled : Handled}
    (direct : server.handle fd client machine command = none)
    (ran : server.serve fd client machine command bytesProcessed = .ok handled) :
    ∃ executed, execute server.db (server.context fd client machine command)
        server.config.rdbFilePath (server.readings machine) = .ok executed ∧
      handled.server.db = executed.db ∧ handled.server.clients =
        applyToClients fd (executed.effects ++ server.passedOn executed.command) server.clients := by
  rcases serve_cases ran with ⟨managed, handles, -⟩ | ⟨executed, after, passed, -, run, passes, -, left⟩
  · rw [direct] at handles
    cases handles
  · obtain ⟨config, same⟩ := @handlePropagate_passedOn server executed.command bytesProcessed
    rw [same] at passes
    cases passes
    rw [left]
    exact ⟨executed, run, rfl, rfl⟩

/-- Everything but the client is as it was, whom the effects reach. -/
def Untold (server : Server) (fd : Fd) (effects : List Effect) : Prop :=
  ∀ other ≠ fd, (applyToClients fd effects server.clients).lookup other = server.clients.lookup other

theorem Untold.applied (untold : Untold server fd effects) {other : Fd} {watching : Client}
    (different : other ≠ fd) (connected : server.clients.lookup other = some watching) :
    applyEffects fd other effects watching = watching := by
  have same := untold other different
  rw [lookup_applyToClients, connected] at same
  exact Option.some.inj same

/-- Who is written to, is the client or gone. -/
theorem Untold.written (untold : Untold server fd effects) {other : Fd} (bytes : Bytes)
    (member : .write other bytes ∈ effects) (nonempty : bytes ≠ []) (alive : server.alive other = true) :
    other = fd := by
  by_contra different
  obtain ⟨watching, connected⟩ := Option.isSome_iff_exists.mp alive
  have same := congrArg Client.writeBuffer (untold.applied different connected)
  rw [applyEffects_writeBuffer] at same
  have silent := List.flatMap_eq_nil_iff.mp (List.append_right_eq_self.mp same) _ member
  exact nonempty ((if_pos rfl).symm.trans silent)

/-- Who is marked, is the client or was marked before. -/
theorem Untold.marked (untold : Untold server fd effects) (lasting : .endTransaction ∉ effects)
    {other : Fd} (member : .dirty other ∈ effects) {watching : Client}
    (connected : server.clients.lookup other = some watching) : other = fd ∨ watching.dirty = true := by
  by_cases different : other = fd
  · exact .inl different
  · right
    rw [← untold.applied different connected]
    refine (applyEffects_dirty lasting fd other watching).mpr (.inr ?_)
    exact List.mem_filterMap.mpr ⟨_, member, rfl⟩

variable {bytesProcessed : Nat} {asks : Server → Machine → Exec Handled} {handled : Handled}

/-- Over any data the same is left around the data. -/
theorem Gated.agrees (gated : Gated server fd client asks) (sound : server.db.data.Sound)
    (lasts : machine.Lasts client) (ran : asks server machine = .ok handled) (other : data.Sound) :
    ∃ after, asks (server.withData data) machine = .ok after ∧
      after.server.withData {} = handled.server.withData {} := by
  have same := gated.blind data server.db.data machine other sound lasts
  have own : asks (server.withData server.db.data) machine = .ok handled := ran
  rw [own] at same
  cases run : asks (server.withData data) machine with
  | error fault =>
    rw [run] at same
    cases same
  | ok after =>
    rw [run] at same
    exact ⟨after, rfl, Except.ok.inj same⟩

/-- In no mode, a command is called. -/
theorem context_called (multi : client.multi = false) (listening : client.pubSub = false)
    (plain : command.commandType ∉ [CommandType.aclWhoami, .getConfig, .aclSetUser, .auth])
    (db : DB) (envs : List Env) :
    execute db (server.context fd client machine command) server.config.rdbFilePath envs = (do
      let outcome ← call db (server.context fd client machine command) envs command
      pure ⟨outcome.1, server.acl, outcome.2, some command⟩) := by
  refine @execute_called db (server.context fd client machine command) server.config.rdbFilePath envs
    multi listening (fun whoami => plain ?_) fun special => plain (List.mem_cons_of_mem _ special)
  rw [show command = .aclWhoami from whoami]
  exact List.mem_cons_self

section
variable (gated : Gated server fd client fun server machine =>
  server.serve fd client machine command bytesProcessed)
include gated

theorem gated_executes (sound : server.db.data.Sound) (connected : server.clients.lookup fd = some client)
    (direct : server.handle fd client machine command = none) (lasts : machine.Lasts client) :
    ∃ reply left, ∀ data, data.Sound → ∃ executed,
      execute (server.db.withData data) (server.context fd client machine command)
        server.config.rdbFilePath (server.readings machine) = .ok executed ∧
      appended fd fd (executed.effects ++ server.passedOn executed.command) = reply ∧
      executed.db.withData {} = left := by
  obtain ⟨handled, ran, -⟩ := gated.untouched machine lasts
  obtain ⟨executed₀, -, db₀, clients₀⟩ := serve_executes direct ran
  refine ⟨appended fd fd (executed₀.effects ++ server.passedOn executed₀.command),
    executed₀.db.withData {}, fun data other => ?_⟩
  obtain ⟨after, ran', same⟩ := gated.agrees sound lasts ran other
  have direct' : (server.withData data).handle fd client machine command = none := by
    cases command <;> first | rfl | cases direct
  obtain ⟨executed, run, left, clients⟩ := serve_executes direct' ran'
  refine ⟨executed, run, ?_, ?_⟩
  · have told : after.server.clients.lookup fd = handled.server.clients.lookup fd := by
      change (after.server.withData {}).clients.lookup fd = (handled.server.withData {}).clients.lookup fd
      rw [same]
    rw [clients, clients₀, lookup_applyToClients, lookup_applyToClients,
      show (server.withData data).clients = server.clients from rfl, connected] at told
    have written := congrArg Client.writeBuffer (Option.some.inj told)
    rw [applyEffects_writeBuffer, applyEffects_writeBuffer] at written
    exact List.append_cancel_left written
  · rw [← left, ← db₀]
    exact congrArg Server.db same

theorem gated_spares (direct : server.handle fd client machine command = none)
    (lasts : machine.Lasts client) :
    ∃ executed, execute server.db (server.context fd client machine command)
        server.config.rdbFilePath (server.readings machine) = .ok executed ∧
      executed.db.data = server.db.data ∧
      Untold server fd (executed.effects ++ server.passedOn executed.command) := by
  obtain ⟨handled, ran, untouched⟩ := gated.untouched machine lasts
  obtain ⟨executed, run, left, clients⟩ := serve_executes direct ran
  refine ⟨executed, run, left ▸ untouched.data, fun other different => ?_⟩
  rw [← clients]
  exact untouched.others other different

/-- A write command has no replica to be passed on to. -/
theorem gated_alone (direct : server.handle fd client machine command = none)
    (lasts : machine.Lasts client) (multi : client.multi = false)
    (write : command.isWriteCommand = true) : server.Alone fd server.slaveConnections := by
  obtain ⟨executed, run, -, untold⟩ := gated_spares gated direct lasts
  intro slave inside alive
  have same : executed.command = some command := by
    rcases execute_command run with same | ⟨-, queued, -⟩
    · exact same
    · exact absurd (multi.symm.trans queued) Bool.false_ne_true
  refine untold.written command.frame.bytes ?_ ?_ alive
  · refine List.mem_append_right _ ?_
    rw [same]
    refine List.mem_flatMap.mpr ⟨command, ?_, List.mem_map.mpr ⟨slave, inside, rfl⟩⟩
    exact List.mem_filter.mpr ⟨List.mem_singleton.mpr rfl, write⟩
  · exact List.cons_ne_nil _ _

variable (multi : client.multi = false) (listening : client.pubSub = false)
  (plain : command.commandType ∉ [CommandType.aclWhoami, .getConfig, .aclSetUser, .auth])
include multi listening plain

theorem gated_blind (sound : server.db.data.Sound) (connected : server.clients.lookup fd = some client)
    (direct : server.handle fd client machine command = none) (lasts : machine.Lasts client) :
    Blind fd (fun db => call db (server.context fd client machine command) (server.readings machine)
      command) server.db := by
  obtain ⟨reply, left, all⟩ := gated_executes gated sound connected direct lasts
  obtain ⟨_, run₀, told₀, -⟩ := all server.db.data sound
  rw [context_called multi listening plain] at run₀
  obtain ⟨outcome₀, -, run₀⟩ := exec_bind_ok.mp run₀
  cases run₀
  refine ⟨appended fd fd outcome₀.2, left, fun data other => ?_⟩
  obtain ⟨_, run, told, stays⟩ := all data other
  rw [context_called multi listening plain] at run
  obtain ⟨outcome, ran, run⟩ := exec_bind_ok.mp run
  cases run
  refine ⟨outcome.1, outcome.2, ran, ?_, stays⟩
  rw [appended_append] at told told₀
  exact List.append_cancel_right (told.trans told₀.symm)

theorem gated_calls (direct : server.handle fd client machine command = none)
    (lasts : machine.Lasts client) :
    ∃ db' effects, call server.db (server.context fd client machine command)
        (server.readings machine) command = .ok (db', effects) ∧
      db'.data = server.db.data ∧ Untold server fd (effects ++ server.passedOn (some command)) := by
  obtain ⟨_, run, kept, untold⟩ := gated_spares gated direct lasts
  rw [context_called multi listening plain] at run
  obtain ⟨outcome, ran, run⟩ := exec_bind_ok.mp run
  cases run
  exact ⟨outcome.1, outcome.2, ran, kept, untold⟩
end

/-- The readings that a request of the client is served at. -/
def Machine.of (client : Client) (clock : Clock) (ndebug : Bool) : Machine :=
  let env := { Context.sample.env with clock := clock, ndebug := ndebug }
  ⟨env, List.replicate client.queuedCommands.length env, none⟩

theorem machine_lasts (client : Client) (clock : Clock) (ndebug : Bool) :
    (Machine.of client clock ndebug).Lasts client := by
  rw [Machine.Lasts, Machine.of, List.length_replicate]

/-! ## What the parts of a request show -/

theorem push_aside {isPrepend : Bool} {values : List Bytes} {rest : List Effect}
    (present : c.env.alive = server.alive) (debug : c.env.ndebug = false)
    (lasting : .endTransaction ∉ rest)
    (blind : Blind fd (fun db => handlePush db c isPrepend key values) server.db)
    (ran : handlePush server.db c isPrepend key values = .ok (db₁, effects))
    (untold : Untold server fd (effects ++ rest)) :
    server.PushesAside fd server.db key values := by
  cases values with
  | nil =>
    rw [handlePush_plain (.inr rfl)] at ran
    cases ran
    refine .inl ⟨rfl, fun other inside watching connected => ?_⟩
    have alive : c.env.alive other = true := by rw [present, Server.alive, connected]; rfl
    refine untold.marked ?_ (List.mem_append_left _ (List.mem_append_left _ ?_)) connected
    · simp [markWatchingClientsDirty, lasting]
    · exact List.mem_map.mpr ⟨other, List.mem_filter.mpr ⟨inside, alive⟩, rfl⟩
  | cons first values =>
    have broken := blind.runs (@blank_sound key) .assertFailed
    cases waits : queueOf server.db.blockedKeys key with
    | nil =>
      have same : queueOf (server.db.withData (.only key .blank)).blockedKeys key = [] := waits
      rw [handlePush_plain (.inl same), debug, pushValues_text (only_lookup key .blank)] at broken
      exact absurd rfl broken
    | cons blocked queue =>
      cases values with
      | cons second values =>
        have same : queueOf (server.db.withData (.only key .blank)).blockedKeys key =
          blocked :: queue := waits
        have text : ({ server.db.withData (.only key .blank) with
            blockedKeys := popFront server.db.blockedKeys key queue } : DB).store.lookup key =
            some .blank := @only_lookup server.db key .blank
        rw [handlePush_waiter same, debug] at broken
        dsimp only [DB.withData] at broken text
        rw [pushValues_text text] at broken
        exact absurd rfl broken
      | nil =>
        rw [handlePush_waiter waits] at ran
        cases ran
        refine .inr ⟨rfl, blocked, by rw [waits]; rfl, fun alive => ?_⟩
        refine untold.written (encodeBulkStringArray [key, first]) ?_ (List.cons_ne_nil _ _) alive
        rw [present, if_pos alive]
        simp

theorem publish_alone {channel message : Bytes} {rest : List Effect}
    (asked : c.command = .publish channel message) (present : c.env.alive = server.alive)
    (ran : handlePublish server.db c = .ok (db₁, effects))
    (untold : Untold server fd (effects ++ rest)) :
    server.Alone fd (queueOf server.db.pubsubClients channel) := by
  intro other inside alive
  simp only [handlePublish, asked] at ran
  cases ran
  refine untold.written (encodeBulkStringArray [ascii "message", channel, message]) ?_
    (List.cons_ne_nil _ _) alive
  refine List.mem_append_left _ (List.mem_append_left _ (List.mem_flatMap.mpr ⟨other, inside, ?_⟩))
  rw [present, if_pos alive]
  exact List.mem_cons_self

/-- A deadline moves with the clock. -/
theorem i64_moves (x : Int) : i64 (0 + x) ≠ i64 (1 + x) := by
  unfold i64
  rw [Int.bmod_def, Int.bmod_def]
  split <;> split <;> omega

/-- What SET leaves as it was. -/
theorem set_again {value : Bytes} {ex px : Option Nat} {rest : List Effect}
    (present : c.env.alive = server.alive) (lasting : .endTransaction ∉ rest)
    (ran : handleSet server.db c key value ex px = .ok (db₁, effects))
    (kept : db₁.data = server.db.data) (untold : Untold server fd (effects ++ rest)) :
    server.db.store.lookup key = some { type := .string, stringPtr := some value } ∧
      server.Marked fd server.db key ∧
      (∀ seconds, ex = some seconds → server.db.expiration.lookup key =
        some (i64 (c.env.clock.steady + i64 (i64 seconds * 10 ^ 9)))) ∧
      ∀ milliseconds, ex = none → px = some milliseconds → server.db.expiration.lookup key =
        some (afterMilliseconds c.env.clock.steady (i64 milliseconds)) := by
  unfold handleSet at ran
  cases ran
  have store := congrArg (fun data : Data => data.store.lookup key) kept
  have deadline := congrArg (fun data : Data => data.expiration.lookup key) kept
  dsimp only [DB.data] at store deadline
  rw [Finmap.lookup_insert] at store
  refine ⟨store.symm, fun other inside watching connected => ?_, ?_, ?_⟩
  · have alive : c.env.alive other = true := by rw [present, Server.alive, connected]; rfl
    refine untold.marked ?_ (List.mem_append_left _ (List.mem_append_left _ ?_)) connected
    · simp [markWatchingClientsDirty, lasting]
    · exact List.mem_map.mpr ⟨other, List.mem_filter.mpr ⟨inside, alive⟩, rfl⟩
  · rintro seconds rfl
    dsimp only at deadline
    rw [Finmap.lookup_insert] at deadline
    exact deadline.symm
  · rintro milliseconds rfl rfl
    dsimp only at deadline
    rw [Finmap.lookup_insert] at deadline
    exact deadline.symm

theorem removeSubscriber_steady {env : Env} {subscribers : List Fd} {remaining : Option (List Fd)}
    (ran : removeSubscriber env fd subscribers = .ok remaining) :
    ∀ other ∈ subscribers.takeWhile (· ≠ fd), env.alive other = true := by
  induction subscribers generalizing remaining with
  | nil => simp
  | cons first rest ih =>
    rw [removeSubscriber] at ran
    split at ran
    · cases ran
    · rename_i alive
      split at ran
      · rename_i own
        simp [own]
      · rename_i other
        obtain ⟨later, found, -⟩ := exec_bind_ok.mp ran
        rw [List.takeWhile_cons, if_pos (by simpa using other)]
        exact List.forall_mem_cons.mpr ⟨by simpa using alive, ih found⟩

/-- Whoever an acknowledgement satisfies is written to. -/
theorem acknowledgement_reaches {clients : Map Fd Client} {slaves : List Fd}
    {waiting : List BlockedWaitClient} {blocked : BlockedWaitClient} (member : blocked ∈ waiting)
    (alive : (clients.lookup blocked.clientFd).isSome = true)
    (enough : blocked.numReplicasNeeded ≤ ackedReplicas clients slaves blocked.masterOffset) :
    .write blocked.clientFd (encodeInteger (ackedReplicas clients slaves blocked.masterOffset)) ∈
      (checkBlockedWaitClients clients slaves waiting).1 := by
  induction waiting with
  | nil => cases member
  | cons first rest ih =>
    rw [checkBlockedWaitClients]
    dsimp only
    rcases List.mem_cons.mp member with rfl | later
    · rw [if_neg (by simpa [Option.isSome_iff_ne_none] using alive), if_pos enough]
      exact List.mem_cons_self
    · have inside := ih later
      split
      · exact inside
      · split
        · exact List.mem_cons_of_mem _ (List.mem_cons_of_mem _ inside)
        · exact inside

/-! ## Requests that are not harmless -/

section
variable (gated : Gated server fd client fun server machine =>
  server.serve fd client machine command bytesProcessed)
include gated

/-- What the replication manager answers. -/
theorem gated_managed {managed : Handled} (lasts : machine.Lasts client)
    (handles : server.handle fd client machine command = some managed)
    (kept : ∀ other ≠ fd, managed.server.clients.lookup other = server.clients.lookup other) :
    Untold server fd managed.effects ∧
      managed.server.slaveConnections = server.slaveConnections := by
  obtain ⟨handled, ran, untouched⟩ := gated.untouched machine lasts
  rcases serve_cases ran with ⟨managed', same, -, left⟩ | ⟨_, _, _, direct, -⟩
  · rw [handles] at same
    cases same
    refine ⟨fun other different => ?_, ?_⟩
    · have alike := untouched.others other different
      rw [left] at alike
      dsimp only at alike
      rw [lookup_applyToClients, kept other different] at alike
      rw [lookup_applyToClients]
      exact alike
    · have alike := untouched.replicas
      rwa [left] at alike
  · rw [handles] at direct
    cases direct

theorem gated_ack {listeningPort capability : Bytes} {ackOffset : Int}
    (asked : command = .replConf .ack listeningPort capability ackOffset) :
    server.Alone fd (server.acknowledges fd ackOffset) := by
  subst asked
  obtain ⟨untold, -⟩ := gated_managed gated (machine_lasts client ⟨0, 0⟩ false) rfl fun other different =>
    (lookup_modifyClient _ _ _ _).trans (by rw [if_neg (Ne.symm different), Option.map_id]; rfl)
  intro other inside alive
  obtain ⟨blocked, waiting, rfl⟩ := List.mem_map.mp inside
  obtain ⟨waiting, satisfied⟩ := List.mem_filter.mp waiting
  have enough := of_decide_eq_true (Bool.and_eq_true_iff.mp satisfied).2
  refine untold.written _ (acknowledgement_reaches waiting ?_ enough) (List.cons_ne_nil _ _) alive
  rw [← alive]
  exact alive_modifyClient _ _ _ _

theorem gated_psync {replId : Bytes} {offset : Int} (asked : command = .psync replId offset) :
    client.isSlave = true := by
  subst asked
  cases registered : client.isSlave with
  | true => rfl
  | false =>
    have handles : server.handle fd client (Machine.of client ⟨0, 0⟩ false) (.psync replId offset) =
      some _ := congrArg some (if_neg (by rw [registered]; exact Bool.false_ne_true))
    obtain ⟨-, same⟩ := gated_managed gated (machine_lasts client ⟨0, 0⟩ false) handles
      fun other different => (lookup_modifyClient _ _ _ _).trans
        (by rw [if_neg (Ne.symm different), Option.map_id]; rfl)
    exact absurd (congrArg List.length same) (by simp)

theorem gated_wait {numReplica timeout : Nat} (asked : command = .wait numReplica timeout) :
    server.Harmless fd client (.wait numReplica timeout) := by
  subst asked
  by_cases zero : server.config.offset = 0
  · exact .inl zero
  by_cases enough :
      numReplica ≤ ackedReplicas server.clients server.slaveConnections (i64 server.config.offset)
  · exact .inr (.inl enough)
  have handles : server.handle fd client (Machine.of client ⟨0, 0⟩ false) (.wait numReplica timeout) =
    some _ := congrArg some ((if_neg zero).trans (if_neg enough))
  obtain ⟨untold, -⟩ := gated_managed gated (machine_lasts client ⟨0, 0⟩ false) handles fun _ _ => rfl
  refine .inr (.inr fun slave inside alive => ?_)
  refine untold.written getackCmd ?_ (List.cons_ne_nil _ _) alive
  exact List.mem_append_left _ (List.mem_map.mpr ⟨slave, inside, rfl⟩)

theorem gated_steady {channel : Bytes} (multi : client.multi = false) (listening : client.pubSub = true)
    (asked : command = .unSubscribe channel) : server.Steady fd channel := by
  subst asked
  obtain ⟨executed, run, -⟩ := gated_spares gated rfl (machine_lasts client ⟨0, 0⟩ false)
  rw [execute_listening (fun whoami => by cases whoami) multi listening] at run
  obtain ⟨outcome, ran, -⟩ := exec_bind_ok.mp run
  obtain ⟨remaining, found, -⟩ := exec_bind_ok.mp ran
  exact removeSubscriber_steady found

theorem gated_quiet (multi : client.multi = false) (listening : client.pubSub = false)
    (sound : server.db.data.Sound) (connected : server.clients.lookup fd = some client) :
    command.Quiet server fd server.db := by
  by_cases plain : command.commandType ∈ [CommandType.aclWhoami, .getConfig, .aclSetUser, .auth]
  · cases command <;> first | exact trivial | simp [Command.commandType] at plain
  have blind (ndebug : Bool)
      (direct : server.handle fd client (.of client ⟨0, 0⟩ ndebug) command = none) :=
    gated_blind gated multi listening plain sound connected direct (machine_lasts client ⟨0, 0⟩ ndebug)
  have calls (clock : Clock)
      (direct : server.handle fd client (.of client clock false) command = none) :=
    gated_calls gated multi listening plain direct (machine_lasts client clock false)
  have lasting (passed : Option Command) : .endTransaction ∉ server.passedOn passed := by
    simp [Server.passedOn]
  let context (command : Command) := server.context fd client (.of client ⟨0, 0⟩ false) command
  cases command
  case get key => exact getOrType_shows false (blind false rfl)
  case type key => exact getOrType_shows true (blind false rfl)
  case incr key => exact handleIncr_shows (blind false rfl)
  case llen key => exact handleLlen_shows (blind false rfl)
  case lrange key start stop => exact handleLrange_shows rfl (blind false rfl)
  case blpop keys timeout => exact handleBlpop_shows (blind false rfl)
  case xadd key streamId fieldValues => exact handleXadd_shows (blind false rfl)
  case zadd key scoreMembers =>
    exact handleZadd_shows (c := context (.zadd key scoreMembers)) rfl (blind false rfl)
  case zrem key members =>
    exact handleZrem_shows (c := context (.zrem key members)) rfl (blind false rfl)
  case zrank key member =>
    exact withSortedSet_shows (fun _ => rfl) (by decide) (blind false rfl)
  case zrange key start stop =>
    exact withSortedSet_shows (fun _ => rfl) (by decide) (blind false rfl)
  case zcard key => exact withSortedSet_shows (fun _ => rfl) (by decide) (blind false rfl)
  case zscore key member =>
    exact withSortedSet_shows (fun _ => rfl) (by decide) (blind false rfl)
  case geoDist key member1 member2 =>
    exact withSortedSet_shows (fun _ => rfl) (by decide) (blind false rfl)
  case geoSearch key longitude latitude radius =>
    exact withSortedSet_shows (fun _ => rfl) (by decide) (blind false rfl)
  case geoPos key members =>
    refine withSortedSet_shows (fun _ => rfl) ?_ (blind false rfl)
    exact fun same => absurd (List.cons.inj same).1 (by decide)
  case keys pattern =>
    intro all
    subst all
    exact handleKeys_shows (c := context (.keys (ascii "*"))) rfl (blind false rfl)
  case lpop key count =>
    by_contra some_
    exact handleLpop_shows rfl some_ (blind true rfl)
  case xrange key start stop => exact fun room => handleXrange_shows room (blind false rfl)
  case xread blockTimeout keys ids =>
    intro asks
    by_contra some_
    exact handleXread_shows asks some_ (blind false rfl)
  case geoAdd key longitude latitude score member invalidLatLon =>
    cases invalidLatLon with
    | true => rfl
    | false =>
      exact (handleGeoadd_shows (c := context (.geoAdd key longitude latitude score member false)) rfl
        (blind false rfl)).elim
  case rpush key values =>
    obtain ⟨db', effects, ran, -, untold⟩ := calls ⟨0, 0⟩ rfl
    exact push_aside rfl rfl (lasting _) (blind false rfl) ran untold
  case lpush key values =>
    obtain ⟨db', effects, ran, -, untold⟩ := calls ⟨0, 0⟩ rfl
    exact push_aside rfl rfl (lasting _) (blind false rfl) ran untold
  case publish channel message =>
    obtain ⟨db', effects, ran, -, untold⟩ := calls ⟨0, 0⟩ rfl
    exact publish_alone (c := context (.publish channel message)) rfl rfl ran untold
  case set key value ex px =>
    obtain ⟨db₁, effects₁, ran₁, kept₁, untold₁⟩ := calls ⟨0, 0⟩ rfl
    obtain ⟨db₂, effects₂, ran₂, kept₂, untold₂⟩ := calls ⟨1, 0⟩ rfl
    obtain ⟨held, marked, seconds₁, milliseconds₁⟩ := set_again rfl (lasting _) ran₁ kept₁ untold₁
    obtain ⟨-, -, seconds₂, milliseconds₂⟩ := set_again rfl (lasting _) ran₂ kept₂ untold₂
    refine ⟨?_, held, marked⟩
    cases ex with
    | some seconds =>
      have same := (seconds₁ seconds rfl).symm.trans (seconds₂ seconds rfl)
      exact absurd (Option.some.inj same) (i64_moves _)
    | none =>
      cases px with
      | some milliseconds =>
        have same := (milliseconds₁ milliseconds rfl rfl).symm.trans (milliseconds₂ milliseconds rfl rfl)
        exact absurd (Option.some.inj same) (i64_moves _)
      | none => exact ⟨rfl, rfl⟩
  all_goals trivial

/-- Apart from EXEC, what is gated is harmless. -/
theorem serve_harmless (sound : server.db.data.Sound)
    (connected : server.clients.lookup fd = some client)
    (queued : client.multi = true → command ≠ .exec) : server.Harmless fd client command := by
  by_cases known : command = .aclWhoami
  · rw [known]
    trivial
  cases direct : server.handle fd client (.of client ⟨0, 0⟩ false) command with
  | some managed =>
    cases command
    case info => trivial
    case replConf subcommand listeningPort capability ackOffset =>
      cases subcommand with
      | ack => exact gated_ack gated rfl
      | _ => trivial
    case psync replId offset => exact gated_psync gated rfl
    case wait numReplica timeout => exact gated_wait gated rfl
    all_goals cases direct
  | none =>
    refine (harmless_direct direct known).mpr ?_
    unfold Server.RunsQuietly
    cases multi : client.multi with
    | true =>
      rw [if_pos rfl]
      exact fun exec => absurd exec (queued multi)
    | false =>
      rw [if_neg Bool.false_ne_true]
      refine ⟨gated_alone gated direct (machine_lasts client ⟨0, 0⟩ false) multi, ?_⟩
      cases listening : client.pubSub with
      | true =>
        rw [if_pos rfl]
        exact fun channel asked => gated_steady gated multi listening asked
      | false =>
        rw [if_neg Bool.false_ne_true]
        exact gated_quiet gated multi listening sound connected
end

/-! ## Every request -/

/-- A server's data are sound. -/
theorem data_sound (reached : server.Reachable) : server.db.data.Sound := by
  have database := server_db_reachable reached
  have timed := reachable_timed database
  exact ⟨⟨(reachable_sound database).objects, fun _ _ absent => by cases absent⟩,
    fun key deadline due => timed key deadline due⟩

theorem gated_receive {bytes : Bytes} {parsed : Parsed}
    (connected : server.clients.lookup fd = some client)
    (read : parseCommand (client.readBuffer ++ bytes) = .ok parsed) :
    Gated server fd client (fun server machine => server.step (.receive fd bytes machine)) ↔
      Gated (server.taking fd client parsed) fd { client with readBuffer := parsed.readBuffer }
        fun server machine => server.serve fd { client with readBuffer := parsed.readBuffer } machine
          parsed.command parsed.bytesProcessed := by
  have others (other : Fd) (different : other ≠ fd) :
      (server.taking fd client parsed).clients.lookup other = server.clients.lookup other :=
    Finmap.lookup_insert_of_ne _ different
  have elsewhere (data : Data) (machine : Machine) :
      (server.withData data).step (.receive fd bytes machine) =
        ((server.taking fd client parsed).withData data).serve fd
          { client with readBuffer := parsed.readBuffer } machine parsed.command
            parsed.bytesProcessed :=
    @step_taking (server.withData data) fd machine bytes client parsed connected read
  constructor
  · rintro ⟨untouched, blind⟩
    refine ⟨fun machine lasts => ?_, fun data data' machine one two lasts => ?_⟩
    · obtain ⟨handled, ran, ⟨same, alike, replicas⟩⟩ := untouched machine lasts
      rw [step_taking connected read] at ran
      exact ⟨handled, ran, same, fun other different =>
        (alike other different).trans (others other different).symm, replicas⟩
    · have agree := blind data data' machine one two lasts
      rwa [elsewhere, elsewhere] at agree
  · rintro ⟨untouched, blind⟩
    refine ⟨fun machine lasts => ?_, fun data data' machine one two lasts => ?_⟩
    · obtain ⟨handled, ran, ⟨same, alike, replicas⟩⟩ := untouched machine lasts
      rw [step_taking connected read]
      exact ⟨handled, ran, same, fun other different =>
        (alike other different).trans (others other different), replicas⟩
    · rw [elsewhere, elsewhere]
      exact blind data data' machine one two lasts

theorem receive_gated {bytes : Bytes} {parsed : Parsed} (reached : server.Reachable)
    (connected : server.clients.lookup fd = some client) (guest : client.isAuthenticated = false)
    (read : parseCommand (client.readBuffer ++ bytes) = .ok parsed)
    (harmless : (server.taking fd client parsed).Harmless fd
      { client with readBuffer := parsed.readBuffer } parsed.command) :
    Gated server fd client fun server machine => server.step (.receive fd bytes machine) := by
  have sound : server.db.data.Sound := data_sound reached
  refine (gated_receive connected read).mpr ?_
  exact serve_gated parsed.bytesProcessed sound (Finmap.lookup_insert _) guest harmless

theorem receive_harmless {bytes : Bytes} {parsed : Parsed} (reached : server.Reachable)
    (connected : server.clients.lookup fd = some client)
    (read : parseCommand (client.readBuffer ++ bytes) = .ok parsed)
    (queued : client.multi = true → parsed.command ≠ .exec)
    (gated : Gated server fd client fun server machine => server.step (.receive fd bytes machine)) :
    (server.taking fd client parsed).Harmless fd { client with readBuffer := parsed.readBuffer }
      parsed.command := by
  have sound : server.db.data.Sound := data_sound reached
  have served := (gated_receive connected read).mp gated
  exact serve_harmless served sound (Finmap.lookup_insert _) queued

/-- In every reachable state, each request of a client that has not
authenticated leaves data, other clients and replicas alone and shows no data
if it is harmless, and only then, save EXEC of an open transaction. -/
theorem gated_iff {bytes : Bytes} {parsed : Parsed} (reached : server.Reachable)
    (connected : server.clients.lookup fd = some client) (guest : client.isAuthenticated = false)
    (read : parseCommand (client.readBuffer ++ bytes) = .ok parsed) :
    ((client.multi = true → parsed.command ≠ .exec) →
      ((Gated server fd client fun server machine => server.step (.receive fd bytes machine)) ↔
        (server.taking fd client parsed).Harmless fd
          { client with readBuffer := parsed.readBuffer } parsed.command)) ∧
    ((server.taking fd client parsed).Harmless fd { client with readBuffer := parsed.readBuffer }
        parsed.command →
      Gated server fd client fun server machine => server.step (.receive fd bytes machine)) := by
  have enough := receive_gated reached connected guest read
  exact ⟨fun queued => ⟨receive_harmless reached connected read queued, enough⟩, enough⟩

/-- The default user is given a password by the first client. Then a replica
and a guest connect. -/
def guestEvents : List Event := List.flatten [
  [.connect 1],
  requests [(1, ["ACL", "SETUSER", "default", ">x"])],
  [.connect 2, .connect 3],
  requests [(3, ["PSYNC", "?", "-1"]), (1, ["SET", "j", "v"])]]

def guestServer : Server := Server.behind {} (turnsOf guestEvents)

def guestClient : Client := (guestServer.clients.lookup 2).getD {}

theorem guestServer_reachable : guestServer.Reachable := by
  have ran : Server.run {} guestEvents = .ok (turnsOf guestEvents) := by
    unfold turnsOf
    apply exec_getD
    decide +kernel
  obtain ⟨last, leads⟩ := run_leads ran
  have reached : last.Reachable :=
    leads.keeps (fun _ _ _ reached stepped => .step reached stepped) (.start (.master .empty {}))
  rwa [leads.last_eq] at reached

theorem guestClient_connected : guestServer.clients.lookup 2 = some guestClient := by
  have connected : (guestServer.clients.lookup 2).isSome = true := by decide +kernel
  obtain ⟨client, same⟩ := Option.isSome_iff_exists.mp connected
  rw [guestClient, same]
  rfl

theorem guestClient_guest : guestClient.isAuthenticated = false := by decide +kernel

/-- A request of the guest. -/
def requestBytes (words : List String) : Bytes := encodeBulkStringArray (words.map ascii)

theorem guestClient_unread (bytes : Bytes) : guestClient.readBuffer ++ bytes = bytes := by
  have unread : guestClient.readBuffer = [] := by decide +kernel
  rw [unread, List.nil_append]

theorem guest_sets : parseCommand (guestClient.readBuffer ++ requestBytes ["SET", "k", "v"]) =
    .ok ⟨.set (ascii "k") (ascii "v") none none, 27, []⟩ := by
  rw [guestClient_unread]
  rfl

/-- A guest pings, and cannot set a key. -/
theorem gated_iff_guest :
    (Gated guestServer 2 guestClient fun server machine =>
      server.step (.receive 2 (requestBytes ["PING"]) machine)) ∧
    ¬ Gated guestServer 2 guestClient fun server machine =>
      server.step (.receive 2 (requestBytes ["SET", "k", "v"]) machine) := by
  have single : guestClient.multi = false := by decide +kernel
  have listens : guestClient.pubSub = false := by decide +kernel
  constructor
  · have read : parseCommand (guestClient.readBuffer ++ requestBytes ["PING"]) = .ok ⟨.ping, 14, []⟩ := by
      rw [guestClient_unread]
      rfl
    refine (gated_iff guestServer_reachable guestClient_connected guestClient_guest read).2 ?_
    simp [Server.Harmless, Server.RunsQuietly, single, listens, Command.Quiet, Command.isWriteCommand]
  · have missing : guestServer.db.store.lookup (ascii "k") = none := by decide +kernel
    intro gated
    have harmless := ((gated_iff guestServer_reachable guestClient_connected guestClient_guest
      guest_sets).1 (fun multi => by simp [single] at multi)).mp gated
    have stored : guestServer.db.store.lookup (ascii "k") =
        some { type := .string, stringPtr := some (ascii "v") } := by
      simp only [Server.Harmless, Server.RunsQuietly, single, listens, Bool.false_eq_true,
        if_false] at harmless
      exact harmless.2.2.1
    rw [missing] at stored
    cases stored

/-- A guest sets a key. -/
theorem set_not_gated : ¬ ∀ server fd client bytes parsed, Server.Reachable server →
    server.clients.lookup fd = some client → client.isAuthenticated = false →
    parseCommand (client.readBuffer ++ bytes) = .ok parsed →
    (∀ username password, parsed.command ≠ .auth username password) →
    Gated server fd client fun server machine => server.step (.receive fd bytes machine) := by
  intro all
  have gated := all _ _ _ _ _ guestServer_reachable guestClient_connected guestClient_guest guest_sets
    (fun _ _ same => by cases same)
  have empty : guestClient.queuedCommands.length = 0 := by decide +kernel
  have lasts : Machine.sample.Lasts guestClient := empty.le
  obtain ⟨handled, ran, untouched⟩ := gated.untouched .sample lasts
  have before : guestServer.db.data.store.lookup (ascii "k") = none := by decide +kernel
  have after : (guestServer.step (.receive 2 (requestBytes ["SET", "k", "v"]) .sample)).toOption.any
      (fun handled => (handled.server.db.data.store.lookup (ascii "k")).isSome) = true := by
    decide +kernel
  rw [ran] at after
  simp [Except.toOption, untouched.data, before] at after

end CarrotDb
