import CarrotDb.ListRanges
import CarrotDb.PushHandover

/-! The length that RPUSH and LPUSH reply. They report the sixteen bits of the
header, which are full for good once the list has had 65535 elements, while
LLEN counts. -/
namespace CarrotDb
open Resp Listpack Decimal

variable {db : DB} {c : Context} {key : Bytes} {isPrepend : Bool} {xs values : List Bytes}
  {count : Nat}

/-- A push that replies how many elements the list then has, as does LLEN when
it comes next. -/
def PushCounts (db : DB) (c : Context) (isPrepend : Bool) (key : Bytes) (xs values : List Bytes) :
    Prop :=
  let length := (pushAll isPrepend xs values).length
  ∃ db' effects, handlePush db c isPrepend key values = .ok (db', effects) ∧
    db'.ListAt key (pushAll isPrepend xs values) ∧ repliedBytes effects = encodeInteger length ∧
    ∀ next : Context, next.env.ndebug = c.env.ndebug →
      ∃ db'', handleLlen db' next key = .ok (db'', [.reply (encodeInteger length)])

/-- The count field after some more elements. -/
theorem countedUp_iterate (count k : Nat) (small : count ≤ lpHdrNumeleUnknown) :
    countedUp^[k] count = min (count + k) lpHdrNumeleUnknown := by
  induction k generalizing count with
  | zero => simp [small]
  | succ k ih =>
    have next : countedUp count = min (count + 1) lpHdrNumeleUnknown := by
      unfold countedUp
      split <;> omega
    rw [Function.iterate_succ_apply, next, ih _ (Nat.min_le_right _ _)]
    omega

/-- LLEN answers unless it has to count past an element it cannot check. -/
theorem handleLlen_listAt (held : db.ListAt key xs) :
    (∃ db', handleLlen db c key = .ok (db', [.reply (encodeInteger xs.length)])) ↔
      (db.headerCount key = .ok lpHdrNumeleUnknown → ∀ x ∈ xs, Checked c.env.ndebug x) := by
  rcases held with ⟨missing, rfl⟩ | ⟨object, lp, lookup, tag, pointer, formed⟩
  · constructor
    · exact fun _ _ _ absent => nomatch absent
    · intro _
      refine ⟨db, ?_⟩
      rw [handleLlen, missing]
      rfl
  · have header : db.headerCount key = lpGetTotalNumElements lp := by
      rw [DB.headerCount, lookup]
      dsimp only
      rw [pointer]
      rfl
    rw [header, handleLlen, lookup]
    dsimp only
    rw [tag, pointer]
    dsimp only
    constructor
    · rintro ⟨db', ran⟩ full
      obtain ⟨result, counted, -⟩ := exec_bind_ok.mp ran
      exact lpLength_checks formed full counted
    · intro checked
      have counts : ∃ lp', lpLength c.env.ndebug lp = .ok (xs.length, lp') := by
        obtain ⟨count, counted, -, exact_⟩ := layout_count formed
        by_cases known : count = lpHdrNumeleUnknown
        · subst known
          obtain ⟨lp', ran, -⟩ := lpLength_checked formed (checked counted)
          exact ⟨lp', ran⟩
        · rw [exact_.resolve_right known] at counted known
          exact ⟨lp, by rw [lpLength, counted, exec_ok_bind, if_pos known]; rfl⟩
      obtain ⟨lp', counted⟩ := counts
      rw [counted]
      exact ⟨_, rfl⟩

/-! ## The push -/

/-- Pushes that go through reply the header's count, which stays full. -/
theorem handlePush_counted (held : db.ListAt key xs) (idle : queueOf db.blockedKeys key = [])
    (header : db.headerCount key = .ok count) (nonempty : values ≠ [])
    (pushes : Pushes c.env.ndebug isPrepend xs values) :
    ∃ db' effects, handlePush db c isPrepend key values = .ok (db', effects) ∧
      db'.ListAt key (pushAll isPrepend xs values) ∧
      repliedBytes effects = encodeInteger (countedUp^[values.length] count : Nat) ∧
      db'.headerCount key = .ok (countedUp^[values.length] count) := by
  have whole := pushes_stored pushes
  rw [← whole] at pushes
  obtain ⟨db', ran, held', header'⟩ := @pushValues_counted db c.env.ndebug isPrepend key xs count
    values 0 held header pushes
  rw [if_neg nonempty] at ran
  rw [whole] at held'
  refine ⟨db', markWatchingClientsDirty db' c.env key ++
    [.reply (encodeInteger (countedUp^[values.length] count : Nat))], ?_, held', ?_, header'⟩
  · rw [handlePush_plain (.inl idle), ran]
    rfl
  · rw [repliedBytes_append, repliedBytes_dirty, List.nil_append]
    exact List.append_nil _

/-- A push replies the length of the list, just when all its values go through
and leave fewer than 65535 elements, all counted before, or exactly 65535,
each of which LLEN can check. -/
theorem push_counts_iff (held : db.ListAt key xs) (idle : queueOf db.blockedKeys key = [])
    (nonempty : values ≠ []) :
    PushCounts db c isPrepend key xs values ↔
      Pushes c.env.ndebug isPrepend xs values ∧
        (xs.length + values.length < lpHdrNumeleUnknown ∧ db.headerCount key = .ok xs.length ∨
          xs.length + values.length = lpHdrNumeleUnknown ∧
            ∀ x ∈ xs ++ values, Checked c.env.ndebug x) := by
  obtain ⟨count, header, small, exact_⟩ := headerCount_listAt held
  have length := pushAll_length isPrepend xs values
  have positive := List.length_pos_iff.mpr nonempty
  have same {x : Bytes} : x ∈ pushAll isPrepend xs values ↔ x ∈ xs ++ values :=
    (pushAll_perm isPrepend xs values).mem_iff
  unfold PushCounts
  dsimp only
  constructor
  · rintro ⟨db', effects, ran, held', replied, llen⟩
    have pushes := pushes_of_handlePush held idle ran held'
    refine ⟨pushes, ?_⟩
    obtain ⟨db₁, effects₁, ran₁, -, replied₁, header₁⟩ :=
      handlePush_counted held idle header nonempty pushes
    rw [ran] at ran₁
    cases ran₁
    rw [replied] at replied₁
    have agrees := encodeInteger_injective replied₁
    rw [countedUp_iterate _ _ small] at agrees header₁
    by_cases below : xs.length + values.length < lpHdrNumeleUnknown
    · refine .inl ⟨below, ?_⟩
      rw [header]
      congr 1
      omega
    · have full : min (count + values.length) lpHdrNumeleUnknown = lpHdrNumeleUnknown := by omega
      refine .inr ⟨by omega, fun x member => ?_⟩
      rw [full] at header₁
      exact (handleLlen_listAt held').mp (llen c rfl) header₁ x (same.mpr member)
  · rintro ⟨pushes, condition⟩
    obtain ⟨db', effects, ran, held', replied, header'⟩ :=
      handlePush_counted held idle header nonempty pushes
    rw [countedUp_iterate _ _ small] at replied header'
    have counted : min (count + values.length) lpHdrNumeleUnknown =
        (pushAll isPrepend xs values).length := by
      rcases condition with ⟨below, known⟩ | ⟨full, -⟩
      · rw [header] at known
        cases known
        omega
      · omega
    rw [counted] at replied header'
    refine ⟨db', effects, ran, held', replied, fun next build => ?_⟩
    apply (handleLlen_listAt held').mpr
    intro unknown x member
    rcases condition with ⟨below, -⟩ | ⟨-, checked⟩
    · rw [header'] at unknown
      have full := Except.ok.inj unknown
      omega
    · rw [build]
      exact checked x (same.mp member)

/-- Two values in front of a list of three elements make it five. -/
theorem push_counts_iff_five :
    PushCounts oneList Context.sample true (ascii "k") [ascii "ab", ascii "7", ascii "cd"]
      [ascii "v", ascii "w"] := by
  refine (push_counts_iff oneList_listAt rfl (List.cons_ne_nil _ _)).mpr ⟨?_, .inl ⟨by decide, rfl⟩⟩
  have narrow {x : Bytes} (text : lpStringToInt64 x = none) : Checked Context.sample.env.ndebug x :=
    .inr fun ⟨v, number, _⟩ => by cases text.symm.trans number
  refine ⟨fun _ x first => ?_, by decide, fun _ x first => ?_, by decide, trivial⟩
  · cases first
    exact narrow (by decide)
  · cases first
    exact narrow (by decide)

/-- Appending looks at no element, so it needs only room. -/
theorem pushes_append {ndebug : Bool} (fits : used (xs ++ values) ≤ 2 ^ 32 - 1) :
    Pushes ndebug false xs values := by
  induction values generalizing xs with
  | nil => trivial
  | cons value rest ih =>
    rw [← List.singleton_append, ← List.append_assoc] at fits
    have room : used (xs ++ [value]) ≤ used (xs ++ [value] ++ rest) := by
      rw [used, used, body_append (xs ++ [value]), List.length_append]
      omega
    exact ⟨fun wrong => absurd wrong Bool.false_ne_true, le_trans room fits, ih fits⟩

theorem used_replicate (n : Nat) (x : Bytes) :
    used (List.replicate n x) = 7 + n * (entry x).length := by
  rw [used, body, List.flatMap_replicate, List.length_flatten, List.map_replicate, List.sum_replicate,
    smul_eq_mul]

/-- The first push of 65536 values replies 65535. -/
theorem push_miscounts : ¬ ∀ db c isPrepend key xs values, DB.Reachable db → db.ListAt key xs →
    queueOf db.blockedKeys key = [] → values ≠ [] → PushCounts db c isPrepend key xs values := by
  intro all
  generalize many : List.replicate 65536 (ascii "v") = values
  have length : values.length = 65536 := by rw [← many, List.length_replicate]
  have nonempty : values ≠ [] := List.length_pos_iff.mp (by omega)
  have held : DB.ListAt {} (ascii "k") [] := .inl ⟨rfl, rfl⟩
  have pushes : Pushes Context.sample.env.ndebug false [] values := by
    apply pushes_append
    rw [List.nil_append, ← many, used_replicate]
    decide
  obtain ⟨db', effects, ran, -, replied, -⟩ :=
    @handlePush_counted {} Context.sample (ascii "k") false [] values 0 held rfl rfl nonempty pushes
  obtain ⟨db₁, effects₁, ran₁, -, replied₁, -⟩ :=
    all {} Context.sample false (ascii "k") [] values .empty held rfl nonempty
  rw [ran] at ran₁
  cases ran₁
  rw [replied] at replied₁
  have agrees := encodeInteger_injective replied₁
  rw [countedUp_iterate _ _ (by decide), pushAll_length, length] at agrees
  exact absurd agrees (by decide)

end CarrotDb
