import CarrotDb.DbDefined

/-! INCR against the text it counts. The text is read as a C string, as an
optional sign and digits with a value of 64 bits; the number one further is
written back as its numeral. -/
namespace CarrotDb
open Decimal Resp

/-- The text is a decimal representation of an integer of 64 bits: digits,
leading zeros among them or not, behind a minus sign or none. -/
def DecimalOf (text : Bytes) (value : Int) : Prop :=
  ∃ digits, Numeral digits ∧ (text = digits ∧ value = ofDecimal digits ∨
    text = 45 :: digits ∧ value = -(ofDecimal digits : Int)) ∧ -2 ^ 63 ≤ value ∧ value < 2 ^ 63

/-- The digit loop reads exactly the runs of digits that fit 64 bits. -/
theorem convertDigits_iff {rest : Bytes} {number total : Nat} (small : number < 2 ^ 64) :
    convertDigits rest number = some total ↔ (∀ byte ∈ rest, isDigit byte = true) ∧
      number * 10 ^ rest.length + ofDecimal rest = total ∧ total < 2 ^ 64 := by
  induction rest generalizing number with
  | nil =>
    simp only [convertDigits, Option.some.injEq, List.not_mem_nil, false_imp_iff, implies_true,
      List.length_nil, pow_zero, Nat.mul_one, ofDecimal_nil, Nat.add_zero, true_and]
    exact ⟨fun same => ⟨same, same ▸ small⟩, fun both => both.1⟩
  | cons byte rest ih =>
    rw [convertDigits, List.forall_mem_cons]
    by_cases digit : isDigit byte = true
    · have value := digitValue_lt digit
      have power : 0 < 10 ^ rest.length := by positivity
      have assembled : number * 10 ^ (byte :: rest).length + ofDecimal (byte :: rest) =
          (number * 10 + digitValue byte) * 10 ^ rest.length + ofDecimal rest := by
        rw [ofDecimal_cons, List.length_cons]
        ring
      have grows : number * 10 + digitValue byte ≤
          (number * 10 + digitValue byte) * 10 ^ rest.length := Nat.le_mul_of_pos_right _ power
      rw [if_pos digit, assembled]
      by_cases fits : number * 10 + digitValue byte < 2 ^ 64
      · rw [if_neg (by omega), if_neg (by omega), ih fits]
        simp [digit]
      · have refused : (if number > (2 ^ 64 - 1) / 10 then none
            else if number * 10 > 2 ^ 64 - 1 - digitValue byte then none
            else convertDigits rest (number * 10 + digitValue byte)) = none := by
          by_cases large : number > (2 ^ 64 - 1) / 10
          · exact if_pos large
          · rw [if_neg large]
            exact if_pos (by omega)
        rw [refused]
        constructor
        · intro absent
          cases absent
        · rintro ⟨-, same, below⟩
          omega
    · rw [if_neg digit]
      simp [digit]

/-- The digits behind the sign: a first one, and the loop over the others. -/
def readNumeral : Bytes → Option Nat
  | [] => none
  | byte :: rest => if isDigit byte then convertDigits rest (digitValue byte) else none

theorem readNumeral_iff {digits : Bytes} {total : Nat} :
    readNumeral digits = some total ↔ Numeral digits ∧ ofDecimal digits = total := by
  cases digits with
  | nil => simp [readNumeral, Numeral]
  | cons byte rest =>
    rw [readNumeral, Numeral, List.forall_mem_cons]
    by_cases digit : isDigit byte = true
    · have value := digitValue_lt digit
      rw [if_pos digit, convertDigits_iff (by omega), ← ofDecimal_cons]
      constructor
      · rintro ⟨digits, same, below⟩
        exact ⟨⟨List.cons_ne_nil _ _, ⟨digit, digits⟩, same ▸ below⟩, same⟩
      · rintro ⟨⟨-, ⟨-, digits⟩, below⟩, same⟩
        exact ⟨digits, same, same ▸ below⟩
    · simp [digit]

theorem convertStringToNumber_negative {digits : Bytes} (some : digits ≠ []) :
    convertStringToNumber (45 :: digits) = (readNumeral digits).bind fun number =>
      if number > 2 ^ 63 then none else Option.some (i64 (-(number : Int))) := by
  cases digits with
  | nil => exact absurd rfl some
  | cons byte rest =>
    simp only [convertStringToNumber, readNumeral]
    rw [if_neg some]
    dsimp only
    split
    · cases convertDigits rest (digitValue byte) <;> rfl
    · rfl

theorem convertStringToNumber_positive {text : Bytes}
    (unsigned : ∀ digits, text = 45 :: digits → digits = []) :
    convertStringToNumber text = (readNumeral text).bind fun number =>
      if number > 2 ^ 63 - 1 then none else some (number : Int) := by
  cases text with
  | nil => rfl
  | cons byte rest =>
    by_cases sign : byte = 45
    · subst sign
      rw [unsigned rest rfl]
      rfl
    · have plain : ∀ digits, byte :: rest = 45 :: digits → False := by
        intro digits same
        cases same
        exact sign rfl
      simp only [convertStringToNumber, readNumeral]
      split
      · cases convertDigits rest (digitValue byte) <;> rfl
      · rfl

/-- What is read as a number are exactly its decimal representations. -/
theorem convertStringToNumber_iff {text : Bytes} {value : Int} :
    convertStringToNumber text = some value ↔ DecimalOf text value := by
  by_cases signed : ∃ digits, text = 45 :: digits ∧ digits ≠ []
  · obtain ⟨digits, rfl, nonempty⟩ := signed
    rw [convertStringToNumber_negative nonempty, Option.bind_eq_some_iff]
    constructor
    · rintro ⟨number, read, converted⟩
      obtain ⟨numeral, rfl⟩ := readNumeral_iff.mp read
      split at converted
      · cases converted
      · rename_i fits
        rw [i64_of_range (by omega) (by omega)] at converted
        cases converted
        exact ⟨digits, numeral, .inr ⟨rfl, rfl⟩, by omega, by omega⟩
    · rintro ⟨digits', numeral, ⟨rfl, -⟩ | ⟨same, rfl⟩, low, -⟩
      · exact absurd (numeral.2.1 45 List.mem_cons_self) (by decide)
      · cases same
        refine ⟨_, readNumeral_iff.mpr ⟨numeral, rfl⟩, ?_⟩
        rw [if_neg (by omega), i64_of_range (by omega) (by omega)]
  · rw [convertStringToNumber_positive fun digits same => by_contra fun some => signed ⟨digits, same, some⟩,
      Option.bind_eq_some_iff]
    constructor
    · rintro ⟨number, read, converted⟩
      obtain ⟨numeral, rfl⟩ := readNumeral_iff.mp read
      split at converted
      · cases converted
      · cases converted
        exact ⟨text, numeral, .inl ⟨rfl, rfl⟩, by omega, by omega⟩
    · rintro ⟨digits, numeral, ⟨rfl, rfl⟩ | ⟨rfl, -⟩, low, high⟩
      · exact ⟨_, readNumeral_iff.mpr ⟨numeral, rfl⟩, if_neg (by omega)⟩
      · exact absurd ⟨digits, rfl, numeral.1⟩ signed

/-- The digit loop of `convert_string_to_number` on a `uint64_t`, with what its
multiplications and additions give before they are cut to 64 bits. -/
def convertDigitsCut : Bytes → Nat → Option Nat × List Nat
  | [], number => (some number, [])
  | byte :: rest, number =>
    if isDigit byte then
      if number > (2 ^ 64 - 1) / 10 then (none, [])
      else
        let product := number * 10
        if u64 product > 2 ^ 64 - 1 - digitValue byte then (none, [product])
        else
          let sum := u64 product + digitValue byte
          let (converted, results) := convertDigitsCut rest (u64 sum)
          (converted, product :: sum :: results)
    else (none, [])

/-- The check for a minus sign: whether there is one, and the bytes behind it. -/
def splitSign (s : Bytes) : Bool × Bytes :=
  match s with
  | 45 :: rest => if rest = [] then (false, s) else (true, rest)
  | _ => (false, s)

/-- `convert_string_to_number` over that loop. -/
def convertStringToNumberCut (s : Bytes) : Option Int × List Nat :=
  if s = [48] then (some 0, [])
  else
    let (isNegative, digits) := splitSign s
    match digits with
    | [] => (none, [])
    | byte :: rest =>
      if isDigit byte then
        let (converted, results) := convertDigitsCut rest (digitValue byte)
        match converted with
        | none => (none, results)
        | some number =>
          if isNegative then
            (if number > 2 ^ 63 then none else some (i64 (-(number : Int))), results)
          else (if number > 2 ^ 63 - 1 then none else some (number : Int), results)
      else (none, [])

/-- The two guards of the loop refuse a digit before anything is cut. -/
theorem convertDigitsCut_exact (rest : Bytes) (number : Nat) :
    (convertDigitsCut rest number).1 = convertDigits rest number ∧
      ∀ result ∈ (convertDigitsCut rest number).2, result < 2 ^ 64 := by
  induction rest generalizing number with
  | nil => exact ⟨rfl, List.forall_mem_nil _⟩
  | cons byte rest ih =>
    unfold convertDigitsCut convertDigits
    split
    · rename_i digit
      have value := digitValue_lt digit
      split
      · exact ⟨rfl, List.forall_mem_nil _⟩
      · rename_i low
        have product : u64 (number * 10) = number * 10 := u64_of_lt (by omega)
        dsimp only
        rw [product]
        split
        · refine ⟨rfl, fun result member => ?_⟩
          rw [List.mem_singleton.mp member]
          omega
        · have sum : u64 (number * 10 + digitValue byte) = number * 10 + digitValue byte :=
            u64_of_lt (by omega)
          obtain ⟨same, small⟩ := ih (number * 10 + digitValue byte)
          rw [sum]
          refine ⟨same, fun result member => ?_⟩
          rcases List.mem_cons.mp member with rfl | later
          · omega
          · rcases List.mem_cons.mp later with rfl | later
            · omega
            · exact small result later
    · exact ⟨rfl, List.forall_mem_nil _⟩

theorem splitSign_cases (s : Bytes) :
    (∃ digits, s = 45 :: digits ∧ digits ≠ [] ∧ splitSign s = (true, digits)) ∨
      (∀ digits, s = 45 :: digits → digits = []) ∧ splitSign s = (false, s) := by
  unfold splitSign
  split
  · rename_i rest
    split
    · rename_i empty
      refine .inr ⟨fun digits same => ?_, rfl⟩
      cases same
      exact empty
    · rename_i some
      exact .inl ⟨rest, rfl, some, rfl⟩
  · rename_i unsigned
    exact .inr ⟨fun digits same => absurd same (unsigned digits), rfl⟩

theorem convertStringToNumberCut_exact (s : Bytes) :
    (convertStringToNumberCut s).1 = convertStringToNumber s ∧
      ∀ result ∈ (convertStringToNumberCut s).2, result < 2 ^ 64 := by
  unfold convertStringToNumberCut
  split
  · rename_i zero
    rw [zero]
    exact ⟨by decide, List.forall_mem_nil _⟩
  · obtain ⟨digits, rfl, some, signed⟩ | ⟨unsigned, signed⟩ := splitSign_cases s
    · rw [signed, convertStringToNumber_negative some]
      cases digits with
      | nil => exact ⟨rfl, List.forall_mem_nil _⟩
      | cons byte rest =>
        obtain ⟨same, small⟩ := convertDigitsCut_exact rest (digitValue byte)
        rw [readNumeral, ← same]
        dsimp only
        split
        · cases (convertDigitsCut rest (digitValue byte)).1 <;> exact ⟨rfl, small⟩
        · exact ⟨rfl, List.forall_mem_nil _⟩
    · rw [signed, convertStringToNumber_positive unsigned]
      cases s with
      | nil => exact ⟨rfl, List.forall_mem_nil _⟩
      | cons byte rest =>
        obtain ⟨same, small⟩ := convertDigitsCut_exact rest (digitValue byte)
        rw [readNumeral, ← same]
        dsimp only
        split
        · cases (convertDigitsCut rest (digitValue byte)).1 <;> exact ⟨rfl, small⟩
        · exact ⟨rfl, List.forall_mem_nil _⟩

/-- A string is read as a number exactly when it is digits behind at most one
minus sign and the number is an `int64_t`, and no product or sum on the way
ever leaves 64 bits. -/
theorem convertStringToNumber_exact (s : Bytes) :
    (∀ value : Int, convertStringToNumber s = some value ↔
      ∃ digits, digits ≠ [] ∧ (∀ byte ∈ digits, isDigit byte = true) ∧
        (s = digits ∧ value = ofDecimal digits ∨ s = 45 :: digits ∧ value = -(ofDecimal digits : Int)) ∧
        -2 ^ 63 ≤ value ∧ value < 2 ^ 63) ∧
    (convertStringToNumberCut s).1 = convertStringToNumber s ∧
    ∀ result ∈ (convertStringToNumberCut s).2, result < 2 ^ 64 := by
  refine ⟨fun value => convertStringToNumber_iff.trans ⟨?_, ?_⟩, convertStringToNumberCut_exact s⟩
  · rintro ⟨digits, ⟨some, every, -⟩, form, range⟩
    exact ⟨digits, some, every, form, range⟩
  · rintro ⟨digits, some, every, form, low, high⟩
    have small : ofDecimal digits < 2 ^ 64 := by
      rcases form with ⟨-, value⟩ | ⟨-, value⟩ <;> omega
    exact ⟨digits, ⟨some, every, small⟩, form, low, high⟩

example : convertStringToNumber (ascii "-9223372036854775808") = some (-2 ^ 63) := by decide

/-! ## INCR -/

variable {db : DB} {c : Context} {key : Bytes} {value : Int}

/-- The number INCR has to count from: that of a decimal representation the
key holds, or zero for a missing key. -/
def DB.Counts (db : DB) (key : Bytes) (value : Int) : Prop :=
  db.store.lookup key = none ∧ value = 0 ∨ ∃ object text, db.store.lookup key = some object ∧
    object.type = .string ∧ object.stringPtr = some text ∧ DecimalOf text value

/-- INCR replies the next number and stores its numeral, and nothing else. -/
def Counted (db db' : DB) (key : Bytes) (value : Int) (effects : List Effect) : Prop :=
  repliedBytes effects = encodeInteger (value + 1) ∧
    (∃ object, db'.store.lookup key = some object ∧ object.type = .string ∧
      object.stringPtr = some (intToDecimal (value + 1))) ∧
    (∀ other, other ≠ key → db'.store.lookup other = db.store.lookup other) ∧
    db'.expiration = db.expiration

/-- INCR replies an error and leaves every key and deadline. -/
def Refused (db db' : DB) (effects : List Effect) : Prop :=
  (∃ message, repliedBytes effects = encodeError message) ∧ db'.store = db.store ∧
    db'.expiration = db.expiration

/-- INCR takes one of its two exits, the first only for a number. -/
def Increments (db : DB) (c : Context) (key : Bytes) : Prop :=
  ∃ db' effects, handleIncr db c key = .ok (db', effects) ∧
    ((∃ value, db.Counts key value ∧ Counted db db' key value effects) ∨ Refused db db' effects)

/-- The text up to its first zero byte is a number, but there is such a byte,
or the number is the greatest of 64 bits. -/
def DB.Miscounts (db : DB) (key : Bytes) : Prop :=
  ∃ object text value, db.store.lookup key = some object ∧ object.type = .string ∧
    object.stringPtr = some text ∧ DecimalOf (text.takeWhile (· ≠ 0)) value ∧
    (0 ∈ text ∨ value = 2 ^ 63 - 1)

theorem DecimalOf.no_zero {text : Bytes} (decimal : DecimalOf text value) : 0 ∉ text := by
  obtain ⟨digits, numeral, ⟨rfl, -⟩ | ⟨rfl, -⟩, -⟩ := decimal
  · exact fun inside => absurd (numeral.2.1 0 inside) (by decide)
  · intro inside
    rcases List.mem_cons.mp inside with sign | inside
    · exact absurd sign (by decide)
    · exact absurd (numeral.2.1 0 inside) (by decide)

theorem takeWhile_no_zero {text : Bytes} (clean : 0 ∉ text) : text.takeWhile (· ≠ 0) = text :=
  List.takeWhile_eq_self_iff.mpr fun byte inside => by
    simpa using fun same : byte = 0 => clean (same ▸ inside)

/-! Each of the four ways through the handler. -/

theorem handleIncr_missing (missing : db.store.lookup key = none) :
    ∃ db' effects, handleIncr db c key = .ok (db', effects) ∧ Counted db db' key 0 effects := by
  let first : RedisObject := { type := .string, stringPtr := some (ascii "1") }
  have ran : handleIncr db c key = .ok ({ db with store := db.store.insert key first },
      markWatchingClientsDirty db c.env key ++ [.reply (encodeInteger 1)]) := by
    rw [handleIncr, missing]
    rfl
  have numeral : ascii "1" = intToDecimal (0 + 1) := by decide
  refine ⟨_, _, ran, ?_, ⟨_, Finmap.lookup_insert _, rfl, congrArg some numeral⟩, ?_, rfl⟩
  · rw [repliedBytes_append, repliedBytes_dirty]
    rfl
  · exact fun other apart => Finmap.lookup_insert_of_ne _ apart

/-- A text that is a number to the C string view, and not the greatest one, is
counted. -/
theorem handleIncr_counts {object : RedisObject} {text : Bytes}
    (lookup : db.store.lookup key = some object) (tag : object.type = .string)
    (held : object.stringPtr = some text) (decimal : DecimalOf (text.takeWhile (· ≠ 0)) value)
    (room : value ≠ 2 ^ 63 - 1) :
    ∃ db' effects, handleIncr db c key = .ok (db', effects) ∧ Counted db db' key value effects := by
  have below : value < 2 ^ 63 - 1 := by
    obtain ⟨-, -, -, -, high⟩ := decimal
    omega
  let counted := { object with stringPtr := some (intToDecimal (value + 1)) }
  have ran : handleIncr db c key = .ok ({ db with store := db.store.insert key counted },
      .reply (encodeInteger (value + 1)) :: markWatchingClientsDirty db c.env key) := by
    rw [handleIncr, lookup]
    dsimp only
    rw [if_pos tag, held, deref, exec_pure, exec_ok_bind, convertStringToNumber_iff.mpr decimal]
    dsimp only
    rw [increment, if_pos below]
    rfl
  refine ⟨_, _, ran, ?_, ⟨_, Finmap.lookup_insert _, tag, rfl⟩, ?_, rfl⟩
  · rw [← List.singleton_append, repliedBytes_append, repliedBytes_dirty, List.append_nil]
    exact List.append_nil _
  · exact fun other apart => Finmap.lookup_insert_of_ne _ apart

theorem handleIncr_overflows {object : RedisObject} {text : Bytes}
    (lookup : db.store.lookup key = some object) (tag : object.type = .string)
    (held : object.stringPtr = some text)
    (decimal : DecimalOf (text.takeWhile (· ≠ 0)) (2 ^ 63 - 1)) :
    handleIncr db c key = .error .undefinedBehaviour := by
  rw [handleIncr, lookup]
  simp only [tag, if_true, held, deref, exec_pure, exec_ok_bind,
    convertStringToNumber_iff.mpr decimal, increment]
  rfl

theorem handleIncr_refuses {object : RedisObject} (lookup : db.store.lookup key = some object)
    (other : object.type = .string → ∃ text, object.stringPtr = some text ∧
      ∀ value, ¬ DecimalOf (text.takeWhile (· ≠ 0)) value) :
    ∃ db' effects, handleIncr db c key = .ok (db', effects) ∧ Refused db db' effects := by
  have ran : handleIncr db c key =
      replying db (encodeError (ascii "value is not an integer or out of range")) := by
    rw [handleIncr, lookup]
    by_cases tag : object.type = .string
    · obtain ⟨text, held, none⟩ := other tag
      have unread : convertStringToNumber (text.takeWhile (· ≠ 0)) = Option.none :=
        Option.eq_none_iff_forall_ne_some.mpr fun value read =>
          none value (convertStringToNumber_iff.mp read)
      simp only [tag, if_true, held, deref, exec_pure, exec_ok_bind, unread]
    · exact if_neg tag
  exact ⟨_, _, ran, ⟨_, List.append_nil _⟩, rfl, rfl⟩

/-- A number that is miscounted overflows, or comes from a text that is none. -/
theorem DB.Miscounts.not_increments (miscounts : db.Miscounts key) : ¬ Increments db c key := by
  obtain ⟨object, text, value, lookup, tag, held, decimal, spoilt⟩ := miscounts
  rintro ⟨db', effects, ran, exit⟩
  by_cases last : value = 2 ^ 63 - 1
  · rw [handleIncr_overflows lookup tag held (last ▸ decimal)] at ran
    cases ran
  · have zero : 0 ∈ text := spoilt.resolve_right last
    obtain ⟨_, _, same, reply, -⟩ := handleIncr_counts lookup tag held decimal last
    rw [ran] at same
    cases same
    rcases exit with ⟨other, counts, -⟩ | ⟨⟨message, refused⟩, -⟩
    · rcases counts with ⟨missing, -⟩ | ⟨object', text', lookup', -, held', whole⟩
      · rw [lookup] at missing
        cases missing
      · rw [lookup] at lookup'
        cases lookup'
        rw [held] at held'
        cases held'
        exact whole.no_zero zero
    · rw [reply] at refused
      exact absurd (List.cons.inj refused).1 (by decide)

/-- INCR of a reachable database meets its purpose exactly where it does not
miscount: where the whole text is looked at, and there is a next number. -/
theorem increments_iff (reached : db.Reachable) : Increments db c key ↔ ¬ db.Miscounts key := by
  constructor
  · exact fun increments miscounts => miscounts.not_increments increments
  · intro sane
    cases lookup : db.store.lookup key with
    | none =>
      obtain ⟨db', effects, ran, counted⟩ := handleIncr_missing lookup
      exact ⟨db', effects, ran, .inl ⟨0, .inl ⟨lookup, rfl⟩, counted⟩⟩
    | some object =>
      by_cases number : ∃ text value, object.type = .string ∧ object.stringPtr = some text ∧
          DecimalOf (text.takeWhile (· ≠ 0)) value
      · obtain ⟨text, value, tag, held, decimal⟩ := number
        have clean : 0 ∉ text := fun zero =>
          sane ⟨object, text, value, lookup, tag, held, decimal, .inl zero⟩
        have room : value ≠ 2 ^ 63 - 1 := fun last =>
          sane ⟨object, text, value, lookup, tag, held, decimal, .inr last⟩
        obtain ⟨db', effects, ran, counted⟩ := handleIncr_counts lookup tag held decimal room
        rw [takeWhile_no_zero clean] at decimal
        exact ⟨db', effects, ran,
          .inl ⟨value, .inr ⟨object, text, lookup, tag, held, decimal⟩, counted⟩⟩
      · obtain ⟨db', effects, ran, refused⟩ := @handleIncr_refuses db c key object lookup fun tag => by
          obtain ⟨text, held⟩ := text_of_sound ((reachable_sound reached).objects _ _ lookup) tag
          exact ⟨text, held, fun value decimal => number ⟨text, value, tag, held, decimal⟩⟩
        exact ⟨db', effects, ran, .inr refused⟩

/-- A database with one text in it. -/
def storedText (text : Bytes) : DB := DB.set {} (ascii "k") text

theorem storedText_reachable (text : Bytes) : (storedText text).Reachable := .loaded _ _ .empty

theorem storedText_miscounts {text : Bytes} :
    (storedText text).Miscounts (ascii "k") ↔ ∃ value, DecimalOf (text.takeWhile (· ≠ 0)) value ∧
      (0 ∈ text ∨ value = 2 ^ 63 - 1) := by
  have stored : (storedText text).store.lookup (ascii "k") =
      some { type := .string, stringPtr := some text } := Finmap.lookup_insert _
  constructor
  · rintro ⟨object, text', value, lookup, -, held, decimal, spoilt⟩
    rw [stored] at lookup
    cases lookup
    cases held
    exact ⟨value, decimal, spoilt⟩
  · rintro ⟨value, decimal, spoilt⟩
    exact ⟨_, text, value, stored, rfl, rfl, decimal, spoilt⟩

theorem increments_leading_zeros :
    Increments (storedText (ascii "-007")) Context.sample (ascii "k") := by
  refine (increments_iff (storedText_reachable _)).mpr fun miscounts => ?_
  obtain ⟨value, decimal, zero | rfl⟩ := storedText_miscounts.mp miscounts
  · exact absurd zero (by decide)
  · exact absurd (convertStringToNumber_iff.mpr decimal) (by decide)

/-- The greatest number overflows, and a number in front of a zero byte is
counted as if the text ended there. -/
theorem increments_fails :
    ¬ Increments (storedText (ascii "9223372036854775807")) Context.sample (ascii "k") ∧
      ¬ Increments (storedText [53, 0, 120]) Context.sample (ascii "k") := by
  have greatest : (storedText (ascii "9223372036854775807")).Miscounts (ascii "k") :=
    storedText_miscounts.mpr ⟨2 ^ 63 - 1, convertStringToNumber_iff.mp (by decide), .inr rfl⟩
  have five : (storedText [53, 0, 120]).Miscounts (ascii "k") :=
    storedText_miscounts.mpr ⟨5, convertStringToNumber_iff.mp (by decide), .inl (by decide)⟩
  exact ⟨greatest.not_increments, five.not_increments⟩

end CarrotDb
