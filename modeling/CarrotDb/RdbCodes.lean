import CarrotDb.Rdb
import CarrotDb.Lib.Bits

/-! What the readers of the loader take off a stream. The codes of lengths,
strings, times and entries are described by themselves; a reader that meets
one takes it and no more, and one that does not meet one reads to the end. -/
namespace CarrotDb.Rdb
open Decimal Bits

/-- The code of a length. -/
inductive LengthCode : Bytes → Nat → Prop where
  | sixBit {byte : UInt8} (kind : byte.toNat / 64 = 0) : LengthCode [byte] (byte.toNat % 64)
  | fourteenBit {byte next : UInt8} (kind : byte.toNat / 64 = 1) :
    LengthCode [byte, next] (byte.toNat % 64 * 256 + next.toNat)
  | thirtyTwoBit {byte b0 b1 b2 b3 : UInt8} (kind : byte.toNat / 64 = 2) :
    LengthCode [byte, b0, b1, b2, b3]
      (b0.toNat * 2 ^ 24 + b1.toNat * 2 ^ 16 + b2.toNat * 2 ^ 8 + b3.toNat)

/-- A length that is cut off. -/
inductive ShortLength : Bytes → Prop where
  | fourteenBit {byte : UInt8} (kind : byte.toNat / 64 = 1) : ShortLength [byte]
  | thirtyTwoBit {byte : UInt8} {more : Bytes} (kind : byte.toNat / 64 = 2)
    (short : more.length < 4) : ShortLength (byte :: more)

/-- The code of a string: a length and as many bytes, a number, or a byte of
another encoding, which is read as nothing. -/
inductive StringCode : Bytes → Bytes → Prop where
  | text {head payload : Bytes} (length : LengthCode head payload.length) :
    StringCode (head ++ payload) payload
  | int8 (b0 : UInt8) :
    StringCode [rdbEncInt8, b0] (intToDecimal ((b0.toNat : Int).bmod (2 ^ 8)))
  | int16 (b0 b1 : UInt8) :
    StringCode [rdbEncInt16, b0, b1]
      (intToDecimal (((b0.toNat + b1.toNat * 256 : Nat) : Int).bmod (2 ^ 16)))
  | int32 (b0 b1 b2 b3 : UInt8) :
    StringCode [rdbEncInt32, b0, b1, b2, b3]
      (intToDecimal (i32 (b0.toNat + b1.toNat * 256 + b2.toNat * 65536 + b3.toNat * 16777216 : Nat)))
  | other {byte : UInt8} (kind : byte.toNat / 64 = 3)
    (unknown : byte ≠ rdbEncInt8 ∧ byte ≠ rdbEncInt16 ∧ byte ≠ rdbEncInt32) : StringCode [byte] []

/-- A number, its bytes least significant first. -/
def ofLittleEndian : Bytes → Nat
  | [] => 0
  | byte :: rest => byte.toNat + 256 * ofLittleEndian rest

/-- The code of a time, and its milliseconds. -/
inductive ExpiryCode : Bytes → Nat → Prop where
  | milliseconds {bytes : Bytes} (size : bytes.length = 8) :
    ExpiryCode (rdbOpcodeExpireTimeMs :: bytes) (ofLittleEndian bytes)
  | seconds {bytes : Bytes} (size : bytes.length = 4) :
    ExpiryCode (rdbOpcodeExpireTime :: bytes) (ofLittleEndian bytes * 1000)

/-- The code of an entry, and the call it makes. -/
inductive EntryCode : Bytes → Call → Prop where
  | plain {keyCode valueCode key value : Bytes} (keyIs : StringCode keyCode key)
    (valueIs : StringCode valueCode value) :
    EntryCode (rdbTypeString :: (keyCode ++ valueCode)) { key, value }
  | expiring {timeCode keyCode valueCode key value : Bytes} {expiry : Nat}
    (timeIs : ExpiryCode timeCode expiry) (keyIs : StringCode keyCode key)
    (valueIs : StringCode valueCode value) :
    EntryCode (timeCode ++ rdbTypeString :: (keyCode ++ valueCode)) { key, value, expiry }

/-- The codes of entries one behind the other. -/
inductive EntryCodes : Bytes → List Call → Prop where
  | nil : EntryCodes [] []
  | cons {code later : Bytes} {call : Call} {calls : List Call} (head : EntryCode code call)
    (tail : EntryCodes later calls) : EntryCodes (code ++ later) (call :: calls)

variable {io : RIO} {byte : UInt8} {code more rest : Bytes} {n : Nat} {α β : Type}

@[simp] theorem ok_bind (value : α) (next : α → Except Stop β) :
    (Except.ok value >>= next) = next value := rfl

@[simp] theorem error_bind (stop : Stop) (next : α → Except Stop β) :
    ((Except.error stop : Except Stop α) >>= next) = .error stop := rfl

@[simp] theorem pure_ok (value : α) : (pure value : Except Stop α) = .ok value := rfl

@[simp] theorem throw_error (stop : Stop) : (throw stop : Except Stop α) = .error stop := rfl

theorem read_eq (small : n ≤ maxSize) :
    read io n = .ok (io.rest.take n, (io.get n).2) := by
  unfold read
  rw [if_neg (Nat.not_lt.mpr small), ← io.get_items n]
  rfl

@[simp] theorem read_one : read io 1 = .ok (io.rest.take 1, (io.get 1).2) := read_eq (by decide)
@[simp] theorem read_two : read io 2 = .ok (io.rest.take 2, (io.get 2).2) := read_eq (by decide)
@[simp] theorem read_four : read io 4 = .ok (io.rest.take 4, (io.get 4).2) := read_eq (by decide)
@[simp] theorem read_five : read io 5 = .ok (io.rest.take 5, (io.get 5).2) := read_eq (by decide)
@[simp] theorem read_eight : read io 8 = .ok (io.rest.take 8, (io.get 8).2) := read_eq (by decide)

@[simp] theorem index_zero (data : Bytes) : index (byte :: data) 0 = .ok byte := rfl

@[simp] theorem index_succ (data : Bytes) (i : Nat) :
    index (byte :: data) (i + 1) = index data i := rfl

/-- A byte that was looked at is put back. -/
@[simp] theorem seekBackRead_one (here : io.rest = byte :: rest) :
    seekBackRead (io.get 1).2 1 = io := io.get_back (by simp [here])

theorem LengthCode.bound (is : LengthCode code n) : n < 2 ^ 32 := by
  cases is with
  | sixBit kind => omega
  | fourteenBit kind =>
    rename_i first next
    have := next.toNat_lt
    omega
  | thirtyTwoBit kind =>
    rename_i first b0 b1 b2 b3
    have := b0.toNat_lt
    have := b1.toNat_lt
    have := b2.toNat_lt
    have := b3.toNat_lt
    omega

theorem LengthCode.cons (is : LengthCode code n) : ∃ byte more, code = byte :: more := by
  cases is <;> exact ⟨_, _, rfl⟩

theorem length_cases (byte : UInt8) (rest : Bytes) :
    (∃ more n later, LengthCode (byte :: more) n ∧ rest = more ++ later) ∨
    byte.toNat / 64 = 3 ∨ ShortLength (byte :: rest) := by
  have range := byte.toNat_lt
  obtain six | fourteen | thirtyTwo | encoded : byte.toNat / 64 = 0 ∨ byte.toNat / 64 = 1 ∨
    byte.toNat / 64 = 2 ∨ byte.toNat / 64 = 3 := by omega
  · exact .inl ⟨[], _, rest, .sixBit six, rfl⟩
  · cases rest with
    | nil => exact .inr (.inr (.fourteenBit fourteen))
    | cons next later => exact .inl ⟨[next], _, later, .fourteenBit fourteen, rfl⟩
  · match rest with
    | b0 :: b1 :: b2 :: b3 :: later =>
      exact .inl ⟨[b0, b1, b2, b3], _, later, .thirtyTwoBit thirtyTwo, rfl⟩
    | [] => exact .inr (.inr (.thirtyTwoBit thirtyTwo (by decide)))
    | [b0] => exact .inr (.inr (.thirtyTwoBit thirtyTwo (by simp)))
    | [b0, b1] => exact .inr (.inr (.thirtyTwoBit thirtyTwo (by simp)))
    | [b0, b1, b2] => exact .inr (.inr (.thirtyTwoBit thirtyTwo (by simp)))
  · exact .inr (.inl encoded)

/-- The two bits that tell the kinds of lengths apart. -/
private theorem lengthType_eq (byte : UInt8) {kind : Nat} (small : kind < 4)
    (is : byte.toNat / 64 = kind) : byte >>> 6 &&& 0x03 = UInt8.ofNat kind := by
  apply UInt8.toNat_inj.mp
  simp only [UInt8.toNat_and, UInt8.toNat_shiftRight, UInt8.toNat_ofNat', UInt8.reduceToNat,
    Nat.shiftRight_eq_div_pow, Nat.reduceMod, Nat.reducePow]
  rw [show 3 = 2 ^ 2 - 1 from rfl, Nat.and_two_pow_sub_one_eq_mod]
  omega

private theorem lowBits_eq (byte : Nat) : byte &&& 63 = byte % 64 :=
  Nat.and_two_pow_sub_one_eq_mod byte 6

theorem getLength_advance (is : LengthCode (byte :: more) n) (here : io.rest = more ++ rest) :
    getLength io byte = .ok (n, false, io.advance more.length) := by
  cases is with
  | sixBit kind => simp [getLength, lengthType_eq byte (by decide) kind, rdb6BitLen, lowBits_eq]
  | fourteenBit kind =>
    rename_i next
    have moved := io.get_served 1 (by simp [here])
    simp [getLength, lengthType_eq byte (by decide) kind, rdb6BitLen, rdb14BitLen, here, lowBits_eq,
      shiftLeft_or _ next.toNat_lt, Nat.add_comm, moved]
  | thirtyTwoBit kind =>
    rename_i b0 b1 b2 b3
    have moved := io.get_served 4 (by simp [here])
    simp [getLength, lengthType_eq byte (by decide) kind, rdb6BitLen, rdb14BitLen, rdb32BitLen, here,
      be32_eq b1.toNat_lt b2.toNat_lt b3.toNat_lt, moved]

theorem getLength_code (is : LengthCode (byte :: more) n) (here : io.rest = more ++ rest) :
    ∃ io', getLength io byte = .ok (n, false, io') ∧ io'.rest = rest :=
  ⟨_, getLength_advance is here, by simp [here]⟩

theorem getLength_encoded (kind : byte.toNat / 64 = 3) :
    getLength io byte = .ok (rdbLenErr, true, io) := by
  simp [getLength, lengthType_eq byte (by decide) kind, rdb6BitLen, rdb14BitLen, rdb32BitLen,
    rdbEncVal]

theorem getLength_short (short : ShortLength (byte :: io.rest)) :
    ∃ io', getLength io byte = .ok (rdbLenErr, false, io') ∧ io'.rest = [] := by
  generalize here : io.rest = left at short
  cases short with
  | fourteenBit kind =>
    refine ⟨(io.get 1).2, ?_, by simp [here]⟩
    simp [getLength, lengthType_eq byte (by decide) kind, rdb6BitLen, rdb14BitLen, here]
  | thirtyTwoBit kind short =>
    refine ⟨(io.get 4).2, ?_, by simp [here]; omega⟩
    have less : min 4 left.length < 4 := by omega
    simp [getLength, lengthType_eq byte (by decide) kind, rdb6BitLen, rdb14BitLen, rdb32BitLen, here,
      less]

/-! ## Strings -/

/-- A reader that has found no code: it has read all there is, or stops at a
length that no vector has. -/
def Drains (result : Except Stop (α × RIO)) : Prop :=
  result = .error .lengthError ∨ ∃ value io, result = .ok (value, io) ∧ io.rest = []

variable {value payload : Bytes}

theorem parseNormalString_advance (small : payload.length ≤ maxSize)
    (here : io.rest = payload ++ rest) :
    parseNormalString io payload.length = .ok (payload, io.advance payload.length) := by
  unfold parseNormalString
  by_cases empty : payload.length = 0
  · obtain rfl := List.length_eq_zero_iff.mp empty
    rfl
  · have moved := io.get_served payload.length (by simp [here])
    simp [empty, read_eq small, here, moved]

theorem parseNormalString_drains (short : io.rest.length < n) : Drains (parseNormalString io n) := by
  unfold parseNormalString
  have positive : n ≠ 0 := by omega
  by_cases large : maxSize < n
  · left
    simp [positive, read, large]
  · right
    refine ⟨[], (io.get n).2, ?_, by simp; omega⟩
    have less : ¬ n ≤ io.rest.length := by omega
    simp [positive, read_eq (Nat.not_lt.mp large), less]

/-- The code of a string is taken off the stream, to its last byte. -/
theorem parseString_advance (is : StringCode code value) (here : io.rest = code ++ rest) :
    parseString io = .ok (value, io.advance code.length) := by
  cases is with
  | @text head _ length =>
    obtain ⟨byte, more, rfl⟩ := length.cons
    have bound := length.bound
    have moved := io.get_served 1 (by simp [here])
    have front : (io.advance 1).rest = more ++ (value ++ rest) := by simp [here]
    have behind : ((io.advance 1).advance more.length).rest = value ++ rest := by
      rw [InputStream.rest_advance, front, List.drop_left]
    have taken := parseNormalString_advance (by unfold maxSize; omega) behind
    have size : 1 + more.length + value.length = (byte :: more ++ value).length := by
      simp only [List.length_append, List.length_cons]
      omega
    rw [InputStream.advance_advance, InputStream.advance_advance, size] at taken
    simp [parseString, here, moved, getLength_advance length front, InputStream.advance_advance,
      taken]
  | int8 b0 =>
    have first := io.get_served 1 (by simp [here])
    have second := (io.advance 1).get_served 1 (by simp [here])
    rw [InputStream.advance_advance] at second
    simp [parseString, here, getLength_encoded, getSpecialString, rdbEncInt8, first, second]
  | int16 b0 b1 =>
    have first := io.get_served 1 (by simp [here])
    have second := (io.advance 1).get_served 2 (by simp [here])
    rw [InputStream.advance_advance] at second
    simp [parseString, here, getLength_encoded, getSpecialString, rdbEncInt8, rdbEncInt16,
      le16_eq b0.toNat_lt, first, second]
  | int32 b0 b1 b2 b3 =>
    have first := io.get_served 1 (by simp [here])
    have second := (io.advance 1).get_served 4 (by simp [here])
    rw [InputStream.advance_advance] at second
    have enough : ¬ rest.length + 1 + 1 + 1 + 1 < 4 := by omega
    simp [parseString, here, getLength_encoded, getSpecialString, rdbEncInt8, rdbEncInt16,
      rdbEncInt32, le32_eq b0.toNat_lt b1.toNat_lt b2.toNat_lt, first, second, enough]
  | @other byte kind unknown =>
    obtain ⟨int8, int16, int32⟩ := unknown
    have first := io.get_served 1 (by simp [here])
    simp [parseString, here, getLength_encoded kind, getSpecialString, int8, int16, int32, first]

theorem parseString_code (is : StringCode code value) (here : io.rest = code ++ rest) :
    ∃ io', parseString io = .ok (value, io') ∧ io'.rest = rest :=
  ⟨_, parseString_advance is here, by simp [here]⟩

private theorem two_of_length {bytes : Bytes} (enough : 2 ≤ bytes.length) :
    ∃ b0 b1 rest, bytes = [b0, b1] ++ rest := by
  match bytes, enough with
  | b0 :: b1 :: rest, _ => exact ⟨b0, b1, rest, rfl⟩

private theorem four_of_length {bytes : Bytes} (enough : 4 ≤ bytes.length) :
    ∃ b0 b1 b2 b3 rest, bytes = [b0, b1, b2, b3] ++ rest := by
  obtain ⟨b0, b1, tail, rfl⟩ := two_of_length (le_trans (by decide) enough)
  obtain ⟨b2, b3, rest, rfl⟩ := two_of_length (Nat.le_of_add_le_add_right (b := 2) enough)
  exact ⟨b0, b1, b2, b3, rest, rfl⟩

theorem getSpecialString_cases (io : RIO) (kind : byte.toNat / 64 = 3) :
    (∃ more value rest, StringCode (byte :: more) value ∧ io.rest = more ++ rest) ∨
    Drains (getSpecialString io byte) := by
  by_cases int8 : byte = rdbEncInt8
  · subst int8
    match here : io.rest with
    | b0 :: rest => exact .inl ⟨[b0], _, rest, .int8 b0, rfl⟩
    | [] => exact .inr (.inr ⟨[], (io.get 1).2, by simp [getSpecialString, here], by simp [here]⟩)
  by_cases int16 : byte = rdbEncInt16
  · subst int16
    obtain enough | short := Nat.lt_or_ge 1 io.rest.length
    · obtain ⟨b0, b1, rest, split⟩ := two_of_length enough
      exact .inl ⟨[b0, b1], _, rest, .int16 b0 b1, split⟩
    · refine .inr (.inr ⟨[], (io.get 2).2, ?_, by simp; omega⟩)
      simp [getSpecialString, rdbEncInt8, rdbEncInt16, Nat.not_lt.mpr short]
  by_cases int32 : byte = rdbEncInt32
  · subst int32
    obtain short | enough := Nat.lt_or_ge io.rest.length 4
    · refine .inr (.inr ⟨[], (io.get 4).2, ?_, by simp; omega⟩)
      simp [getSpecialString, rdbEncInt8, rdbEncInt16, rdbEncInt32, short]
    · obtain ⟨b0, b1, b2, b3, rest, split⟩ := four_of_length enough
      exact .inl ⟨[b0, b1, b2, b3], _, rest, .int32 b0 b1 b2 b3, split⟩
  exact .inl ⟨[], _, io.rest, .other kind ⟨int8, int16, int32⟩, rfl⟩

theorem parseString_end (here : io.rest = []) :
    ∃ io', parseString io = .ok ([], io') ∧ io'.rest = [] :=
  ⟨(io.get 1).2, by simp [parseString, here], by simp [here]⟩

/-- A string is taken, or nothing is left behind it. -/
theorem parseString_cases (io : RIO) :
    (∃ code value rest, StringCode code value ∧ io.rest = code ++ rest) ∨
    Drains (parseString io) := by
  match here : io.rest with
  | [] => exact .inr (.inr ⟨[], parseString_end here⟩)
  | byte :: tail =>
    have behind : (io.get 1).2.rest = tail := by simp [here]
    obtain ⟨more, n, later, is, split⟩ | kind | short := length_cases byte tail
    · by_cases enough : n ≤ later.length
      · left
        have length : LengthCode (byte :: more) (later.take n).length := by
          simpa [enough] using is
        refine ⟨_, _, later.drop n, .text length, ?_⟩
        simp [split]
      · right
        obtain ⟨middle, ran, left⟩ := getLength_code is (behind.trans split)
        have drains : Drains (parseNormalString middle n) :=
          parseNormalString_drains (by simpa [left] using enough)
        simpa [parseString, here, ran] using drains
    · obtain ⟨more, value, rest, is, split⟩ | drains :=
        getSpecialString_cases (io.get 1).2 kind
      · exact .inl ⟨_, _, rest, is, by rw [← behind, split]; rfl⟩
      · right
        simpa [parseString, here, getLength_encoded kind] using drains
    · right
      have cutOff : ShortLength (byte :: (io.get 1).2.rest) := behind ▸ short
      obtain ⟨middle, ran, left⟩ := getLength_short cutOff
      have drains : Drains (parseNormalString middle rdbLenErr) :=
        parseNormalString_drains (by rw [left]; decide)
      simpa [parseString, here, ran] using drains

/-! ## Entries -/

variable {expiry : Nat} {call : Call} {calls : List Call} {rounds : Nat}

private theorem littleEndian_four {bytes : Bytes} (size : bytes.length = 4) :
    littleEndian bytes 4 = .ok (ofLittleEndian bytes) := by
  match bytes, size with
  | [b0, b1, b2, b3], _ =>
    simp only [littleEndian, List.range, List.range.loop, List.foldlM_cons, List.foldlM_nil, index_zero,
      index_succ, ok_bind, pure_ok, ofLittleEndian, Nat.zero_or, Nat.shiftLeft_zero, Nat.reduceMul,
      Nat.zero_mul, le32_eq b0.toNat_lt b1.toNat_lt b2.toNat_lt, Except.ok.injEq]
    omega

private theorem littleEndian_eight {bytes : Bytes} (size : bytes.length = 8) :
    littleEndian bytes 8 = .ok (ofLittleEndian bytes) := by
  match bytes, size with
  | [b0, b1, b2, b3, b4, b5, b6, b7], _ =>
    simp only [littleEndian, List.range, List.range.loop, List.foldlM_cons, List.foldlM_nil, index_zero,
      index_succ, ok_bind, pure_ok, ofLittleEndian, Nat.zero_or, Nat.shiftLeft_zero, Nat.reduceMul,
      Nat.zero_mul, le64_eq b0.toNat_lt b1.toNat_lt b2.toNat_lt b3.toNat_lt b4.toNat_lt b5.toNat_lt
        b6.toNat_lt, Except.ok.injEq]
    omega

theorem ExpiryCode.cons (is : ExpiryCode code expiry) : ∃ opcode bytes, code = opcode :: bytes ∧
    (opcode = rdbOpcodeExpireTimeMs ∨ opcode = rdbOpcodeExpireTime) := by
  cases is with
  | milliseconds size => exact ⟨_, _, rfl, .inl rfl⟩
  | seconds size => exact ⟨_, _, rfl, .inr rfl⟩

theorem parseExpiry_code (is : ExpiryCode (byte :: more) expiry) (here : io.rest = more ++ rest) :
    ∃ io', parseExpiry io byte = .ok (expiry, io') ∧ io'.rest = rest := by
  cases is with
  | milliseconds size =>
    refine ⟨(io.get 8).2, ?_, by simp [here, size]⟩
    simp [parseExpiry, here, size, littleEndian_eight size]
  | seconds size =>
    refine ⟨(io.get 4).2, ?_, by simp [here, size]⟩
    simp [parseExpiry, here, size, littleEndian_four size, rdbOpcodeExpireTime, rdbOpcodeExpireTimeMs]

/-- A time is taken, or nothing is left behind it. -/
theorem parseExpiry_cases (io : RIO)
    (opcode : byte = rdbOpcodeExpireTimeMs ∨ byte = rdbOpcodeExpireTime) :
    (∃ more expiry rest, ExpiryCode (byte :: more) expiry ∧ io.rest = more ++ rest) ∨
    Drains (parseExpiry io byte) := by
  obtain rfl | rfl := opcode
  · obtain short | enough := Nat.lt_or_ge io.rest.length 8
    · refine .inr (.inr ⟨0, (io.get 8).2, ?_, by simp; omega⟩)
      simp [parseExpiry, short]
    · refine .inl ⟨io.rest.take 8, _, io.rest.drop 8, .milliseconds ?_, by simp⟩
      simpa using enough
  · obtain short | enough := Nat.lt_or_ge io.rest.length 4
    · refine .inr (.inr ⟨0, (io.get 4).2, ?_, by simp; omega⟩)
      simp [parseExpiry, short, rdbOpcodeExpireTime, rdbOpcodeExpireTimeMs]
    · refine .inl ⟨io.rest.take 4, _, io.rest.drop 4, .seconds ?_, by simp⟩
      simpa using enough

/-- A round that has found no entry: the loop goes no further than a round
that finds nothing left. -/
def Stalls (result : Except Stop (Round × RIO)) : Prop :=
  result = .error .lengthError ∨ (∃ io, result = .ok (.returns false, io)) ∨
    ∃ call io, result = .ok (.stores call, io) ∧ io.rest = []

theorem parseTyped_code {keyCode valueCode key : Bytes} (expiry : Option Nat)
    (keyIs : StringCode keyCode key) (valueIs : StringCode valueCode value)
    (here : io.rest = keyCode ++ valueCode ++ rest) :
    ∃ io', parseTyped io rdbTypeString expiry = .ok (.stores { key, value, expiry }, io') ∧
      io'.rest = rest := by
  obtain ⟨middle, first, behind⟩ := parseString_code keyIs (here.trans (List.append_assoc ..))
  obtain ⟨io', second, last⟩ := parseString_code valueIs behind
  exact ⟨io', by simp [parseTyped, first, second], last⟩

theorem parseTyped_cases (io : RIO) (keyOpcode : UInt8) (expiry : Option Nat) :
    (∃ keyCode valueCode key value rest, keyOpcode = rdbTypeString ∧ StringCode keyCode key ∧
      StringCode valueCode value ∧ io.rest = keyCode ++ valueCode ++ rest) ∨
    Stalls (parseTyped io keyOpcode expiry) := by
  by_cases text : keyOpcode = rdbTypeString
  · obtain ⟨keyCode, key, behind, keyIs, split⟩ | stopped | ⟨key, middle, first, left⟩ :=
      parseString_cases io
    · obtain ⟨middle, first, left⟩ := parseString_code keyIs split
      obtain ⟨valueCode, value, rest, valueIs, split'⟩ | stopped | ⟨value, io', second, last⟩ :=
        parseString_cases middle
      · refine .inl ⟨keyCode, valueCode, key, value, rest, text, keyIs, valueIs, ?_⟩
        rw [split, ← left, split', List.append_assoc]
      · exact .inr (.inl (by simp [parseTyped, text, first, stopped]))
      · exact .inr (.inr (.inr ⟨{ key, value, expiry }, io', by simp [parseTyped, text, first, second], last⟩))
    · exact .inr (.inl (by simp [parseTyped, text, stopped]))
    · obtain ⟨io', second, last⟩ := parseString_end left
      exact .inr (.inr (.inr ⟨{ key, value := [], expiry }, io', by simp [parseTyped, text, first, second], last⟩))
  · exact .inr (.inr (.inl ⟨io, by simp [parseTyped, text]⟩))

theorem EntryCode.positive (is : EntryCode code call) : 0 < code.length := by
  cases is <;> simp

theorem parseRound_code (is : EntryCode code call) (here : io.rest = code ++ rest) :
    ∃ io', parseRound io = .ok (.stores call, io') ∧ io'.rest = rest := by
  cases is with
  | @plain keyCode valueCode key value keyIs valueIs =>
    have behind : (io.get 1).2.rest = keyCode ++ valueCode ++ rest := by simp [here]
    obtain ⟨io', ran, last⟩ := parseTyped_code none keyIs valueIs behind
    refine ⟨io', ?_, last⟩
    simpa [parseRound, here, rdbTypeString, rdbOpcodeSelectDb, rdbOpcodeEof, rdbOpcodeExpireTime,
      rdbOpcodeExpireTimeMs] using ran
  | @expiring timeCode keyCode valueCode key value expiry timeIs keyIs valueIs =>
    obtain ⟨opcode, bytes, rfl, kind⟩ := timeIs.cons
    have behind : (io.get 1).2.rest =
        bytes ++ (rdbTypeString :: (keyCode ++ valueCode ++ rest)) := by simp [here]
    obtain ⟨middle, time, left⟩ := parseExpiry_code timeIs behind
    have typed : (middle.get 1).2.rest = keyCode ++ valueCode ++ rest := by simp [left]
    obtain ⟨io', ran, last⟩ := parseTyped_code (some expiry) keyIs valueIs typed
    refine ⟨io', ?_, last⟩
    have ends : ¬ (opcode = rdbOpcodeSelectDb ∨ opcode = rdbOpcodeEof) := by
      obtain rfl | rfl := kind <;> decide
    simp [parseRound, here, ends, kind, time, left, ran]

theorem parseRound_end (here : io.rest = byte :: rest)
    (ends : byte = rdbOpcodeSelectDb ∨ byte = rdbOpcodeEof) :
    parseRound io = .ok (.returns true, io) := by
  simp [parseRound, here, ends, seekBackRead_one here]

theorem parseRound_empty (here : io.rest = []) :
    parseRound io = .ok (.returns false, (io.get 1).2) := by
  simp [parseRound, here]

/-- A round takes an entry, or meets what ends the entries, or it is the last
but one. -/
theorem parseRound_cases (io : RIO) :
    (∃ code call rest, EntryCode code call ∧ io.rest = code ++ rest) ∨
    (∃ byte rest, io.rest = byte :: rest ∧ (byte = rdbOpcodeSelectDb ∨ byte = rdbOpcodeEof)) ∨
    Stalls (parseRound io) := by
  match here : io.rest with
  | [] => exact .inr (.inr (.inr (.inl ⟨_, parseRound_empty here⟩)))
  | byte :: tail =>
    by_cases ends : byte = rdbOpcodeSelectDb ∨ byte = rdbOpcodeEof
    · exact .inr (.inl ⟨byte, tail, rfl, ends⟩)
    have behind : (io.get 1).2.rest = tail := by simp [here]
    by_cases timed : byte = rdbOpcodeExpireTimeMs ∨ byte = rdbOpcodeExpireTime
    · obtain ⟨more, expiry, left, timeIs, split⟩ | stopped | ⟨expiry, middle, ran, left⟩ :=
        parseExpiry_cases (io.get 1).2 timed
      · obtain ⟨middle, ran, remaining⟩ := parseExpiry_code timeIs split
        cases left with
        | nil =>
          refine .inr (.inr (.inr (.inl ⟨(middle.get 1).2, ?_⟩)))
          simp [parseRound, here, ends, timed, ran, remaining]
        | cons type left =>
          obtain ⟨keyCode, valueCode, key, value, rest, rfl, keyIs, valueIs, split'⟩ | stalls :=
            parseTyped_cases (middle.get 1).2 type (some expiry)
          · refine .inl ⟨_, _, rest, .expiring timeIs keyIs valueIs, ?_⟩
            have typed : left = keyCode ++ valueCode ++ rest := by simpa [remaining] using split'
            rw [← behind, split, typed]
            simp
          · right; right
            simpa [parseRound, here, ends, timed, ran, remaining] using stalls
      · exact .inr (.inr (.inl (by simp [parseRound, here, ends, timed, stopped])))
      · refine .inr (.inr (.inr (.inl ⟨(middle.get 1).2, ?_⟩)))
        simp [parseRound, here, ends, timed, ran, left]
    · obtain ⟨keyCode, valueCode, key, value, rest, rfl, keyIs, valueIs, split⟩ | stalls :=
        parseTyped_cases (io.get 1).2 byte none
      · refine .inl ⟨_, _, rest, .plain keyIs valueIs, ?_⟩
        rw [← behind, split]
        rfl
      · right; right
        simpa [parseRound, here, ends, timed] using stalls

end CarrotDb.Rdb
