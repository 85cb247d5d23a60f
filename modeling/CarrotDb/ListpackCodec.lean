import CarrotDb.Listpack
import CarrotDb.Lib.Bits

/-! One element of a listpack: what is written for a byte string, and that
every reader of the source recovers it, wherever the entry lies in a buffer.
The encoder and the size tables are separate code, so each class of header
byte is checked against each table. -/
namespace CarrotDb.Listpack
open CarrotDb.Decimal CarrotDb.Bits

variable {lp : Bytes}

/-- Header and payload written for a byte string. -/
def payload (x : Bytes) : Bytes :=
  match lpStringToInt64 x with
  | some v => lpEncodeIntegerGetType v
  | none => lpEncodeString x

/-- The whole entry: header, payload and backlen. -/
def entry (x : Bytes) : Bytes := payload x ++ lpEncodeBacklen (payload x).length

/-- The range of `int64_t`. -/
def Int64Range (v : Int) : Prop := -2 ^ 63 ≤ v ∧ v < 2 ^ 63

instance (v : Int) : Decidable (Int64Range v) := inferInstanceAs (Decidable (_ ∧ _))

private theorem lpDigits_some {text : Bytes} {start v : Nat} (ran : lpDigits text start = some v) :
    (∀ byte ∈ text, isDigit byte = true) ∧ v = start * 10 ^ text.length + ofDecimal text := by
  induction text generalizing start with
  | nil =>
    cases ran
    simp
  | cons byte rest ih =>
    simp only [lpDigits] at ran
    split at ran
    · rename_i digit
      split at ran
      · cases ran
      · split at ran
        · cases ran
        · obtain ⟨digits, value⟩ := ih ran
          refine ⟨by simpa [digit] using digits, ?_⟩
          rw [value, ofDecimal_cons, List.length_cons, Nat.pow_succ]
          ring
    · cases ran

/-- The digit loop reads every run of digits whose value fits 64 bits. -/
private theorem lpDigits_fits {text : Bytes} {start : Nat}
    (digits : ∀ byte ∈ text, isDigit byte = true)
    (fits : start * 10 ^ text.length + ofDecimal text ≤ uint64Max) :
    lpDigits text start = some (start * 10 ^ text.length + ofDecimal text) := by
  induction text generalizing start with
  | nil => simp [lpDigits]
  | cons byte rest ih =>
    have split : start * 10 ^ (byte :: rest).length + ofDecimal (byte :: rest) =
        (start * 10 + digitValue byte) * 10 ^ rest.length + ofDecimal rest := by
      rw [ofDecimal_cons, List.length_cons, Nat.pow_succ]
      ring
    rw [split] at fits ⊢
    have positive : 0 < 10 ^ rest.length := Nat.pow_pos (by decide)
    have head : start * 10 + digitValue byte ≤ uint64Max :=
      le_trans (le_trans (Nat.le_mul_of_pos_right _ positive) (Nat.le_add_right _ _)) fits
    have first : ¬ start > uint64Max / 10 := by unfold uint64Max at head ⊢; omega
    have second : ¬ start * 10 > uint64Max - digitValue byte := by omega
    simp only [lpDigits, digits byte (by simp), ↓reduceIte, first, second]
    exact ih (fun byte member => digits byte (List.mem_cons_of_mem _ member)) fits

private theorem lpMagnitude_some {text : Bytes} {v : Nat} (ran : lpMagnitude text = some v) :
    toDecimal v = text ∧ v ≠ 0 := by
  cases text with
  | nil => cases ran
  | cons first rest =>
    simp only [lpMagnitude] at ran
    split at ran
    · rename_i leading
      obtain ⟨digits, value⟩ := lpDigits_some ran
      have firstDigit : isDigit first = true := by
        simp only [UInt8.le_iff_toNat_le] at leading
        rw [isDigit_iff]
        have := leading.1
        have := leading.2
        simp at *
        omega
      have nonzero : first ≠ 48 := by
        rintro rfl
        exact absurd leading.1 (by decide)
      have whole : v = ofDecimal (first :: rest) := by rw [value, ofDecimal_cons]
      rw [whole]
      have every : ∀ byte ∈ first :: rest, isDigit byte = true := by
        simpa [firstDigit] using digits
      have text := toDecimal_ofDecimal every nonzero
      refine ⟨text, fun zero => ?_⟩
      rw [zero] at text
      simp only [toDecimal, ↓reduceIte, List.cons.injEq] at text
      exact nonzero text.1.symm
    · cases ran

private theorem lpMagnitude_toDecimal {v : Nat} (positive : v ≠ 0) (fits : v ≤ uint64Max) :
    lpMagnitude (toDecimal v) = some v := by
  obtain ⟨d, rest, text, dPositive, dSmall⟩ := toDecimal_head v positive
  have digits := toDecimal_digits v
  rw [text] at digits ⊢
  have value : ofDecimal (digitByte d :: rest) = v := by rw [← text, ofDecimal_toDecimal]
  rw [ofDecimal_cons] at value
  have leading : 49 ≤ digitByte d ∧ digitByte d ≤ 57 := by
    simp only [UInt8.le_iff_toNat_le, digitByte_toNat dSmall]
    simp
    omega
  rw [lpMagnitude, if_pos leading,
    lpDigits_fits (fun byte member => digits byte (List.mem_cons_of_mem _ member)) (by omega), value]

private theorem toDecimal_ne_minus {v : Nat} {rest : Bytes} : toDecimal v ≠ 45 :: rest := by
  intro text
  have digit := toDecimal_digits v 45 (by rw [text]; simp)
  exact absurd digit (by decide)

/-- A string is taken for an integer only when it is that integer's numeral. -/
theorem lpStringToInt64_some {s : Bytes} {v : Int} (ran : lpStringToInt64 s = some v) :
    intToDecimal v = s ∧ Int64Range v := by
  unfold lpStringToInt64 at ran
  split at ran
  · cases ran
  · split at ran
    · rename_i zero
      cases ran
      subst zero
      exact ⟨by decide, by unfold Int64Range; omega⟩
    · split at ran
      · split at ran
        · rename_i rest _ v magnitude
          split at ran
          · cases ran
          · rename_i small
            obtain ⟨text, nonzero⟩ := lpMagnitude_some magnitude
            cases ran
            rw [i64_of_range (by omega) (by omega)]
            refine ⟨?_, by unfold Int64Range; omega⟩
            rw [intToDecimal, if_pos (by omega)]
            simpa using text
        · cases ran
      · split at ran
        · rename_i v magnitude
          split at ran
          · cases ran
          · rename_i small
            obtain ⟨text, nonzero⟩ := lpMagnitude_some magnitude
            cases ran
            refine ⟨?_, by unfold Int64Range; omega⟩
            rw [intToDecimal, if_neg (by omega)]
            simpa using text
        · cases ran

/-- Every 64-bit integer's numeral is taken for that integer. -/
theorem lpStringToInt64_intToDecimal {v : Int} (range : Int64Range v) :
    lpStringToInt64 (intToDecimal v) = some v := by
  obtain ⟨low, high⟩ := range
  by_cases zero : v = 0
  · subst zero
    decide
  have length := toDecimal_length_le (n := v.natAbs) (k := 19) (by omega) (by decide)
  have positive := toDecimal_length_pos v.natAbs
  have fits : v.natAbs ≤ uint64Max := by unfold uint64Max; omega
  have magnitude := lpMagnitude_toDecimal (v := v.natAbs) (by omega) fits
  unfold intToDecimal lpStringToInt64
  by_cases negative : v < 0
  · have size : ¬ ((45 :: toDecimal v.natAbs).length = 0 ∨
        (45 :: toDecimal v.natAbs).length ≥ maxLongIntStrLen) := by
      simp only [List.length_cons, maxLongIntStrLen]
      omega
    have notZero : (45 :: toDecimal v.natAbs : Bytes) ≠ [48] := by simp
    rw [if_pos negative, if_neg size, if_neg notZero]
    simp only [magnitude]
    rw [if_neg (by omega), i64_of_range (by omega) (by omega)]
    congr 1
    omega
  · have size : ¬ ((toDecimal v.natAbs).length = 0 ∨
        (toDecimal v.natAbs).length ≥ maxLongIntStrLen) := by
      simp only [maxLongIntStrLen]
      omega
    have notZero : toDecimal v.natAbs ≠ [48] := by
      intro text
      have value := ofDecimal_toDecimal v.natAbs
      rw [text] at value
      exact zero (by simp [ofDecimal_cons, digitValue] at value; omega)
    rw [if_neg negative, if_neg size, if_neg notZero]
    split
    · rename_i rest text
      exact absurd text toDecimal_ne_minus
    · rw [magnitude]
      simp only
      rw [if_neg (by omega)]
      congr 1
      omega

private theorem header_7 : ∀ k < 128, lpEncodingIs7BitUint (UInt8.ofNat k) = true ∧
    UInt8.ofNat k &&& 0x7F = UInt8.ofNat k ∧ UInt8.ofNat k ≠ lpEof := by decide

private theorem header_13 : ∀ k < 32, ∀ byte, byte = UInt8.ofNat (k ||| 0xC0) →
    lpEncodingIs7BitUint byte = false ∧ lpEncodingIs6BitStr byte = false ∧
    lpEncodingIs13BitInt byte = true ∧ (byte &&& 0x1F).toNat = k ∧ byte ≠ lpEof := by
  rintro k small _ rfl
  revert k
  decide

private theorem header_6 : ∀ k < 64, ∀ byte, byte = UInt8.ofNat (k ||| 0x80) →
    lpEncodingIs7BitUint byte = false ∧ lpEncodingIs13BitInt byte = false ∧
    lpEncodingIs16BitInt byte = false ∧ lpEncodingIs24BitInt byte = false ∧
    lpEncodingIs32BitInt byte = false ∧ lpEncodingIs64BitInt byte = false ∧
    lpEncodingIs6BitStr byte = true ∧ (byte &&& 0x3F).toNat = k ∧ byte ≠ lpEof := by
  rintro k small _ rfl
  revert k
  decide

private theorem header_12 : ∀ k < 16, ∀ byte, byte = UInt8.ofNat (k ||| 0xE0) →
    lpEncodingIs7BitUint byte = false ∧ lpEncodingIs13BitInt byte = false ∧
    lpEncodingIs16BitInt byte = false ∧ lpEncodingIs24BitInt byte = false ∧
    lpEncodingIs32BitInt byte = false ∧ lpEncodingIs64BitInt byte = false ∧
    lpEncodingIs6BitStr byte = false ∧ lpEncodingIs12BitStr byte = true ∧
    (byte &&& 0xF).toNat = k ∧ byte ≠ lpEof := by
  rintro k small _ rfl
  revert k
  decide

/-- The shape of a payload: one of the six integer headers, or one of the
three string headers in front of the string itself. -/
inductive Shape (x : Bytes) : Bytes → Prop where
  | uint7 (v : Nat) (small : v < 128) (text : intToDecimal v = x) : Shape x [UInt8.ofNat v]
  | int13 (v : Int) (u : Nat) (low : -4096 ≤ v) (high : v ≤ 4095) (text : intToDecimal v = x)
      (raised : (u : Int) = if v < 0 then 2 ^ 13 + v else v) :
      Shape x [UInt8.ofNat (u >>> 8 ||| 0xC0), UInt8.ofNat (u &&& 0xFF)]
  | int16 (v : Int) (u : Nat) (low : -32768 ≤ v) (high : v ≤ 32767) (text : intToDecimal v = x)
      (raised : (u : Int) = if v < 0 then 2 ^ 16 + v else v) :
      Shape x [0xF1, UInt8.ofNat (u &&& 0xFF), UInt8.ofNat (u >>> 8)]
  | int24 (v : Int) (u : Nat) (low : -8388608 ≤ v) (high : v ≤ 8388607) (text : intToDecimal v = x)
      (raised : (u : Int) = if v < 0 then 2 ^ 24 + v else v) :
      Shape x [0xF2, UInt8.ofNat (u &&& 0xFF), UInt8.ofNat (u >>> 8 &&& 0xFF), UInt8.ofNat (u >>> 16)]
  | int32 (v : Int) (u : Nat) (low : -2 ^ 31 ≤ v) (high : v < 2 ^ 31) (text : intToDecimal v = x)
      (raised : (u : Int) = if v < 0 then 2 ^ 32 + v else v) :
      Shape x [0xF3, UInt8.ofNat (u &&& 0xFF), UInt8.ofNat (u >>> 8 &&& 0xFF),
        UInt8.ofNat (u >>> 16 &&& 0xFF), UInt8.ofNat (u >>> 24)]
  | int64 (v : Int) (u : Nat) (range : Int64Range v) (wide : v < -2 ^ 31 ∨ 2 ^ 31 ≤ v)
      (text : intToDecimal v = x) (raised : (u : Int) = if v < 0 then 2 ^ 64 + v else v) :
      Shape x [0xF4, UInt8.ofNat (u &&& 0xFF), UInt8.ofNat (u >>> 8 &&& 0xFF),
        UInt8.ofNat (u >>> 16 &&& 0xFF), UInt8.ofNat (u >>> 24 &&& 0xFF),
        UInt8.ofNat (u >>> 32 &&& 0xFF), UInt8.ofNat (u >>> 40 &&& 0xFF),
        UInt8.ofNat (u >>> 48 &&& 0xFF), UInt8.ofNat (u >>> 56)]
  | str6 (small : x.length < 64) : Shape x (UInt8.ofNat (x.length ||| 0x80) :: x)
  | str12 (large : 64 ≤ x.length) (small : x.length < 4096) :
      Shape x (UInt8.ofNat (x.length >>> 8 ||| 0xE0) :: UInt8.ofNat (x.length &&& 0xFF) :: x)
  | str32 (large : 4096 ≤ x.length) :
      Shape x (0xF0 :: UInt8.ofNat (x.length &&& 0xFF) :: UInt8.ofNat (x.length >>> 8 &&& 0xFF) ::
        UInt8.ofNat (x.length >>> 16 &&& 0xFF) :: UInt8.ofNat (x.length >>> 24 &&& 0xFF) :: x)

private theorem lpEncodeIntegerGetType_shape {v : Int} (range : Int64Range v) :
    Shape (intToDecimal v) (lpEncodeIntegerGetType v) := by
  obtain ⟨low, high⟩ := range
  unfold lpEncodeIntegerGetType
  split
  · rename_i bounds
    have text : intToDecimal (v.toNat : Int) = intToDecimal v := by
      congr 1
      omega
    exact .uint7 v.toNat (by omega) text
  · split
    · exact .int13 v _ (by omega) (by omega) rfl (by split <;> omega)
    · split
      · exact .int16 v _ (by omega) (by omega) rfl (by split <;> omega)
      · split
        · exact .int24 v _ (by omega) (by omega) rfl (by split <;> omega)
        · split
          · exact .int32 v _ (by omega) (by omega) rfl (by split <;> omega)
          · exact .int64 v _ ⟨low, high⟩ (by omega) rfl (by split <;> omega)

private theorem lpEncodeString_shape (x : Bytes) : Shape x (lpEncodeString x) := by
  unfold lpEncodeString
  dsimp only
  split
  · exact .str6 ‹_›
  · split
    · exact .str12 (by omega) ‹_›
    · exact .str32 (by omega)

theorem payload_shape (x : Bytes) : Shape x (payload x) := by
  unfold payload
  split
  · rename_i v taken
    obtain ⟨text, range⟩ := lpStringToInt64_some taken
    rw [← text]
    exact lpEncodeIntegerGetType_shape range
  · exact lpEncodeString_shape x

/-- An element the validator's header table does not know: the text of an
integer that needs the 64-bit encoding. -/
def Wide (x : Bytes) : Prop := ∃ v, lpStringToInt64 x = some v ∧ (v < -2 ^ 31 ∨ 2 ^ 31 ≤ v)

private theorem shape_nonempty (shape : Shape x bytes) : bytes ≠ [] := by
  cases shape <;> simp

theorem payload_ne_nil (x : Bytes) : payload x ≠ [] := shape_nonempty (payload_shape x)

/-- The first byte of an entry is never the end marker. -/
private theorem shape_head (shape : Shape x (byte :: rest)) : byte ≠ lpEof := by
  cases shape with
  | uint7 v small => exact (header_7 v small).2.2
  | int13 v u => exact (header_13 (u >>> 8) (by rw [Nat.shiftRight_eq_div_pow]; omega) _ rfl).2.2.2.2
  | int16 => decide
  | int24 => decide
  | int32 => decide
  | int64 => decide
  | str6 small => exact (header_6 _ small _ rfl).2.2.2.2.2.2.2.2
  | str12 _ _ =>
    exact (header_12 (x.length >>> 8) (by rw [Nat.shiftRight_eq_div_pow]; omega) _ rfl).2.2.2.2.2.2.2.2.2
  | str32 => decide

private theorem le_bytes_12 {n : Nat} {k : UInt8} (high : k.toNat = n >>> 8) :
    k.toNat <<< 8 ||| (UInt8.ofNat (n &&& 0xFF)).toNat = n := by
  rw [high, toNat_ofNat_and, Nat.shiftRight_eq_div_pow, shiftLeft_or _ (by omega)]
  omega

private theorem le_bytes_32 {n : Nat} (small : n < 2 ^ 32) :
    (UInt8.ofNat (n &&& 0xFF)).toNat ||| (UInt8.ofNat (n >>> 8 &&& 0xFF)).toNat <<< 8 |||
      (UInt8.ofNat (n >>> 16 &&& 0xFF)).toNat <<< 16 |||
      (UInt8.ofNat (n >>> 24 &&& 0xFF)).toNat <<< 24 = n := by
  simp only [toNat_ofNat_and, Nat.shiftRight_eq_div_pow]
  rw [le32_eq (by omega) (by omega) (by omega)]
  omega

private theorem le_bytes_64 {n : Nat} (small : n < 2 ^ 64) :
    (UInt8.ofNat (n &&& 0xFF)).toNat ||| (UInt8.ofNat (n >>> 8 &&& 0xFF)).toNat <<< 8 |||
      (UInt8.ofNat (n >>> 16 &&& 0xFF)).toNat <<< 16 |||
      (UInt8.ofNat (n >>> 24 &&& 0xFF)).toNat <<< 24 |||
      (UInt8.ofNat (n >>> 32 &&& 0xFF)).toNat <<< 32 |||
      (UInt8.ofNat (n >>> 40 &&& 0xFF)).toNat <<< 40 |||
      (UInt8.ofNat (n >>> 48 &&& 0xFF)).toNat <<< 48 |||
      (UInt8.ofNat (n >>> 56)).toNat <<< 56 = n := by
  simp only [toNat_ofNat_and, toNat_ofNat_shiftRight]
  simp only [Nat.shiftRight_eq_div_pow]
  rw [le64_eq (by omega) (by omega) (by omega) (by omega) (by omega) (by omega) (by omega)]
  omega

private theorem lpCurrentEncodedSizeUnsafe_shape (shape : Shape x bytes) (held : Holds lp p bytes)
    (bound : x.length < 2 ^ 32 - 5) : lpCurrentEncodedSizeUnsafe lp p = .ok bytes.length := by
  unfold lpCurrentEncodedSizeUnsafe
  cases shape with
  | uint7 v small =>
    obtain ⟨b0, _⟩ := holds_cons.mp held
    simp only [b0, header_7 v small, exec_ok_bind, exec_pure, ↓reduceIte, List.length_singleton]
  | int13 v u low high text raised =>
    generalize eq : UInt8.ofNat (u >>> 8 ||| 0xC0) = byte at held
    obtain ⟨b0, _⟩ := holds_cons.mp held
    obtain ⟨is7, is6, is13, -⟩ := header_13 (u >>> 8)
      (by rw [Nat.shiftRight_eq_div_pow]; split at raised <;> omega) byte eq.symm
    simp only [b0, is7, is13, exec_ok_bind, exec_pure, Bool.false_eq_true, ↓reduceIte]
    rfl
  | int16 | int24 | int32 | int64 =>
    obtain ⟨b0, _⟩ := holds_cons.mp held
    rw [b0]
    rfl
  | str6 small =>
    generalize eq : UInt8.ofNat (x.length ||| 0x80) = byte at held
    obtain ⟨b0, _⟩ := holds_cons.mp held
    obtain ⟨is7, is13, is16, is24, is32, is64, is6, len, -⟩ := header_6 _ small byte eq.symm
    simp only [b0, lpEncoding6BitStrLen, is7, is13, is16, is24, is32, is64, is6, len, exec_ok_bind,
      exec_pure, Bool.false_eq_true, ↓reduceIte, List.length_cons, Nat.add_comm]
  | str12 large small =>
    generalize eq : UInt8.ofNat (x.length >>> 8 ||| 0xE0) = byte at held
    simp only [holds_cons] at held
    obtain ⟨b0, b1, _⟩ := held
    obtain ⟨is7, is13, is16, is24, is32, is64, is6, is12, len, -⟩ := header_12 (x.length >>> 8)
      (by rw [Nat.shiftRight_eq_div_pow]; omega) byte eq.symm
    simp only [b0, b1, lpEncoding12BitStrLen, is7, is13, is16, is24, is32, is64, is6, is12,
      exec_ok_bind, exec_pure, Bool.false_eq_true, ↓reduceIte, le_bytes_12 len, List.length_cons]
    congr 1
    omega
  | str32 large =>
    simp only [holds_cons, Nat.add_assoc, Nat.reduceAdd] at held
    obtain ⟨b0, b1, b2, b3, b4, _⟩ := held
    have size : u32 (5 + x.length) = 5 + x.length := u32_of_lt (by omega)
    rw [b0]
    change (do return u32 (5 + (← lpEncoding32BitStrLen lp p))) = _
    simp only [b1, b2, b3, b4, lpEncoding32BitStrLen, exec_ok_bind, exec_pure,
      le_bytes_32 (show x.length < 2 ^ 32 by omega), size, List.length_cons]
    congr 1
    omega

/-- The size table agrees with the encoder on every class. -/
theorem lpCurrentEncodedSizeUnsafe_payload (held : Holds lp p (payload x))
    (bound : x.length < 2 ^ 32 - 5) :
    lpCurrentEncodedSizeUnsafe lp p = .ok (payload x).length :=
  lpCurrentEncodedSizeUnsafe_shape (payload_shape x) held bound

private theorem lpCurrentEncodedSizeBytes_shape (shape : Shape x bytes) (held : Holds lp p bytes)
    (narrow : ¬ Wide x) :
    ∃ size, lpCurrentEncodedSizeBytes lp p = .ok size ∧ 0 < size ∧ size ≤ bytes.length := by
  unfold lpCurrentEncodedSizeBytes
  cases shape with
  | uint7 v small =>
    obtain ⟨b0, _⟩ := holds_cons.mp held
    exact ⟨1, by simp only [b0, header_7 v small, exec_ok_bind, exec_pure, ↓reduceIte], by simp⟩
  | int13 v u low high text raised =>
    generalize eq : UInt8.ofNat (u >>> 8 ||| 0xC0) = byte at held
    obtain ⟨b0, _⟩ := holds_cons.mp held
    obtain ⟨is7, is6, is13, -⟩ := header_13 (u >>> 8)
      (by rw [Nat.shiftRight_eq_div_pow]; split at raised <;> omega) byte eq.symm
    exact ⟨1, by simp only [b0, is7, is13, exec_ok_bind, exec_pure, Bool.false_eq_true, ↓reduceIte],
      by simp⟩
  | int16 | int24 | int32 =>
    obtain ⟨b0, _⟩ := holds_cons.mp held
    exact ⟨1, by rw [b0]; rfl, by simp⟩
  | int64 v u range wide text raised =>
    exact absurd ⟨v, by rw [← text, lpStringToInt64_intToDecimal range], wide⟩ narrow
  | str6 small =>
    generalize eq : UInt8.ofNat (x.length ||| 0x80) = byte at held
    obtain ⟨b0, _⟩ := holds_cons.mp held
    obtain ⟨is7, is13, is16, is24, is32, is64, is6, -⟩ := header_6 _ small byte eq.symm
    exact ⟨1, by simp only [b0, is7, is13, is16, is24, is32, is6, exec_ok_bind, exec_pure,
      Bool.false_eq_true, ↓reduceIte], by simp⟩
  | str12 large small =>
    generalize eq : UInt8.ofNat (x.length >>> 8 ||| 0xE0) = byte at held
    obtain ⟨b0, _⟩ := holds_cons.mp held
    obtain ⟨is7, is13, is16, is24, is32, is64, is6, is12, -⟩ := header_12 (x.length >>> 8)
      (by rw [Nat.shiftRight_eq_div_pow]; omega) byte eq.symm
    exact ⟨2, by simp only [b0, is7, is13, is16, is24, is32, is6, is12, exec_ok_bind, exec_pure,
      Bool.false_eq_true, ↓reduceIte], by simp⟩
  | str32 large =>
    obtain ⟨b0, _⟩ := holds_cons.mp held
    exact ⟨5, by rw [b0]; rfl, by simp⟩

/-- The validator's header table knows every narrow element. -/
theorem lpCurrentEncodedSizeBytes_narrow (held : Holds lp p (payload x)) (narrow : ¬ Wide x) :
    ∃ size, lpCurrentEncodedSizeBytes lp p = .ok size ∧ 0 < size ∧ size ≤ (payload x).length :=
  lpCurrentEncodedSizeBytes_shape (payload_shape x) held narrow

private theorem payload_wide (wide : Wide x) : ∃ rest, payload x = 0xF4 :: rest := by
  obtain ⟨v, taken, outside⟩ := wide
  obtain ⟨-, low, high⟩ := lpStringToInt64_some taken
  unfold payload lpEncodeIntegerGetType
  simp only [taken]
  repeat rw [if_neg (by omega)]
  exact ⟨_, rfl⟩

/-- The validator's header table has no entry for a wide element. -/
theorem lpCurrentEncodedSizeBytes_wide (held : Holds lp p (payload x)) (wide : Wide x) :
    lpCurrentEncodedSizeBytes lp p = .ok 0 := by
  obtain ⟨rest, text⟩ := payload_wide wide
  rw [text] at held
  obtain ⟨b0, _⟩ := holds_cons.mp held
  unfold lpCurrentEncodedSizeBytes
  rw [b0]
  rfl

/-- An entry never starts with the end marker. -/
theorem payload_cons (x : Bytes) : ∃ byte rest, payload x = byte :: rest ∧ byte ≠ lpEof := by
  have shape := payload_shape x
  cases text : payload x with
  | nil => exact absurd text (payload_ne_nil x)
  | cons byte rest =>
    rw [text] at shape
    exact ⟨byte, rest, rfl, shape_head shape⟩

theorem payload_head (held : Holds lp p (payload x)) :
    ∃ byte, readByte lp p = .ok byte ∧ byte ≠ lpEof := by
  obtain ⟨byte, rest, text, notEnd⟩ := payload_cons x
  rw [text] at held
  exact ⟨byte, (holds_cons.mp held).1, notEnd⟩

/-- `lpEncodeGetType` announces exactly the length that is then written. -/
theorem lpEncodeGetType_payload (x : Bytes) :
    (lpEncodeGetType x).2 = (payload x).length ∧
      (lpEncodeGetType x).1.getD (lpEncodeString x) = payload x := by
  unfold lpEncodeGetType payload
  cases lpStringToInt64 x with
  | some v => exact ⟨rfl, rfl⟩
  | none =>
    refine ⟨?_, rfl⟩
    unfold lpEncodeString
    dsimp only
    split_ifs <;> simp only [List.length_cons] <;> omega

/-- A payload exceeds its string by a bounded number of header bytes. -/
theorem payload_length_le (x : Bytes) : (payload x).length ≤ x.length + 9 := by
  have shape := payload_shape x
  generalize payload x = bytes at shape
  cases shape <;> simp only [List.length_cons, List.length_nil] <;> omega

/-! ## The length written behind an entry -/

private theorem low_group (n shift : Nat) :
    ((UInt8.ofNat (n >>> shift &&& 127 ||| 128)) &&& 127).toNat = n / 2 ^ shift % 128 ∧
      (UInt8.ofNat (n >>> shift &&& 127 ||| 128) &&& 128 == 0) = false := by
  rw [Nat.shiftRight_eq_div_pow, show 127 = 2 ^ 7 - 1 from rfl, Nat.and_two_pow_sub_one_eq_mod]
  have check : ∀ k < 128, (UInt8.ofNat (k ||| 128) &&& 127).toNat = k ∧
      (UInt8.ofNat (k ||| 128) &&& 128 == 0) = false := by decide
  exact check _ (Nat.mod_lt _ (by decide))

private theorem last_group {n : Nat} (small : n < 128) :
    ((UInt8.ofNat n) &&& 127).toNat = n ∧ (UInt8.ofNat n &&& 128 == 0) = true := by
  revert n
  decide

theorem lpEncodeBacklen_length (l : Nat) : (lpEncodeBacklen l).length = lpEncodeBacklenBytes l := by
  unfold lpEncodeBacklen lpEncodeBacklenBytes
  split_ifs <;> rfl

theorem lpEncodeBacklenBytes_pos (l : Nat) : 0 < lpEncodeBacklenBytes l := by
  unfold lpEncodeBacklenBytes
  split_ifs <;> decide

theorem lpEncodeBacklenBytes_le (l : Nat) : lpEncodeBacklenBytes l ≤ 5 := by
  unfold lpEncodeBacklenBytes
  split_ifs <;> decide

/-- A byte with the continuation bit sends the decoder one byte back. -/
private theorem lpDecodeBacklenLoop_more {byte : UInt8} (read : readByte lp (p + 1) = .ok byte)
    (more : (byte &&& 128 == 0) = false) (room : shift + 7 ≤ 28) :
    lpDecodeBacklenLoop lp (rounds + 1) (p + 1) value shift =
      lpDecodeBacklenLoop lp rounds p ((byte &&& 127).toNat <<< shift ||| value) (shift + 7) := by
  have notOver : ¬ shift + 7 > 28 := by omega
  simp only [lpDecodeBacklenLoop, read, exec_ok_bind, more, notOver, Bool.false_eq_true, ↓reduceIte,
    Nat.succ_ne_zero, Nat.add_sub_cancel]

/-- A byte without it ends the length. -/
private theorem lpDecodeBacklenLoop_last {byte : UInt8} (read : readByte lp p = .ok byte)
    (last : (byte &&& 128 == 0) = true) :
    lpDecodeBacklenLoop lp (rounds + 1) p value shift =
      .ok ((byte &&& 127).toNat <<< shift ||| value) := by
  simp only [lpDecodeBacklenLoop, read, exec_ok_bind, last, ↓reduceIte, exec_pure]

/-- Reading a length backwards from its last byte gives the length, at every
boundary of the five size classes. -/
theorem lpDecodeBacklen_encoded {l : Nat} (held : Holds lp p (lpEncodeBacklen l))
    (small : l < 2 ^ 35) : lpDecodeBacklen lp (p + lpEncodeBacklenBytes l - 1) = .ok l := by
  have low0 := low_group l 0
  simp only [Nat.shiftRight_zero, pow_zero, Nat.div_one] at low0
  unfold lpEncodeBacklen at held
  unfold lpDecodeBacklen lpEncodeBacklenBytes
  split_ifs at held ⊢ with c1 c2 c3 c4
  · obtain ⟨b0, _⟩ := holds_cons.mp held
    obtain ⟨value, last⟩ := last_group (show l < 128 by omega)
    rw [Nat.add_sub_cancel, lpDecodeBacklenLoop_last b0 last, value]
    simp
  · simp only [holds_cons] at held
    obtain ⟨b0, b1, _⟩ := held
    rw [Nat.shiftRight_eq_div_pow] at b0
    obtain ⟨value, last⟩ := last_group (show l / 2 ^ 7 < 128 by omega)
    rw [show p + 2 - 1 = p + 1 by omega, lpDecodeBacklenLoop_more b1 low0.2 (by decide),
      lpDecodeBacklenLoop_last b0 last, value, low0.1]
    simp only [Nat.shiftLeft_zero, Nat.or_zero, Nat.zero_add]
    rw [shiftLeft_or _ (by omega)]
    congr 1
    omega
  · simp only [holds_cons, Nat.add_assoc, Nat.reduceAdd] at held
    obtain ⟨b0, b1, b2, _⟩ := held
    rw [Nat.shiftRight_eq_div_pow] at b0
    obtain ⟨value, last⟩ := last_group (show l / 2 ^ 14 < 128 by omega)
    rw [show p + 3 - 1 = p + 1 + 1 by omega, lpDecodeBacklenLoop_more b2 low0.2 (by decide),
      lpDecodeBacklenLoop_more b1 (low_group l 7).2 (by decide),
      lpDecodeBacklenLoop_last b0 last, value, low0.1, (low_group l 7).1]
    simp only [Nat.shiftLeft_zero, Nat.or_zero, Nat.zero_add, Nat.reduceAdd]
    have h7 : (l / 2 ^ 7 % 128) <<< 7 ||| l % 128 = l % 128 + l / 2 ^ 7 % 128 * 2 ^ 7 :=
      shiftLeft_or _ (Nat.mod_lt _ (by decide))
    rw [h7, shiftLeft_or _ (by omega)]
    congr 1
    omega
  · simp only [holds_cons, Nat.add_assoc, Nat.reduceAdd] at held
    obtain ⟨b0, b1, b2, b3, _⟩ := held
    rw [Nat.shiftRight_eq_div_pow] at b0
    obtain ⟨value, last⟩ := last_group (show l / 2 ^ 21 < 128 by omega)
    rw [show p + 4 - 1 = p + 1 + 1 + 1 by omega, lpDecodeBacklenLoop_more b3 low0.2 (by decide),
      lpDecodeBacklenLoop_more b2 (low_group l 7).2 (by decide),
      lpDecodeBacklenLoop_more b1 (low_group l 14).2 (by decide),
      lpDecodeBacklenLoop_last b0 last, value, low0.1, (low_group l 7).1, (low_group l 14).1]
    simp only [Nat.shiftLeft_zero, Nat.or_zero, Nat.zero_add, Nat.reduceAdd]
    have h7 : (l / 2 ^ 7 % 128) <<< 7 ||| l % 128 = l % 128 + l / 2 ^ 7 % 128 * 2 ^ 7 :=
      shiftLeft_or _ (Nat.mod_lt _ (by decide))
    have h14 := @shiftLeft_or _ (l / 2 ^ 14 % 128) 14
      (show l % 128 + l / 2 ^ 7 % 128 * 2 ^ 7 < 2 ^ 14 by omega)
    rw [h7, h14, shiftLeft_or _ (by omega)]
    congr 1
    omega
  · simp only [holds_cons, Nat.add_assoc, Nat.reduceAdd] at held
    obtain ⟨b0, b1, b2, b3, b4, _⟩ := held
    rw [Nat.shiftRight_eq_div_pow] at b0
    obtain ⟨value, last⟩ := last_group (show l / 2 ^ 28 < 128 by omega)
    rw [show p + 5 - 1 = p + 1 + 1 + 1 + 1 by omega,
      lpDecodeBacklenLoop_more b4 low0.2 (by decide),
      lpDecodeBacklenLoop_more b3 (low_group l 7).2 (by decide),
      lpDecodeBacklenLoop_more b2 (low_group l 14).2 (by decide),
      lpDecodeBacklenLoop_more b1 (low_group l 21).2 (by decide),
      lpDecodeBacklenLoop_last b0 last, value, low0.1, (low_group l 7).1, (low_group l 14).1,
      (low_group l 21).1]
    simp only [Nat.shiftLeft_zero, Nat.or_zero, Nat.zero_add, Nat.reduceAdd]
    have h7 : (l / 2 ^ 7 % 128) <<< 7 ||| l % 128 = l % 128 + l / 2 ^ 7 % 128 * 2 ^ 7 :=
      shiftLeft_or _ (Nat.mod_lt _ (by decide))
    have h14 := @shiftLeft_or _ (l / 2 ^ 14 % 128) 14
      (show l % 128 + l / 2 ^ 7 % 128 * 2 ^ 7 < 2 ^ 14 by omega)
    have h21 := @shiftLeft_or _ (l / 2 ^ 21 % 128) 21
      (show l % 128 + l / 2 ^ 7 % 128 * 2 ^ 7 + l / 2 ^ 14 % 128 * 2 ^ 14 < 2 ^ 21 by omega)
    rw [h7, h14, h21, shiftLeft_or _ (by omega)]
    congr 1
    omega

/-- The loop of `lpDecodeBacklen` with the offsets that it reads, in the order
of its reads. -/
def lpDecodeBacklenLoopReads (lp : Bytes) : (rounds p value shift : Nat) → Exec (Nat × List Nat)
  | 0, _, _, _ => pure (uint64Max, [])
  | rounds + 1, p, value, shift => do
    let byte ← readByte lp p
    let value := (byte &&& 127).toNat <<< shift ||| value
    if byte &&& 128 == 0 then pure (value, [p])
    else if shift + 7 > 28 then pure (uint64Max, [p])
    else if p = 0 then throw .undefinedBehaviour
    else do
      let (length, reads) ← lpDecodeBacklenLoopReads lp rounds (p - 1) value (shift + 7)
      pure (length, p :: reads)

/-- `lpDecodeBacklen` with the offsets that it reads. -/
def lpDecodeBacklenReads (lp : Bytes) (p : Nat) : Exec (Nat × List Nat) :=
  lpDecodeBacklenLoopReads lp 5 p 0 0

/-- Watching the reads does not change the length. -/
theorem lpDecodeBacklenLoopReads_fst (lp : Bytes) (rounds p value shift : Nat) :
    Prod.fst <$> lpDecodeBacklenLoopReads lp rounds p value shift =
      lpDecodeBacklenLoop lp rounds p value shift := by
  induction rounds generalizing p value shift with
  | zero => rfl
  | succ rounds ih =>
    simp only [lpDecodeBacklenLoopReads, lpDecodeBacklenLoop]
    cases readByte lp p with
    | error fault => rfl
    | ok byte =>
      simp only [exec_ok_bind]
      split_ifs with last beyond front
      · rfl
      · rfl
      · rfl
      · rw [← ih]
        cases lpDecodeBacklenLoopReads lp rounds (p - 1) _ (shift + 7) <;> rfl

theorem lpDecodeBacklenReads_fst (lp : Bytes) (p : Nat) :
    Prod.fst <$> lpDecodeBacklenReads lp p = lpDecodeBacklen lp p :=
  lpDecodeBacklenLoopReads_fst lp 5 p 0 0

/-- From the last of a run of continued bytes the reader goes back to the one
byte that is not continued, and no further. -/
private theorem lpDecodeBacklenLoopReads_groups {first : UInt8} {rest : Bytes}
    (rounds value shift : Nat) (held : Holds lp p (first :: rest)) (ends : (first &&& 128 == 0) = true)
    (continued : ∀ byte ∈ rest, (byte &&& 128 == 0) = false) (room : rest.length < rounds)
    (shifts : shift + 7 * rest.length ≤ 28) :
    ∃ length, lpDecodeBacklenLoopReads lp rounds (p + rest.length) value shift =
      .ok (length, (List.range' p (rest.length + 1)).reverse) := by
  obtain ⟨rounds, rfl⟩ : ∃ left, rounds = left + 1 := ⟨rounds - 1, by omega⟩
  induction rest using List.reverseRecOn generalizing rounds value shift with
  | nil =>
    obtain ⟨read, -⟩ := holds_cons.mp held
    refine ⟨(first &&& 127).toNat <<< shift ||| value, ?_⟩
    simp only [lpDecodeBacklenLoopReads, List.length_nil, Nat.add_zero, read, exec_ok_bind, ends,
      ↓reduceIte, exec_pure, Nat.zero_add, List.range'_one, List.reverse_singleton]
  | append_singleton rest byte ih =>
    rw [← List.cons_append, holds_append, List.length_cons, ← Nat.add_assoc] at held
    obtain ⟨front, last⟩ := held
    obtain ⟨read, -⟩ := holds_cons.mp last
    have more := continued byte (by simp)
    simp only [List.length_append, List.length_singleton] at room shifts ⊢
    have within : ¬ shift + 7 > 28 := by omega
    obtain ⟨left, rfl⟩ : ∃ left, rounds = left + 1 := ⟨rounds - 1, by omega⟩
    obtain ⟨length, earlier⟩ := ih ((byte &&& 127).toNat <<< shift ||| value) (shift + 7) front
      (fun byte member => continued byte (by simp [member])) (by omega) left (by omega)
    have positions : (List.range' p (rest.length + 1 + 1)).reverse =
        (p + rest.length + 1) :: (List.range' p (rest.length + 1)).reverse := by
      rw [List.range'_1_concat, List.reverse_append, List.reverse_singleton, List.singleton_append,
        Nat.add_assoc]
    refine ⟨length, ?_⟩
    rw [← Nat.add_assoc, lpDecodeBacklenLoopReads, positions]
    simp only [read, exec_ok_bind, more, Bool.false_eq_true, ↓reduceIte, within, Nat.succ_ne_zero,
      Nat.add_sub_cancel, earlier, exec_pure]

/-- A length is written as one byte that is not continued in front of bytes
that are. -/
private theorem lpEncodeBacklen_groups {l : Nat} (small : l < 2 ^ 35) :
    ∃ first rest, lpEncodeBacklen l = first :: rest ∧ (first &&& 128 == 0) = true ∧
      ∀ byte ∈ rest, (byte &&& 128 == 0) = false := by
  have low : (UInt8.ofNat (l &&& 127 ||| 128) &&& 128 == 0) = false := (low_group l 0).2
  have group := fun shift => (low_group l shift).2
  have front (shift : Nat) (above : l / 2 ^ shift < 128) :
      (UInt8.ofNat (l >>> shift) &&& 128 == 0) = true := by
    rw [Nat.shiftRight_eq_div_pow]
    exact (last_group above).2
  unfold lpEncodeBacklen
  split_ifs with c1 c2 c3 c4
  · exact ⟨_, _, rfl, (last_group (show l < 128 by omega)).2, by simp⟩
  · exact ⟨_, _, rfl, front 7 (by omega), by simp only [List.mem_singleton, forall_eq, low]⟩
  · exact ⟨_, _, rfl, front 14 (by omega), by
      simp only [List.mem_cons, List.mem_nil_iff, or_false, forall_eq_or_imp, forall_eq, low,
        group 7, and_self]⟩
  · exact ⟨_, _, rfl, front 21 (by omega), by
      simp only [List.mem_cons, List.mem_nil_iff, or_false, forall_eq_or_imp, forall_eq, low,
        group 7, group 14, and_self]⟩
  · exact ⟨_, _, rfl, front 28 (by omega), by
      simp only [List.mem_cons, List.mem_nil_iff, or_false, forall_eq_or_imp, forall_eq, low,
        group 7, group 14, group 21, and_self]⟩

/-- The decoder of an encoded length reads the bytes of the length, each once
and from the last to the first, and no others. -/
theorem lpDecodeBacklenReads_encoded {l : Nat} (held : Holds lp p (lpEncodeBacklen l))
    (small : l < 2 ^ 35) : lpDecodeBacklenReads lp (p + lpEncodeBacklenBytes l - 1) =
      .ok (l, (List.range' p (lpEncodeBacklenBytes l)).reverse) := by
  obtain ⟨first, rest, groups, ends, continued⟩ := lpEncodeBacklen_groups small
  have size : rest.length + 1 = lpEncodeBacklenBytes l := by
    rw [← lpEncodeBacklen_length, groups, List.length_cons]
  have bound := lpEncodeBacklenBytes_le l
  have value := (lpDecodeBacklenReads_fst lp (p + lpEncodeBacklenBytes l - 1)).trans
    (lpDecodeBacklen_encoded held small)
  rw [groups] at held
  obtain ⟨length, reads⟩ :=
    lpDecodeBacklenLoopReads_groups 5 0 0 held ends continued (by omega) (by omega)
  rw [← size, ← Nat.add_assoc, Nat.add_sub_cancel] at value ⊢
  unfold lpDecodeBacklenReads at value ⊢
  rw [reads] at value ⊢
  cases value
  rfl

/-- The backlen in full: as many bytes are written as were computed for them,
into the room left for them and nowhere else, and they alone are read when the
length is decoded from the last of them. -/
theorem backlen_round_trip {l : Nat} (before room after : Bytes) (small : l < 2 ^ 35)
    (computed : room.length = lpEncodeBacklenBytes l) :
    (lpEncodeBacklen l).length = lpEncodeBacklenBytes l ∧
    writeBytes (before ++ room ++ after) before.length (lpEncodeBacklen l) =
      .ok (before ++ lpEncodeBacklen l ++ after) ∧
    lpDecodeBacklen (before ++ lpEncodeBacklen l ++ after)
      (before.length + lpEncodeBacklenBytes l - 1) = .ok l ∧
    lpDecodeBacklenReads (before ++ lpEncodeBacklen l ++ after)
      (before.length + lpEncodeBacklenBytes l - 1) =
        .ok (l, (List.range' before.length (lpEncodeBacklenBytes l)).reverse) := by
  have written := lpEncodeBacklen_length l
  have held : Holds (before ++ lpEncodeBacklen l ++ after) before.length (lpEncodeBacklen l) := by
    rw [List.append_assoc]
    exact ⟨after, by rw [List.drop_left]⟩
  exact ⟨written, writeBytes_middle rfl (computed.trans written.symm),
    lpDecodeBacklen_encoded held small, lpDecodeBacklenReads_encoded held small⟩

/-- The length 16383 takes three bytes, behind a byte that looks continued. -/
theorem backlen_round_trip_16383 :
    lpDecodeBacklen ([0xFF] ++ lpEncodeBacklen 16383 ++ [0xFF]) 3 = .ok 16383 :=
  (backlen_round_trip [0xFF] [0, 0, 0] [0xFF] (l := 16383) (by decide) (by decide)).2.2.1

/-! ## Reading an element back -/

private theorem lpSigned_nonneg {uval negstart negmax : Nat} (below : uval < negstart)
    (small : uval < 2 ^ 63) : lpSigned uval negstart negmax = uval := by
  rw [lpSigned, if_neg (by omega), i64_of_range (by omega) (by omega)]

private theorem lpSigned_negative {uval negstart negmax : Nat} (above : negstart ≤ uval)
    (top : uval ≤ negmax) (width : negmax < 2 ^ 64) (near : negmax - uval < 2 ^ 63) :
    lpSigned uval negstart negmax = (uval : Int) - (negmax + 1) := by
  have difference : sub64 negmax uval = negmax - uval := sub64_of_le top width
  have inner : i64 ((negmax - uval : Nat) : Int) = (negmax - uval : Nat) :=
    i64_of_range (by omega) (by omega)
  rw [lpSigned, if_pos above, difference, inner, i64_of_range (by omega) (by omega)]
  omega

/-- A value raised by two to the width, when negative, is restored. -/
private theorem lpSigned_raised {v : Int} {u half : Nat} (positive : 0 < half)
    (width : half ≤ 2 ^ 63) (low : -(half : Int) ≤ v) (high : v < half)
    (raised : (u : Int) = if v < 0 then 2 * half + v else v) :
    lpSigned u half (2 * half - 1) = v := by
  split at raised
  · rw [lpSigned_negative (by omega) (by omega) (by omega) (by omega)]
    omega
  · rw [lpSigned_nonneg (by omega) (by omega)]
    omega

/-- `lpGetWithSize` reports the element, in the form callers turn into its
text, together with the size of the whole entry. -/
def Reports (lp : Bytes) (x : Bytes) (size : Nat) (element : Element) : Prop :=
  elementText lp element = .ok x ∧
    match element with
    | .string _ _ entrySize => entrySize = size
    | .integer _ entrySize => entrySize = some size

private theorem reports_string {start : Nat} (held : Holds lp start x) (inside : start ≤ lp.length) :
    Reports lp x size (.string start x.length size) := by
  refine ⟨?_, rfl⟩
  have bound : start + x.length ≤ lp.length := by
    have := List.IsPrefix.length_le held
    rw [List.length_drop] at this
    omega
  rw [elementText, if_pos bound, holds_slice held]
  rfl

private theorem reports_integer {v : Int} (text : intToDecimal v = x) :
    Reports lp x size (.integer v (some size)) :=
  ⟨by rw [elementText, text]; rfl, rfl⟩

/-- Each integer encoding reads back as its value. -/
private theorem lpGetWithSize_uint7 {v : Nat} (small : v < 128) (held : Holds lp p [UInt8.ofNat v]) :
    lpGetWithSize lp p = .ok (.integer (v : Int) (some 2)) := by
  obtain ⟨b0, _⟩ := holds_cons.mp held
  obtain ⟨is7, mask, -⟩ := header_7 v small
  have value : (UInt8.ofNat v).toNat = v := by rw [toNat_ofNat]; omega
  have signed : lpSigned v uint64Max 0 = v :=
    lpSigned_nonneg (by unfold uint64Max; omega) (by omega)
  simp only [lpGetWithSize, b0, is7, mask, value, signed, exec_ok_bind, exec_pure, ↓reduceIte]

private theorem lpGetWithSize_int13 {v : Int} {u : Nat} (low : -4096 ≤ v) (high : v ≤ 4095)
    (raised : (u : Int) = if v < 0 then 2 ^ 13 + v else v)
    (held : Holds lp p [UInt8.ofNat (u >>> 8 ||| 0xC0), UInt8.ofNat (u &&& 0xFF)]) :
    lpGetWithSize lp p = .ok (.integer v (some 3)) := by
  have fits : u < 2 ^ 13 := by split at raised <;> omega
  generalize eq : UInt8.ofNat (u >>> 8 ||| 0xC0) = byte at held
  simp only [holds_cons] at held
  obtain ⟨b0, b1, _⟩ := held
  obtain ⟨is7, is6, is13, top, -⟩ := header_13 (u >>> 8)
    (by rw [Nat.shiftRight_eq_div_pow]; omega) byte eq.symm
  have signed : lpSigned u (2 ^ 12) 8191 = v :=
    lpSigned_raised (by omega) (by omega) (by omega) (by omega) raised
  simp only [lpGetWithSize, b0, b1, is7, is6, is13, le_bytes_12 top, signed, exec_ok_bind,
    exec_pure, Bool.false_eq_true, ↓reduceIte]

private theorem lpGetWithSize_int16 {v : Int} {u : Nat} (low : -32768 ≤ v) (high : v ≤ 32767)
    (raised : (u : Int) = if v < 0 then 2 ^ 16 + v else v)
    (held : Holds lp p [0xF1, UInt8.ofNat (u &&& 0xFF), UInt8.ofNat (u >>> 8)]) :
    lpGetWithSize lp p = .ok (.integer v (some 4)) := by
  have fits : u < 2 ^ 16 := by split at raised <;> omega
  simp only [holds_cons, Nat.add_assoc, Nat.reduceAdd] at held
  obtain ⟨b0, b1, b2, _⟩ := held
  have value : (UInt8.ofNat (u &&& 0xFF)).toNat ||| (UInt8.ofNat (u >>> 8)).toNat <<< 8 = u := by
    rw [toNat_ofNat_and, toNat_ofNat_shiftRight, le16_eq (by omega)]
    omega
  have signed : lpSigned u (2 ^ 15) 65535 = v :=
    lpSigned_raised (by omega) (by omega) (by omega) (by omega) raised
  rw [lpGetWithSize, b0]
  change (do
    let b1 ← readByte lp (p + 1)
    let b2 ← readByte lp (p + 2)
    pure (Element.integer (lpSigned (b1.toNat ||| b2.toNat <<< 8) (2 ^ 15) 65535) (some 4))) = _
  simp only [b1, b2, value, signed, exec_ok_bind, exec_pure]

private theorem lpGetWithSize_int24 {v : Int} {u : Nat} (low : -8388608 ≤ v) (high : v ≤ 8388607)
    (raised : (u : Int) = if v < 0 then 2 ^ 24 + v else v)
    (held : Holds lp p [0xF2, UInt8.ofNat (u &&& 0xFF), UInt8.ofNat (u >>> 8 &&& 0xFF),
      UInt8.ofNat (u >>> 16)]) :
    lpGetWithSize lp p = .ok (.integer v (some 5)) := by
  have fits : u < 2 ^ 24 := by split at raised <;> omega
  simp only [holds_cons, Nat.add_assoc, Nat.reduceAdd] at held
  obtain ⟨b0, b1, b2, b3, _⟩ := held
  have value : (UInt8.ofNat (u &&& 0xFF)).toNat |||
      (UInt8.ofNat (u >>> 8 &&& 0xFF)).toNat <<< 8 |||
      (UInt8.ofNat (u >>> 16)).toNat <<< 16 = u := by
    rw [toNat_ofNat_and, toNat_ofNat_shiftRight_and, toNat_ofNat_shiftRight,
      le24_eq (by omega) (by omega)]
    omega
  have signed : lpSigned u (2 ^ 23) (2 ^ 24 - 1) = v :=
    lpSigned_raised (by omega) (by omega) (by omega) (by omega) raised
  rw [lpGetWithSize, b0]
  change (do
    let b1 ← readByte lp (p + 1)
    let b2 ← readByte lp (p + 2)
    let b3 ← readByte lp (p + 3)
    pure (Element.integer (lpSigned (b1.toNat ||| b2.toNat <<< 8 ||| b3.toNat <<< 16)
      (2 ^ 23) (2 ^ 24 - 1)) (some 5))) = _
  simp only [b1, b2, b3, value, signed, exec_ok_bind, exec_pure]

private theorem lpGetWithSize_int32 {v : Int} {u : Nat} (low : -2 ^ 31 ≤ v) (high : v < 2 ^ 31)
    (raised : (u : Int) = if v < 0 then 2 ^ 32 + v else v)
    (held : Holds lp p [0xF3, UInt8.ofNat (u &&& 0xFF), UInt8.ofNat (u >>> 8 &&& 0xFF),
      UInt8.ofNat (u >>> 16 &&& 0xFF), UInt8.ofNat (u >>> 24)]) :
    lpGetWithSize lp p = .ok (.integer v (some 6)) := by
  have fits : u < 2 ^ 32 := by split at raised <;> omega
  simp only [holds_cons, Nat.add_assoc, Nat.reduceAdd] at held
  obtain ⟨b0, b1, b2, b3, b4, _⟩ := held
  have value : (UInt8.ofNat (u &&& 0xFF)).toNat |||
      (UInt8.ofNat (u >>> 8 &&& 0xFF)).toNat <<< 8 |||
      (UInt8.ofNat (u >>> 16 &&& 0xFF)).toNat <<< 16 |||
      (UInt8.ofNat (u >>> 24)).toNat <<< 24 = u := by
    rw [toNat_ofNat_and, toNat_ofNat_shiftRight_and, toNat_ofNat_shiftRight_and,
      toNat_ofNat_shiftRight, le32_eq (by omega) (by omega) (by omega)]
    omega
  have signed : lpSigned u (2 ^ 31) (2 ^ 32 - 1) = v :=
    lpSigned_raised (by omega) (by omega) (by omega) (by omega) raised
  rw [lpGetWithSize, b0]
  change (do
    let b1 ← readByte lp (p + 1)
    let b2 ← readByte lp (p + 2)
    let b3 ← readByte lp (p + 3)
    let b4 ← readByte lp (p + 4)
    pure (Element.integer
      (lpSigned (b1.toNat ||| b2.toNat <<< 8 ||| b3.toNat <<< 16 ||| b4.toNat <<< 24)
        (2 ^ 31) (2 ^ 32 - 1)) (some 6))) = _
  simp only [b1, b2, b3, b4, value, signed, exec_ok_bind, exec_pure]

private theorem lpGetWithSize_int64 {v : Int} {u : Nat} (range : Int64Range v)
    (raised : (u : Int) = if v < 0 then 2 ^ 64 + v else v)
    (held : Holds lp p [0xF4, UInt8.ofNat (u &&& 0xFF), UInt8.ofNat (u >>> 8 &&& 0xFF),
      UInt8.ofNat (u >>> 16 &&& 0xFF), UInt8.ofNat (u >>> 24 &&& 0xFF),
      UInt8.ofNat (u >>> 32 &&& 0xFF), UInt8.ofNat (u >>> 40 &&& 0xFF),
      UInt8.ofNat (u >>> 48 &&& 0xFF), UInt8.ofNat (u >>> 56)]) :
    lpGetWithSize lp p = .ok (.integer v (some 10)) := by
  obtain ⟨low, high⟩ := range
  have fits : u < 2 ^ 64 := by split at raised <;> omega
  simp only [holds_cons, Nat.add_assoc, Nat.reduceAdd] at held
  obtain ⟨b0, b1, b2, b3, b4, b5, b6, b7, b8, _⟩ := held
  have signed : lpSigned u (2 ^ 63) uint64Max = v :=
    lpSigned_raised (by omega) (by omega) (by omega) (by omega) raised
  rw [lpGetWithSize, b0]
  change (do
    let b1 ← readByte lp (p + 1)
    let b2 ← readByte lp (p + 2)
    let b3 ← readByte lp (p + 3)
    let b4 ← readByte lp (p + 4)
    let b5 ← readByte lp (p + 5)
    let b6 ← readByte lp (p + 6)
    let b7 ← readByte lp (p + 7)
    let b8 ← readByte lp (p + 8)
    pure (Element.integer (lpSigned
      (b1.toNat ||| b2.toNat <<< 8 ||| b3.toNat <<< 16 ||| b4.toNat <<< 24 |||
        b5.toNat <<< 32 ||| b6.toNat <<< 40 ||| b7.toNat <<< 48 ||| b8.toNat <<< 56)
      (2 ^ 63) uint64Max) (some 10))) = _
  simp only [b1, b2, b3, b4, b5, b6, b7, b8, le_bytes_64 fits, signed, exec_ok_bind, exec_pure]

private theorem lpGetWithSize_shape (shape : Shape x bytes) (held : Holds lp p bytes)
    (bound : x.length < 2 ^ 32 - 5) :
    ∃ element, lpGetWithSize lp p = .ok element ∧
      Reports lp x (bytes.length + lpEncodeBacklenBytes bytes.length) element := by
  have inside := holds_length held (shape_nonempty shape)
  cases shape with
  | uint7 v small text => exact ⟨_, lpGetWithSize_uint7 small held, reports_integer text⟩
  | int13 v u low high text raised =>
    exact ⟨_, lpGetWithSize_int13 low high raised held, reports_integer text⟩
  | int16 v u low high text raised =>
    exact ⟨_, lpGetWithSize_int16 low high raised held, reports_integer text⟩
  | int24 v u low high text raised =>
    exact ⟨_, lpGetWithSize_int24 low high raised held, reports_integer text⟩
  | int32 v u low high text raised =>
    exact ⟨_, lpGetWithSize_int32 low high raised held, reports_integer text⟩
  | int64 v u range wide text raised =>
    exact ⟨_, lpGetWithSize_int64 range raised held, reports_integer text⟩
  | str6 small =>
    generalize eq : UInt8.ofNat (x.length ||| 0x80) = byte at held
    obtain ⟨b0, text⟩ := holds_cons.mp held
    obtain ⟨is7, -, -, -, -, -, is6, len, -⟩ := header_6 _ small byte eq.symm
    refine ⟨.string (p + 1) x.length (1 + x.length + lpEncodeBacklenBytes (x.length + 1)), ?_, ?_⟩
    · simp only [lpGetWithSize, b0, lpEncoding6BitStrLen, is7, is6, len, exec_ok_bind, exec_pure,
        Bool.false_eq_true, ↓reduceIte]
    · rw [List.length_cons, Nat.add_comm 1]
      exact reports_string text (by simp only [List.length_cons] at inside; omega)
  | str12 large small =>
    generalize eq : UInt8.ofNat (x.length >>> 8 ||| 0xE0) = byte at held
    simp only [holds_cons, Nat.add_assoc, Nat.reduceAdd] at held
    obtain ⟨b0, b1, text⟩ := held
    obtain ⟨is7, is13, is16, is24, is32, is64, is6, is12, len, -⟩ := header_12 (x.length >>> 8)
      (by rw [Nat.shiftRight_eq_div_pow]; omega) byte eq.symm
    refine ⟨.string (p + 2) x.length (2 + x.length + lpEncodeBacklenBytes (x.length + 2)), ?_, ?_⟩
    · simp only [lpGetWithSize, b0, b1, lpEncoding12BitStrLen, is7, is13, is16, is24, is32, is64,
        is6, is12, exec_ok_bind, exec_pure, Bool.false_eq_true, ↓reduceIte, le_bytes_12 len]
    · rw [List.length_cons, List.length_cons, Nat.add_comm 2]
      exact reports_string text (by simp only [List.length_cons] at inside; omega)
  | str32 large =>
    simp only [holds_cons, Nat.add_assoc, Nat.reduceAdd] at held
    obtain ⟨b0, b1, b2, b3, b4, text⟩ := held
    refine ⟨.string (p + 5) x.length (5 + x.length + lpEncodeBacklenBytes (x.length + 5)), ?_, ?_⟩
    · rw [lpGetWithSize, b0]
      change (do
        let count ← lpEncoding32BitStrLen lp p
        pure (Element.string (p + 5) count (5 + count + lpEncodeBacklenBytes (count + 5)))) = _
      simp only [b1, b2, b3, b4, lpEncoding32BitStrLen, exec_ok_bind, exec_pure,
        le_bytes_32 (show x.length < 2 ^ 32 by omega)]
    · simp only [List.length_cons, Nat.add_comm 5]
      exact reports_string text (by simp only [List.length_cons] at inside; omega)

/-- Every class of entry reads back as the byte string it was written for. -/
theorem lpGetWithSize_payload (held : Holds lp p (payload x)) (bound : x.length < 2 ^ 32 - 5) :
    ∃ element, lpGetWithSize lp p = .ok element ∧ Reports lp x (entry x).length element := by
  have read := lpGetWithSize_shape (payload_shape x) held bound
  rwa [entry, List.length_append, lpEncodeBacklen_length]

/-! ## The codec -/

/-- `*entry_size`, where the branch sets it. -/
def Element.entrySize : Element → Option Nat
  | .string _ _ entrySize => some entrySize
  | .integer _ entrySize => entrySize

/-- The bytes of an integer read back as the integer, whichever of the six
encodings its range selects. -/
theorem lpGetWithSize_encoded {v : Int} (range : Int64Range v)
    (held : Holds lp p (lpEncodeIntegerGetType v)) :
    lpGetWithSize lp p = .ok (.integer v (some ((lpEncodeIntegerGetType v).length +
      lpEncodeBacklenBytes (lpEncodeIntegerGetType v).length))) := by
  unfold lpEncodeIntegerGetType at held ⊢
  split at held
  · rename_i small
    have same : (v.toNat : Int) = v := by omega
    rw [if_pos small, ← same]
    exact lpGetWithSize_uint7 (by omega) held
  · rename_i over7
    rw [if_neg over7]
    split at held
    · rename_i small
      rw [if_pos small]
      exact lpGetWithSize_int13 small.1 small.2 (by split <;> omega) held
    · rename_i over13
      rw [if_neg over13]
      split at held
      · rename_i small
        rw [if_pos small]
        exact lpGetWithSize_int16 small.1 small.2 (by split <;> omega) held
      · rename_i over16
        rw [if_neg over16]
        split at held
        · rename_i small
          rw [if_pos small]
          exact lpGetWithSize_int24 small.1 small.2 (by split <;> omega) held
        · rename_i over24
          rw [if_neg over24]
          split at held
          · rename_i small
            rw [if_pos small]
            exact lpGetWithSize_int32 small.1 (by omega) (by split <;> omega) held
          · rename_i over32
            rw [if_neg over32]
            obtain ⟨low, high⟩ := range
            exact lpGetWithSize_int64 ⟨low, high⟩ (by split <;> omega) held

/-- A string is stored as an integer exactly when it is the canonical text of
a 64-bit integer. -/
theorem lpEncodeGetType_integer_iff (x : Bytes) :
    (lpEncodeGetType x).1.isSome = true ↔ ∃ v, Int64Range v ∧ x = intToDecimal v := by
  unfold lpEncodeGetType
  constructor
  · intro stored
    cases taken : lpStringToInt64 x with
    | none => simp [taken] at stored
    | some v =>
      obtain ⟨text, range⟩ := lpStringToInt64_some taken
      exact ⟨v, range, text.symm⟩
  · rintro ⟨v, range, rfl⟩
    simp [lpStringToInt64_intToDecimal range]

/-- Whatever `lpInsert` writes for a string or an integer, with its length
behind it and at any place in a buffer, reads back as that string or integer,
and both size readings are those of the bytes written. -/
theorem element_round_trip (lp : Bytes) (p : Nat) :
    (∀ x : Bytes, x.length < 2 ^ 32 - 5 →
      let enclen := (lpEncodeGetType x).2
      Holds lp p (lpEncodeElement (some x) none ++ lpEncodeBacklen enclen) →
      (∃ element, lpGetWithSize lp p = .ok element ∧ elementText lp element = .ok x ∧
        element.entrySize = some (enclen + (lpEncodeBacklen enclen).length)) ∧
      lpCurrentEncodedSizeUnsafe lp p = .ok enclen ∧
      ((lpEncodeGetType x).1.isSome = true ↔ ∃ v, Int64Range v ∧ x = intToDecimal v)) ∧
    ∀ v : Int, Int64Range v →
      let eleint := lpEncodeIntegerGetType v
      let enclen := eleint.length
      Holds lp p (lpEncodeElement none (some eleint) ++ lpEncodeBacklen enclen) →
      lpGetWithSize lp p = .ok (.integer v (some (enclen + (lpEncodeBacklen enclen).length))) ∧
      lpCurrentEncodedSizeUnsafe lp p = .ok enclen := by
  constructor
  · intro x bound
    obtain ⟨size, bytes⟩ := lpEncodeGetType_payload x
    have element : lpEncodeElement (some x) none = payload x := by
      rw [← bytes, lpEncodeElement]
      rcases lpEncodeGetType x with ⟨_ | intenc, enclen⟩ <;> rfl
    intro enclen held
    have same : enclen = (payload x).length := size
    rw [element, same, holds_append] at held
    obtain ⟨element, read, text, reported⟩ := lpGetWithSize_payload held.1 bound
    refine ⟨⟨element, read, text, ?_⟩, ?_, lpEncodeGetType_integer_iff x⟩
    · rw [entry, List.length_append] at reported
      rw [same]
      cases element with
      | string start count entrySize => exact congrArg some reported
      | integer value entrySize => exact reported
    · rw [same]
      exact lpCurrentEncodedSizeUnsafe_payload held.1 bound
  · intro v range
    -- The bytes of an integer are those of its text, which is never long.
    have bytes : lpEncodeIntegerGetType v = payload (intToDecimal v) := by
      rw [payload, lpStringToInt64_intToDecimal range]
    intro eleint enclen held
    have written : Holds lp p (lpEncodeIntegerGetType v) := (holds_append.mp held).1
    constructor
    · rw [lpEncodeBacklen_length]
      exact lpGetWithSize_encoded range written
    · have size : enclen = (payload (intToDecimal v)).length := congrArg List.length bytes
      rw [size]
      rw [bytes] at written
      refine lpCurrentEncodedSizeUnsafe_payload written ?_
      have digits := toDecimal_length_le (n := v.natAbs) (k := 19)
        (by unfold Int64Range at range; omega) (by decide)
      unfold intToDecimal
      split
      · rw [List.length_cons]
        omega
      · omega

/-- Two edges: a leading zero keeps a string a string, and the largest integer
fits its encoding. -/
theorem element_round_trip_edges :
    (∃ element, lpGetWithSize [0x82, 48, 55, 3] 0 = .ok element ∧
      elementText [0x82, 48, 55, 3] element = .ok (ascii "07") ∧ element.entrySize = some 4) ∧
    lpGetWithSize [1, 0xF4, 255, 255, 255, 255, 255, 255, 255, 127, 9] 1 =
      .ok (.integer (2 ^ 63 - 1) (some 10)) :=
  ⟨((element_round_trip _ 0).1 (ascii "07") (by decide) ⟨[], rfl⟩).1,
    ((element_round_trip _ 1).2 (2 ^ 63 - 1) (by decide) ⟨[], rfl⟩).1⟩

end CarrotDb.Listpack
