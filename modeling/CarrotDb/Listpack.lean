import CarrotDb.Machine
import CarrotDb.Lib.Decimal

/-! `listpack.cpp` and `listpack.h`: a list of strings in one buffer. A
six-byte header (total bytes, element count), then for each element its
header and payload followed by the length of both written backwards, then
one `0xFF`. Entry pointers are offsets; `none` is `nullptr`. -/
namespace CarrotDb.Listpack
open CarrotDb.Decimal

/-- `LP_HEADER_SIZE`: four bytes of total size, two bytes of element count. -/
def lpHeaderSize : Nat := 6

/-- `LP_HDR_NUMELE_UNKNOWN`. -/
def lpHdrNumeleUnknown : Nat := 65535

/-- `LP_EOF`. -/
def lpEof : UInt8 := 0xFF

/-- `UINT64_MAX`, which `lpDecodeBacklen` returns for a malformed length. -/
def uint64Max : Nat := 2 ^ 64 - 1

def lpEncodingIs7BitUint (byte : UInt8) : Bool := byte &&& 0x80 == 0
def lpEncodingIs13BitInt (byte : UInt8) : Bool := byte &&& 0xE0 == 0xC0
def lpEncodingIs16BitInt (byte : UInt8) : Bool := byte &&& 0xFF == 0xF1
def lpEncodingIs24BitInt (byte : UInt8) : Bool := byte &&& 0xFF == 0xF2
def lpEncodingIs32BitInt (byte : UInt8) : Bool := byte &&& 0xFF == 0xF3
def lpEncodingIs64BitInt (byte : UInt8) : Bool := byte &&& 0xFF == 0xF4
def lpEncodingIs6BitStr (byte : UInt8) : Bool := byte &&& 0xC0 == 0x80
def lpEncodingIs12BitStr (byte : UInt8) : Bool := byte &&& 0xF0 == 0xE0
def lpEncodingIs32BitStr (byte : UInt8) : Bool := byte &&& 0xFF == 0xF0

/-- `LP_ENCODING_6_BIT_STR_LEN`. -/
def lpEncoding6BitStrLen (lp : Bytes) (p : Nat) : Exec Nat := do
  let b0 ← readByte lp p
  pure (b0 &&& 0x3F).toNat

/-- `LP_ENCODING_12_BIT_STR_LEN`: most significant bits first. -/
def lpEncoding12BitStrLen (lp : Bytes) (p : Nat) : Exec Nat := do
  let b0 ← readByte lp p
  let b1 ← readByte lp (p + 1)
  pure ((b0 &&& 0xF).toNat <<< 8 ||| b1.toNat)

/-- `LP_ENCODING_32_BIT_STR_LEN`: least significant byte first. -/
def lpEncoding32BitStrLen (lp : Bytes) (p : Nat) : Exec Nat := do
  let b1 ← readByte lp (p + 1)
  let b2 ← readByte lp (p + 2)
  let b3 ← readByte lp (p + 3)
  let b4 ← readByte lp (p + 4)
  pure (b1.toNat ||| b2.toNat <<< 8 ||| b3.toNat <<< 16 ||| b4.toNat <<< 24)

def lpSetTotalBytes (lp : Bytes) (capacity : Nat) : Exec Bytes :=
  writeBytes lp 0 [UInt8.ofNat capacity, UInt8.ofNat (capacity >>> 8),
    UInt8.ofNat (capacity >>> 16), UInt8.ofNat (capacity >>> 24)]

def lpSetNumElements (lp : Bytes) (nums : Nat) : Exec Bytes :=
  writeBytes lp 4 [UInt8.ofNat nums, UInt8.ofNat (nums >>> 8)]

def lpGetTotalBytes (lp : Bytes) : Exec Nat := do
  let b0 ← readByte lp 0
  let b1 ← readByte lp 1
  let b2 ← readByte lp 2
  let b3 ← readByte lp 3
  pure (b0.toNat ||| b1.toNat <<< 8 ||| b2.toNat <<< 16 ||| b3.toNat <<< 24)

def lpGetTotalNumElements (lp : Bytes) : Exec Nat := do
  let b4 ← readByte lp 4
  let b5 ← readByte lp 5
  pure (b4.toNat ||| b5.toNat <<< 8)

/-- `ASSERT_INTEGRITY`. -/
def assertIntegrity (ndebug : Bool) (lp : Bytes) (p : Nat) : Exec Unit :=
  cassert ndebug do
    let total ← lpGetTotalBytes lp
    pure (lpHeaderSize ≤ p && p < total)

/-- `ASSERT_INTEGRITY_LEN`. -/
def assertIntegrityLen (ndebug : Bool) (lp : Bytes) (p len : Nat) : Exec Unit :=
  cassert ndebug do
    let total ← lpGetTotalBytes lp
    pure (lpHeaderSize ≤ p && p + len < total)

/-- `lpNew`. The bytes above the empty listpack are indeterminate. -/
def lpNew (capacity : Nat) : Exec Bytes := do
  let array := List.replicate (max capacity (lpHeaderSize + 1)) 0
  let array ← lpSetTotalBytes array (lpHeaderSize + 1)
  let array ← lpSetNumElements array 0
  writeBytes array lpHeaderSize [lpEof]

/-- The digit loop of `lpStringToInt64`, with its two overflow guards. -/
def lpDigits : Bytes → Nat → Option Nat
  | [], v => some v
  | byte :: rest, v =>
    if isDigit byte then
      if v > uint64Max / 10 then none
      else if v * 10 > uint64Max - digitValue byte then none
      else lpDigits rest (v * 10 + digitValue byte)
    else none

/-- `MAX_LONG_INT_STR_LEN`. -/
def maxLongIntStrLen : Nat := 21

/-- The part of `lpStringToInt64` after the sign: a digit from 1 to 9, then
digits up to the end of the string. -/
def lpMagnitude : Bytes → Option Nat
  | [] => none
  | first :: rest =>
    if 49 ≤ first ∧ first ≤ 57 then lpDigits rest (digitValue first) else none

def lpStringToInt64 (s : Bytes) : Option Int :=
  if s.length = 0 ∨ s.length ≥ maxLongIntStrLen then none
  else if s = [48] then some 0
  else match s with
    | 45 :: rest =>
      match lpMagnitude rest with
      | some v => if v > 2 ^ 63 then none else some (i64 (-(v : Int)))
      | none => none
    | _ =>
      match lpMagnitude s with
      | some v => if v > 2 ^ 63 - 1 then none else some v
      | none => none

/-- `lpEncodeIntegerGetType`: the bytes put in `intenc`; `enclen` is their
number. A negative value is first raised by two to the width. -/
def lpEncodeIntegerGetType (v : Int) : Bytes :=
  if 0 ≤ v ∧ v ≤ 127 then [UInt8.ofNat v.toNat]
  else if -4096 ≤ v ∧ v ≤ 4095 then
    let v := (if v < 0 then 2 ^ 13 + v else v).toNat
    [UInt8.ofNat (v >>> 8 ||| 0xC0), UInt8.ofNat (v &&& 0xFF)]
  else if -32768 ≤ v ∧ v ≤ 32767 then
    let v := (if v < 0 then 2 ^ 16 + v else v).toNat
    [0xF1, UInt8.ofNat (v &&& 0xFF), UInt8.ofNat (v >>> 8)]
  else if -8388608 ≤ v ∧ v ≤ 8388607 then
    let v := (if v < 0 then 2 ^ 24 + v else v).toNat
    [0xF2, UInt8.ofNat (v &&& 0xFF), UInt8.ofNat (v >>> 8 &&& 0xFF), UInt8.ofNat (v >>> 16)]
  else if -2147483648 ≤ v ∧ v ≤ 2147483647 then
    let v := (if v < 0 then 2 ^ 32 + v else v).toNat
    [0xF3, UInt8.ofNat (v &&& 0xFF), UInt8.ofNat (v >>> 8 &&& 0xFF),
      UInt8.ofNat (v >>> 16 &&& 0xFF), UInt8.ofNat (v >>> 24)]
  else
    let uv := (v % 2 ^ 64).toNat
    [0xF4, UInt8.ofNat (uv &&& 0xFF), UInt8.ofNat (uv >>> 8 &&& 0xFF),
      UInt8.ofNat (uv >>> 16 &&& 0xFF), UInt8.ofNat (uv >>> 24 &&& 0xFF),
      UInt8.ofNat (uv >>> 32 &&& 0xFF), UInt8.ofNat (uv >>> 40 &&& 0xFF),
      UInt8.ofNat (uv >>> 48 &&& 0xFF), UInt8.ofNat (uv >>> 56)]

/-- `lpEncodeGetType`: the integer bytes when the string is an integer's
text, and the encoded length either way. -/
def lpEncodeGetType (ele : Bytes) : Option Bytes × Nat :=
  match lpStringToInt64 ele with
  | some v => (some (lpEncodeIntegerGetType v), (lpEncodeIntegerGetType v).length)
  | none =>
    let size := ele.length
    (none, if size < 64 then 1 + size else if size < 4096 then 2 + size else 5 + size)

/-- `lpEncodeString`: the bytes it writes. -/
def lpEncodeString (s : Bytes) : Bytes :=
  let len := s.length
  if len < 64 then UInt8.ofNat (len ||| 0x80) :: s
  else if len < 4096 then UInt8.ofNat (len >>> 8 ||| 0xE0) :: UInt8.ofNat (len &&& 0xFF) :: s
  else 0xF0 :: UInt8.ofNat (len &&& 0xFF) :: UInt8.ofNat (len >>> 8 &&& 0xFF) ::
    UInt8.ofNat (len >>> 16 &&& 0xFF) :: UInt8.ofNat (len >>> 24 &&& 0xFF) :: s

/-- `lpEncodeBacklen`: the bytes it writes, most significant group first and
a continuation bit on every byte but the first. -/
def lpEncodeBacklen (l : Nat) : Bytes :=
  if l ≤ 127 then [UInt8.ofNat l]
  else if l < 16383 then [UInt8.ofNat (l >>> 7), UInt8.ofNat (l &&& 127 ||| 128)]
  else if l < 2097151 then
    [UInt8.ofNat (l >>> 14), UInt8.ofNat (l >>> 7 &&& 127 ||| 128), UInt8.ofNat (l &&& 127 ||| 128)]
  else if l < 268435455 then
    [UInt8.ofNat (l >>> 21), UInt8.ofNat (l >>> 14 &&& 127 ||| 128),
      UInt8.ofNat (l >>> 7 &&& 127 ||| 128), UInt8.ofNat (l &&& 127 ||| 128)]
  else
    [UInt8.ofNat (l >>> 28), UInt8.ofNat (l >>> 21 &&& 127 ||| 128),
      UInt8.ofNat (l >>> 14 &&& 127 ||| 128), UInt8.ofNat (l >>> 7 &&& 127 ||| 128),
      UInt8.ofNat (l &&& 127 ||| 128)]

/-- `lpEncodeBacklenBytes`. -/
def lpEncodeBacklenBytes (l : Nat) : Nat :=
  if l ≤ 127 then 1 else if l < 16383 then 2 else if l < 2097151 then 3
  else if l < 268435455 then 4 else 5

/-- The loop of `lpDecodeBacklen`, from the last byte of the length towards
the front. The shift limit stops it in the fifth round at the latest. -/
def lpDecodeBacklenLoop (lp : Bytes) : (rounds p value shift : Nat) → Exec Nat
  | 0, _, _, _ => pure uint64Max
  | rounds + 1, p, value, shift => do
    let byte ← readByte lp p
    let value := (byte &&& 127).toNat <<< shift ||| value
    if byte &&& 128 == 0 then pure value
    else if shift + 7 > 28 then pure uint64Max
    else if p = 0 then throw .undefinedBehaviour
    else lpDecodeBacklenLoop lp rounds (p - 1) value (shift + 7)

def lpDecodeBacklen (lp : Bytes) (p : Nat) : Exec Nat := lpDecodeBacklenLoop lp 5 p 0 0

/-- `lpCurrentEncodedSizeUnsafe`: header and payload, without the backlen. -/
def lpCurrentEncodedSizeUnsafe (lp : Bytes) (p : Nat) : Exec Nat := do
  let byte ← readByte lp p
  if lpEncodingIs7BitUint byte then pure 1
  else if lpEncodingIs13BitInt byte then pure 2
  else if lpEncodingIs16BitInt byte then pure 3
  else if lpEncodingIs24BitInt byte then pure 4
  else if lpEncodingIs32BitInt byte then pure 5
  else if lpEncodingIs64BitInt byte then pure 9
  else if lpEncodingIs6BitStr byte then return 1 + (← lpEncoding6BitStrLen lp p)
  else if lpEncodingIs12BitStr byte then return 2 + (← lpEncoding12BitStrLen lp p)
  else if lpEncodingIs32BitStr byte then return u32 (5 + (← lpEncoding32BitStrLen lp p))
  else if byte == lpEof then pure 1
  else pure 0

/-- `lpCurrentEncodedSizeBytes`: the header alone. There is no case for the
64-bit integer encoding, whose header byte therefore counts as unknown. -/
def lpCurrentEncodedSizeBytes (lp : Bytes) (p : Nat) : Exec Nat := do
  let byte ← readByte lp p
  if lpEncodingIs7BitUint byte then pure 1
  else if lpEncodingIs13BitInt byte then pure 1
  else if lpEncodingIs16BitInt byte then pure 1
  else if lpEncodingIs24BitInt byte then pure 1
  else if lpEncodingIs32BitInt byte then pure 1
  else if lpEncodingIs6BitStr byte then pure 1
  else if lpEncodingIs12BitStr byte then pure 2
  else if lpEncodingIs32BitStr byte then pure 5
  else if byte == lpEof then pure 1
  else pure 0

/-- `IS_OUT_OF_RANGE`. -/
def isOutOfRange (lpbytes p : Nat) : Bool := p < lpHeaderSize || p > lpbytes - 1

/-- `lpValidateNext`: the verdict, and the value left in the reference
parameter `p`. -/
def lpValidateNext (lp : Bytes) (lpbytes : Nat) : Option Nat → Exec (Bool × Option Nat)
  | none => pure (false, none)
  | some p => do
    if isOutOfRange lpbytes p then pure (false, some p)
    else if (← readByte lp p) == lpEof then pure (true, none)
    else do
      let lenbytes ← lpCurrentEncodedSizeBytes lp p
      if lenbytes = 0 then pure (false, some p)
      else if isOutOfRange lpbytes (p + lenbytes) then pure (false, some p)
      else do
        let entrylen ← lpCurrentEncodedSizeUnsafe lp p
        let encodedBacklen := lpEncodeBacklenBytes entrylen
        let entrylen := entrylen + encodedBacklen
        if isOutOfRange lpbytes (p + entrylen) then pure (false, some p)
        else do
          let prevbacklen ← lpDecodeBacklen lp (p + entrylen - 1)
          if u64 (prevbacklen + encodedBacklen) ≠ entrylen then pure (false, some p)
          else pure (true, some (p + entrylen))

/-- `lpAssertValidEntry`. -/
def lpAssertValidEntry (ndebug : Bool) (lp : Bytes) (lpbytes p : Nat) : Exec Unit :=
  cassert ndebug do
    let (valid, _) ← lpValidateNext lp lpbytes (some p)
    pure valid

/-- The entry loop of `lpValidateIntegrity`: `none` when an entry fails, else
where the walk stopped and how many entries it saw. A valid entry moves `p`
forward, so the rounds never run out before the buffer does. -/
def lpValidateEntries (lp : Bytes) (total : Nat) :
    (rounds : Nat) → Option Nat → Nat → Exec (Option (Option Nat × Nat))
  | _, none, count => pure (some (none, count))
  | 0, some _, _ => throw .undefinedBehaviour
  | rounds + 1, some p, count => do
    if (← readByte lp p) == lpEof then pure (some (some p, count))
    else do
      let (valid, next) ← lpValidateNext lp total (some p)
      if valid then lpValidateEntries lp total rounds next (u32 (count + 1)) else pure none

/-- `lpValidateIntegrity`. -/
def lpValidateIntegrity (lp : Bytes) (size : Nat) (deep : Bool) : Exec Bool := do
  if size < lpHeaderSize + 1 then pure false
  else do
    let totalbytes ← lpGetTotalBytes lp
    if totalbytes ≠ size then pure false
    else if (← readByte lp (size - 1)) ≠ lpEof then pure false
    else if !deep then pure true
    else do
      let numelement ← lpGetTotalNumElements lp
      match ← lpValidateEntries lp totalbytes size (some lpHeaderSize) 0 with
      | none => pure false
      | some (p, count) =>
        if p ≠ some (size - 1) then pure false
        else if numelement ≠ lpHdrNumeleUnknown ∧ numelement ≠ count then pure false
        else pure true

/-! ## Walking -/

/-- `lpSkip`. -/
def lpSkip (lp : Bytes) (p : Nat) : Exec Nat := do
  let entrylen ← lpCurrentEncodedSizeUnsafe lp p
  pure (p + (entrylen + lpEncodeBacklenBytes entrylen))

/-- `lpNext`. -/
def lpNext (ndebug : Bool) (lp : Bytes) : Option Nat → Exec (Option Nat)
  | none => pure none
  | some p => do
    let p ← lpSkip lp p
    let total ← lpGetTotalBytes lp
    if isOutOfRange total p then pure none
    else if (← readByte lp p) == lpEof then pure none
    else do
      lpAssertValidEntry ndebug lp total p
      pure (some p)

/-- `lpPrev`. A length that leads in front of the buffer is no pointer. -/
def lpPrev (ndebug : Bool) (lp : Bytes) : Option Nat → Exec (Option Nat)
  | none => pure none
  | some p => do
    if p = lpHeaderSize then pure none
    else if p = 0 then throw .undefinedBehaviour
    else do
      let prevlen ← lpDecodeBacklen lp (p - 1)
      let prevlen := u64 (prevlen + lpEncodeBacklenBytes prevlen)
      if p < prevlen then throw .undefinedBehaviour
      else do
        let total ← lpGetTotalBytes lp
        lpAssertValidEntry ndebug lp total (p - prevlen)
        pure (some (p - prevlen))

/-- `lpFirst`. -/
def lpFirst (ndebug : Bool) (lp : Bytes) : Exec (Option Nat) := do
  if (← readByte lp lpHeaderSize) == lpEof then pure none
  else do
    let total ← lpGetTotalBytes lp
    lpAssertValidEntry ndebug lp total lpHeaderSize
    pure (some lpHeaderSize)

/-- `lpLast`. -/
def lpLast (ndebug : Bool) (lp : Bytes) : Exec (Option Nat) := do
  let total ← lpGetTotalBytes lp
  if total = 0 then throw .undefinedBehaviour
  else lpPrev ndebug lp (some (total - 1))

/-- A fixed number of `lpNext` calls, as the forward loop of `lpSeek` makes. -/
def lpForward (ndebug : Bool) (lp : Bytes) : Nat → Option Nat → Exec (Option Nat)
  | 0, ele => pure ele
  | _ + 1, none => pure none
  | steps + 1, some p => do lpForward ndebug lp steps (← lpNext ndebug lp (some p))

/-- A fixed number of `lpPrev` calls, as the backward loop of `lpSeek` makes. -/
def lpBackward (ndebug : Bool) (lp : Bytes) : Nat → Option Nat → Exec (Option Nat)
  | 0, ele => pure ele
  | _ + 1, none => pure none
  | steps + 1, some p => do lpBackward ndebug lp steps (← lpPrev ndebug lp (some p))

/-- `lpSeek`. The forward loop counts a positive index down to 0, the
backward loop a negative one up to -1. -/
def lpSeek (ndebug : Bool) (lp : Bytes) (index : Int) : Exec (Option Nat) := do
  let numele ← lpGetTotalNumElements lp
  if numele ≠ lpHdrNumeleUnknown then
    let index := if index < 0 then numele + index else index
    if index < 0 then pure none
    else if index ≥ numele then pure none
    else if index > (numele : Int).tdiv 2 then
      lpBackward ndebug lp (-1 - (index - numele)).toNat (← lpLast ndebug lp)
    else lpForward ndebug lp index.toNat (← lpFirst ndebug lp)
  else if index < 0 then lpBackward ndebug lp (-1 - index).toNat (← lpLast ndebug lp)
  else lpForward ndebug lp index.toNat (← lpFirst ndebug lp)

/-- The counting loop of `lpLength`; each call moves forward, so the rounds
never run out before the buffer does. -/
def lpCount (ndebug : Bool) (lp : Bytes) : (rounds : Nat) → Option Nat → Nat → Exec Nat
  | _, none, count => pure count
  | 0, some _, _ => throw .undefinedBehaviour
  | rounds + 1, some p, count => do
    lpCount ndebug lp rounds (← lpNext ndebug lp (some p)) (u32 (count + 1))

/-- `lpLength`: the count, and the buffer with the header count refreshed. -/
def lpLength (ndebug : Bool) (lp : Bytes) : Exec (Nat × Bytes) := do
  let numElement ← lpGetTotalNumElements lp
  if numElement ≠ lpHdrNumeleUnknown then pure (numElement, lp)
  else do
    let count ← lpCount ndebug lp lp.length (← lpFirst ndebug lp) 0
    if count < lpHdrNumeleUnknown then pure (count, ← lpSetNumElements lp count)
    else pure (count, lp)

/-- What `lpGetWithSize` reports: a string by its position and length, or an
integer by its value; and the entry's size where the branch sets it. -/
inductive Element where
  | string (start count : Nat) (entrySize : Nat)
  | integer (value : Int) (entrySize : Option Nat)
  deriving DecidableEq, Repr

/-- The sign correction at the end of `lpGetWithSize`, in 64-bit arithmetic. -/
def lpSigned (uval negstart negmax : Nat) : Int :=
  if uval ≥ negstart then i64 (-(i64 (sub64 negmax uval)) - 1) else i64 uval

/-- `lpGetWithSize`. -/
def lpGetWithSize (lp : Bytes) (p : Nat) : Exec Element := do
  let byte ← readByte lp p
  if lpEncodingIs7BitUint byte then
    pure (.integer (lpSigned (byte &&& 0x7F).toNat uint64Max 0) (some 2))
  else if lpEncodingIs6BitStr byte then do
    let count ← lpEncoding6BitStrLen lp p
    pure (.string (p + 1) count (1 + count + lpEncodeBacklenBytes (count + 1)))
  else if lpEncodingIs13BitInt byte then do
    let b1 ← readByte lp (p + 1)
    pure (.integer (lpSigned ((byte &&& 0x1F).toNat <<< 8 ||| b1.toNat) (2 ^ 12) 8191) (some 3))
  else if lpEncodingIs16BitInt byte then do
    let b1 ← readByte lp (p + 1)
    let b2 ← readByte lp (p + 2)
    pure (.integer (lpSigned (b1.toNat ||| b2.toNat <<< 8) (2 ^ 15) 65535) (some 4))
  else if lpEncodingIs24BitInt byte then do
    let b1 ← readByte lp (p + 1)
    let b2 ← readByte lp (p + 2)
    let b3 ← readByte lp (p + 3)
    pure (.integer (lpSigned (b1.toNat ||| b2.toNat <<< 8 ||| b3.toNat <<< 16)
      (2 ^ 23) (2 ^ 24 - 1)) (some 5))
  else if lpEncodingIs32BitInt byte then do
    let b1 ← readByte lp (p + 1)
    let b2 ← readByte lp (p + 2)
    let b3 ← readByte lp (p + 3)
    let b4 ← readByte lp (p + 4)
    pure (.integer (lpSigned (b1.toNat ||| b2.toNat <<< 8 ||| b3.toNat <<< 16 ||| b4.toNat <<< 24)
      (2 ^ 31) (2 ^ 32 - 1)) (some 6))
  else if lpEncodingIs64BitInt byte then do
    let b1 ← readByte lp (p + 1)
    let b2 ← readByte lp (p + 2)
    let b3 ← readByte lp (p + 3)
    let b4 ← readByte lp (p + 4)
    let b5 ← readByte lp (p + 5)
    let b6 ← readByte lp (p + 6)
    let b7 ← readByte lp (p + 7)
    let b8 ← readByte lp (p + 8)
    pure (.integer (lpSigned (b1.toNat ||| b2.toNat <<< 8 ||| b3.toNat <<< 16 ||| b4.toNat <<< 24 |||
      b5.toNat <<< 32 ||| b6.toNat <<< 40 ||| b7.toNat <<< 48 ||| b8.toNat <<< 56)
      (2 ^ 63) uint64Max) (some 10))
  else if lpEncodingIs12BitStr byte then do
    let count ← lpEncoding12BitStrLen lp p
    pure (.string (p + 2) count (2 + count + lpEncodeBacklenBytes (count + 2)))
  else if lpEncodingIs32BitStr byte then do
    let count ← lpEncoding32BitStrLen lp p
    pure (.string (p + 5) count (5 + count + lpEncodeBacklenBytes (count + 5)))
  else
    pure (.integer (lpSigned (12345678900000000 + byte.toNat) uint64Max 0) none)

/-- The text callers make of an element: the string's bytes, which must lie
in the buffer, or `std::to_string` of the integer. -/
def elementText (lp : Bytes) : Element → Exec Bytes
  | .string start count _ =>
    if start + count ≤ lp.length then pure ((lp.drop start).take count)
    else throw .undefinedBehaviour
  | .integer value _ => pure (intToDecimal value)

/-! ## Updating -/

/-- `LP_BEFORE`, `LP_AFTER`, `LP_REPLACE`. -/
inductive Where where
  | before
  | after
  | replace
  deriving DecidableEq, Repr

/-- A `size_t` difference used as a length: when it wraps, the copy of that
length runs off every buffer. -/
def sizeSub (a b : Nat) : Exec Nat := if b ≤ a then pure (a - b) else throw .undefinedBehaviour

/-! The stages of `lpInsert`, in the order it runs them. -/

/-- Insertion after an entry is insertion before the one that follows. -/
def lpInsertPoint (ndebug : Bool) (lp : Bytes) (p : Nat) : Where → Exec (Nat × Where)
  | .after => do
    let p ← lpSkip lp p
    assertIntegrity ndebug lp p
    pure (p, .before)
  | position => pure (p, position)

/-- The bytes to write for the element; `enclen` is their number. -/
def lpEncodeElement (elestr eleint : Option Bytes) : Bytes :=
  match elestr, eleint with
  | some ele, _ =>
    match lpEncodeGetType ele with
    | (some intenc, _) => intenc
    | (none, _) => lpEncodeString ele
  | none, some intenc => intenc
  | none, none => []

/-- `replaced_len`. -/
def lpReplacedLen (ndebug : Bool) (lp : Bytes) (p : Nat) (position : Where) : Exec Nat :=
  if position = .replace then do
    let len ← lpCurrentEncodedSizeUnsafe lp p
    let len := u32 (len + lpEncodeBacklenBytes len)
    assertIntegrityLen ndebug lp p len
    pure len
  else pure 0

/-- A reallocation made only when the size changes in the given direction. -/
def lpRealloc (needed : Bool) (lp : Bytes) (n size : Nat) : Exec Bytes :=
  if needed then reallocCopy lp n size else pure lp

/-- Moves what follows the insertion point, or the replaced entry, to where
the new bytes will end. -/
def lpMoveTail (lp : Bytes) (poff newLen replacedLen total : Nat) (position : Where) :
    Exec Bytes := do
  if position = .before then memmove lp (poff + newLen) poff (← sizeSub total poff)
  else memmove lp (poff + newLen) (poff + replacedLen) (← sizeSub total (poff + replacedLen))

/-- `*newp`: after a deletion there may be no entry at the offset. -/
def lpNewPointer (lp : Bytes) (poff : Nat) (isDeleteOperation : Bool) : Exec (Option Nat) := do
  if isDeleteOperation then
    if (← readByte lp poff) == lpEof then pure none else pure (some poff)
  else pure (some poff)

/-- Writes the element and its backlen. -/
def lpWriteElement (lp : Bytes) (poff : Nat) (element backlen : Bytes) (isDeleteOperation : Bool) :
    Exec Bytes := do
  if isDeleteOperation then pure lp
  else do
    let lp ← writeBytes lp poff element
    writeBytes lp (poff + element.length) backlen

/-- Refreshes the element count, unless it is unknown. -/
def lpCountElement (lp : Bytes) (position : Where) (isDeleteOperation : Bool) : Exec Bytes := do
  if position ≠ .replace ∨ isDeleteOperation then
    let numElements ← lpGetTotalNumElements lp
    if numElements = lpHdrNumeleUnknown then pure lp
    else if isDeleteOperation then lpSetNumElements lp (sub32 numElements 1)
    else lpSetNumElements lp (numElements + 1)
  else pure lp

/-- The second half of `lpInsert`, from the size check on: `none` is the
`NULL` of an oversized listpack, else the new buffer and `*newp`. -/
def lpSplice (lp : Bytes) (poff : Nat) (element backlen : Bytes)
    (oldListpackBytes replacedLen : Nat) (position : Where) (isDeleteOperation : Bool) :
    Exec (Option (Bytes × Option Nat)) := do
  let newLen := element.length + backlen.length
  let newListpackBytes := sub64 (oldListpackBytes + newLen) replacedLen
  if newListpackBytes > 2 ^ 32 - 1 then pure none
  else do
    -- Growing comes before the move, shrinking after it.
    let lp ← lpRealloc (newListpackBytes > oldListpackBytes) lp oldListpackBytes newListpackBytes
    let lp ← lpMoveTail lp poff newLen replacedLen oldListpackBytes position
    let lp ← lpRealloc (newListpackBytes < oldListpackBytes) lp newListpackBytes newListpackBytes
    let newp ← lpNewPointer lp poff isDeleteOperation
    let lp ← lpWriteElement lp poff element backlen isDeleteOperation
    let lp ← lpCountElement lp position isDeleteOperation
    let lp ← lpSetTotalBytes lp newListpackBytes
    pure (some (lp, newp))

/-- `lpInsert`. A string carries its own size; `eleint` holds an encoded
integer. -/
def lpInsert (ndebug : Bool) (lp : Bytes) (elestr eleint : Option Bytes) (p : Nat)
    (position : Where) : Exec (Option (Bytes × Option Nat)) := do
  let isDeleteOperation := elestr.isNone && eleint.isNone
  let position := if isDeleteOperation then .replace else position
  let (poff, position) ← lpInsertPoint ndebug lp p position
  let element := lpEncodeElement elestr eleint
  let backlen := if isDeleteOperation then [] else lpEncodeBacklen element.length
  let oldListpackBytes ← lpGetTotalBytes lp
  let replacedLen ← lpReplacedLen ndebug lp poff position
  lpSplice lp poff element backlen oldListpackBytes replacedLen position isDeleteOperation

/-- `lpInsertInteger`. -/
def lpInsertInteger (ndebug : Bool) (lp : Bytes) (lval : Int) (p : Nat) (position : Where) :
    Exec (Option (Bytes × Option Nat)) :=
  lpInsert ndebug lp none (some (lpEncodeIntegerGetType lval)) p position

/-- `lpAppend`. -/
def lpAppend (ndebug : Bool) (lp : Bytes) (ele : Bytes) : Exec (Option (Bytes × Option Nat)) := do
  let listpackBytes ← lpGetTotalBytes lp
  lpInsert ndebug lp (some ele) none (listpackBytes - 1) .before

/-- `lpAppendInteger`. -/
def lpAppendInteger (ndebug : Bool) (lp : Bytes) (lval : Int) :
    Exec (Option (Bytes × Option Nat)) := do
  let listpackBytes ← lpGetTotalBytes lp
  lpInsertInteger ndebug lp lval (listpackBytes - 1) .before

/-- `lpPrepend`. -/
def lpPrepend (ndebug : Bool) (lp : Bytes) (s : Bytes) : Exec (Option (Bytes × Option Nat)) := do
  match ← lpFirst ndebug lp with
  | none => lpAppend ndebug lp s
  | some p => lpInsert ndebug lp (some s) none p .before

/-- `lpDelete`. -/
def lpDelete (ndebug : Bool) (lp : Bytes) (p : Nat) : Exec (Option (Bytes × Option Nat)) :=
  lpInsert ndebug lp none none p .replace

end CarrotDb.Listpack
