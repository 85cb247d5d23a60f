import Mathlib

/-! The machine the server runs on: byte strings, the ways an execution can
go wrong, fixed-width conversions, and raw buffers addressed by offset. A
pointer into a buffer is its offset from the buffer's start; reading or
writing outside the buffer is a fault, never a default value. -/
namespace CarrotDb

/-- `std::string`, and every raw byte buffer. -/
abbrev Bytes := List UInt8

/-- The bytes of an ASCII literal of the source. -/
def ascii (text : String) : Bytes := text.toList.map Char.toUInt8

/-- How an execution leaves the defined behaviour of the source: a failed
`assert` aborts, anything the language leaves undefined may do as it likes. -/
inductive Fault where
  | assertFailed
  | undefinedBehaviour
  deriving DecidableEq, Repr

abbrev Exec := Except Fault

/-- `assert(condition)`; with `NDEBUG` the condition is not even evaluated. -/
def cassert (ndebug : Bool) (condition : Exec Bool) : Exec Unit :=
  if ndebug then pure () else do
    if ← condition then pure () else throw .assertFailed

@[simp] theorem cassert_ndebug (condition : Exec Bool) : cassert true condition = .ok () := rfl

@[simp] theorem cassert_true (ndebug : Bool) : cassert ndebug (.ok true) = .ok () := by
  cases ndebug <;> rfl

@[simp] theorem cassert_false : cassert false (.ok false) = .error .assertFailed := rfl

@[simp] theorem exec_ok_bind (value : α) (next : α → Exec β) :
    (Except.ok value >>= next) = next value := rfl

@[simp] theorem exec_error_bind (fault : Fault) (next : α → Exec β) :
    ((Except.error fault : Exec α) >>= next) = .error fault := rfl

@[simp] theorem exec_pure (value : α) : (pure value : Exec α) = .ok value := rfl

@[simp] theorem exec_throw (fault : Fault) : (throw fault : Exec α) = .error fault := rfl

/-- A sequence of two steps succeeds exactly when both do. -/
theorem exec_bind_ok {first : Exec α} {next : α → Exec β} {result : β} :
    (first >>= next) = .ok result ↔ ∃ value, first = .ok value ∧ next value = .ok result := by
  cases first with
  | error fault => simp
  | ok value => simp

/-- A computation that evaluates to a result has one. -/
theorem exec_of_isOk {computation : Exec α} (evaluates : computation.isOk = true) :
    ∃ value, computation = .ok value := by
  cases computation with
  | error fault => cases evaluates
  | ok value => exact ⟨value, rfl⟩

theorem exec_getD {computation : Exec α} (default : α) (evaluates : computation.isOk = true) :
    computation = .ok (computation.toOption.getD default) := by
  cases computation with
  | error fault => cases evaluates
  | ok value => rfl

/-- Conversion to `uint32_t`. -/
def u32 (n : Nat) : Nat := n % 2 ^ 32

/-- Conversion to `uint64_t`, `size_t` and `unsigned long`. -/
def u64 (n : Nat) : Nat := n % 2 ^ 64

/-- Unsigned subtraction, which wraps. -/
def sub32 (a b : Nat) : Nat := u32 (a + (2 ^ 32 - b))
def sub64 (a b : Nat) : Nat := u64 (a + (2 ^ 64 - b))

/-- Conversion to `int64_t`. -/
def i64 (z : Int) : Int := z.bmod (2 ^ 64)

/-- Conversion to `int`. -/
def i32 (z : Int) : Int := z.bmod (2 ^ 32)

theorem u32_of_lt {n : Nat} (small : n < 2 ^ 32) : u32 n = n := Nat.mod_eq_of_lt small

theorem u64_of_lt {n : Nat} (small : n < 2 ^ 64) : u64 n = n := Nat.mod_eq_of_lt small

theorem sub32_of_le {a b : Nat} (order : b ≤ a) (small : a < 2 ^ 32) : sub32 a b = a - b := by
  unfold sub32 u32
  omega

theorem sub64_of_le {a b : Nat} (order : b ≤ a) (small : a < 2 ^ 64) : sub64 a b = a - b := by
  unfold sub64 u64
  omega

theorem i64_of_range {z : Int} (low : -2 ^ 63 ≤ z) (high : z < 2 ^ 63) : i64 z = z := by
  unfold i64
  rw [Int.bmod_eq_of_le_mul_two] <;> omega

theorem i32_of_range {z : Int} (low : -2 ^ 31 ≤ z) (high : z < 2 ^ 31) : i32 z = z := by
  unfold i32
  rw [Int.bmod_eq_of_le_mul_two] <;> omega

theorem i32_range (z : Int) : -2 ^ 31 ≤ i32 z ∧ i32 z < 2 ^ 31 := by
  unfold i32
  have low := Int.le_bmod (x := z) (m := 2 ^ 32) (by simp)
  have high := Int.bmod_lt (x := z) (m := 2 ^ 32) (by simp)
  constructor <;> omega

/-- A count that does not fit an `int` never gets larger there. -/
theorem i32_le (n : Nat) : i32 n ≤ n := by
  unfold i32
  rw [Int.bmod_def]
  split <;> omega

/-- Bytes compare as unsigned numbers, as `char_traits<char>` compares them. -/
instance byteOrder : LinearOrder UInt8 where
  le_refl := UInt8.le_refl
  le_trans _ _ _ := UInt8.le_trans
  lt_iff_le_not_ge a b := by
    simp only [UInt8.lt_iff_toNat_lt, UInt8.le_iff_toNat_le]
    omega
  le_antisymm _ _ := UInt8.le_antisymm
  le_total := UInt8.le_total
  toDecidableLE := inferInstance

/-! ## Raw buffers -/

/-- `*(buffer + offset)`. -/
def readByte (buffer : Bytes) (offset : Nat) : Exec UInt8 :=
  match buffer[offset]? with
  | some byte => .ok byte
  | none => .error .undefinedBehaviour

/-- `memmove(buffer + dst, buffer + src, n)` inside one buffer. -/
def memmove (buffer : Bytes) (dst src n : Nat) : Exec Bytes :=
  if src + n ≤ buffer.length ∧ dst + n ≤ buffer.length then
    .ok (buffer.take dst ++ (buffer.drop src).take n ++ buffer.drop (dst + n))
  else .error .undefinedBehaviour

/-- `memcpy(buffer + dst, bytes, |bytes|)` from memory outside the buffer. -/
def writeBytes (buffer : Bytes) (dst : Nat) (bytes : Bytes) : Exec Bytes :=
  if dst + bytes.length ≤ buffer.length then
    .ok (buffer.take dst ++ bytes ++ buffer.drop (dst + bytes.length))
  else .error .undefinedBehaviour

/-- `memcpy(fresh, buffer, n)` into a new allocation of `size` bytes. The
bytes above `n` are indeterminate; zero stands for whatever they hold. -/
def reallocCopy (buffer : Bytes) (n size : Nat) : Exec Bytes :=
  if n ≤ buffer.length ∧ n ≤ size then
    .ok (buffer.take n ++ List.replicate (size - n) 0)
  else .error .undefinedBehaviour

/-- The buffer holds these bytes from this offset on. -/
def Holds (buffer : Bytes) (offset : Nat) (bytes : Bytes) : Prop := bytes <+: buffer.drop offset

theorem holds_append {buffer first second : Bytes} {offset : Nat} :
    Holds buffer offset (first ++ second) ↔
      Holds buffer offset first ∧ Holds buffer (offset + first.length) second := by
  unfold Holds
  constructor
  · rintro ⟨back, split⟩
    refine ⟨⟨second ++ back, by rw [← split, List.append_assoc]⟩, ⟨back, ?_⟩⟩
    rw [← List.drop_drop, ← split, List.append_assoc, List.drop_left]
  · rintro ⟨⟨tail, split⟩, held⟩
    rw [← List.drop_drop, ← split, List.drop_left] at held
    rw [← split]
    exact List.prefix_append_right_inj first |>.mpr held

theorem holds_cons {buffer bytes : Bytes} {byte : UInt8} {offset : Nat} :
    Holds buffer offset (byte :: bytes) ↔
      readByte buffer offset = .ok byte ∧ Holds buffer (offset + 1) bytes := by
  rw [show byte :: bytes = [byte] ++ bytes from rfl, holds_append]
  refine and_congr ?_ Iff.rfl
  unfold Holds readByte
  rw [List.singleton_prefix_iff_head?_eq_some, List.head?_drop]
  cases buffer[offset]? <;> simp

@[simp] theorem holds_nil (buffer : Bytes) (offset : Nat) : Holds buffer offset [] :=
  List.nil_prefix

theorem holds_length {buffer bytes : Bytes} {offset : Nat} (held : Holds buffer offset bytes)
    (nonempty : bytes ≠ []) : offset + bytes.length ≤ buffer.length := by
  have bound := List.IsPrefix.length_le held
  have positive := List.length_pos_iff.mpr nonempty
  rw [List.length_drop] at bound
  omega

theorem holds_slice {buffer bytes : Bytes} {offset : Nat} (held : Holds buffer offset bytes) :
    (buffer.drop offset).take bytes.length = bytes := by
  obtain ⟨back, split⟩ := held
  rw [← split, List.take_left]

theorem writeBytes_middle {front old back bytes : Bytes} {dst : Nat}
    (at_ : dst = front.length) (size : old.length = bytes.length) :
    writeBytes (front ++ old ++ back) dst bytes = .ok (front ++ bytes ++ back) := by
  subst at_
  have bound : front.length + bytes.length ≤ (front ++ old ++ back).length := by
    simp only [List.length_append]
    omega
  rw [writeBytes, if_pos bound, List.append_assoc front old, List.take_left, ← size,
    List.drop_length_add_append, List.drop_left]

end CarrotDb
