import Mathlib

/-! Decimal text over bytes: the numeral of a natural number, the value of a
run of digits, and the two round trips between them. -/
namespace CarrotDb.Decimal

/-- The byte of one decimal digit. -/
def digitByte (digit : Nat) : UInt8 := UInt8.ofNat (48 + digit)

/-- `isdigit` in the C locale. -/
def isDigit (byte : UInt8) : Bool := 48 ≤ byte && byte ≤ 57

/-- The number a digit byte stands for. -/
def digitValue (byte : UInt8) : Nat := byte.toNat - 48

/-- The numeral of `n`, most significant digit first, `0` for zero. -/
def toDecimal (n : Nat) : List UInt8 :=
  if n = 0 then [48] else ((Nat.digits 10 n).map digitByte).reverse

/-- The value of a run of digits; the empty run is zero. -/
def ofDecimal (text : List UInt8) : Nat :=
  text.foldl (fun value byte => value * 10 + digitValue byte) 0

/-- The numeral of an integer, a minus sign in front of a negative one. -/
def intToDecimal (z : Int) : List UInt8 :=
  if z < 0 then 45 :: toDecimal z.natAbs else toDecimal z.natAbs

theorem digitByte_toNat {d : Nat} (small : d < 10) : (digitByte d).toNat = 48 + d := by
  simp only [digitByte, UInt8.toNat_ofNat']
  omega

theorem isDigit_iff {byte : UInt8} : isDigit byte = true ↔ 48 ≤ byte.toNat ∧ byte.toNat ≤ 57 := by
  simp [isDigit, UInt8.le_iff_toNat_le]

theorem isDigit_digitByte {d : Nat} (small : d < 10) : isDigit (digitByte d) = true := by
  rw [isDigit_iff, digitByte_toNat small]
  omega

theorem digitValue_digitByte {d : Nat} (small : d < 10) : digitValue (digitByte d) = d := by
  rw [digitValue, digitByte_toNat small]
  omega

theorem digitByte_digitValue {byte : UInt8} (digit : isDigit byte = true) :
    digitByte (digitValue byte) = byte := by
  rw [isDigit_iff] at digit
  apply UInt8.toNat_inj.mp
  rw [digitByte_toNat (by unfold digitValue; omega), digitValue]
  omega

theorem digitValue_lt {byte : UInt8} (digit : isDigit byte = true) : digitValue byte < 10 := by
  rw [isDigit_iff] at digit
  unfold digitValue
  omega

/-- Every byte of a numeral is a digit. -/
theorem toDecimal_digits (n : Nat) : ∀ byte ∈ toDecimal n, isDigit byte = true := by
  intro byte member
  unfold toDecimal at member
  split at member
  · simp only [List.mem_singleton] at member
    subst member
    decide
  · rw [List.mem_reverse, List.mem_map] at member
    obtain ⟨d, inside, rfl⟩ := member
    exact isDigit_digitByte (Nat.digits_lt_base (by decide) inside)

theorem toDecimal_ne_nil (n : Nat) : toDecimal n ≠ [] := by
  unfold toDecimal
  split
  · simp
  · rename_i positive
    simpa [Nat.digits_eq_nil_iff_eq_zero] using positive

/-- A numeral starts with zero only when it is the numeral of zero. -/
theorem toDecimal_head (n : Nat) (positive : n ≠ 0) :
    ∃ d rest, toDecimal n = digitByte d :: rest ∧ 0 < d ∧ d < 10 := by
  have nonempty : Nat.digits 10 n ≠ [] := Nat.digits_ne_nil_iff_ne_zero.mpr positive
  have split := List.dropLast_append_getLast nonempty
  refine ⟨(Nat.digits 10 n).getLast nonempty, ((Nat.digits 10 n).dropLast.map digitByte).reverse,
    ?_, Nat.pos_of_ne_zero (Nat.getLast_digit_ne_zero 10 positive),
    Nat.digits_lt_base (by decide) (List.getLast_mem nonempty)⟩
  rw [toDecimal, if_neg positive]
  conv_lhs => rw [← split]
  simp

private theorem foldl_value (start : Nat) (text : List UInt8) :
    text.foldl (fun value byte => value * 10 + digitValue byte) start =
      start * 10 ^ text.length + ofDecimal text := by
  induction text generalizing start with
  | nil => simp [ofDecimal]
  | cons byte rest ih =>
    simp only [ofDecimal, List.foldl_cons, List.length_cons]
    rw [ih, ih (0 * 10 + digitValue byte)]
    ring

@[simp] theorem ofDecimal_nil : ofDecimal [] = 0 := rfl

theorem ofDecimal_cons (byte : UInt8) (rest : List UInt8) :
    ofDecimal (byte :: rest) = digitValue byte * 10 ^ rest.length + ofDecimal rest := by
  rw [ofDecimal, List.foldl_cons, foldl_value]
  simp

theorem ofDecimal_append (first second : List UInt8) :
    ofDecimal (first ++ second) = ofDecimal first * 10 ^ second.length + ofDecimal second := by
  rw [ofDecimal, List.foldl_append, foldl_value]
  rfl

/-- The digits of `Nat.digits`, written out and read back, are the number. -/
private theorem ofDecimal_reverse_digits (digits : List Nat) (small : ∀ d ∈ digits, d < 10) :
    ofDecimal ((digits.map digitByte).reverse) = Nat.ofDigits 10 digits := by
  induction digits with
  | nil => simp
  | cons d rest ih =>
    rw [List.map_cons, List.reverse_cons, ofDecimal_append,
      ih (fun d member => small d (List.mem_cons_of_mem _ member)), Nat.ofDigits_cons,
      ofDecimal_cons, digitValue_digitByte (small d (by simp))]
    simp
    ring

/-- Reading a numeral back gives the number. -/
@[simp] theorem ofDecimal_toDecimal (n : Nat) : ofDecimal (toDecimal n) = n := by
  unfold toDecimal
  split
  · rename_i zero
    subst zero
    decide
  · rw [ofDecimal_reverse_digits _ (fun d member => Nat.digits_lt_base (by decide) member),
      Nat.ofDigits_digits]

theorem toDecimal_injective : Function.Injective toDecimal :=
  Function.LeftInverse.injective ofDecimal_toDecimal

/-- A run of digits without a leading zero is the numeral of its value. -/
theorem toDecimal_ofDecimal {first : UInt8} {rest : List UInt8}
    (digits : ∀ byte ∈ first :: rest, isDigit byte = true) (leading : first ≠ 48) :
    toDecimal (ofDecimal (first :: rest)) = first :: rest := by
  have firstDigit := digits first (by simp)
  have firstPositive : digitValue first ≠ 0 := by
    intro zero
    apply leading
    rw [← digitByte_digitValue firstDigit, zero]
    rfl
  have nonzero : ofDecimal (first :: rest) ≠ 0 := by
    rw [ofDecimal_cons]
    have := Nat.mul_pos (Nat.pos_of_ne_zero firstPositive) (Nat.pow_pos (n := rest.length) (by decide : 0 < 10))
    omega
  rw [toDecimal, if_neg nonzero]
  have value := ofDecimal_reverse_digits (((first :: rest).map digitValue).reverse) (by
    intro d member
    simp only [List.mem_reverse, List.mem_map] at member
    obtain ⟨byte, inside, rfl⟩ := member
    exact digitValue_lt (digits byte inside))
  have spelled : ((first :: rest).map digitValue).map digitByte = first :: rest := by
    rw [List.map_map]
    conv_rhs => rw [← List.map_id (first :: rest)]
    exact List.map_congr_left fun byte member => digitByte_digitValue (digits byte member)
  rw [List.map_reverse, List.reverse_reverse, spelled] at value
  rw [value, Nat.digits_ofDigits 10 (by decide)]
  · rw [List.map_reverse, List.reverse_reverse, spelled]
  · intro d member
    simp only [List.mem_reverse, List.mem_map] at member
    obtain ⟨byte, inside, rfl⟩ := member
    exact digitValue_lt (digits byte inside)
  · intro nonempty
    simpa using firstPositive

/-- Accumulating digits in fixed width gives the value modulo the width. -/
theorem foldl_mod (modulus : Nat) (text : List UInt8) (start : Nat) :
    text.foldl (fun value byte => (value * 10 + digitValue byte) % modulus) (start % modulus) =
      text.foldl (fun value byte => value * 10 + digitValue byte) start % modulus := by
  induction text generalizing start with
  | nil => rfl
  | cons byte rest ih =>
    simp only [List.foldl_cons]
    rw [← ih]
    congr 1
    rw [Nat.add_mod, Nat.mod_mul_mod, ← Nat.add_mod]

theorem toDecimal_length_pos (n : Nat) : 0 < (toDecimal n).length :=
  List.length_pos_of_ne_nil (toDecimal_ne_nil n)

/-- A number with at most `k` digits has a numeral of at most `k` bytes. -/
theorem toDecimal_length_le {n k : Nat} (small : n < 10 ^ k) (positive : 0 < k) :
    (toDecimal n).length ≤ k := by
  unfold toDecimal
  split
  · exact positive
  · simpa using (Nat.digits_length_le_iff (by decide : 1 < 10) n).mpr small

/-- A byte that is not a digit occurs in no numeral. -/
theorem not_mem_toDecimal {byte : UInt8} (other : isDigit byte = false) (n : Nat) :
    byte ∉ toDecimal n := by
  intro member
  rw [toDecimal_digits n byte member] at other
  exact absurd other (by decide)

end CarrotDb.Decimal
