import Mathlib

/-! Integers held by a double. One below two to the 53rd is held exactly: its
mantissa is the number itself, shifted up to the full precision. -/
namespace CarrotDb.FloatIntegers
open Float.Model UnpackedFloat

/-- How far a small number is shifted to fill the mantissa. -/
def room (n : Nat) : Nat := 52 - n.log2

private theorem log2_room {n : Nat} (positive : 0 < n) (small : n < 2 ^ 53) :
    n.log2 + room n = 52 := by
  have : n.log2 < 53 := (Nat.log2_lt positive.ne').mpr small
  rw [room]
  omega

/-- The shifted number has exactly the 53 bits of a mantissa. -/
theorem filled {n : Nat} (positive : 0 < n) (small : n < 2 ^ 53) :
    2 ^ 52 ≤ n <<< room n ∧ n <<< room n < 2 ^ 53 := by
  obtain ⟨low, high⟩ := (Nat.log2_eq_iff positive.ne').mp rfl
  have sum := log2_room positive small
  constructor
  · calc 2 ^ 52 = 2 ^ n.log2 * 2 ^ room n := by rw [← pow_add, sum]
      _ ≤ n * 2 ^ room n := Nat.mul_le_mul_right _ low
      _ = n <<< room n := (Nat.shiftLeft_eq ..).symm
  · calc n <<< room n = n * 2 ^ room n := Nat.shiftLeft_eq ..
      _ < 2 ^ (n.log2 + 1) * 2 ^ room n := Nat.mul_lt_mul_of_pos_right high (by positivity)
      _ = 2 ^ 53 := by rw [← pow_add, Nat.add_right_comm, sum]

/-- Rounding leaves a mantissa alone that has its 53 bits. -/
private theorem shift_filled {mantissa : Nat} {exponent : Int}
    (full : 2 ^ 52 ≤ mantissa ∧ mantissa < 2 ^ 53) (low : -1074 ≤ exponent) :
    shiftToTargetExponent Format.binary64 mantissa exponent .exact =
      (⟨mantissa, false, false⟩, exponent) := by
  have bits : mantissa.log2 = 52 := (Nat.log2_eq_iff (by omega)).mpr full
  have still :
      (Format.binary64.targetExponent (totalExponent mantissa exponent) - exponent).toNat = 0 := by
    simp only [Format.targetExponent, totalExponent, Format.mantissaBits, Format.minExponent, bits]
    norm_num
    omega
  simp [shiftToTargetExponent, shiftToExponent, still, HShiftRight.hShiftRight, Nat.repeat,
    ExtendedMantissa.ofMantissaAndAccuracy]

/-- A small number becomes a number with a full mantissa, unrounded. -/
theorem ofNat_eq {n : Nat} (positive : 0 < n) (small : n < 2 ^ 53) :
    UnpackedFloat.ofNat Format.binary64 n = .finite .positive (n <<< room n) (-(room n : Int))
      (lt_of_lt_of_le (by norm_num) (filled positive small).1) := by
  have full := filled positive small
  have sum := log2_room positive small
  have target : Format.binary64.targetExponent (totalExponent n 0) = -(room n : Int) := by
    simp only [Format.targetExponent, totalExponent, Format.mantissaBits, Format.minExponent]
    norm_num
    omega
  have shifted := @shift_filled _ (-(room n : Int)) full (by rw [room]; omega)
  have sign : compare (n : Int) 0 = .gt := compare_gt_iff_gt.mpr (by omega)
  simp only [UnpackedFloat.ofNat, UnpackedFloat.ofInt, UnpackedFloat.normalize, sign,
    Int.toNat_natCast, UnpackedFloat.round, target, decreaseExponent, Int.zero_sub, Int.neg_neg]
  simp only [roundWithAccuracy, shifted, ExtendedMantissa.roundedMantissa,
    ExtendedMantissa.accuracy, Accuracy.roundToNearestEven]
  rw [dif_neg (by omega)]

@[simp] theorem sign_of_toBitVec (sign : Sign) : Sign.ofBitVec sign.toBitVec = sign := by
  cases sign <;> rfl

@[simp] theorem unpackSign_packComponents {spec : Format} {sign exponent mantissa} :
    unpackSign (packComponents spec sign exponent mantissa) = sign.toBitVec := by
  apply BitVec.eq_of_getLsbD_eq
  intro i inside
  obtain rfl : i = 0 := by omega
  simp [unpackSign, packComponents, BitVec.getLsbD_append, BitVec.getElem_append]

/-- The highest bit of a mantissa in front of the others. -/
theorem append_toNat (mantissa : BitVec 52) :
    (1#1 ++ mantissa).toNat = 2 ^ 52 + mantissa.toNat := by
  rw [BitVec.toNat_append, ← Nat.shiftLeft_add_eq_or_of_lt mantissa.isLt]
  rfl

/-- A full mantissa is packed without its highest bit, and read with it. -/
private theorem append_implicit {mantissa : Nat}
    (full : 2 ^ 52 ≤ mantissa ∧ mantissa < 2 ^ 53) :
    (1#1 ++ BitVec.ofNat 52 mantissa).toNat = mantissa := by
  rw [append_toNat, BitVec.toNat_ofNat]
  omega

/-- An exponent field that is not that of an infinity. -/
theorem ofNat_ne_last {biased : Nat} (inside : biased + 1 < 2 ^ 11) :
    BitVec.ofNat 11 biased ≠ -1#11 := by
  intro last
  have same := congrArg BitVec.toNat last
  rw [BitVec.toNat_ofNat, Nat.mod_eq_of_lt (by omega)] at same
  simp at same
  omega

/-- Packing loses nothing of a number with a full mantissa and a middling
exponent. -/
theorem unpack_pack {mantissa : Nat} {exponent : Int} (sign : Sign)
    (full : 2 ^ 52 ≤ mantissa ∧ mantissa < 2 ^ 53) (low : -1074 ≤ exponent) (high : exponent ≤ 971)
    (positive : 0 < mantissa) :
    (Float.Model.pack (.finite sign mantissa exponent positive)).unpack =
      .finite sign mantissa exponent positive := by
  have bits : mantissa.log2 + 1 = Format.binary64.mantissaBits := by
    rw [(Nat.log2_eq_iff (by omega)).mpr full]
    rfl
  -- The biased exponent is neither that of an infinity nor that of a small number.
  obtain ⟨biased, eq⟩ : ∃ biased : Nat, exponent + 1023 + 52 = biased :=
    ⟨(exponent + 1075).toNat, by omega⟩
  have field : (BitVec.ofNat 11 biased).toNat = biased := by
    rw [BitVec.toNat_ofNat]
    omega
  have notLast := @ofNat_ne_last biased (by omega)
  have notFirst : BitVec.ofNat 11 biased ≠ 0#11 := by
    intro same
    have := congrArg BitVec.toNat same
    rw [field] at this
    simp at this
    omega
  have packed : UnpackedFloat.pack Format.binary64 (.finite sign mantissa exponent positive) =
      packComponents Format.binary64 sign (BitVec.ofNat 11 biased) (BitVec.ofNat 52 mantissa) := by
    have inside : ¬ 2 ^ 11 ≤ biased + 1 := by omega
    simp only [UnpackedFloat.pack, Format.exponentBias]
    norm_num [eq, bits]
    omega
  have implicit := append_implicit full
  simp only [Float.Model.unpack, Float.Model.pack, packed, UnpackedFloat.unpack,
    unpackMantissa_packComponents, unpackExponent_packComponents, unpackSign_packComponents,
    sign_of_toBitVec, notLast, notFirst, if_false, field, implicit]
  have same : (biased : Int) - (Format.binary64.exponentBias + (52 : Nat)) = exponent := by
    rw [show Format.binary64.exponentBias = 1023 from rfl]
    omega
  simp only [same]

/-- What a double made from a small number holds. -/
theorem unpack_toFloat {n : UInt64} (positive : 0 < n.toNat) (small : n.toNat < 2 ^ 53) :
    n.toFloat.toModel.unpack = .finite .positive (n.toNat <<< room n.toNat) (-(room n.toNat : Int))
      (lt_of_lt_of_le (by norm_num) (filled positive small).1) := by
  have near : room n.toNat ≤ 52 := Nat.sub_le _ _
  have converted : n.toFloat.toModel =
      Float.Model.pack (UnpackedFloat.ofNat Format.binary64 n.toNat) := rfl
  rw [converted, ofNat_eq positive small]
  exact unpack_pack .positive (filled positive small) (by omega) (by omega) _

theorem unpack_toFloat_zero : (UInt64.toFloat 0).toModel.unpack = .zero .positive := rfl

end CarrotDb.FloatIntegers
