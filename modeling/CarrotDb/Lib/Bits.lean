import Mathlib

/-! Numbers assembled from bytes by shifts and disjunctions, as fixed-width
code assembles them, expressed by addition and multiplication. -/
namespace CarrotDb.Bits

/-- A disjunction of a shifted number with one below the shift is a sum. -/
theorem or_shiftLeft {low : Nat} (high : Nat) {shift : Nat} (small : low < 2 ^ shift) :
    low ||| high <<< shift = low + high * 2 ^ shift := by
  rw [Nat.or_comm, ← Nat.shiftLeft_add_eq_or_of_lt small, Nat.shiftLeft_eq, Nat.add_comm]

theorem shiftLeft_or {low : Nat} (high : Nat) {shift : Nat} (small : low < 2 ^ shift) :
    high <<< shift ||| low = low + high * 2 ^ shift := by
  rw [Nat.or_comm, or_shiftLeft high small]

/-- The byte kept by masking with `0xFF`. -/
theorem toNat_ofNat_and (n : Nat) : (UInt8.ofNat (n &&& 0xFF)).toNat = n % 256 := by
  rw [show 0xFF = 2 ^ 8 - 1 from rfl, Nat.and_two_pow_sub_one_eq_mod, UInt8.toNat_ofNat']
  omega

theorem toNat_ofNat_shiftRight_and (n shift : Nat) :
    (UInt8.ofNat (n >>> shift &&& 0xFF)).toNat = n / 2 ^ shift % 256 := by
  rw [toNat_ofNat_and, Nat.shiftRight_eq_div_pow]

theorem toNat_ofNat_shiftRight (n shift : Nat) :
    (UInt8.ofNat (n >>> shift)).toNat = n / 2 ^ shift % 256 := by
  rw [UInt8.toNat_ofNat', Nat.shiftRight_eq_div_pow]

theorem toNat_ofNat (n : Nat) : (UInt8.ofNat n).toNat = n % 256 := UInt8.toNat_ofNat'

/-- Two bytes, least significant first. -/
theorem le16_eq {b0 b1 : Nat} (h0 : b0 < 256) : b0 ||| b1 <<< 8 = b0 + b1 * 256 :=
  or_shiftLeft _ h0

theorem le24_eq {b0 b1 b2 : Nat} (h0 : b0 < 256) (h1 : b1 < 256) :
    b0 ||| b1 <<< 8 ||| b2 <<< 16 = b0 + b1 * 256 + b2 * 65536 := by
  rw [le16_eq h0]
  exact or_shiftLeft _ (by omega)

theorem le32_eq {b0 b1 b2 b3 : Nat} (h0 : b0 < 256) (h1 : b1 < 256) (h2 : b2 < 256) :
    b0 ||| b1 <<< 8 ||| b2 <<< 16 ||| b3 <<< 24 =
      b0 + b1 * 256 + b2 * 65536 + b3 * 16777216 := by
  rw [le24_eq h0 h1]
  exact or_shiftLeft _ (by omega)

/-- Four bytes, most significant first. -/
theorem be32_eq {b0 b1 b2 b3 : Nat} (h1 : b1 < 256) (h2 : b2 < 256) (h3 : b3 < 256) :
    b0 <<< 24 ||| b1 <<< 16 ||| b2 <<< 8 ||| b3 =
      b0 * 2 ^ 24 + b1 * 2 ^ 16 + b2 * 2 ^ 8 + b3 := by
  have reversed (a b c d : Nat) : a ||| b ||| c ||| d = d ||| c ||| b ||| a := by
    rw [Nat.or_comm _ d, Nat.or_comm _ c, Nat.or_comm a b, ← Nat.or_assoc, ← Nat.or_assoc]
  rw [reversed, le32_eq h3 h2 h1]
  omega

theorem le64_eq {b0 b1 b2 b3 b4 b5 b6 b7 : Nat} (h0 : b0 < 256) (h1 : b1 < 256) (h2 : b2 < 256)
    (h3 : b3 < 256) (h4 : b4 < 256) (h5 : b5 < 256) (h6 : b6 < 256) :
    b0 ||| b1 <<< 8 ||| b2 <<< 16 ||| b3 <<< 24 ||| b4 <<< 32 ||| b5 <<< 40 ||| b6 <<< 48 |||
        b7 <<< 56 =
      b0 + b1 * 2 ^ 8 + b2 * 2 ^ 16 + b3 * 2 ^ 24 + b4 * 2 ^ 32 + b5 * 2 ^ 40 + b6 * 2 ^ 48 +
        b7 * 2 ^ 56 := by
  rw [le32_eq h0 h1 h2, or_shiftLeft b4 (by omega), or_shiftLeft b5 (by omega),
    or_shiftLeft b6 (by omega), or_shiftLeft b7 (by omega)]
  omega

end CarrotDb.Bits
