import CarrotDb.GeoHash
import CarrotDb.DbSortedSets
import CarrotDb.Lib.BitSpread
import CarrotDb.Lib.FloatIntegers

/-! The geohash over exact coordinates. Encoding finds the cell of a point in
each direction and interleaves the bits of the two; decoding recovers both
cells, and a cell that a double holds exactly survives the score. -/
namespace CarrotDb
open FloatText BitSpread

namespace GeoHash

theorem spread_bitwise (shift mask : UInt64) {f : UInt64 → UInt64} (inner : Bitwise f) :
    Bitwise fun x => spread shift mask (f x) :=
  (inner.union (inner.shiftLeft shift)).mask mask

theorem squash_bitwise (shift mask : UInt64) {f : UInt64 → UInt64} (inner : Bitwise f) :
    Bitwise fun x => squash shift mask (f x) :=
  (inner.union (inner.shiftRight shift)).mask mask

theorem spreadAll_bitwise : Bitwise spreadAll := by
  unfold spreadAll
  repeat apply spread_bitwise
  exact Bitwise.id

theorem squashAll_bitwise : Bitwise squashAll := by
  unfold squashAll
  repeat apply squash_bitwise
  exact Bitwise.id

/-- Spread bits are squashed to the number they came from. -/
theorem squash_spread {x : UInt64} (small : x.toNat < 2 ^ 32) : squashAll (spreadAll x) = x :=
  Bitwise.ext (squashAll_bitwise.comp spreadAll_bitwise) Bitwise.id (by decide) small

/-- Spread bits leave every odd place free. -/
theorem squash_spread_left {x : UInt64} (small : x.toNat < 2 ^ 32) :
    squashAll (spreadAll x <<< 1) = 0 :=
  Bitwise.ext (squashAll_bitwise.comp (spreadAll_bitwise.shiftLeft 1)) Bitwise.none (by decide) small

theorem squash_spread_right {x : UInt64} (small : x.toNat < 2 ^ 32) :
    squashAll (spreadAll x >>> 1) = 0 :=
  Bitwise.ext (squashAll_bitwise.comp (spreadAll_bitwise.shiftRight 1)) Bitwise.none (by decide) small

theorem squash_spread_back {x : UInt64} (small : x.toNat < 2 ^ 32) :
    squashAll ((spreadAll x <<< 1) >>> 1) = x :=
  Bitwise.ext (squashAll_bitwise.comp ((spreadAll_bitwise.shiftLeft 1).shiftRight 1)) Bitwise.id
    (by decide) small

/-- `deinterleave64` separates what `interleave64` wove together. -/
theorem deinterleave_interleave (xlo ylo : UInt32) :
    deinterleave64 (interleave64 xlo ylo) = xlo.toUInt64 ||| ylo.toUInt64 <<< 32 := by
  have xSmall : xlo.toUInt64.toNat < 2 ^ 32 := xlo.toNat_lt
  have ySmall : ylo.toUInt64.toNat < 2 ^ 32 := ylo.toNat_lt
  rw [deinterleave64, interleave64, UInt64.shiftRight_or, squashAll_bitwise.or,
    squashAll_bitwise.or, squash_spread xSmall, squash_spread_left ySmall,
    squash_spread_right xSmall, squash_spread_back ySmall, UInt64.or_zero, UInt64.zero_or]

private theorem joined (xlo ylo : UInt32) :
    (xlo.toUInt64 ||| ylo.toUInt64 <<< 32).toNat = xlo.toNat + ylo.toNat * 2 ^ 32 := by
  have high := ylo.toNat_lt
  have shifted : (ylo.toUInt64 <<< 32).toNat = ylo.toNat <<< 32 := by
    simp only [UInt64.toNat_shiftLeft, UInt32.toNat_toUInt64, UInt64.reduceToNat, Nat.reduceMod]
    apply Nat.mod_eq_of_lt
    rw [Nat.shiftLeft_eq]
    omega
  rw [UInt64.toNat_or, shifted, UInt32.toNat_toUInt64, Bits.or_shiftLeft _ xlo.toNat_lt]

theorem deinterleave_low (xlo ylo : UInt32) :
    (deinterleave64 (interleave64 xlo ylo)).toUInt32 = xlo := by
  have low := xlo.toNat_lt
  apply UInt32.toNat_inj.mp
  rw [deinterleave_interleave, UInt64.toNat_toUInt32, joined]
  omega

theorem deinterleave_high (xlo ylo : UInt32) :
    (deinterleave64 (interleave64 xlo ylo) >>> 32).toUInt32 = ylo := by
  have low := xlo.toNat_lt
  have high := ylo.toNat_lt
  apply UInt32.toNat_inj.mp
  rw [deinterleave_interleave, UInt64.toNat_toUInt32, UInt64.toNat_shiftRight, joined,
    Nat.shiftRight_eq_div_pow]
  simp only [UInt64.reduceToNat, Nat.reduceMod]
  omega

/-- Spread bits lie at twice their place, with a free place behind each. -/
theorem testBit_spreadAll {x : UInt64} (small : x.toNat < 2 ^ 32) :
    ∀ i, (spreadAll x).toNat.testBit (2 * i) = x.toNat.testBit i ∧
      (spreadAll x).toNat.testBit (2 * i + 1) = false := by
  refine Bitwise.induction (motive := fun word spread => ∀ i,
    spread.toNat.testBit (2 * i) = word.toNat.testBit i ∧
      spread.toNat.testBit (2 * i + 1) = false) (by simp) ?_ spreadAll_bitwise (fun j inside => ?_) small
  · intro a b c d first second i
    simp only [UInt64.toNat_or, Nat.testBit_or, first i, second i, Bool.or_self, and_self]
  · intro i
    have moved : ∀ j < 32, spreadAll (bit j) = bit (2 * j) := by decide
    rw [moved j inside, testBit_bit (by omega), testBit_bit (by omega), testBit_bit (by omega)]
    simp
    omega

/-- Every bit of the two coordinates has a place of its own. -/
theorem testBit_interleave64 (xlo ylo : UInt32) (i : Nat) :
    (interleave64 xlo ylo).toNat.testBit (2 * i) = xlo.toNat.testBit i ∧
      (interleave64 xlo ylo).toNat.testBit (2 * i + 1) = ylo.toNat.testBit i := by
  have even := testBit_spreadAll (x := xlo.toUInt64) xlo.toNat_lt
  have odd := testBit_spreadAll (x := ylo.toUInt64) ylo.toNat_lt
  rw [UInt32.toNat_toUInt64] at even odd
  -- One place further up; the bit that leaves the word was none.
  have shifted (k : Nat) : (spreadAll ylo.toUInt64 <<< 1).toNat.testBit k =
      (decide (k < 64) && (decide (k ≥ 1) && (spreadAll ylo.toUInt64).toNat.testBit (k - 1))) := by
    rw [UInt64.toNat_shiftLeft, Nat.testBit_mod_two_pow, UInt64.toNat_one, Nat.testBit_shiftLeft]
  rw [interleave64, UInt64.toNat_or, Nat.testBit_or, Nat.testBit_or, (even i).1, (even i).2, shifted,
    shifted, Nat.add_sub_cancel, (odd i).1]
  constructor
  · cases i with
    | zero => simp
    | succ i => simp [show 2 * (i + 1) - 1 = 2 * i + 1 by omega, (odd i).2]
  · by_cases inside : i < 32
    · simp
      omega
    · have none : ylo.toNat.testBit i = false :=
        Nat.testBit_lt_two_pow (lt_of_lt_of_le ylo.toNat_lt (Nat.pow_le_pow_right (by norm_num) (by omega)))
      simp [none]

theorem deinterleave64_bitwise : Bitwise deinterleave64 :=
  squashAll_bitwise.union ((squashAll_bitwise.comp (Bitwise.id.shiftRight 1)).shiftLeft 32)

theorem interleave_deinterleave (z : UInt64) :
    interleave64 (deinterleave64 z).toUInt32 (deinterleave64 z >>> 32).toUInt32 = z := by
  have woven : Bitwise fun z =>
      interleave64 (deinterleave64 z).toUInt32 (deinterleave64 z >>> 32).toUInt32 :=
    (spreadAll_bitwise.comp deinterleave64_bitwise.lowHalf).union
      ((spreadAll_bitwise.comp (deinterleave64_bitwise.shiftRight 32).lowHalf).shiftLeft 1)
  exact @Bitwise.ext _ _ woven Bitwise.id 64 (by decide) z z.toNat_lt

/-- Interleaving puts bit `i` of the first number at place `2 * i` and that of
the second behind it; deinterleaving is its inverse on both sides. -/
theorem interleave64_exact (x y : UInt32) (z : UInt64) :
    deinterleave64 (interleave64 x y) = x.toUInt64 ||| y.toUInt64 <<< 32 ∧
    (∀ i, (interleave64 x y).toNat.testBit (2 * i) = x.toNat.testBit i ∧
      (interleave64 x y).toNat.testBit (2 * i + 1) = y.toNat.testBit i) ∧
    interleave64 (deinterleave64 z).toUInt32 (deinterleave64 z >>> 32).toUInt32 = z :=
  ⟨deinterleave_interleave x y, testBit_interleave64 x y, interleave_deinterleave z⟩

/-- A number of `n` bits spreads over `2 * n - 1`. -/
theorem spreadAll_lt : ∀ n ≤ 32, ∀ {x : UInt64}, x.toNat < 2 ^ n → (spreadAll x).toNat < 2 ^ (2 * n - 1) := by
  intro n inside x small
  refine spreadAll_bitwise.toNat_lt (fun i below => ?_) small
  have : ∀ i < 32, (spreadAll (bit i)).toNat < 2 ^ (2 * i + 1) := by decide
  exact lt_of_lt_of_le (this i (by omega)) (Nat.pow_le_pow_right (by norm_num) (by omega))

end GeoHash

/-- `GeoHashRange`, with exact bounds. -/
structure ExactRange where
  min : ℚ
  max : ℚ

/-- `GeoHashArea`, with exact bounds. -/
structure ExactArea where
  hashbits : GeoHashBits
  longitude : ExactRange
  latitude : ExactRange

/-- `GeoHash`, with exact ranges. -/
structure ExactGeoHash where
  latRange : ExactRange
  longRange : ExactRange

/-- The geohash over the allowed ranges, in exact numbers. -/
def allowedExactGeoHash : ExactGeoHash := ⟨⟨-85.05112878, 85.05112878⟩, ⟨-180, 180⟩⟩

/-- A quotient; what a double makes of a zero divisor is no number, and
becomes none of the integers it is converted to. -/
def exactQuotient (dividend divisor : ℚ) : Exec ℚ :=
  if divisor = 0 then .error .undefinedBehaviour else .ok (dividend / divisor)

/-- A number as the `uint32_t` parameter of `interleave64`. The conversion
truncates towards zero; a value out of range has no defined result. -/
def exactBits (value : ℚ) : Exec UInt32 :=
  let whole := value.num.tdiv value.den
  if 0 ≤ whole ∧ whole < 2 ^ 32 then .ok (UInt32.ofNat whole.toNat)
  else .error .undefinedBehaviour

/-- `1 << step`, in `int`. -/
def intBit (step : UInt8) : Exec Int :=
  if step.toNat < 32 then .ok (i32 (2 ^ step.toNat)) else .error .undefinedBehaviour

/-- `1ull << step`. -/
def wideBit (step : UInt8) : Exec Nat :=
  if step.toNat < 64 then .ok (2 ^ step.toNat) else .error .undefinedBehaviour

namespace ExactGeoHash

/-- `geoHashEncode`, in exact numbers. -/
def geoHashEncode (geo : ExactGeoHash) (longitude latitude : ℚ) (step : UInt8)
    (hash : GeoHashBits) : Exec (Bool × GeoHashBits) :=
  if longitude > geo.longRange.max ∨ longitude < geo.longRange.min ∨
      latitude > geo.latRange.max ∨ latitude < geo.latRange.min then .ok (false, hash)
  else do
    let latOffset ← exactQuotient (latitude - geo.latRange.min) (geo.latRange.max - geo.latRange.min)
    let longOffset ←
      exactQuotient (longitude - geo.longRange.min) (geo.longRange.max - geo.longRange.min)
    let scale ← intBit step
    let lat ← exactBits (latOffset * scale)
    let long ← exactBits (longOffset * scale)
    pure (true, ⟨GeoHash.interleave64 lat long, step⟩)

/-- One bound of a decoded interval. -/
def bound (range : ExactRange) (offset : UInt32) (scale : Nat) : ℚ :=
  range.min + (offset.toNat * 1 / scale) * (range.max - range.min)

/-- The decoded interval of one coordinate. -/
def interval (range : ExactRange) (offset : UInt32) (scale : Nat) : ExactRange :=
  ⟨bound range offset scale, bound range (offset + 1) scale⟩

/-- `geoHashDecode`, in exact numbers. -/
def geoHashDecode (geo : ExactGeoHash) (hashBits : GeoHashBits) : Exec ExactArea := do
  let deinterleavedBits := GeoHash.deinterleave64 hashBits.bits
  let lat := deinterleavedBits.toUInt32
  let long := (deinterleavedBits >>> 32).toUInt32
  let scale ← wideBit hashBits.step
  pure
    { hashbits := hashBits
      longitude := interval geo.longRange long scale
      latitude := interval geo.latRange lat scale }

end ExactGeoHash

/-! ## Cells of a range -/

namespace ExactRange

/-- The length of a range. -/
def width (range : ExactRange) : ℚ := range.max - range.min

/-- The closed interval. -/
def Contains (range : ExactRange) (value : ℚ) : Prop := range.min ≤ value ∧ value ≤ range.max

/-- The cell of a value among `count` of equal width. The upper bound lies in
one more, which begins there. -/
def cell (range : ExactRange) (count : Nat) (value : ℚ) : Nat :=
  ⌊(value - range.min) / range.width * count⌋₊

variable {range : ExactRange} {value : ℚ} (count : Nat)

theorem offset_nonneg (ordered : range.min < range.max) (inside : range.Contains value) :
    0 ≤ (value - range.min) / range.width * count :=
  mul_nonneg (div_nonneg (sub_nonneg.mpr inside.1) (sub_nonneg.mpr ordered.le)) (Nat.cast_nonneg _)

theorem cell_le (ordered : range.min < range.max) (inside : range.Contains value) :
    range.cell count value ≤ count := by
  have wide : 0 < range.width := sub_pos.mpr ordered
  apply Nat.floor_le_of_le
  apply mul_le_of_le_one_left (Nat.cast_nonneg _)
  rw [div_le_one wide, width]
  linarith [inside.2]

/-- Only the upper bound itself lies in the cell past the last. -/
theorem cell_lt_iff (ordered : range.min < range.max) (inside : range.Contains value)
    (some : 0 < count) : range.cell count value < count ↔ value < range.max := by
  have wide : 0 < range.width := sub_pos.mpr ordered
  have counted : (0 : ℚ) < count := Nat.cast_pos.mpr some
  rw [cell, Nat.floor_lt (offset_nonneg count ordered inside), mul_lt_iff_lt_one_left counted,
    div_lt_one wide, width]
  constructor <;> intro below <;> linarith

/-- A value lies between the bounds of its cell. -/
theorem cell_bounds (ordered : range.min < range.max) (inside : range.Contains value)
    (some : 0 < count) :
    range.min + (range.cell count value : ℚ) / count * range.width ≤ value ∧
      value < range.min + ((range.cell count value : ℚ) + 1) / count * range.width := by
  have wide : 0 < range.width := sub_pos.mpr ordered
  have counted : (0 : ℚ) < count := Nat.cast_pos.mpr some
  have low := Nat.floor_le (offset_nonneg count ordered inside)
  have high := Nat.lt_floor_add_one ((value - range.min) / range.width * count)
  rw [← cell] at low high
  have scaled : (value - range.min) / range.width * count * range.width / count =
      value - range.min := by field_simp
  constructor
  · have := div_le_div_of_nonneg_right (mul_le_mul_of_nonneg_right low wide.le) counted.le
    rw [scaled] at this
    linarith [div_mul_eq_mul_div (range.cell count value : ℚ) count range.width]
  · have := div_lt_div_of_pos_right (mul_lt_mul_of_pos_right high wide) counted
    rw [scaled] at this
    linarith [div_mul_eq_mul_div ((range.cell count value : ℚ) + 1) count range.width]

end ExactRange

/-- A number that is not negative is cut off to its floor. -/
theorem exactBits_eq {value : ℚ} (positive : 0 ≤ value) (small : ⌊value⌋₊ < 2 ^ 32) :
    exactBits value = .ok (UInt32.ofNat ⌊value⌋₊) := by
  have whole : value.num.tdiv value.den = (⌊value⌋₊ : Int) := by
    rw [Int.tdiv_eq_ediv_of_nonneg (Rat.num_nonneg.mpr positive), Int.natCast_floor_eq_floor positive,
      Rat.floor_def']
  rw [exactBits, whole, if_pos (by omega), Int.toNat_natCast]

theorem exactQuotient_eq {dividend divisor : ℚ} (some : divisor ≠ 0) :
    exactQuotient dividend divisor = .ok (dividend / divisor) := if_neg some

theorem intBit_eq {step : UInt8} (small : step.toNat ≤ 30) :
    intBit step = .ok ((2 ^ step.toNat : Nat) : Int) := by
  have power : 2 ^ step.toNat ≤ 2 ^ 30 := Nat.pow_le_pow_right (by norm_num) small
  have whole : (2 : Int) ^ step.toNat = ((2 ^ step.toNat : Nat) : Int) := by norm_cast
  rw [intBit, if_pos (by omega), whole]
  generalize 2 ^ step.toNat = scale at power
  rw [i32_of_range (by omega) (by omega)]

theorem wideBit_eq {step : UInt8} (small : step.toNat ≤ 30) :
    wideBit step = .ok (2 ^ step.toNat) := if_pos (by omega)

namespace ExactGeoHash

variable {geo : ExactGeoHash} {longitude latitude : ℚ} {step : UInt8}

/-- A point inside gets the interleaved numbers of its two cells. -/
theorem geoHashEncode_inside (hash : GeoHashBits)
    (longitudes : geo.longRange.min < geo.longRange.max)
    (latitudes : geo.latRange.min < geo.latRange.max)
    (longInside : geo.longRange.Contains longitude) (latInside : geo.latRange.Contains latitude)
    (small : step.toNat ≤ 30) :
    geo.geoHashEncode longitude latitude step hash = .ok (true,
      ⟨GeoHash.interleave64 (UInt32.ofNat (geo.latRange.cell (2 ^ step.toNat) latitude))
        (UInt32.ofNat (geo.longRange.cell (2 ^ step.toNat) longitude)), step⟩) := by
  have power : 2 ^ step.toNat ≤ 2 ^ 30 := Nat.pow_le_pow_right (by norm_num) small
  have within : ¬ (longitude > geo.longRange.max ∨ longitude < geo.longRange.min ∨
      latitude > geo.latRange.max ∨ latitude < geo.latRange.min) := by
    simp [longInside.1, longInside.2, latInside.1, latInside.2]
  have lat : exactBits ((latitude - geo.latRange.min) / geo.latRange.width *
      ((2 ^ step.toNat : Nat) : Int)) =
      .ok (UInt32.ofNat (geo.latRange.cell (2 ^ step.toNat) latitude)) :=
    exactBits_eq (ExactRange.offset_nonneg _ latitudes latInside)
      (lt_of_le_of_lt (ExactRange.cell_le _ latitudes latInside) (by omega))
  have long : exactBits ((longitude - geo.longRange.min) / geo.longRange.width *
      ((2 ^ step.toNat : Nat) : Int)) =
      .ok (UInt32.ofNat (geo.longRange.cell (2 ^ step.toNat) longitude)) :=
    exactBits_eq (ExactRange.offset_nonneg _ longitudes longInside)
      (lt_of_le_of_lt (ExactRange.cell_le _ longitudes longInside) (by omega))
  rw [ExactRange.width] at lat long
  rw [geoHashEncode, if_neg within, exactQuotient_eq (sub_ne_zero.mpr latitudes.ne'),
    exactQuotient_eq (sub_ne_zero.mpr longitudes.ne'), intBit_eq small]
  simp only [exec_ok_bind, lat, long, exec_pure]

theorem bound_eq {range : ExactRange} {offset scale : Nat} (small : offset < 2 ^ 32) :
    bound range (UInt32.ofNat offset) scale = range.min + (offset : ℚ) / scale * range.width := by
  rw [bound, UInt32.toNat_ofNat', Nat.mod_eq_of_lt small, mul_one, ExactRange.width]

theorem interval_eq (range : ExactRange) (scale : Nat) {offset : Nat} (small : offset + 1 < 2 ^ 32) :
    (interval range (UInt32.ofNat offset) scale).min =
        range.min + (offset : ℚ) / scale * range.width ∧
      (interval range (UInt32.ofNat offset) scale).max =
        range.min + ((offset : ℚ) + 1) / scale * range.width := by
  have next : UInt32.ofNat offset + 1 = UInt32.ofNat (offset + 1) := by simp
  constructor
  · exact bound_eq (by omega)
  · rw [interval, next, bound_eq small, Nat.cast_add, Nat.cast_one]

/-- The interval decoded from the cell of a value contains it. -/
theorem interval_contains {range : ExactRange} {value : ℚ} (ordered : range.min < range.max)
    (inside : range.Contains value) (small : step.toNat ≤ 30) :
    (interval range (UInt32.ofNat (range.cell (2 ^ step.toNat) value)) (2 ^ step.toNat)).Contains
      value := by
  have power : 2 ^ step.toNat ≤ 2 ^ 30 := Nat.pow_le_pow_right (by norm_num) small
  have cellSmall := ExactRange.cell_le (2 ^ step.toNat) ordered inside
  obtain ⟨low, high⟩ := ExactRange.cell_bounds (2 ^ step.toNat) ordered inside (by positivity)
  have small : range.cell (2 ^ step.toNat) value + 1 < 2 ^ 32 := by omega
  obtain ⟨first, last⟩ := interval_eq range (2 ^ step.toNat) small
  exact ⟨first.le.trans low, high.le.trans last.ge⟩

theorem interval_width (range : ExactRange) (scale : Nat) {offset : Nat} (small : offset + 1 < 2 ^ 32) :
    (interval range (UInt32.ofNat offset) scale).width = range.width / scale := by
  obtain ⟨first, last⟩ := interval_eq range scale small
  rw [ExactRange.width, first, last]
  ring

theorem geoHashDecode_interleave (geo : ExactGeoHash) (lat long : UInt32)
    (small : step.toNat ≤ 30) :
    geo.geoHashDecode ⟨GeoHash.interleave64 lat long, step⟩ = .ok
      ⟨⟨GeoHash.interleave64 lat long, step⟩, interval geo.longRange long (2 ^ step.toNat),
        interval geo.latRange lat (2 ^ step.toNat)⟩ := by
  rw [geoHashDecode, wideBit_eq small]
  simp only [GeoHash.deinterleave_low, GeoHash.deinterleave_high, exec_ok_bind, exec_pure]

/-- Decoding what encoding made of a point gives the cell the point lies in,
in both directions, also for the points on the upper bounds. -/
theorem geoHashDecode_encode (hash : GeoHashBits)
    (longitudes : geo.longRange.min < geo.longRange.max)
    (latitudes : geo.latRange.min < geo.latRange.max)
    (longInside : geo.longRange.Contains longitude) (latInside : geo.latRange.Contains latitude)
    (small : step.toNat ≤ 30) :
    ∃ encoded area, geo.geoHashEncode longitude latitude step hash = .ok (true, encoded) ∧
      encoded.step = step ∧ geo.geoHashDecode encoded = .ok area ∧ area.hashbits = encoded ∧
      area.longitude.Contains longitude ∧ area.latitude.Contains latitude ∧
      area.longitude.width = geo.longRange.width / 2 ^ step.toNat ∧
      area.latitude.width = geo.latRange.width / 2 ^ step.toNat := by
  have encoded := geoHashEncode_inside hash longitudes latitudes longInside latInside small
  have power : 2 ^ step.toNat ≤ 2 ^ 30 := Nat.pow_le_pow_right (by norm_num) small
  have longCell := ExactRange.cell_le (2 ^ step.toNat) longitudes longInside
  have latCell := ExactRange.cell_le (2 ^ step.toNat) latitudes latInside
  refine ⟨_, _, encoded, rfl, geoHashDecode_interleave geo _ _ small, rfl,
    interval_contains longitudes longInside small, interval_contains latitudes latInside small,
    ?_, ?_⟩
  · simpa using interval_width geo.longRange (2 ^ step.toNat)
      (lt_of_le_of_lt (Nat.succ_le_succ longCell) (by omega))
  · simpa using interval_width geo.latRange (2 ^ step.toNat)
      (lt_of_le_of_lt (Nat.succ_le_succ latCell) (by omega))

/-- The corner of the map, whose cells begin where the ranges end. -/
theorem geoHashDecode_encode_corner :
    ∃ encoded area,
      allowedExactGeoHash.geoHashEncode 180 85.05112878 26 ⟨0, 0⟩ = .ok (true, encoded) ∧
      encoded.step = 26 ∧ allowedExactGeoHash.geoHashDecode encoded = .ok area ∧
      area.hashbits = encoded ∧ area.longitude.Contains 180 ∧ area.latitude.Contains 85.05112878 ∧
      area.longitude.width = allowedExactGeoHash.longRange.width / 2 ^ 26 ∧
      area.latitude.width = allowedExactGeoHash.latRange.width / 2 ^ 26 := by
  have longitudes : (-180 : ℚ) < 180 := by norm_num
  have latitudes : (-85.05112878 : ℚ) < 85.05112878 := by norm_num
  exact @geoHashDecode_encode allowedExactGeoHash 180 85.05112878 26 ⟨0, 0⟩ longitudes latitudes
    ⟨longitudes.le, le_refl _⟩ ⟨latitudes.le, le_refl _⟩ (by decide)

end ExactGeoHash

/-! ## Hashes as scores -/

/-- The exact value of a double made from a small number. -/
theorem finiteParts_toFloat {bits : UInt64} (small : bits.toNat < 2 ^ 53) :
    ∃ shift : Nat, finiteParts bits.toFloat = some (false, bits.toNat <<< shift, -(shift : Int)) := by
  by_cases zero : bits = 0
  · subst zero
    exact ⟨0, by rw [finiteParts, FloatIntegers.unpack_toFloat_zero]; rfl⟩
  · have positive : 0 < bits.toNat := Nat.pos_of_ne_zero fun none => zero (UInt64.toNat_inj.mp none)
    exact ⟨_, by rw [finiteParts, FloatIntegers.unpack_toFloat positive small]; rfl⟩

/-- A hash that fits the mantissa of a double comes back from its score. -/
theorem scoreBits_toFloat {bits : UInt64} (small : bits.toNat < 2 ^ 53) :
    scoreBits bits.toFloat = .ok bits.toNat := by
  obtain ⟨shift, parts⟩ := finiteParts_toFloat small
  have back : bits.toNat <<< shift * 1 / 2 ^ shift = bits.toNat := by
    rw [Nat.mul_one, Nat.shiftLeft_eq, Nat.mul_div_cancel _ (by positivity)]
  have integer : toInteger 0 (2 ^ 64 - 1) bits.toFloat = .ok (bits.toNat : Int) := by
    simp only [toInteger, parts, fractionPower, Int.toNat_neg_natCast, Int.neg_neg,
      Int.toNat_natCast, pow_zero, back]
    exact if_pos (by simp; omega)
  rw [scoreBits, integer]
  rfl

/-- The hash GEOADD computes for a point fits the mantissa of its score, and
the commands that read the score find the same bits. -/
def ScoreKeepsHash (longitude latitude : ℚ) : Prop :=
  ∃ hash, allowedExactGeoHash.geoHashEncode longitude latitude 26 ⟨0, 0⟩ = .ok (true, hash) ∧
    hash.bits.toNat < 2 ^ 53 ∧ scoreBits hash.bits.toFloat = .ok hash.bits.toNat

namespace GeoHash

/-- The hash of two cells of 26 bits fits 53 bits, unless the longitude lies
on the upper bound: its cell then has a 27th bit, which moves past them. -/
theorem interleave64_lt_iff {lat long : Nat} (latInside : lat ≤ 2 ^ 26) (longInside : long ≤ 2 ^ 26) :
    (interleave64 (UInt32.ofNat lat) (UInt32.ofNat long)).toNat < 2 ^ 53 ↔ long < 2 ^ 26 := by
  have latWord : (UInt32.ofNat lat).toUInt64.toNat = lat := by
    rw [UInt32.toNat_toUInt64, UInt32.toNat_ofNat', Nat.mod_eq_of_lt (by omega)]
  have longWord : (UInt32.ofNat long).toUInt64.toNat = long := by
    rw [UInt32.toNat_toUInt64, UInt32.toNat_ofNat', Nat.mod_eq_of_lt (by omega)]
  rw [interleave64, UInt64.toNat_or]
  constructor
  · intro small
    by_contra last
    obtain rfl : long = 2 ^ 26 := by omega
    have top : (spreadAll (UInt32.ofNat (2 ^ 26)).toUInt64 <<< 1).toNat = 2 ^ 53 := by decide
    rw [top] at small
    exact absurd (lt_of_le_of_lt Nat.right_le_or small) (lt_irrefl _)
  · intro below
    apply Nat.or_lt_two_pow
    · exact spreadAll_lt 27 (by norm_num) (by omega)
    · have spread := spreadAll_lt 26 (by norm_num) (x := (UInt32.ofNat long).toUInt64) (by omega)
      rw [UInt64.toNat_shiftLeft]
      simp only [UInt64.reduceToNat, Nat.reduceMod, Nat.shiftLeft_eq]
      omega

end GeoHash

/-- Exactly the points on the upper bound of the longitudes get a hash too
long for their score. -/
theorem scoreKeepsHash_iff {longitude latitude : ℚ} (longLow : -180 ≤ longitude)
    (longHigh : longitude ≤ 180) (latLow : -85.05112878 ≤ latitude) (latHigh : latitude ≤ 85.05112878) :
    ScoreKeepsHash longitude latitude ↔ longitude < 180 := by
  have longInside : allowedExactGeoHash.longRange.Contains longitude := ⟨longLow, longHigh⟩
  have latInside : allowedExactGeoHash.latRange.Contains latitude := ⟨latLow, latHigh⟩
  have longitudes : allowedExactGeoHash.longRange.min < allowedExactGeoHash.longRange.max := by
    norm_num [allowedExactGeoHash]
  have latitudes : allowedExactGeoHash.latRange.min < allowedExactGeoHash.latRange.max := by
    norm_num [allowedExactGeoHash]
  have encoded := @ExactGeoHash.geoHashEncode_inside _ _ _ 26 ⟨0, 0⟩ longitudes latitudes
    longInside latInside (by decide)
  have fits := GeoHash.interleave64_lt_iff
    (ExactRange.cell_le (2 ^ 26) latitudes latInside)
    (ExactRange.cell_le (2 ^ 26) longitudes longInside)
  rw [ExactRange.cell_lt_iff _ longitudes longInside (by norm_num)] at fits
  constructor
  · rintro ⟨hash, same, small, -⟩
    rw [encoded] at same
    cases same
    exact fits.mp small
  · intro below
    exact ⟨_, encoded, fits.mpr below, scoreBits_toFloat (fits.mpr below)⟩

theorem scoreKeepsHash_palermo : ScoreKeepsHash 13.361389 38.115556 :=
  (scoreKeepsHash_iff (by norm_num) (by norm_num) (by norm_num) (by norm_num)).mpr (by norm_num)

deriving instance DecidableEq for GeoHashBits

/-- On the upper bound the hash needs 54 bits and the score drops its last. -/
theorem score_loses_hash_antimeridian :
    allowedExactGeoHash.geoHashEncode 180 (-85) 26 ⟨0, 0⟩ = .ok (true, ⟨9007199528702021, 26⟩) ∧
      scoreBits (9007199528702021 : UInt64).toFloat = .ok 9007199528702020 ∧
      ¬ ScoreKeepsHash 180 (-85) := by
  have encoded : allowedExactGeoHash.geoHashEncode 180 (-85) 26 ⟨0, 0⟩ =
      .ok (true, ⟨9007199528702021, 26⟩) := by
    decide +kernel
  refine ⟨encoded, by rfl, ?_⟩
  rintro ⟨hash, same, small, -⟩
  rw [encoded] at same
  cases same
  exact absurd small (by decide)

end CarrotDb
