import CarrotDb.FloatText

/-! `geohash.cpp`: coordinates as interleaved bits, and distances. -/
namespace CarrotDb
open FloatText

/-- `GeoHashRange`. -/
structure GeoHashRange where
  min : Float
  max : Float

/-- `GeoHashBits`. -/
structure GeoHashBits where
  bits : UInt64
  step : UInt8

/-- `GeoHashArea`. -/
structure GeoHashArea where
  hashbits : GeoHashBits
  longitude : GeoHashRange
  latitude : GeoHashRange

/-- `GeoHash`. -/
structure GeoHash where
  latRange : GeoHashRange
  longRange : GeoHashRange

namespace GeoHash

/-- One pass of `interleave64`. -/
def spread (shift mask x : UInt64) : UInt64 := (x ||| (x <<< shift)) &&& mask

/-- One pass of `deinterleave64`. -/
def squash (shift mask x : UInt64) : UInt64 := (x ||| (x >>> shift)) &&& mask

/-- The passes of `interleave64` over one coordinate. -/
def spreadAll (x : UInt64) : UInt64 :=
  spread 1 0x5555555555555555 (spread 2 0x3333333333333333 (spread 4 0x0F0F0F0F0F0F0F0F
    (spread 8 0x00FF00FF00FF00FF (spread 16 0x0000FFFF0000FFFF x))))

/-- The passes of `deinterleave64` over one coordinate. -/
def squashAll (x : UInt64) : UInt64 :=
  squash 16 0x00000000FFFFFFFF (squash 8 0x0000FFFF0000FFFF (squash 4 0x00FF00FF00FF00FF
    (squash 2 0x0F0F0F0F0F0F0F0F (squash 1 0x3333333333333333 (squash 0 0x5555555555555555 x)))))

/-- `interleave64`. -/
def interleave64 (xlo ylo : UInt32) : UInt64 :=
  spreadAll xlo.toUInt64 ||| (spreadAll ylo.toUInt64 <<< 1)

/-- `deinterleave64`. -/
def deinterleave64 (interleaved : UInt64) : UInt64 :=
  squashAll interleaved ||| (squashAll (interleaved >>> 1) <<< 32)

/-- A scaled offset as the `uint32_t` parameter of `interleave64`. -/
def offsetBits (offset : Float) : Exec UInt32 := do
  let value ← toInteger 0 (2 ^ 32 - 1) offset
  pure (UInt32.ofNat value.toNat)

/-- `geoHashEncode`: the verdict and the hash, which is left alone when the
point lies outside. -/
def geoHashEncode (geo : GeoHash) (longitude latitude : Float) (step : UInt8)
    (hash : GeoHashBits) : Exec (Bool × GeoHashBits) :=
  if longitude > geo.longRange.max ∨ longitude < geo.longRange.min ∨
      latitude > geo.latRange.max ∨ latitude < geo.latRange.min then pure (false, hash)
  else do
    let latOffset := (latitude - geo.latRange.min) / (geo.latRange.max - geo.latRange.min)
    let longOffset := (longitude - geo.longRange.min) / (geo.longRange.max - geo.longRange.min)
    let scale := Float.ofNat (2 ^ step.toNat)
    let lat ← offsetBits (latOffset * scale)
    let long ← offsetBits (longOffset * scale)
    pure (true, ⟨interleave64 lat long, step⟩)

/-- One bound of a decoded interval. -/
def bound (range : GeoHashRange) (offset : UInt32) (step : UInt8) : Float :=
  range.min + (offset.toFloat * 1.0 / Float.ofNat (2 ^ step.toNat)) * (range.max - range.min)

/-- `geoHashDecode`. -/
def geoHashDecode (geo : GeoHash) (hashBits : GeoHashBits) : GeoHashArea :=
  let deinterleavedBits := deinterleave64 hashBits.bits
  let lat := deinterleavedBits.toUInt32
  let long := (deinterleavedBits >>> 32).toUInt32
  { hashbits := hashBits
    longitude := ⟨bound geo.longRange long hashBits.step, bound geo.longRange (long + 1) hashBits.step⟩
    latitude := ⟨bound geo.latRange lat hashBits.step, bound geo.latRange (lat + 1) hashBits.step⟩ }

/-- `M_PI`. -/
def pi : Float := 3.14159265358979323846

/-- `calculateDistance`. -/
def calculateDistance (area1 area2 : GeoHashArea) : Float :=
  let lon1 := (area1.longitude.min + area1.longitude.max) / 2.0
  let lat1 := (area1.latitude.min + area1.latitude.max) / 2.0
  let lon2 := (area2.longitude.min + area2.longitude.max) / 2.0
  let lat2 := (area2.latitude.min + area2.latitude.max) / 2.0
  let earthRadius : Float := 6372797.560856
  let lat1Rad := lat1 * pi / 180.0
  let lat2Rad := lat2 * pi / 180.0
  let dLat := (lat2 - lat1) * pi / 180.0
  let dLon := (lon2 - lon1) * pi / 180.0
  let a := Float.sin (dLat / 2) * Float.sin (dLat / 2) +
    Float.cos lat1Rad * Float.cos lat2Rad * Float.sin (dLon / 2) * Float.sin (dLon / 2)
  let c := 2 * Float.atan2 (Float.sqrt a) (Float.sqrt (1 - a))
  earthRadius * c

end GeoHash

end CarrotDb
