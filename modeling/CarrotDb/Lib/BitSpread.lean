import CarrotDb.Lib.Bits

/-! Functions that move single bits of a machine word around, such as the
passes that interleave two coordinates. Such a function is known from its
values at the powers of two. -/
namespace CarrotDb.BitSpread

/-- Every number below a power of two is a disjunction of single bits. -/
theorem or_induction {motive : Nat → Prop} (zero : motive 0)
    (or : ∀ a b, motive a → motive b → motive (a ||| b)) :
    ∀ {width : Nat}, (∀ i < width, motive (2 ^ i)) → ∀ {n : Nat}, n < 2 ^ width → motive n := by
  intro width
  induction width with
  | zero =>
    intro _ n small
    obtain rfl : n = 0 := by simpa using small
    exact zero
  | succ width ih =>
    intro bits n small
    -- The highest bit is split off; the rest is below the smaller power.
    have split : n = n % 2 ^ width ||| (n / 2 ^ width) <<< width := by
      rw [Bits.or_shiftLeft _ (Nat.mod_lt _ (by positivity)), Nat.mul_comm, Nat.mod_add_div]
    have high : n / 2 ^ width < 2 := Nat.div_lt_of_lt_mul (by rwa [pow_succ] at small)
    rw [split]
    apply or
    · apply ih fun i inside => bits i (Nat.lt_succ_of_lt inside)
      exact Nat.mod_lt _ (by positivity)
    · obtain none | one := Nat.le_one_iff_eq_zero_or_eq_one.mp (Nat.le_of_lt_succ high)
      · simpa [none] using zero
      · simpa [one, Nat.one_shiftLeft] using bits width (Nat.lt_succ_self width)

/-- The word with one bit set. -/
def bit (i : Nat) : UInt64 := UInt64.ofNat (2 ^ i)

theorem testBit_bit {i : Nat} (inside : i < 64) (k : Nat) : (bit i).toNat.testBit k = decide (i = k) := by
  have small : 2 ^ i < 2 ^ 64 := Nat.pow_lt_pow_right (by norm_num) inside
  rw [bit, UInt64.toNat_ofNat', Nat.mod_eq_of_lt small, Nat.testBit_two_pow]

/-- A function that treats each bit of a word by itself. -/
structure Bitwise (f : UInt64 → UInt64) : Prop where
  zero : f 0 = 0
  or : ∀ a b, f (a ||| b) = f a ||| f b

namespace Bitwise

variable {f g : UInt64 → UInt64}

theorem id : Bitwise fun x => x := ⟨rfl, fun _ _ => rfl⟩

/-- The function that drops every bit. -/
theorem none : Bitwise fun _ => 0 := ⟨rfl, fun _ _ => rfl⟩

theorem comp (outer : Bitwise f) (inner : Bitwise g) : Bitwise fun x => f (g x) :=
  ⟨by rw [inner.zero, outer.zero], fun a b => by rw [inner.or, outer.or]⟩

theorem union (left : Bitwise f) (right : Bitwise g) : Bitwise fun x => f x ||| g x := by
  refine ⟨by rw [left.zero, right.zero, UInt64.or_self], fun a b => ?_⟩
  rw [left.or, right.or]
  ac_rfl

theorem mask (inner : Bitwise f) (bits : UInt64) : Bitwise fun x => f x &&& bits := by
  refine ⟨by rw [inner.zero, UInt64.zero_and], fun a b => ?_⟩
  rw [inner.or, ← UInt64.toBitVec_inj]
  simp only [UInt64.toBitVec_and, UInt64.toBitVec_or]
  exact BitVec.and_or_distrib_right ..

theorem shiftLeft (inner : Bitwise f) (shift : UInt64) : Bitwise fun x => f x <<< shift :=
  ⟨by rw [inner.zero, UInt64.zero_shiftLeft], fun a b => by rw [inner.or, UInt64.shiftLeft_or]⟩

theorem shiftRight (inner : Bitwise f) (shift : UInt64) : Bitwise fun x => f x >>> shift :=
  ⟨by rw [inner.zero, UInt64.zero_shiftRight], fun a b => by rw [inner.or, UInt64.shiftRight_or]⟩

/-- The low half of a word, as a narrower word passes it on. -/
theorem lowHalf (inner : Bitwise f) : Bitwise fun x => (f x).toUInt32.toUInt64 := by
  refine ⟨by rw [inner.zero]; rfl, fun a b => ?_⟩
  rw [inner.or, UInt64.toUInt32_or, UInt32.toUInt64_or]

/-- A property of the values of a bitwise function that disjunctions keep
holds of all small words if it holds of the single bits. -/
theorem induction {motive : UInt64 → UInt64 → Prop} (zero : motive 0 0)
    (or : ∀ a b c d, motive a b → motive c d → motive (a ||| c) (b ||| d)) (bitwise : Bitwise f)
    {width : Nat} (bits : ∀ i < width, motive (bit i) (f (bit i))) {x : UInt64}
    (small : x.toNat < 2 ^ width) : motive x (f x) := by
  have all : motive (UInt64.ofNat x.toNat) (f (UInt64.ofNat x.toNat)) := by
    refine or_induction (motive := fun n => motive (UInt64.ofNat n) (f (UInt64.ofNat n)))
      ?_ ?_ bits small
    · simpa [bitwise.zero] using zero
    · intro a b left right
      simpa [UInt64.ofNat_or, bitwise.or] using or _ _ _ _ left right
  simpa using all

/-- Two bitwise functions that agree on the single bits agree. -/
theorem ext (left : Bitwise f) (right : Bitwise g) {width : Nat}
    (bits : ∀ i < width, f (bit i) = g (bit i)) {x : UInt64} (small : x.toNat < 2 ^ width) :
    f x = g x := by
  refine induction (motive := fun x value => value = g x) right.zero.symm ?_ left bits small
  intro a b c d first second
  rw [first, second, right.or]

/-- Where single bits stay below a power of two, all words do. -/
theorem toNat_lt (bitwise : Bitwise f) {width bound : Nat}
    (bits : ∀ i < width, (f (bit i)).toNat < 2 ^ bound) {x : UInt64}
    (small : x.toNat < 2 ^ width) : (f x).toNat < 2 ^ bound := by
  refine induction (motive := fun _ value => value.toNat < 2 ^ bound) (by simp) ?_ bitwise bits small
  intro a b c d first second
  rw [UInt64.toNat_or]
  exact Nat.or_lt_two_pow first second

end Bitwise

end CarrotDb.BitSpread
