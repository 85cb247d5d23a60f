import CarrotDb.Lib.FloatIntegers

/-! How large doubles get. The exact result of an operation on numbers below
powers of two is below one, and rounding raises that by at most one bit. -/
namespace CarrotDb.FloatBounds
open Float.Model UnpackedFloat

/-- Zero, or a number of a sign below a power of two, with at most 53 bits. -/
inductive Below (k : Int) (sign : Sign) : UnpackedFloat → Prop
  | zero (other : Sign) : Below k sign (.zero other)
  | finite {mantissa : Nat} {exponent : Int} (positive : 0 < mantissa) :
    totalExponent mantissa exponent ≤ k → mantissa.log2 ≤ 52 →
    Below k sign (.finite sign mantissa exponent positive)

theorem log2_le {m n : Nat} (le : m ≤ n) : m.log2 ≤ n.log2 := by
  rw [Nat.log2_eq_log_two, Nat.log2_eq_log_two]
  exact Nat.log_mono_right le

/-- Dropping bits of a number that keeps some. -/
theorem log2_div_pow {n s : Nat} (some_ : n / 2 ^ s ≠ 0) : (n / 2 ^ s).log2 + s = n.log2 := by
  have positive : n ≠ 0 := by
    rintro rfl
    simp at some_
  have below : n / 2 ^ s < 2 ^ ((n / 2 ^ s).log2 + 1) := Nat.lt_log2_self
  have above : 2 ^ (n / 2 ^ s).log2 ≤ n / 2 ^ s := Nat.log2_self_le some_
  symm
  apply (Nat.log2_eq_iff positive).mpr
  constructor
  · rw [pow_add]
    exact (Nat.le_div_iff_mul_le (by positivity)).mp above
  · rw [Nat.add_right_comm, pow_add]
    exact (Nat.div_lt_iff_lt_mul (by positivity)).mp below

theorem shiftRight_mantissa (em : ExtendedMantissa) (s : Nat) :
    (em >>> s).mantissa = em.mantissa / 2 ^ s := by
  induction s with
  | zero => simp [HShiftRight.hShiftRight, Nat.repeat]
  | succ s ih =>
    have step : (em >>> (s + 1)).mantissa = (em >>> s).mantissa / 2 := rfl
    rw [step, ih, Nat.div_div_eq_div_mul, pow_succ]

theorem ofMantissaAndAccuracy_mantissa (mantissa : Nat) (accuracy : Accuracy) :
    (ExtendedMantissa.ofMantissaAndAccuracy mantissa accuracy).mantissa = mantissa := by
  rcases accuracy with _ | relative
  · rfl
  · cases relative <;> rfl

theorem roundedMantissa_le (em : ExtendedMantissa) : em.roundedMantissa ≤ em.mantissa + 1 := by
  rw [ExtendedMantissa.roundedMantissa]
  rcases em.accuracy with _ | relative
  · exact Nat.le_succ _
  · cases relative with
    | lt => exact Nat.le_succ _
    | gt => exact le_rfl
    | eq =>
      rw [Accuracy.roundToNearestEven]
      omega

theorem targetExponent_binary64 (total : Int) :
    Format.binary64.targetExponent total = max (total - 53) (-1074) := rfl

/-- A shift to the target exponent: the mantissa and the exponent behind it. -/
theorem shiftToTargetExponent_eq (mantissa : Nat) (exponent : Int) (accuracy : Accuracy) :
    ∃ s : Nat, (shiftToTargetExponent Format.binary64 mantissa exponent accuracy).1.mantissa =
        mantissa / 2 ^ s ∧
      (shiftToTargetExponent Format.binary64 mantissa exponent accuracy).2 = exponent + s ∧
      max (totalExponent mantissa exponent - 53) (-1074) ≤ exponent + s ∧
      (s = 0 ∨ exponent + s = max (totalExponent mantissa exponent - 53) (-1074)) := by
  refine ⟨(max (totalExponent mantissa exponent - 53) (-1074) - exponent).toNat, ?_, rfl, ?_, ?_⟩
  · simp only [shiftToTargetExponent, shiftToExponent, shiftRight_mantissa,
      ofMantissaAndAccuracy_mantissa, targetExponent_binary64]
  · omega
  · omega

/-- Rounding raises the exponent by at most one. -/
theorem roundWithAccuracy_below {k : Int} {mantissa : Nat} {exponent : Int} (sign : Sign)
    (accuracy : Accuracy) (small : totalExponent mantissa exponent ≤ k) (low : -1074 ≤ k) :
    Below (k + 1) sign (roundWithAccuracy Format.binary64 sign mantissa exponent accuracy) := by
  obtain ⟨s, first, exponent₁, least, place⟩ := shiftToTargetExponent_eq mantissa exponent accuracy
  rcases shifted : shiftToTargetExponent Format.binary64 mantissa exponent accuracy with ⟨em, e₁⟩
  rw [shifted] at first exponent₁
  dsimp only at first exponent₁
  have rounded := roundedMantissa_le em
  rw [first] at rounded
  -- What is left of the mantissa doubles at most, or becomes one.
  have total : totalExponent em.roundedMantissa e₁ ≤ k + 1 := by
    by_cases gone : mantissa / 2 ^ s = 0
    · have one : em.roundedMantissa.log2 ≤ 0 := log2_le (n := 1) (by omega)
      rw [totalExponent] at small ⊢
      have here : e₁ ≤ k := by
        rcases place with rfl | place
        · omega
        · rw [totalExponent] at place
          omega
      omega
    · have twice : em.roundedMantissa.log2 ≤ (2 * (mantissa / 2 ^ s)).log2 := log2_le (by omega)
      rw [Nat.log2_two_mul gone] at twice
      have dropped := log2_div_pow gone
      rw [totalExponent] at small ⊢
      omega
  obtain ⟨t, second, exponent₂, least₂, -⟩ := shiftToTargetExponent_eq em.roundedMantissa e₁ .exact
  rcases shifted₂ : shiftToTargetExponent Format.binary64 em.roundedMantissa e₁ .exact with ⟨em₂, e₂⟩
  rw [shifted₂] at second exponent₂
  dsimp only at second exponent₂
  simp only [roundWithAccuracy, shifted, shifted₂]
  split
  · exact .zero sign
  · rename_i some_
    rw [second] at some_
    have dropped := log2_div_pow some_
    refine .finite _ ?_ ?_
    · rw [totalExponent, second]
      rw [totalExponent] at total
      omega
    · rw [second]
      rw [totalExponent] at least₂ total
      omega

/-- Filling up a mantissa changes nothing of the size. -/
theorem round_below {k : Int} {mantissa : Nat} {exponent : Int} (sign : Sign) (some_ : mantissa ≠ 0)
    (small : totalExponent mantissa exponent ≤ k) (low : -1074 ≤ k) :
    Below (k + 1) sign (UnpackedFloat.round Format.binary64 sign mantissa exponent) := by
  obtain ⟨n, shifted⟩ : ∃ n : Nat, UnpackedFloat.round Format.binary64 sign mantissa exponent =
      roundWithAccuracy Format.binary64 sign (mantissa <<< n) (exponent - n) .exact := ⟨_, rfl⟩
  have filled : (mantissa <<< n).log2 = mantissa.log2 + n := by
    obtain ⟨above, below⟩ := (Nat.log2_eq_iff some_).mp rfl
    rw [Nat.shiftLeft_eq]
    apply (Nat.log2_eq_iff (by positivity)).mpr
    constructor
    · rw [pow_add]
      exact Nat.mul_le_mul_right _ above
    · rw [Nat.add_right_comm, pow_add]
      exact Nat.mul_lt_mul_of_pos_right below (by positivity)
  rw [shifted]
  apply roundWithAccuracy_below sign .exact _ low
  rw [totalExponent] at small ⊢
  omega

/-- A number in front of a power of two, at an exponent below its own. -/
theorem scaled_lt {k : Int} {mantissa : Nat} {exponent least : Int}
    (small : totalExponent mantissa exponent ≤ k) (above : least ≤ exponent) :
    mantissa * 2 ^ (exponent - least).toNat < 2 ^ (k - least).toNat := by
  rw [totalExponent] at small
  calc mantissa * 2 ^ (exponent - least).toNat
      < 2 ^ (mantissa.log2 + 1) * 2 ^ (exponent - least).toNat :=
        Nat.mul_lt_mul_of_pos_right Nat.lt_log2_self (by positivity)
    _ = 2 ^ (mantissa.log2 + 1 + (exponent - least).toNat) := (pow_add ..).symm
    _ ≤ 2 ^ (k - least).toNat := Nat.pow_le_pow_right (by norm_num) (by omega)

/-- The whole part of a number in front of a power of two. -/
theorem whole_lt {k : Nat} {mantissa : Nat} {exponent : Int}
    (small : totalExponent mantissa exponent ≤ k) :
    mantissa * 2 ^ exponent.toNat / 2 ^ (-exponent).toNat < 2 ^ k := by
  rw [totalExponent] at small
  apply Nat.div_lt_of_lt_mul
  calc mantissa * 2 ^ exponent.toNat
      < 2 ^ (mantissa.log2 + 1) * 2 ^ exponent.toNat :=
        Nat.mul_lt_mul_of_pos_right Nat.lt_log2_self (by positivity)
    _ = 2 ^ (mantissa.log2 + 1 + exponent.toNat) := (pow_add ..).symm
    _ ≤ 2 ^ ((-exponent).toNat + k) := Nat.pow_le_pow_right (by norm_num) (by omega)
    _ = 2 ^ (-exponent).toNat * 2 ^ k := pow_add ..

/-- The size of a number below a power of two, at any exponent. -/
theorem totalExponent_le {k : Int} {mantissa : Nat} {exponent : Int} (some_ : mantissa ≠ 0)
    (small : mantissa < 2 ^ (k - exponent).toNat) : totalExponent mantissa exponent ≤ k := by
  have bits := (Nat.log2_lt some_).mpr small
  rw [totalExponent]
  omega

/-- A sum of mantissas at one exponent that is not negative. -/
theorem normalize_below {k : Int} {mantissa exponent : Int} (low : -1074 ≤ k)
    (least : 0 ≤ mantissa) (small : mantissa < 2 ^ (k - exponent).toNat) :
    Below (k + 1) .positive (UnpackedFloat.normalize Format.binary64 mantissa exponent .positive) := by
  rw [UnpackedFloat.normalize]
  rcases least.eq_or_lt with rfl | more
  · exact .zero _
  · rw [compare_gt_iff_gt.mpr more]
    have some_ : mantissa.toNat ≠ 0 := by omega
    apply round_below .positive some_ (totalExponent_le some_ _) low
    zify
    rwa [Int.toNat_of_nonneg least]

/-- A negative number is not under another one with a full mantissa. -/
theorem scaled_le {mantissa mantissa' : Nat} {exponent exponent' : Int}
    (bits : mantissa.log2 ≤ 52) (full : mantissa'.log2 = 52)
    (ordered : exponent < exponent' ∨ exponent = exponent' ∧ mantissa ≤ mantissa') :
    mantissa * 2 ^ (exponent - min exponent exponent').toNat ≤
      mantissa' * 2 ^ (exponent' - min exponent exponent').toNat := by
  rcases ordered with under | ⟨rfl, le⟩
  · have some_ : mantissa' ≠ 0 := by
      rintro rfl
      simp at full
    have large : 2 ^ 52 ≤ mantissa' := (Nat.le_log2 some_).mp full.ge
    have small : mantissa < 2 ^ 53 :=
      Nat.lt_log2_self.trans_le (Nat.pow_le_pow_right (by norm_num) (by omega))
    have twice : 2 ^ 1 ≤ 2 ^ (exponent' - min exponent exponent').toNat :=
      Nat.pow_le_pow_right (by norm_num) (by omega)
    rw [min_eq_left under.le, Int.sub_self] at *
    calc mantissa * 2 ^ (0 : Int).toNat = mantissa := Nat.mul_one _
      _ ≤ mantissa' * 2 ^ 1 := by omega
      _ ≤ _ := Nat.mul_le_mul_left _ twice
  · exact Nat.mul_le_mul_right _ le

private theorem isGE_then {exponent exponent' : Int} {mantissa mantissa' : Nat}
    (ge : ((compare exponent' exponent).then (compare mantissa' mantissa)).isGE = true) :
    exponent < exponent' ∨ exponent = exponent' ∧ mantissa ≤ mantissa' := by
  rcases lt_trichotomy exponent exponent' with lt | rfl | gt
  · exact .inl lt
  · refine .inr ⟨rfl, ?_⟩
    by_contra under
    simp [compare_lt_iff_lt.mpr (not_le.mp under)] at ge
  · simp [compare_lt_iff_lt.mpr gt] at ge

/-- A number that is not under a negative one, minus that one: a positive
number, or zero. -/
theorem sub_below {k : Int} {a : UnpackedFloat} {sign : Sign} {mantissa : Nat} {exponent : Int}
    {positive : 0 < mantissa} (low : -1074 ≤ k) (left : Below k sign a)
    (small : totalExponent mantissa exponent ≤ k) (full : mantissa.log2 = 52)
    (ordered : UnpackedFloat.le (.finite .negative mantissa exponent positive) a = true) :
    Below (k + 2) .positive
      (UnpackedFloat.sub Format.binary64 a (.finite .negative mantissa exponent positive)) := by
  cases left with
  | zero other => exact .finite positive (by omega) full.le
  | @finite m e some_ small' bits =>
    have lt := scaled_lt small (min_le_right e exponent)
    have lt' := scaled_lt small' (min_le_left e exponent)
    have room : 2 ^ (k - min e exponent).toNat + 2 ^ (k - min e exponent).toNat ≤
        2 ^ (k + 1 - min e exponent).toNat := by
      rw [← Nat.two_mul, ← pow_succ']
      apply Nat.pow_le_pow_right (by norm_num)
      rw [totalExponent] at small small'
      omega
    have bound : ((2 ^ (k + 1 - min e exponent).toNat : Nat) : Int) =
        2 ^ (k + 1 - min e exponent).toNat := by push_cast; rfl
    simp only [UnpackedFloat.sub, decreaseExponent, Nat.shiftLeft_eq]
    rw [show k + 2 = k + 1 + 1 by ring]
    cases sign with
    | positive =>
      generalize m * 2 ^ (e - min e exponent).toNat = left at *
      generalize mantissa * 2 ^ (exponent - min e exponent).toNat = right at *
      apply normalize_below (by omega) <;> simp only [Sign.apply] <;> omega
    | negative =>
      have le : m * 2 ^ (e - min e exponent).toNat ≤
          mantissa * 2 ^ (exponent - min e exponent).toNat := by
        apply scaled_le bits full
        apply isGE_then
        simpa [UnpackedFloat.le, UnpackedFloat.compare] using ordered
      generalize m * 2 ^ (e - min e exponent).toNat = left at *
      generalize mantissa * 2 ^ (exponent - min e exponent).toNat = right at *
      apply normalize_below (by omega) <;> simp only [Sign.apply] <;> omega

/-- The mantissa and the exponent of a quotient in front of its rounding. -/
theorem divCore_eq (m m' : Nat) (e e' : Int) :
    ∃ (s : Nat) (te : Int) (acc : Accuracy),
      divCore Format.binary64 m e m' e' = (m * 2 ^ s / m', te, acc) ∧ s + te = e - e' ∧
        te ≤ max (totalExponent m e - totalExponent m' e' - 53) (-1074) := by
  obtain ⟨te, here⟩ : ∃ te, te = min (e - e')
    (Format.binary64.targetExponent (totalExponent m e - totalExponent m' e')) := ⟨_, rfl⟩
  refine ⟨(e - e' - te).toNat, te, accuracyOfFraction (m * 2 ^ (e - e' - te).toNat % m') m', ?_,
    ?_, ?_⟩
  · simp only [divCore, Nat.shiftLeft_eq, here]
  · omega
  · rw [here]
    exact min_le_right _ _

/-- The quotient by a positive number that is not below a power of two. -/
theorem div_below {k t : Int} {a : UnpackedFloat} {mantissa : Nat} {exponent : Int}
    {positive : 0 < mantissa} (low : -1074 ≤ k - t) (left : Below k .positive a)
    (large : t ≤ totalExponent mantissa exponent) :
    Below (k - t + 2) .positive
      (UnpackedFloat.div Format.binary64 a (.finite .positive mantissa exponent positive)) := by
  cases left with
  | zero other => exact .zero _
  | @finite m e some_ small bits =>
    obtain ⟨s, te, acc, divided, shift, target⟩ := divCore_eq m mantissa e exponent
    simp only [UnpackedFloat.div, divided]
    rw [show k - t + 2 = k - t + 1 + 1 by ring]
    apply roundWithAccuracy_below .positive acc _ (by omega)
    have product : m * 2 ^ s / mantissa * mantissa ≤ m * 2 ^ s := Nat.div_mul_le_self _ _
    generalize m * 2 ^ s / mantissa = q at product ⊢
    unfold totalExponent at small large target ⊢
    by_cases gone : q = 0
    · rw [gone, Nat.log2_zero]
      omega
    · -- The product with the divisor has no more bits than the dividend.
      have less : 2 ^ (q.log2 + mantissa.log2) < 2 ^ (m.log2 + 1 + s) := by
        calc 2 ^ (q.log2 + mantissa.log2) = 2 ^ q.log2 * 2 ^ mantissa.log2 := pow_add ..
          _ ≤ q * mantissa :=
            Nat.mul_le_mul (Nat.log2_self_le gone) (Nat.log2_self_le positive.ne')
          _ ≤ m * 2 ^ s := product
          _ < 2 ^ (m.log2 + 1) * 2 ^ s :=
            Nat.mul_lt_mul_of_pos_right Nat.lt_log2_self (by positivity)
          _ = 2 ^ (m.log2 + 1 + s) := (pow_add ..).symm
      have bits' := (Nat.pow_lt_pow_iff_right (by norm_num)).mp less
      omega

/-- The product with a positive number below a power of two. -/
theorem mul_below {k t : Int} {a : UnpackedFloat} {mantissa : Nat} {exponent : Int}
    {positive : 0 < mantissa} (low : -1074 ≤ k + t) (left : Below k .positive a)
    (small : totalExponent mantissa exponent ≤ t) :
    Below (k + t + 1) .positive
      (UnpackedFloat.mul Format.binary64 a (.finite .positive mantissa exponent positive)) := by
  cases left with
  | zero other => exact .zero _
  | @finite m e some_ small' bits =>
    simp only [UnpackedFloat.mul]
    apply roundWithAccuracy_below .positive .exact _ low
    have less : 2 ^ (m * mantissa).log2 < 2 ^ (m.log2 + 1 + (mantissa.log2 + 1)) := by
      calc 2 ^ (m * mantissa).log2 ≤ m * mantissa :=
            Nat.log2_self_le (Nat.mul_pos some_ positive).ne'
        _ < 2 ^ (m.log2 + 1) * 2 ^ (mantissa.log2 + 1) :=
          Nat.mul_lt_mul_of_lt_of_lt Nat.lt_log2_self Nat.lt_log2_self
        _ = 2 ^ (m.log2 + 1 + (mantissa.log2 + 1)) := (pow_add ..).symm
    have bits' := (Nat.pow_lt_pow_iff_right (by norm_num)).mp less
    rw [totalExponent] at small small' ⊢
    omega

/-- What the fields of a double hold. -/
theorem unpack_components_below {k : Int} {sign : Sign} {biased : BitVec 11} {mantissa : BitVec 52}
    (low : -1021 ≤ k) (inner : biased ≠ -1#11) (small : biased ≠ 0#11 → biased.toNat - 1022 ≤ k) :
    Below k sign (UnpackedFloat.unpack Format.binary64
      (packComponents Format.binary64 sign biased mantissa)) := by
  have bias : Format.binary64.exponentBias = 1023 := rfl
  simp only [UnpackedFloat.unpack, unpackMantissa_packComponents, unpackExponent_packComponents,
    FloatIntegers.unpackSign_packComponents, FloatIntegers.sign_of_toBitVec, inner, if_false, bias]
  have bound := mantissa.isLt
  split
  · rename_i none_
    split
    · exact .zero _
    · rename_i some_
      have nonzero : mantissa.toNat ≠ 0 := fun zero => some_ (BitVec.eq_of_toNat_eq zero)
      have bits : mantissa.toNat.log2 < 52 := (Nat.log2_lt nonzero).mpr bound
      refine .finite _ ?_ (by omega)
      simp only [totalExponent, none_, BitVec.toNat_zero]
      omega
  · rename_i some_
    have bits : (1#1 ++ mantissa).toNat.log2 = 52 := by
      rw [FloatIntegers.append_toNat]
      exact (Nat.log2_eq_iff (by omega)).mpr ⟨by omega, by omega⟩
    refine .finite _ ?_ bits.le
    have less := small some_
    simp only [totalExponent, bits]
    omega

/-- Packing keeps a number below a power of two. -/
theorem unpack_pack_below {k : Int} {sign : Sign} {value : UnpackedFloat} (low : -1021 ≤ k)
    (high : k ≤ 900) (below : Below k sign value) :
    Below k sign (Float.Model.pack value).unpack := by
  cases below with
  | zero other => cases other <;> exact .zero _
  | @finite mantissa exponent positive small bits =>
    rw [totalExponent] at small
    have bias : (Format.binary64.exponentBias : Int) = 1023 := rfl
    have inside : ¬ 2 ^ 11 ≤ (exponent + 1023 + (52 : Nat)).toNat + 1 := by omega
    simp only [Float.Model.unpack, Float.Model.pack, UnpackedFloat.pack, bias, inside, if_false]
    split
    · rename_i full
      have bits' : mantissa.log2 + 1 = 53 := full
      have field : (BitVec.ofNat 11 (exponent + 1023 + (52 : Nat)).toNat).toNat =
          (exponent + 1023 + (52 : Nat)).toNat := by
        rw [BitVec.toNat_ofNat]
        omega
      refine unpack_components_below low (FloatIntegers.ofNat_ne_last (by omega)) fun some_ => ?_
      · have nonzero : (exponent + 1023 + (52 : Nat)).toNat ≠ 0 := by
          intro zero
          rw [zero] at some_
          exact some_ rfl
        rw [field]
        omega
    · exact unpack_components_below low (by decide) fun some_ => absurd rfl some_

/-- A double has at most 53 bits. -/
theorem unpack_bits {model : Float.Model} {sign : Sign} {mantissa : Nat} {exponent : Int}
    {positive : 0 < mantissa} (unpacked : model.unpack = .finite sign mantissa exponent positive) :
    mantissa.log2 ≤ 52 := by
  simp only [Float.Model.unpack, UnpackedFloat.unpack] at unpacked
  split at unpacked
  · split at unpacked <;> cases unpacked
  · split at unpacked
    · split at unpacked
      · cases unpacked
      · cases unpacked
        have bits := (Nat.log2_lt positive.ne').mpr (BitVec.isLt _)
        exact bits.le
    · cases unpacked
      have bits := (Nat.log2_lt positive.ne').mpr (BitVec.isLt _)
      exact Nat.le_of_lt_succ bits

/-! ## Doubles -/

/-- A number between two others of one exponent, the lower of them negative. -/
theorem below_of_between {model : Float.Model} {m m' : Nat} {exponent : Int} {positive : 0 < m}
    {positive' : 0 < m'}
    (above : UnpackedFloat.le (.finite .negative m exponent positive) model.unpack = true)
    (under : UnpackedFloat.le model.unpack (.finite .positive m' exponent positive') = true) :
    ∃ sign, Below (exponent + 53) sign model.unpack := by
  cases unpacked : model.unpack with
  | notANumber =>
    rw [unpacked] at above
    cases above
  | infinity sign =>
    rw [unpacked] at above under
    cases sign with
    | positive => cases under
    | negative => cases above
  | zero sign => exact ⟨sign, .zero sign⟩
  | finite sign mantissa exponent' some_ =>
    have bits := unpack_bits unpacked
    rw [unpacked] at above under
    refine ⟨sign, .finite some_ ?_ bits⟩
    have here : exponent' ≤ exponent := by
      by_contra beyond
      have greater := compare_gt_iff_gt.mpr (not_le.mp beyond)
      have less := compare_lt_iff_lt.mpr (not_le.mp beyond)
      cases sign with
      | negative => simp [UnpackedFloat.le, UnpackedFloat.compare, less] at above
      | positive => simp [UnpackedFloat.le, UnpackedFloat.compare, greater] at under
    rw [totalExponent]
    omega

variable {a b c d : Float} {k t : Int} {sign : Sign} {m m' : Nat} {e e' : Int}
  {positive : 0 < m} {positive' : 0 < m'}

/-- What is below a power of two is a number. -/
theorem isNaN_of_below (below : Below k sign a.toModel.unpack) : a.isNaN = false := by
  show a.toModel.unpack.isNaN = false
  generalize a.toModel.unpack = unpacked at below ⊢
  cases below <;> rfl

/-- A difference of doubles, of which the subtracted one is negative. -/
theorem sub_double_below (low : -1023 ≤ k) (high : k ≤ 898) (left : Below k sign a.toModel.unpack)
    (right : b.toModel.unpack = .finite .negative m e positive) (small : totalExponent m e ≤ k)
    (full : m.log2 = 52) (ordered : b ≤ a) : Below (k + 2) .positive (a - b).toModel.unpack := by
  have ordered' : UnpackedFloat.le b.toModel.unpack a.toModel.unpack = true :=
    decide_eq_true_iff.mp ordered
  rw [right] at ordered'
  have below := sub_below (by omega) left small full ordered'
  rw [← right] at below
  exact unpack_pack_below (by omega) (by omega) below

theorem div_double_below (low : -1023 ≤ k - t) (high : k - t ≤ 898)
    (left : Below k .positive a.toModel.unpack)
    (right : d.toModel.unpack = .finite .positive m e positive) (large : t ≤ totalExponent m e) :
    Below (k - t + 2) .positive (a / d).toModel.unpack := by
  have below := @div_below k t _ m e positive (by omega) left large
  rw [← right] at below
  exact unpack_pack_below (by omega) (by omega) below

theorem mul_double_below (low : -1022 ≤ k + t) (high : k + t ≤ 899)
    (left : Below k .positive a.toModel.unpack)
    (right : c.toModel.unpack = .finite .positive m e positive) (small : totalExponent m e ≤ t) :
    Below (k + t + 1) .positive (a * c).toModel.unpack := by
  have below := @mul_below k t _ m e positive (by omega) left small
  rw [← right] at below
  exact unpack_pack_below (by omega) (by omega) below

/-- A double between two others of one exponent, the lower of them negative. -/
theorem double_between (lower : b.toModel.unpack = .finite .negative m e positive)
    (upper : d.toModel.unpack = .finite .positive m' e positive') (above : b ≤ a) (under : a ≤ d) :
    ∃ sign, Below (e + 53) sign a.toModel.unpack := by
  have above' : UnpackedFloat.le b.toModel.unpack a.toModel.unpack = true :=
    decide_eq_true_iff.mp above
  have under' : UnpackedFloat.le a.toModel.unpack d.toModel.unpack = true :=
    decide_eq_true_iff.mp under
  rw [lower] at above'
  rw [upper] at under'
  exact below_of_between above' under'

end CarrotDb.FloatBounds
