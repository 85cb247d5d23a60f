import Mathlib

/-! The order of floating-point numbers. Among the values that are numbers,
`<` is the order of their ranks in a linear order; the two zeros share one. -/
namespace CarrotDb.FloatOrder
open Float.Model UnpackedFloat

/-- The place of an unpacked number: its kind first, then exponent and
mantissa. What is not a number has no place, and gets one above all. -/
def unpackedRank : UnpackedFloat → ℤ ×ₗ ℤ ×ₗ ℤ
  | .infinity .negative => toLex (-2, toLex (0, 0))
  | .finite .negative mantissa exponent _ => toLex (-1, toLex (-exponent, -(mantissa : ℤ)))
  | .zero _ => toLex (0, toLex (0, 0))
  | .finite .positive mantissa exponent _ => toLex (1, toLex (exponent, (mantissa : ℤ)))
  | .infinity .positive => toLex (2, toLex (0, 0))
  | .notANumber => toLex (3, toLex (0, 0))

/-- The place of a number among the others. -/
def rank (value : Float) : ℤ ×ₗ ℤ ×ₗ ℤ := unpackedRank value.toModel.unpack

private theorem compare_then_lt {a b : ℤ} {m n : ℕ} :
    (compare a b).then (compare m n) = .lt ↔ a < b ∨ a = b ∧ m < n := by
  rw [Ordering.then_eq_lt, compare_lt_iff_lt, compare_eq_iff_eq, compare_lt_iff_lt]

private theorem compare_then_gt {a b : ℤ} {m n : ℕ} :
    (compare a b).then (compare m n) = .gt ↔ b < a ∨ a = b ∧ n < m := by
  rw [Ordering.then_eq_gt, compare_gt_iff_gt, compare_eq_iff_eq, compare_gt_iff_gt]

attribute [local simp] UnpackedFloat.lt UnpackedFloat.compare unpackedRank
  Prod.Lex.toLex_lt_toLex compare_then_lt compare_then_gt

/-- Two kinds of numbers decide the comparison; within one kind the exponents
do, and after them the mantissas. -/
theorem unpacked_lt_iff {a b : UnpackedFloat} (left : a.isNaN = false) (right : b.isNaN = false) :
    a.lt b = true ↔ unpackedRank a < unpackedRank b := by
  cases a with
  | notANumber => cases left
  | infinity sign =>
    cases b with
    | notANumber => cases right
    | infinity other => cases sign <;> cases other <;> decide
    | zero _ => cases sign <;> simp
    | finite other _ _ _ => cases sign <;> cases other <;> simp
  | zero _ =>
    cases b with
    | notANumber => cases right
    | infinity other => cases other <;> simp
    | zero _ => simp
    | finite other _ _ _ => cases other <;> simp
  | finite sign _ _ _ =>
    cases b with
    | notANumber => cases right
    | infinity other => cases sign <;> cases other <;> simp
    | zero _ => cases sign <;> simp
    | finite other _ _ _ => cases sign <;> cases other <;> simp

/-- Numbers compare as their ranks do. -/
theorem lt_iff_rank {a b : Float} (left : a.isNaN = false) (right : b.isNaN = false) :
    a < b ↔ rank a < rank b :=
  decide_eq_true_iff.trans (unpacked_lt_iff left right)

private theorem compare_then_swap {a b : ℤ} {m n : ℕ} :
    ((compare a b).then (compare m n)).swap = (compare b a).then (compare n m) := by
  rw [Ordering.swap_then]
  congr 1
  · exact Int.compare_swap a b
  · exact Nat.compare_swap m n

/-- A comparison read from the other side. -/
theorem compare_swap (a b : UnpackedFloat) :
    UnpackedFloat.compare b a = (UnpackedFloat.compare a b).map Ordering.swap := by
  cases a with
  | notANumber => cases b <;> rfl
  | infinity sign =>
    cases b with
    | finite other _ _ _ => cases sign <;> cases other <;> rfl
    | infinity other => cases sign <;> cases other <;> rfl
    | _ => cases sign <;> rfl
  | zero sign =>
    cases b with
    | finite other _ _ _ => cases other <;> rfl
    | infinity other => cases other <;> rfl
    | _ => rfl
  | finite sign _ _ _ =>
    cases b with
    | finite other _ _ _ => cases sign <;> cases other <;> simp [compare_then_swap]
    | infinity other => cases sign <;> cases other <;> rfl
    | _ => cases sign <;> rfl

/-- What is at most another number is not above it. -/
theorem not_lt_of_le {a b : Float} (le : a ≤ b) : ¬ b < a := by
  have le' : UnpackedFloat.le a.toModel.unpack b.toModel.unpack = true := decide_eq_true_iff.mp le
  intro lt
  have lt' : UnpackedFloat.lt b.toModel.unpack a.toModel.unpack = true := decide_eq_true_iff.mp lt
  rw [UnpackedFloat.lt, compare_swap] at lt'
  rw [UnpackedFloat.le] at le'
  generalize UnpackedFloat.compare a.toModel.unpack b.toModel.unpack = compared at le' lt'
  cases compared with
  | none => simp at le'
  | some order => cases order <;> simp at le' lt'

/-- Two numbers of which neither is less are equal. -/
theorem unpacked_beq_iff {a b : UnpackedFloat} (left : a.isNaN = false) (right : b.isNaN = false) :
    a.beq b = true ↔ unpackedRank a = unpackedRank b := by
  have before := unpacked_lt_iff left right
  have behind := unpacked_lt_iff right left
  have decided : a.compare b ≠ none := by
    cases a with
    | notANumber => cases left
    | infinity sign =>
      cases b with
      | notANumber => cases right
      | infinity other => exact Option.some_ne_none _
      | _ => cases sign <;> exact Option.some_ne_none _
    | zero _ =>
      cases b with
      | notANumber => cases right
      | infinity other => cases other <;> exact Option.some_ne_none _
      | zero _ => exact Option.some_ne_none _
      | finite other _ _ _ => cases other <;> exact Option.some_ne_none _
    | finite sign _ _ _ =>
      cases b with
      | notANumber => cases right
      | infinity other => cases sign <;> cases other <;> exact Option.some_ne_none _
      | zero _ => cases sign <;> exact Option.some_ne_none _
      | finite other _ _ _ => cases sign <;> cases other <;> exact Option.some_ne_none _
  rw [UnpackedFloat.lt] at before
  rw [UnpackedFloat.lt, compare_swap] at behind
  rw [UnpackedFloat.beq]
  generalize a.compare b = compared at before behind decided
  cases compared with
  | none => exact absurd rfl decided
  | some order =>
    cases order with
    | lt => exact iff_of_false (by decide) (before.mp rfl).ne
    | gt => exact iff_of_false (by decide) (behind.mp rfl).ne'
    | eq =>
      have notBefore : ¬ unpackedRank a < unpackedRank b := fun less => absurd (before.mpr less) (by decide)
      have notBehind : ¬ unpackedRank b < unpackedRank a := fun less => absurd (behind.mpr less) (by decide)
      exact iff_of_true rfl (le_antisymm (not_lt.mp notBehind) (not_lt.mp notBefore))

/-- Numbers are equal where their ranks are. -/
theorem beq_iff_rank {a b : Float} (left : a.isNaN = false) (right : b.isNaN = false) :
    (a == b) = true ↔ rank a = rank b :=
  unpacked_beq_iff left right

/-- What is less than something, or more, or equal to it, is a number. -/
theorem numbers_of_compare {a b : UnpackedFloat} {order : Ordering}
    (compared : a.compare b = some order) : a.isNaN = false ∧ b.isNaN = false := by
  cases a with
  | notANumber => cases compared
  | _ =>
    cases b with
    | notANumber => cases compared
    | _ => exact ⟨rfl, rfl⟩

theorem numbers_of_lt {a b : Float} (less : a < b) : a.isNaN = false ∧ b.isNaN = false :=
  @numbers_of_compare a.toModel.unpack b.toModel.unpack .lt
    (beq_iff_eq.mp (decide_eq_true_iff.mp less : UnpackedFloat.lt _ _ = true))

theorem numbers_of_beq {a b : Float} (same : (a == b) = true) :
    a.isNaN = false ∧ b.isNaN = false :=
  @numbers_of_compare a.toModel.unpack b.toModel.unpack .eq (beq_iff_eq.mp same)

end CarrotDb.FloatOrder
