import Mathlib

/-! Formats whose values end where they say: no value goes on to another one,
so a run of values can be taken apart in one way only. -/
namespace CarrotDb

variable {α : Type} {values : Set (List α)}

/-- Whatever follows, a value is read as itself. -/
def SelfDelimiting (values : Set (List α)) : Prop :=
  ∀ v ∈ values, ∀ w ∈ values, ∀ x y, v ++ x = w ++ y → v = w

/-- Runs with the same number of values agree value by value. -/
theorem flatten_cancel {vs ws : List (List α)}
    (apart : ∀ v ∈ vs, ∀ w ∈ ws, ∀ x y, v ++ x = w ++ y → v = w) (count : vs.length = ws.length)
    {x y : List α} (same : vs.flatten ++ x = ws.flatten ++ y) : vs = ws := by
  induction vs generalizing ws with
  | nil => exact (List.length_eq_zero_iff.mp count.symm).symm
  | cons v vs ih =>
    cases ws with
    | nil => cases count
    | cons w ws =>
      rw [List.flatten_cons, List.flatten_cons, List.append_assoc, List.append_assoc] at same
      obtain rfl : v = w := apart v List.mem_cons_self w List.mem_cons_self _ _ same
      rw [ih (fun v member w member' => apart v (List.mem_cons_of_mem _ member) w
        (List.mem_cons_of_mem _ member')) (Nat.succ.inj count) (List.append_cancel_left same)]

/-- Where no value is empty, a run of values has one reading. -/
theorem SelfDelimiting.eq_of_flatten (apart : SelfDelimiting values) (nonempty : [] ∉ values)
    {vs ws : List (List α)} (left : ∀ v ∈ vs, v ∈ values) (right : ∀ w ∈ ws, w ∈ values)
    (same : vs.flatten = ws.flatten) : vs = ws := by
  induction vs generalizing ws with
  | nil =>
    cases ws with
    | nil => rfl
    | cons w ws =>
      obtain ⟨rfl, -⟩ := List.append_eq_nil_iff.mp same.symm
      exact absurd (right [] List.mem_cons_self) nonempty
  | cons v vs ih =>
    cases ws with
    | nil =>
      obtain ⟨rfl, -⟩ := List.append_eq_nil_iff.mp same
      exact absurd (left [] List.mem_cons_self) nonempty
    | cons w ws =>
      rw [List.flatten_cons, List.flatten_cons] at same
      obtain rfl : v = w :=
        apart v (left v List.mem_cons_self) w (right w List.mem_cons_self) _ _ same
      rw [ih (fun u member => left u (List.mem_cons_of_mem _ member))
        (fun u member => right u (List.mem_cons_of_mem _ member)) (List.append_cancel_left same)]

end CarrotDb
