import CarrotDb.ListpackCounts

/-! What `lpSeek` looks at. With the count in the header it walks to an index
from the nearer end, and checks each entry it steps onto; other entries do not
matter to it. -/
namespace CarrotDb.Listpack

variable {lp : Bytes} {xs : List Bytes} {ndebug : Bool} {i : Nat}

/-- A step back onto an entry that fails its check aborts. -/
theorem lpPrev_unchecked (formed : Layout lp xs) (index : i < xs.length)
    (unchecked : ¬ Checked ndebug xs[i]) :
    lpPrev ndebug lp (some (offset xs (i + 1))) = .error .assertFailed := by
  have walked := @lpPrev_layout lp xs i true formed index (.inl rfl)
  rw [Checked, not_or, not_not, Bool.not_eq_true] at unchecked
  obtain ⟨rfl, wide⟩ := unchecked
  have invalid := lpAssertValidEntry_wide formed index wide
  rw [lpPrev] at walked ⊢
  split at walked
  · cases walked
  · rw [if_neg ‹_›]
    split at walked
    · cases walked
    · rw [if_neg ‹_›]
      obtain ⟨prevlen, decoded, walked⟩ := exec_bind_ok.mp walked
      rw [decoded, exec_ok_bind]
      dsimp only at walked ⊢
      split at walked
      · cases walked
      · rw [if_neg ‹_›]
        obtain ⟨total, sized, walked⟩ := exec_bind_ok.mp walked
        obtain ⟨-, -, walked⟩ := exec_bind_ok.mp walked
        rw [layout_total formed] at sized
        cases sized
        rw [layout_total formed, exec_ok_bind, Option.some.inj (Except.ok.inj walked), invalid,
          exec_error_bind]

theorem lpForward_checked (formed : Layout lp xs) {steps : Nat}
    (checked : ∀ j, i < j → j ≤ i + steps → ∀ x ∈ xs[j]?, Checked ndebug x) :
    lpForward ndebug lp steps (pointer xs i) = .ok (pointer xs (i + steps)) := by
  induction steps generalizing i with
  | zero => rfl
  | succ steps ih =>
    by_cases index : i < xs.length
    · have next := lpNext_checked formed index (checked (i + 1) (by omega) (by omega))
      rw [pointer, if_pos index, lpForward, next, exec_ok_bind,
        ih fun j above below => checked j (by omega) (by omega), Nat.add_right_comm, Nat.add_assoc]
    · rw [pointer, if_neg index, pointer, if_neg (by omega)]
      rfl

theorem lpForward_checks (formed : Layout lp xs) {steps : Nat} {found : Option Nat}
    (ran : lpForward ndebug lp steps (pointer xs i) = .ok found) :
    ∀ j, i < j → j ≤ i + steps → ∀ x ∈ xs[j]?, Checked ndebug x := by
  induction steps generalizing i with
  | zero => exact fun j above below => absurd below (by omega)
  | succ steps ih =>
    by_cases index : i < xs.length
    · rw [pointer, if_pos index, lpForward] at ran
      obtain ⟨next, stepped, ran⟩ := exec_bind_ok.mp ran
      have first : ∀ x ∈ xs[i + 1]?, Checked ndebug x := by
        intro x held
        obtain ⟨inside, rfl⟩ := List.getElem?_eq_some_iff.mp held
        by_contra unchecked
        rw [lpNext_unchecked formed inside unchecked] at stepped
        cases stepped
      rw [lpNext_checked formed index first] at stepped
      cases stepped
      intro j above below
      by_cases here : j = i + 1
      · rw [here]
        exact first
      · exact ih ran j (by omega) (by omega)
    · intro j above _ x held
      rw [List.getElem?_eq_none (by omega)] at held
      cases held

theorem lpBackward_checked (formed : Layout lp xs) {steps : Nat} (within : steps ≤ i)
    (index : i < xs.length)
    (checked : ∀ j, i - steps ≤ j → j < i → ∀ x ∈ xs[j]?, Checked ndebug x) :
    lpBackward ndebug lp steps (some (offset xs i)) = .ok (some (offset xs (i - steps))) := by
  induction steps generalizing i with
  | zero => rfl
  | succ steps ih =>
    obtain ⟨i, rfl⟩ : ∃ prior, i = prior + 1 := ⟨i - 1, by omega⟩
    have prior : i < xs.length := by omega
    have here := checked i (by omega) (by omega) xs[i] (List.getElem?_eq_getElem prior)
    rw [lpBackward, lpPrev_layout formed prior here, exec_ok_bind,
      ih (by omega) prior fun j above below => checked j (by omega) (by omega),
      Nat.add_sub_add_right]

theorem lpBackward_checks (formed : Layout lp xs) {steps : Nat} (within : steps ≤ i)
    (index : i < xs.length) {found : Option Nat}
    (ran : lpBackward ndebug lp steps (some (offset xs i)) = .ok found) :
    ∀ j, i - steps ≤ j → j < i → ∀ x ∈ xs[j]?, Checked ndebug x := by
  induction steps generalizing i with
  | zero => exact fun j above below => absurd below (by omega)
  | succ steps ih =>
    obtain ⟨i, rfl⟩ : ∃ prior, i = prior + 1 := ⟨i - 1, by omega⟩
    have prior : i < xs.length := by omega
    rw [lpBackward] at ran
    obtain ⟨next, stepped, ran⟩ := exec_bind_ok.mp ran
    have here : Checked ndebug xs[i] := by
      by_contra unchecked
      rw [lpPrev_unchecked formed prior unchecked] at stepped
      cases stepped
    rw [lpPrev_layout formed prior here] at stepped
    cases stepped
    intro j above below x held
    by_cases last : j = i
    · subst last
      rw [List.getElem?_eq_getElem prior] at held
      cases held
      exact here
    · exact ih (by omega) prior ran j (by omega) (by omega) x held

/-! ## Seeking -/

/-- The positions `lpSeek` looks at on its way to an index: those from the
nearer end up to it. -/
def Seeks (length index position : Nat) : Prop :=
  if length / 2 < index then index ≤ position else position ≤ index

private theorem lpSeek_inside (counted : lpGetTotalNumElements lp = .ok xs.length)
    (known : xs.length ≠ lpHdrNumeleUnknown) (inside : i < xs.length) :
    lpSeek ndebug lp i =
      if xs.length / 2 < i then lpLast ndebug lp >>= lpBackward ndebug lp (xs.length - 1 - i)
      else lpFirst ndebug lp >>= lpForward ndebug lp i := by
  have notNegative : ¬ (i : Int) < 0 := by omega
  have notBehind : ¬ (i : Int) ≥ xs.length := by omega
  have steps : (-1 - ((i : Int) - xs.length)).toNat = xs.length - 1 - i := by omega
  have side : (i : Int) > (xs.length : Int).tdiv 2 ↔ xs.length / 2 < i := by
    rw [show (xs.length : Int).tdiv 2 = ((xs.length / 2 : Nat) : Int) from rfl]
    omega
  rw [lpSeek, counted, exec_ok_bind, if_pos known]
  dsimp only
  rw [if_neg notNegative, if_neg notNegative, if_neg notBehind, steps, Int.toNat_natCast]
  exact if_congr side rfl rfl

/-- Where the entries on the way pass their checks, the index is found. -/
theorem lpSeek_checked (formed : Layout lp xs) (counted : lpGetTotalNumElements lp = .ok xs.length)
    (known : xs.length ≠ lpHdrNumeleUnknown) (inside : i < xs.length)
    (checked : ∀ j, Seeks xs.length i j → ∀ x ∈ xs[j]?, Checked ndebug x) :
    lpSeek ndebug lp i = .ok (some (offset xs i)) := by
  rw [lpSeek_inside counted known inside]
  split
  · rename_i far
    have seeks (j : Nat) : Seeks xs.length i j ↔ i ≤ j := by rw [Seeks, if_pos far]
    obtain ⟨last, size⟩ : ∃ last, xs.length = last + 1 := ⟨xs.length - 1, by omega⟩
    have final : last < xs.length := by omega
    have found : lpLast ndebug lp = .ok (some (offset xs last)) := by
      have nonzero : ¬ used xs = 0 := by unfold used; omega
      have here := checked last ((seeks last).mpr (by omega)) xs[last] (List.getElem?_eq_getElem final)
      rw [lpLast, layout_total formed, exec_ok_bind, if_neg nonzero, ← offset_end, size]
      exact lpPrev_layout formed final here
    rw [found, exec_ok_bind, lpBackward_checked formed (by omega) final
      fun j above below => checked j ((seeks j).mpr (by omega))]
    congr 3
    omega
  · rename_i near
    have seeks (j : Nat) : Seeks xs.length i j ↔ j ≤ i := by rw [Seeks, if_neg near]
    have first : ∀ x ∈ xs.head?, Checked ndebug x := fun x held =>
      checked 0 ((seeks 0).mpr (Nat.zero_le _)) x (List.head?_eq_getElem? ▸ held)
    rw [lpFirst_checked formed first, exec_ok_bind, lpForward_checked formed
      fun j above below => checked j ((seeks j).mpr (by omega)), Nat.zero_add, pointer, if_pos inside]

/-- An index that is found has been looked for among entries that pass their
checks. -/
theorem lpSeek_checks (formed : Layout lp xs) (counted : lpGetTotalNumElements lp = .ok xs.length)
    (known : xs.length ≠ lpHdrNumeleUnknown) (inside : i < xs.length) {found : Option Nat}
    (ran : lpSeek ndebug lp i = .ok found) :
    ∀ j, Seeks xs.length i j → ∀ x ∈ xs[j]?, Checked ndebug x := by
  rw [lpSeek_inside counted known inside] at ran
  split at ran
  · rename_i far
    obtain ⟨start, first, ran⟩ := exec_bind_ok.mp ran
    obtain ⟨last, size⟩ : ∃ last, xs.length = last + 1 := ⟨xs.length - 1, by omega⟩
    have final : last < xs.length := by omega
    have nonzero : ¬ used xs = 0 := by unfold used; omega
    rw [lpLast, layout_total formed, exec_ok_bind, if_neg nonzero, ← offset_end, size] at first
    have here : Checked ndebug xs[last] := by
      by_contra unchecked
      rw [lpPrev_unchecked formed final unchecked] at first
      cases first
    rw [lpPrev_layout formed final here] at first
    cases first
    have walked := lpBackward_checks formed (by omega) final ran
    intro j seeks x held
    rw [Seeks, if_pos far] at seeks
    obtain ⟨within, rfl⟩ := List.getElem?_eq_some_iff.mp held
    by_cases end_ : j = last
    · subst end_
      exact here
    · exact walked j (by omega) (by omega) _ held
  · rename_i near
    obtain ⟨start, first, ran⟩ := exec_bind_ok.mp ran
    have here : ∀ x ∈ xs[0]?, Checked ndebug x := by
      intro x held
      cases xs with
      | nil => cases held
      | cons head rest =>
        cases held
        by_contra unchecked
        rw [lpFirst_unchecked formed unchecked] at first
        cases first
    rw [lpFirst_inv formed first] at ran
    have walked := lpForward_checks formed ran
    intro j seeks
    rw [Seeks, if_neg near] at seeks
    by_cases front : j = 0
    · rw [front]
      exact here
    · exact walked j (by omega) (by omega)

end CarrotDb.Listpack
