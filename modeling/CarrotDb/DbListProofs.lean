import CarrotDb.DbLists
import CarrotDb.ListpackCounts

/-! What the list handlers do to a listpack that holds a list: every push
and pop, told on the list. Compiled-in assertions only ever turn a
result into an abort. -/
namespace CarrotDb
open Listpack

variable {lp : Bytes}

/-- A value at the end that the direction names. -/
def pushed (isPrepend : Bool) (xs : List Bytes) (value : Bytes) : List Bytes :=
  if isPrepend then value :: xs else xs ++ [value]

/-- Prepending checks the first element, appending none. -/
def Pushable (ndebug isPrepend : Bool) (xs : List Bytes) : Prop :=
  isPrepend = true → ∀ x ∈ xs.head?, Checked ndebug x

theorem used_pushed (isPrepend : Bool) (xs : List Bytes) (value : Bytes) :
    used (pushed isPrepend xs value) = used xs + (entry value).length := by
  cases isPrepend with
  | true => simpa [pushed] using used_insert xs 0 value
  | false => simpa [pushed] using used_insert xs xs.length value

theorem addElement_counted (held : Counted lp xs count) (pushable : Pushable ndebug isPrepend xs)
    (fits : used (pushed isPrepend xs value) ≤ 2 ^ 32 - 1) :
    ∃ lp', addElement ndebug lp value isPrepend = .ok (some lp') ∧
      Counted lp' (pushed isPrepend xs value) (countedUp count) := by
  rw [used_pushed] at fits
  cases isPrepend with
  | true =>
    obtain ⟨lp', ran, held'⟩ := lpPrepend_counted held (pushable rfl) fits
    exact ⟨lp', by rw [addElement, if_pos rfl, ran]; rfl, held'⟩
  | false =>
    obtain ⟨lp', ran, held'⟩ := @lpAppend_counted lp xs count value ndebug held fits
    exact ⟨lp', by rw [addElement, if_neg Bool.false_ne_true, ran]; rfl, held'⟩

theorem addElement_layout (formed : Layout lp xs) (pushable : Pushable ndebug isPrepend xs)
    (fits : used (pushed isPrepend xs value) ≤ 2 ^ 32 - 1) :
    ∃ lp', addElement ndebug lp value isPrepend = .ok (some lp') ∧
      Layout lp' (pushed isPrepend xs value) := by
  obtain ⟨count, held, -⟩ := counted_of_layout formed
  obtain ⟨lp', ran, after, -⟩ := addElement_counted held pushable fits
  exact ⟨lp', ran, after⟩

theorem addElement_full (formed : Layout lp xs) (pushable : Pushable ndebug isPrepend xs)
    (short : value.length < 2 ^ 32) (full : 2 ^ 32 - 1 < used (pushed isPrepend xs value)) :
    addElement ndebug lp value isPrepend = .ok none := by
  rw [used_pushed] at full
  cases isPrepend with
  | true => rw [addElement, if_pos rfl, lpPrepend_full formed (pushable rfl) short full]; rfl
  | false =>
    rw [addElement, if_neg Bool.false_ne_true, lpAppend_full formed short full]
    rfl

theorem addElement_unpushable (formed : Layout lp xs) (unpushable : ¬ Pushable ndebug isPrepend xs) :
    addElement ndebug lp value isPrepend = .error .assertFailed := by
  rw [Pushable, Classical.not_imp] at unpushable
  obtain ⟨rfl, unchecked⟩ := unpushable
  cases xs with
  | nil => exact absurd (fun x member => nomatch member) unchecked
  | cons x rest =>
    have failed : ¬ Checked ndebug x := fun checked => unchecked fun y same => by
      obtain rfl := Option.some.inj same
      exact checked
    rw [addElement, if_pos rfl, lpPrepend, lpFirst_unchecked formed failed]
    rfl

theorem elementAt_first (formed : Layout lp (x :: xs)) :
    elementAt lp (offset (x :: xs) 0) = .ok x := by
  have first : 0 < (x :: xs).length := Nat.zero_lt_succ _
  obtain ⟨element, read, text, -⟩ :=
    lpGetWithSize_payload (layout_payload formed first) (layout_small formed first).1
  rw [elementAt, read, exec_ok_bind, text]
  rfl

theorem lpDelete_first_counted (held : Counted lp (x :: xs) count) (ndebug : Bool) :
    ∃ lp' newp, lpDelete ndebug lp (offset (x :: xs) 0) = .ok (some (lp', newp)) ∧
      Counted lp' xs (countedDown count) := by
  have first : 0 < (x :: xs).length := Nat.zero_lt_succ _
  obtain ⟨lp', ran, held'⟩ := @lpDelete_counted lp (x :: xs) count 0 ndebug held first
  exact ⟨lp', _, ran, held'⟩

theorem lpDelete_first (formed : Layout lp (x :: xs)) (ndebug : Bool) :
    ∃ lp' newp, lpDelete ndebug lp (offset (x :: xs) 0) = .ok (some (lp', newp)) ∧ Layout lp' xs := by
  obtain ⟨count, held, -⟩ := counted_of_layout formed
  obtain ⟨lp', newp, ran, formed', -⟩ := lpDelete_first_counted held ndebug
  exact ⟨lp', newp, ran, formed'⟩

/-- Taking elements off a list, as long as each passes its check. -/
theorem popElements_counted (held : Counted lp xs count) (totalCount : Nat)
    (checked : ∀ x ∈ xs.take totalCount, Checked ndebug x) :
    ∃ lp', popElements ndebug totalCount (some lp) = .ok (xs.take totalCount, some lp') ∧
      Counted lp' (xs.drop totalCount) (countedDown^[(xs.take totalCount).length] count) := by
  induction totalCount generalizing lp xs count with
  | zero => exact ⟨lp, rfl, held⟩
  | succ totalCount ih =>
    cases xs with
    | nil =>
      have empty : lpFirst ndebug lp = .ok none :=
        lpFirst_checked held.1 fun x member => nomatch member
      exact ⟨lp, by simp [popElements, deref, empty], held⟩
    | cons x rest =>
      have head : ∀ y ∈ (x :: rest).head?, Checked ndebug y := fun y same => by
        obtain rfl := Option.some.inj same
        exact checked _ (by simp)
      have first : lpFirst ndebug lp = .ok (some (offset (x :: rest) 0)) := lpFirst_checked held.1 head
      obtain ⟨lp', newp, deleted, held'⟩ := lpDelete_first_counted held ndebug
      obtain ⟨lp'', popped, held''⟩ := ih held' fun y member =>
        checked y (by rw [List.take_succ_cons]; exact List.mem_cons_of_mem _ member)
      refine ⟨lp'', ?_, held''⟩
      rw [popElements, deref, exec_pure, exec_ok_bind, first, exec_ok_bind]
      dsimp only
      rw [elementAt_first held.1, exec_ok_bind, deleted, exec_ok_bind]
      dsimp only [Option.map_some]
      rw [popped, exec_ok_bind, exec_pure, List.take_succ_cons]

theorem popElements_layout (formed : Layout lp xs) (totalCount : Nat)
    (checked : ∀ x ∈ xs.take totalCount, Checked ndebug x) :
    ∃ lp', popElements ndebug totalCount (some lp) = .ok (xs.take totalCount, some lp') ∧
      Layout lp' (xs.drop totalCount) := by
  obtain ⟨count, held, -⟩ := counted_of_layout formed
  obtain ⟨lp', ran, formed', -⟩ := popElements_counted held totalCount checked
  exact ⟨lp', ran, formed'⟩

/-- An element that fails its check stops the taking. -/
theorem popElements_unchecked (formed : Layout lp xs) (totalCount : Nat)
    (unchecked : ¬ ∀ x ∈ xs.take totalCount, Checked ndebug x) :
    popElements ndebug totalCount (some lp) = .error .assertFailed := by
  induction totalCount generalizing lp xs with
  | zero => simp at unchecked
  | succ totalCount ih =>
    cases xs with
    | nil => simp at unchecked
    | cons x rest =>
      rw [popElements, deref, exec_pure, exec_ok_bind]
      by_cases head : Checked ndebug x
      · have first : lpFirst ndebug lp = .ok (some (offset (x :: rest) 0)) :=
          lpFirst_checked formed fun y same => by
            obtain rfl := Option.some.inj same
            exact head
        obtain ⟨lp', newp, deleted, formed'⟩ := lpDelete_first formed ndebug
        have later : ¬ ∀ y ∈ rest.take totalCount, Checked ndebug y := fun all => unchecked (by
          rw [List.take_succ_cons, List.forall_mem_cons]
          exact ⟨head, all⟩)
        rw [first, exec_ok_bind]
        dsimp only
        rw [elementAt_first formed, exec_ok_bind, deleted, exec_ok_bind]
        dsimp only [Option.map_some]
        rw [ih formed' later, exec_error_bind]
      · rw [lpFirst_unchecked formed head, exec_error_bind]

/-! ## Results of taking -/

/-- What taking elements does when it does not abort. -/
theorem popElements_inv {lp : Bytes} {xs : List Bytes} {ndebug : Bool} (formed : Layout lp xs)
    {totalCount : Nat} {result : List Bytes} {left : Option Bytes}
    (ran : popElements ndebug totalCount (some lp) = .ok (result, left)) :
    result = xs.take totalCount ∧ ∃ lp', left = some lp' ∧ Layout lp' (xs.drop totalCount) := by
  by_cases checked : ∀ x ∈ xs.take totalCount, Checked ndebug x
  · obtain ⟨lp', popped, formed'⟩ := popElements_layout formed totalCount checked
    rw [popped] at ran
    cases ran
    exact ⟨rfl, lp', rfl, formed'⟩
  · rw [popElements_unchecked formed totalCount checked] at ran
    cases ran

end CarrotDb
