import CarrotDb.ListpackRuns

/-! Counting a listpack. The header's sixteen bits count the elements until
they have been full once, and `lpLength` walks the listpack from then on,
until it finds few enough to write their number back. -/
namespace CarrotDb.Listpack

variable {lp : Bytes}

private theorem lpAssertValidEntry_release (lp : Bytes) (lpbytes p : Nat) :
    lpAssertValidEntry true lp lpbytes p = .ok () := rfl

theorem lpFirst_release {lp : Bytes} {first : Option Nat} (ran : lpFirst ndebug lp = .ok first) :
    lpFirst true lp = .ok first := by
  rw [lpFirst, exec_bind_ok] at ran
  obtain ⟨byte, read, ran⟩ := ran
  rw [lpFirst, read, exec_ok_bind]
  split at ran
  · rw [if_pos ‹_›]
    exact ran
  · rw [if_neg ‹_›]
    obtain ⟨total, sized, ran⟩ := exec_bind_ok.mp ran
    obtain ⟨-, -, ran⟩ := exec_bind_ok.mp ran
    rw [sized, exec_ok_bind, lpAssertValidEntry_release, exec_ok_bind]
    exact ran

theorem lpNext_release {lp : Bytes} {p next : Option Nat} (ran : lpNext ndebug lp p = .ok next) :
    lpNext true lp p = .ok next := by
  cases p with
  | none => exact ran
  | some p =>
    rw [lpNext] at ran ⊢
    obtain ⟨q, skipped, ran⟩ := exec_bind_ok.mp ran
    obtain ⟨total, sized, ran⟩ := exec_bind_ok.mp ran
    rw [skipped, exec_ok_bind, sized, exec_ok_bind]
    split at ran
    · rw [if_pos ‹_›]
      exact ran
    · rw [if_neg ‹_›]
      obtain ⟨byte, read, ran⟩ := exec_bind_ok.mp ran
      rw [read, exec_ok_bind]
      split at ran
      · rw [if_pos ‹_›]
        exact ran
      · rw [if_neg ‹_›, lpAssertValidEntry_release, exec_ok_bind]
        obtain ⟨-, -, ran⟩ := exec_bind_ok.mp ran
        exact ran

theorem lpCount_release {lp : Bytes} {rounds : Nat} {p : Option Nat} {count result : Nat}
    (ran : lpCount ndebug lp rounds p count = .ok result) :
    lpCount true lp rounds p count = .ok result := by
  induction rounds generalizing p count with
  | zero => cases p <;> exact ran
  | succ rounds ih =>
    cases p with
    | none => exact ran
    | some p =>
      rw [lpCount] at ran ⊢
      obtain ⟨next, stepped, ran⟩ := exec_bind_ok.mp ran
      rw [lpNext_release stepped, exec_ok_bind]
      exact ih ran

theorem lpLength_release {lp : Bytes} {result : Nat × Bytes}
    (ran : lpLength ndebug lp = .ok result) : lpLength true lp = .ok result := by
  rw [lpLength] at ran ⊢
  obtain ⟨count, counted, ran⟩ := exec_bind_ok.mp ran
  rw [counted, exec_ok_bind]
  split at ran
  · rw [if_pos ‹_›]
    exact ran
  · rw [if_neg ‹_›]
    obtain ⟨first, found, ran⟩ := exec_bind_ok.mp ran
    obtain ⟨total, walked, ran⟩ := exec_bind_ok.mp ran
    rw [lpFirst_release found, exec_ok_bind, lpCount_release walked, exec_ok_bind]
    exact ran

private theorem lpCount_layout (formed : Layout lp xs) (checked : ∀ x ∈ xs, Checked ndebug x)
    (rounds i count : Nat) (enough : xs.length - i ≤ rounds)
    (small : count + (xs.length - i) < 2 ^ 32) :
    lpCount ndebug lp rounds (pointer xs i) count = .ok (count + (xs.length - i)) := by
  induction rounds generalizing i count with
  | zero =>
    rw [pointer, if_neg (by omega)]
    show Except.ok count = _
    congr 1
    omega
  | succ rounds ih =>
    by_cases index : i < xs.length
    · rw [pointer, if_pos index, lpCount, lpNext_layout formed index checked, exec_ok_bind,
        u32_of_lt (by omega), ih (i + 1) (count + 1) (by omega) (by omega)]
      congr 1
      omega
    · rw [pointer, if_neg index]
      show Except.ok count = _
      congr 1
      omega

/-- Counting reports the length of the list and leaves a listpack of the
same list. -/
theorem lpLength_checked (formed : Layout lp xs) (checked : ∀ x ∈ xs, Checked ndebug x) :
    ∃ lp', lpLength ndebug lp = .ok (xs.length, lp') ∧ Layout lp' xs := by
  have length := length_le_used xs
  have bound := formed.1
  obtain ⟨field, counted, ok⟩ := layout_count formed
  rw [lpLength, counted, exec_ok_bind]
  by_cases known : field ≠ lpHdrNumeleUnknown
  · rw [if_pos known, ok.2.resolve_right known]
    exact ⟨lp, rfl, formed⟩
  · have size : xs.length - 0 ≤ lp.length := by
      obtain ⟨-, _, tail, -, shape⟩ := formed
      rw [shape, List.length_append, List.length_append, header_length]
      rw [used] at length
      omega
    rw [if_neg known, lpFirst_layout formed checked, exec_ok_bind,
      lpCount_layout formed checked _ 0 0 size (by omega), exec_ok_bind, Nat.zero_add, Nat.sub_zero]
    split
    · rename_i small
      obtain ⟨whole, old, tail, -, rfl⟩ := formed
      rw [lpSetNumElements_header, exec_ok_bind]
      exact ⟨_, rfl, whole, _, tail, ⟨Nat.le_of_lt small, .inl rfl⟩, rfl⟩
    · exact ⟨lp, rfl, formed⟩

theorem lpLength_layout (formed : Layout lp xs) {count : Nat} {lp' : Bytes}
    (ran : lpLength ndebug lp = .ok (count, lp')) : count = xs.length ∧ Layout lp' xs := by
  obtain ⟨lp'', counted, formed'⟩ := @lpLength_checked lp xs true formed fun _ _ => .inl rfl
  rw [lpLength_release ran] at counted
  cases counted
  exact ⟨rfl, formed'⟩

/-- A step onto an entry that fails its check aborts. -/
theorem lpNext_unchecked (formed : Layout lp xs) (index : i + 1 < xs.length)
    (unchecked : ¬ Checked ndebug xs[i + 1]) :
    lpNext ndebug lp (some (offset xs i)) = .error .assertFailed := by
  have walked := @lpNext_layout lp xs i true formed (Nat.lt_of_succ_lt index) fun _ _ => .inl rfl
  rw [Checked, not_or, not_not, Bool.not_eq_true] at unchecked
  obtain ⟨rfl, wide⟩ := unchecked
  have invalid := lpAssertValidEntry_wide formed index wide
  rw [pointer, if_pos index] at walked
  rw [lpNext] at walked ⊢
  obtain ⟨q, skipped, walked⟩ := exec_bind_ok.mp walked
  obtain ⟨total, sized, walked⟩ := exec_bind_ok.mp walked
  rw [skipped, exec_ok_bind, sized, exec_ok_bind]
  split at walked
  · cases walked
  · rw [if_neg ‹_›]
    obtain ⟨byte, read, walked⟩ := exec_bind_ok.mp walked
    rw [read, exec_ok_bind]
    split at walked
    · cases walked
    · cases walked
      rw [layout_total formed] at sized
      cases sized
      rw [if_neg ‹_›, invalid, exec_error_bind]

private theorem lpCount_checks (formed : Layout lp xs) {rounds i count result : Nat}
    (index : i < xs.length)
    (ran : lpCount ndebug lp rounds (some (offset xs i)) count = .ok result) :
    ∀ x ∈ xs.drop (i + 1), Checked ndebug x := by
  induction rounds generalizing i count with
  | zero => cases ran
  | succ rounds ih =>
    rw [lpCount] at ran
    obtain ⟨next, stepped, ran⟩ := exec_bind_ok.mp ran
    by_cases last : i + 1 < xs.length
    · have checked : Checked ndebug xs[i + 1] := by
        by_contra unchecked
        rw [lpNext_unchecked formed last unchecked] at stepped
        cases stepped
      have place := lpNext_release stepped
      rw [lpNext_layout formed index fun _ _ => .inl rfl, pointer, if_pos last] at place
      cases place
      rw [List.drop_eq_getElem_cons last, List.forall_mem_cons]
      exact ⟨checked, ih last ran⟩
    · rw [List.drop_of_length_le (by omega)]
      exact List.forall_mem_nil _

/-- Counting past a full header looks at every element. -/
theorem lpLength_checks (formed : Layout lp xs)
    (full : lpGetTotalNumElements lp = .ok lpHdrNumeleUnknown)
    (ran : lpLength ndebug lp = .ok result) : ∀ x ∈ xs, Checked ndebug x := by
  rw [lpLength, full, exec_ok_bind, if_neg (by simp)] at ran
  obtain ⟨first, found, ran⟩ := exec_bind_ok.mp ran
  obtain ⟨count, walked, -⟩ := exec_bind_ok.mp ran
  cases xs with
  | nil => exact List.forall_mem_nil _
  | cons x rest =>
    have head : Checked ndebug x := by
      by_contra unchecked
      rw [lpFirst_unchecked formed unchecked] at found
      cases found
    have place := lpFirst_release found
    rw [lpFirst_layout formed fun _ _ => .inl rfl, pointer, if_pos (by simp)] at place
    cases place
    rw [List.forall_mem_cons]
    exact ⟨head, lpCount_checks formed (by simp) walked⟩

theorem lpFirst_inv {lp : Bytes} {xs : List Bytes} {ndebug : Bool} (formed : Layout lp xs)
    {first : Option Nat} (ran : lpFirst ndebug lp = .ok first) : first = pointer xs 0 := by
  have ran := lpFirst_release ran
  rw [lpFirst_checked formed fun _ _ => .inl rfl] at ran
  exact (Except.ok.inj ran).symm

theorem writeBytes_frame {buffer bytes after : Bytes} {dst : Nat}
    (wrote : writeBytes buffer dst bytes = .ok after) :
    after.length = buffer.length ∧
      ∀ i, i < dst ∨ dst + bytes.length ≤ i → after[i]? = buffer[i]? := by
  unfold writeBytes at wrote
  split at wrote
  · rename_i room
    cases wrote
    have front : (buffer.take dst).length = dst := by
      rw [List.length_take]
      omega
    constructor
    · simp only [List.length_append, List.length_take, List.length_drop]
      omega
    · rintro i (before | behind)
      · rw [List.append_assoc, List.getElem?_append_left (by omega), List.getElem?_take_of_lt before]
      · rw [List.getElem?_append_right (by rw [List.length_append]; omega), List.getElem?_drop,
          List.length_append]
        congr 1
        omega
  · cases wrote

/-- Counting writes the two count bytes, or nothing. -/
theorem lpLength_frame {count : Nat} {after : Bytes} (ran : lpLength ndebug lp = .ok (count, after)) :
    after.length = lp.length ∧ ∀ i, i ≠ 4 → i ≠ 5 → after[i]? = lp[i]? := by
  rw [lpLength] at ran
  obtain ⟨field, -, ran⟩ := exec_bind_ok.mp ran
  split at ran
  · cases ran
    exact ⟨rfl, fun _ _ _ => rfl⟩
  · obtain ⟨first, -, ran⟩ := exec_bind_ok.mp ran
    obtain ⟨walked, -, ran⟩ := exec_bind_ok.mp ran
    split at ran
    · obtain ⟨refreshed, wrote, ran⟩ := exec_bind_ok.mp ran
      cases ran
      obtain ⟨size, same⟩ := writeBytes_frame wrote
      refine ⟨size, fun i low high => same i ?_⟩
      simp only [List.length_cons, List.length_nil]
      omega
    · cases ran
      exact ⟨rfl, fun _ _ _ => rfl⟩

/-! ## Runs that count now and then -/

/-- An update, or a call of `lpLength`. -/
inductive Step where
  | update (op : Op)
  | length
  deriving Repr

/-- The buffer after a step, or `none` when the source returns `NULL`. -/
def Step.run (ndebug : Bool) (lp : Bytes) : Step → Exec (Option Bytes)
  | .update op => do pure ((← op.run ndebug lp).map Prod.fst)
  | .length => do pure (some (← lpLength ndebug lp).2)

/-- A run of updates and counts. -/
def stepsFrom (ndebug : Bool) (lp : Bytes) : List Step → Exec (Option Bytes)
  | [] => pure (some lp)
  | step :: rest => do
    match ← step.run ndebug lp with
    | some lp => stepsFrom ndebug lp rest
    | none => pure none

/-- A run that starts from `lpNew`. -/
def stepsNew (ndebug : Bool) (capacity : Nat) (steps : List Step) : Exec (Option Bytes) := do
  stepsFrom ndebug (← lpNew capacity) steps

/-- The list after a step; counting leaves it as it is. -/
def Step.onList (xs : List Bytes) : Step → Option (List Bytes)
  | .update op => (op.onList xs).map Prod.fst
  | .length => some xs

/-- A run on a plain list, as long as the listpack stays below 2^32 bytes. -/
def listSteps (xs : List Bytes) : List Step → Option (List Bytes)
  | [] => some xs
  | step :: rest =>
    match step.onList xs with
    | some after => if used after ≤ 2 ^ 32 - 1 then listSteps after rest else none
    | none => none

/-- The header counts the elements, or knows nothing; and `lpLength` returns
their number and writes nothing but the count. -/
structure CountsExactly (lp : Bytes) (xs : List Bytes) : Prop where
  header : ∃ count, lpGetTotalNumElements lp = .ok count ∧
    (count = lpHdrNumeleUnknown ∨ count = xs.length)
  length : ∃ after, lpLength true lp = .ok (xs.length, after) ∧ after.length = lp.length ∧
    ∀ i, i ≠ 4 → i ≠ 5 → after[i]? = lp[i]?

theorem countsExactly_of_layout (formed : Layout lp xs) : CountsExactly lp xs := by
  obtain ⟨count, counted, -, ok⟩ := layout_count formed
  obtain ⟨after, ran, -⟩ := @lpLength_checked lp xs true formed fun _ _ => .inl rfl
  exact ⟨⟨count, counted, ok.symm⟩, after, ran, lpLength_frame ran⟩

/-- One step on the buffer is the step on the list. -/
theorem step_layout {step : Step} (formed : Layout lp xs) (legal : step.onList xs = some after)
    (fits : used after ≤ 2 ^ 32 - 1) :
    ∃ lp', step.run true lp = .ok (some lp') ∧ Layout lp' after := by
  cases step with
  | update op =>
    obtain ⟨⟨_, target⟩, updated, rfl⟩ := Option.map_eq_some_iff.mp legal
    obtain ⟨lp', ran, formed'⟩ := op_layout formed updated fits
    refine ⟨lp', ?_, formed'⟩
    rw [Step.run, ran]
    rfl
  | length =>
    cases legal
    obtain ⟨lp', ran, formed'⟩ := @lpLength_checked lp xs true formed fun _ _ => .inl rfl
    refine ⟨lp', ?_, formed'⟩
    rw [Step.run, ran]
    rfl

theorem stepsFrom_layout (formed : Layout lp xs) (legal : listSteps xs steps = some after) :
    ∃ lp', stepsFrom true lp steps = .ok (some lp') ∧ Layout lp' after := by
  induction steps generalizing lp xs with
  | nil =>
    cases legal
    exact ⟨lp, rfl, formed⟩
  | cons step rest ih =>
    unfold listSteps at legal
    split at legal
    · rename_i next stepped
      split at legal
      · rename_i fits
        obtain ⟨lp', ran, formed'⟩ := step_layout formed stepped fits
        obtain ⟨lp'', ran', formed''⟩ := ih formed' legal
        exact ⟨lp'', by rw [stepsFrom, ran, exec_ok_bind]; exact ran', formed''⟩
      · cases legal
    · cases legal

/-- In every state a run reaches, whether or not the count has been full on
the way there, the count is exact or unknown and counting is exact. -/
theorem stepsNew_counts (capacity : Nat) (legal : listSteps [] steps = some xs) :
    ∃ lp, stepsNew true capacity steps = .ok (some lp) ∧ decode lp = .ok xs ∧
      CountsExactly lp xs := by
  obtain ⟨fresh, created, empty⟩ := lpNew_layout capacity
  obtain ⟨lp, ran, formed⟩ := stepsFrom_layout empty legal
  refine ⟨lp, ?_, decode_layout formed, countsExactly_of_layout formed⟩
  rw [stepsNew, created, exec_ok_bind]
  exact ran

theorem stepsNew_counts_mixed :
    ∃ lp, stepsNew true 0 [.update (.append (ascii "ab")), .length, .update (.prepend []),
        .update (.insert (ascii "7") 1 .replace), .update (.delete 0), .length] = .ok (some lp) ∧
      decode lp = .ok [ascii "7"] ∧ CountsExactly lp [ascii "7"] :=
  stepsNew_counts 0 (by decide)

end CarrotDb.Listpack
