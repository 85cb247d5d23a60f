import CarrotDb.ListpackInsert

/-! Whole runs of listpack operations. Every run is the same run on a plain
list of byte strings; the validator accepts what it leaves exactly as long as
it knows the encoding of every element. -/
namespace CarrotDb.Listpack
open CarrotDb.Decimal

variable {lp : Bytes}

/-- One update of a listpack. Entries are named by their index. -/
inductive Op where
  | append (x : Bytes)
  | appendInteger (v : Int)
  | prepend (x : Bytes)
  | insert (x : Bytes) (i : Nat) (position : Where)
  | insertInteger (v : Int) (i : Nat) (position : Where)
  | delete (i : Nat)
  deriving Repr

/-- The pointer to the entry of an index, found by walking from the front. -/
def entryPointer (lp : Bytes) (i : Nat) : Exec (Option Nat) := do
  lpForward true lp i (← lpFirst true lp)

/-- Applies an update at an existing entry. -/
def atEntry (lp : Bytes) (i : Nat) (update : Nat → Exec (Option (Bytes × Option Nat))) :
    Exec (Option (Bytes × Option Nat)) := do
  match ← entryPointer lp i with
  | some p => update p
  | none => throw .undefinedBehaviour

/-- The new buffer and `*newp`, or `none` when the source returns `NULL`. -/
def Op.run (ndebug : Bool) (lp : Bytes) : Op → Exec (Option (Bytes × Option Nat))
  | .append x => lpAppend ndebug lp x
  | .appendInteger v => lpAppendInteger ndebug lp v
  | .prepend x => lpPrepend ndebug lp x
  | .insert x i position => atEntry lp i fun p => lpInsert ndebug lp (some x) none p position
  | .insertInteger v i position => atEntry lp i fun p => lpInsertInteger ndebug lp v p position
  | .delete i => atEntry lp i fun p => lpDelete ndebug lp p

/-- A run of updates, with the `*newp` of the last. -/
def runFrom (ndebug : Bool) (lp : Bytes) (newp : Option Nat) :
    List Op → Exec (Option (Bytes × Option Nat))
  | [] => pure (some (lp, newp))
  | op :: rest => do
    match ← op.run ndebug lp with
    | some (lp, newp) => runFrom ndebug lp newp rest
    | none => pure none

/-- A run that starts from `lpNew`. -/
def runNew (ndebug : Bool) (capacity : Nat) (ops : List Op) :
    Exec (Option (Bytes × Option Nat)) := do
  runFrom ndebug (← lpNew capacity) none ops

/-- Insertion into a list around an existing element, with the index of the
element put in. -/
def insertAt (x : Bytes) (i : Nat) (position : Where) (xs : List Bytes) :
    Option (List Bytes × Option Nat) :=
  if i < xs.length then
    match position with
    | .before => some (xs.take i ++ x :: xs.drop i, some i)
    | .after => some (xs.take (i + 1) ++ x :: xs.drop (i + 1), some (i + 1))
    | .replace => some (xs.set i x, some i)
  else none

/-- The list after an update, and the index of the element put in, or of the
one behind a deleted one. Only existing elements and 64-bit integers are
named. -/
def Op.onList (xs : List Bytes) : Op → Option (List Bytes × Option Nat)
  | .append x => some (xs ++ [x], some xs.length)
  | .appendInteger v =>
    if Int64Range v then some (xs ++ [intToDecimal v], some xs.length) else none
  | .prepend x => some (x :: xs, some 0)
  | .insert x i position => insertAt x i position xs
  | .insertInteger v i position =>
    if Int64Range v then insertAt (intToDecimal v) i position xs else none
  | .delete i =>
    if i < xs.length then
      some (xs.eraseIdx i, if i + 1 < xs.length then some i else none)
    else none

/-- A run on a plain list, as long as the listpack stays below 2^32 bytes. -/
def listFrom (xs : List Bytes) (target : Option Nat) :
    List Op → Option (List Bytes × Option Nat)
  | [] => some (xs, target)
  | op :: rest =>
    match op.onList xs with
    | some (xs, target) => if used xs ≤ 2 ^ 32 - 1 then listFrom xs target rest else none
    | none => none

theorem entryPointer_layout (formed : Layout lp xs) (i : Nat) :
    entryPointer lp i = .ok (pointer xs i) := by
  have checked : ∀ x ∈ xs, Checked true x := fun _ _ => .inl rfl
  rw [entryPointer, lpFirst_layout formed checked, exec_ok_bind, lpForward_layout formed checked,
    Nat.zero_add]

private theorem atEntry_layout (formed : Layout lp xs) (index : i < xs.length)
    (update : Nat → Exec (Option (Bytes × Option Nat))) :
    atEntry lp i update = update (offset xs i) := by
  rw [atEntry, entryPointer_layout formed, exec_ok_bind, pointer, if_pos index]

/-- The pointer an update must leave for a target index. -/
def targetPointer (xs : List Bytes) : Option Nat → Option Nat
  | some i => pointer xs i
  | none => none

private theorem offset_take {xs : List Bytes} {i : Nat} (index : i ≤ xs.length) (x : Bytes) :
    pointer (xs.take i ++ x :: xs.drop i) i = some (offset xs i) := by
  have kept : (xs.take i ++ x :: xs.drop i).take i = xs.take i :=
    List.take_left' (by rw [List.length_take]; omega)
  have inside : i < (xs.take i ++ x :: xs.drop i).length := by
    simp only [List.length_append, List.length_cons, List.length_take, List.length_drop]
    omega
  rw [pointer, if_pos inside, offset, offset, kept]

private theorem insert_layout (formed : Layout lp xs)
    (legal : insertAt x i position xs = some (after, target)) (fits : used after ≤ 2 ^ 32 - 1) :
    ∃ lp', (atEntry lp i fun p => lpInsert ndebug lp (some x) none p position) =
      .ok (some (lp', targetPointer after target)) ∧ Layout lp' after := by
  unfold insertAt at legal
  split at legal
  · rename_i index
    rw [atEntry_layout formed index]
    cases position with
    | before =>
      cases legal
      rw [used_insert] at fits
      obtain ⟨lp', ran, formed'⟩ := lpInsert_before_layout formed (Nat.le_of_lt index) fits
      refine ⟨lp', ?_, formed'⟩
      rw [ran, targetPointer, offset_take (Nat.le_of_lt index)]
    | after =>
      cases legal
      rw [used_insert] at fits
      obtain ⟨lp', ran, formed'⟩ := lpInsert_before_layout formed index fits
      refine ⟨lp', ?_, formed'⟩
      rw [lpInsert_after_layout formed index, ran, targetPointer, offset_take index]
    | replace =>
      cases legal
      obtain ⟨lp', ran, formed'⟩ := lpInsert_replace_layout formed index fits
      refine ⟨lp', ?_, formed'⟩
      have kept : (xs.set i x).take i = xs.take i := List.take_set_of_le (le_refl i)
      rw [ran, targetPointer, pointer, if_pos (by rw [List.length_set]; exact index), offset, offset,
        kept]
  · cases legal

private theorem append_layout (formed : Layout lp xs) (fits : used (xs ++ [x]) ≤ 2 ^ 32 - 1) :
    ∃ lp', lpAppend ndebug lp x =
        .ok (some (lp', targetPointer (xs ++ [x]) (some xs.length))) ∧ Layout lp' (xs ++ [x]) := by
  have whole : xs ++ [x] = xs.take xs.length ++ x :: xs.drop xs.length := by
    rw [List.take_length, List.drop_length]
  have sized : used xs + (entry x).length ≤ 2 ^ 32 - 1 := by rwa [whole, used_insert] at fits
  obtain ⟨lp', ran, formed'⟩ := lpAppend_layout formed sized
  refine ⟨lp', ?_, formed'⟩
  rw [ran, targetPointer]
  conv_rhs => rw [whole]
  rw [offset_take (le_refl _)]

/-- One update on the buffer is the update on the list. -/
theorem op_layout {op : Op} (formed : Layout lp xs) (legal : op.onList xs = some (after, target))
    (fits : used after ≤ 2 ^ 32 - 1) :
    ∃ lp', op.run true lp = .ok (some (lp', targetPointer after target)) ∧ Layout lp' after := by
  cases op with
  | append x =>
    cases legal
    exact append_layout formed fits
  | appendInteger v =>
    rw [Op.onList] at legal
    split at legal
    · rename_i range
      cases legal
      rw [Op.run, lpAppendInteger_eq range]
      exact append_layout formed fits
    · cases legal
  | prepend x =>
    cases legal
    have sized : used xs + (entry x).length ≤ 2 ^ 32 - 1 := by
      have same := used_insert xs 0 x
      rw [List.take_zero, List.drop_zero, List.nil_append] at same
      rwa [same] at fits
    obtain ⟨lp', ran, formed'⟩ := lpPrepend_layout formed (fun _ _ => .inl rfl) sized
    exact ⟨lp', ran, formed'⟩
  | insert x i position => exact insert_layout formed legal fits
  | insertInteger v i position =>
    rw [Op.onList] at legal
    split at legal
    · rename_i range
      simp only [Op.run, lpInsertInteger_eq range]
      exact insert_layout formed legal fits
    · cases legal
  | delete i =>
    rw [Op.onList] at legal
    split at legal
    · rename_i index
      cases legal
      obtain ⟨lp', ran, formed'⟩ := lpDelete_layout formed index
      refine ⟨lp', ?_, formed'⟩
      rw [Op.run, atEntry_layout formed index, ran]
      congr 3
      split
      · rfl
      · rw [pointer, if_neg (by rw [List.length_eraseIdx_of_lt index]; omega)]
        rfl
    · cases legal

/-- A run on the buffer is the run on the list. -/
theorem runFrom_layout (formed : Layout lp xs)
    (legal : listFrom xs target ops = some (after, target')) :
    ∃ lp', runFrom true lp (targetPointer xs target) ops =
      .ok (some (lp', targetPointer after target')) ∧ Layout lp' after := by
  induction ops generalizing lp xs target with
  | nil =>
    cases legal
    exact ⟨lp, rfl, formed⟩
  | cons op rest ih =>
    unfold listFrom at legal
    split at legal
    · rename_i next target'' step
      split at legal
      · rename_i fits
        obtain ⟨lp', ran, formed'⟩ := op_layout formed step fits
        obtain ⟨lp'', ran', formed''⟩ := ih formed' legal
        exact ⟨lp'', by rw [runFrom, ran, exec_ok_bind]; exact ran', formed''⟩
      · cases legal
    · cases legal

/-- The texts of the entries from a pointer on, left to right. -/
def decodeFrom (lp : Bytes) : (rounds : Nat) → Option Nat → Exec (List Bytes)
  | _, none => pure []
  | 0, some _ => throw .undefinedBehaviour
  | rounds + 1, some p => do
    let x ← elementText lp (← lpGetWithSize lp p)
    let rest ← decodeFrom lp rounds (← lpNext true lp (some p))
    pure (x :: rest)

/-- The texts of all entries. -/
def decode (lp : Bytes) : Exec (List Bytes) := do decodeFrom lp lp.length (← lpFirst true lp)

private theorem decodeFrom_layout (formed : Layout lp xs) {rounds i : Nat}
    (enough : xs.length - i ≤ rounds) : decodeFrom lp rounds (pointer xs i) = .ok (xs.drop i) := by
  induction rounds generalizing i with
  | zero =>
    rw [pointer, if_neg (by omega), List.drop_of_length_le (by omega)]
    rfl
  | succ rounds ih =>
    by_cases index : i < xs.length
    · obtain ⟨element, read, text, -⟩ :=
        lpGetWithSize_payload (layout_payload formed index) (layout_small formed index).1
      rw [pointer, if_pos index, decodeFrom, read, exec_ok_bind, text, exec_ok_bind,
        lpNext_layout formed index (fun _ _ => .inl rfl), exec_ok_bind, ih (by omega), exec_ok_bind,
        exec_pure, List.drop_eq_getElem_cons index]
    · rw [pointer, if_neg index, List.drop_of_length_le (by omega)]
      rfl

theorem layout_length (formed : Layout lp xs) : used xs ≤ lp.length := by
  obtain ⟨_, count, tail, _, rfl⟩ := formed
  simp only [used, List.length_append, header_length, List.length_cons]
  omega

theorem decode_layout (formed : Layout lp xs) : decode lp = .ok xs := by
  have long := layout_length formed
  have short := length_le_used xs
  rw [decode, lpFirst_layout formed (fun _ _ => .inl rfl), exec_ok_bind,
    decodeFrom_layout formed (by omega)]
  rfl

private theorem onList_target {op : Op} (legal : op.onList xs = some (after, some i)) :
    i < after.length := by
  have inserted : ∀ {x j position}, insertAt x j position xs = some (after, some i) →
      i < after.length := by
    intro x j position legal
    unfold insertAt at legal
    split at legal
    · cases position <;> cases legal <;>
        simp only [List.length_append, List.length_cons, List.length_take, List.length_drop,
          List.length_set] <;> omega
    · cases legal
  cases op with
  | append x =>
    cases legal
    simp
  | appendInteger v =>
    rw [Op.onList] at legal
    split at legal
    · cases legal
      simp
    · cases legal
  | prepend x =>
    cases legal
    simp
  | insert x j position => exact inserted legal
  | insertInteger v j position =>
    rw [Op.onList] at legal
    split at legal
    · exact inserted legal
    · cases legal
  | delete j =>
    rw [Op.onList] at legal
    split at legal
    · rename_i index
      split at legal
      · cases legal
        rw [List.length_eraseIdx_of_lt index]
        omega
      · cases legal
    · cases legal

private theorem listFrom_target (start : ∀ j, target = some j → j < xs.length)
    (legal : listFrom xs target ops = some (after, some i)) : i < after.length := by
  induction ops generalizing xs target with
  | nil =>
    cases legal
    exact start i rfl
  | cons op rest ih =>
    unfold listFrom at legal
    split at legal
    · rename_i next target' step
      split at legal
      · refine ih (fun j same => ?_) legal
        rw [same] at step
        exact onList_target step
      · cases legal
    · cases legal

/-- A run of updates of a new listpack leaves a layout. -/
theorem runNew_layout (capacity : Nat) (legal : listFrom [] none ops = some (xs, target)) :
    ∃ lp, runNew true capacity ops = .ok (some (lp, targetPointer xs target)) ∧ Layout lp xs := by
  obtain ⟨fresh, created, empty⟩ := lpNew_layout capacity
  obtain ⟨lp, ran, formed⟩ := runFrom_layout empty legal
  refine ⟨lp, ?_, formed⟩
  rw [runNew, created, exec_ok_bind]
  exact ran

/-- Every run of updates leaves the layout of the list the same run leaves,
decodes to it, and returns the pointer to the entry put in or to the one
behind a deleted entry. -/
theorem runNew_refines_list (capacity : Nat)
    (legal : listFrom [] none ops = some (xs, target)) :
    ∃ lp newp, runNew true capacity ops = .ok (some (lp, newp)) ∧ Layout lp xs ∧
      decode lp = .ok xs ∧ (∀ i, target = some i → entryPointer lp i = .ok newp ∧ newp ≠ none) ∧
      (target = none → newp = none) := by
  obtain ⟨lp, ran, formed⟩ := runNew_layout capacity legal
  refine ⟨lp, targetPointer xs target, ran, formed, decode_layout formed, ?_, ?_⟩
  · rintro i rfl
    refine ⟨entryPointer_layout formed i, ?_⟩
    rw [targetPointer, pointer, if_pos (listFrom_target (by simp) legal)]
    simp
  · rintro rfl
    rfl

theorem runNew_refines_list_mixed :
    ∃ lp newp, runNew true 0 [.append (ascii "ab"), .prepend (ascii "12"), .insert [] 0 .after,
        .insert (ascii "x") 2 .replace, .delete 0] = .ok (some (lp, newp)) ∧
      Layout lp [[], ascii "x"] ∧ decode lp = .ok [[], ascii "x"] ∧
      (∀ i, some 0 = some i → entryPointer lp i = .ok newp ∧ newp ≠ none) ∧
      ((some 0 : Option Nat) = none → newp = none) :=
  runNew_refines_list 0 (by decide)

/-! ## Validation -/

/-- What the validator promises of a listpack: the deep check accepts it, the
check of each entry succeeds, and with assertions on no walking function
fails one. -/
structure Accepted (lp : Bytes) : Prop where
  integrity : ∃ total, lpGetTotalBytes lp = .ok total ∧ lpValidateIntegrity lp total true = .ok true
  entries : ∀ i p total, entryPointer lp i = .ok (some p) → lpGetTotalBytes lp = .ok total →
    ∃ next, lpValidateNext lp total (some p) = .ok (true, next)
  first : lpFirst false lp ≠ .error .assertFailed
  last : lpLast false lp ≠ .error .assertFailed
  next : ∀ i p, entryPointer lp i = .ok (some p) → lpNext false lp (some p) ≠ .error .assertFailed
  prev : ∀ i p, entryPointer lp i = .ok (some p) → lpPrev false lp (some p) ≠ .error .assertFailed
  seek : ∀ index, lpSeek false lp index ≠ .error .assertFailed

private theorem lpValidateEntries_narrow (formed : Layout lp xs) (narrow : ∀ x ∈ xs, ¬ Wide x)
    {rounds i : Nat} (bound : i ≤ xs.length) (enough : xs.length - i < rounds) :
    lpValidateEntries lp (used xs) rounds (some (offset xs i)) i =
      .ok (some (some (used xs - 1), xs.length)) := by
  induction rounds generalizing i with
  | zero => omega
  | succ rounds ih =>
    by_cases index : i < xs.length
    · obtain ⟨byte, head, notEnd⟩ := layout_head formed index
      have small := formed.1
      have short := length_le_used xs
      have next : u32 (i + 1) = i + 1 := u32_of_lt (by omega)
      rw [lpValidateEntries, head, exec_ok_bind, if_neg (by simpa using notEnd),
        lpValidateNext_narrow formed index (narrow _ (List.getElem_mem index)), exec_ok_bind]
      dsimp only
      rw [if_pos rfl, next, ih index (by omega)]
    · have last : i = xs.length := by omega
      subst last
      rw [lpValidateEntries, layout_end formed, exec_ok_bind, if_pos (by simp), exec_pure, offset_end]

theorem lpValidateIntegrity_narrow (formed : Layout lp xs) (narrow : ∀ x ∈ xs, ¬ Wide x) :
    lpValidateIntegrity lp (used xs) true = .ok true := by
  obtain ⟨count, counted, countOk⟩ := layout_count formed
  have short := length_le_used xs
  have walked := @lpValidateEntries_narrow lp xs formed narrow (used xs) 0 (Nat.zero_le _) (by omega)
  have ending := layout_end formed
  rw [offset_end] at ending
  rw [offset_zero] at walked
  have exact_ : ¬ (count ≠ lpHdrNumeleUnknown ∧ count ≠ xs.length) := by
    rintro ⟨known, other⟩
    exact other (countOk.2.resolve_right known)
  rw [lpValidateIntegrity, if_neg (by unfold lpHeaderSize; omega), layout_total formed, exec_ok_bind,
    if_neg (by simp), ending, exec_ok_bind, if_neg (by simp), if_neg (by simp), counted,
    exec_ok_bind, lpHeaderSize, walked, exec_ok_bind]
  dsimp only
  rw [if_neg (by simp), if_neg exact_, exec_pure]

theorem accepted_of_narrow (formed : Layout lp xs) (narrow : ∀ x ∈ xs, ¬ Wide x) : Accepted lp := by
  have checked : ∀ x ∈ xs, Checked false x := fun x member => .inr (narrow x member)
  have index : ∀ {i p}, entryPointer lp i = .ok (some p) → i < xs.length ∧ p = offset xs i := by
    intro i p found
    rw [entryPointer_layout formed, pointer] at found
    split at found
    · cases found
      exact ⟨‹_›, rfl⟩
    · cases found
  constructor
  · exact ⟨used xs, layout_total formed, lpValidateIntegrity_narrow formed narrow⟩
  · intro i p total found sized
    obtain ⟨inside, rfl⟩ := index found
    rw [layout_total formed] at sized
    cases sized
    exact ⟨_, lpValidateNext_narrow formed inside (narrow _ (List.getElem_mem inside))⟩
  · rw [lpFirst_layout formed checked]
    simp
  · rw [lpLast_layout formed checked]
    simp
  · intro i p found
    obtain ⟨inside, rfl⟩ := index found
    rw [lpNext_layout formed inside checked]
    simp
  · intro i p found
    obtain ⟨inside, rfl⟩ := index found
    cases i with
    | zero =>
      rw [lpPrev_first]
      simp
    | succ i =>
      have prior : i < xs.length := by omega
      rw [lpPrev_layout formed prior (checked _ (List.getElem_mem prior))]
      simp
  · intro index
    rw [lpSeek_layout formed checked]
    simp

/-- The validator's header table lacks the 64-bit integer encoding, so it
accepts what a run leaves exactly when no element needs that encoding. -/
theorem runNew_accepted_iff (capacity : Nat) (legal : listFrom [] none ops = some (xs, target)) :
    ∃ lp newp, runNew true capacity ops = .ok (some (lp, newp)) ∧
      (Accepted lp ↔ ∀ x ∈ xs, ¬ Wide x) := by
  obtain ⟨lp, ran, formed⟩ := runNew_layout capacity legal
  refine ⟨lp, _, ran, fun accepted x member wide => ?_, accepted_of_narrow formed⟩
  obtain ⟨i, index, rfl⟩ := List.getElem_of_mem member
  have found : entryPointer lp i = .ok (some (offset xs i)) := by
    rw [entryPointer_layout formed, pointer, if_pos index]
  obtain ⟨next, valid⟩ := accepted.entries i _ _ found (layout_total formed)
  rw [lpValidateNext_wide formed index wide] at valid
  cases valid

/-- A run over strings and integers, from both ends and in the middle. -/
theorem runNew_accepted_iff_mixed :
    ∃ lp newp, runNew true 0 [.append (ascii "ab"), .prepend (ascii "-7"), .appendInteger 2147483647,
        .insert (ascii "2147483648") 1 .before, .delete 0] = .ok (some (lp, newp)) ∧
      (Accepted lp ↔ ∀ x ∈ [ascii "2147483648", ascii "ab", ascii "2147483647"], ¬ Wide x) :=
  runNew_accepted_iff 0 (by decide : _ = some (_, some 0))

/-- The smallest integer that needs the 64-bit encoding is not accepted. -/
theorem runNew_rejects_wide : ¬ ∀ capacity ops xs target lp newp,
    listFrom [] none ops = some (xs, target) →
    runNew true capacity ops = .ok (some (lp, newp)) → Accepted lp := by
  intro all
  have legal : listFrom [] none [.append (ascii "2147483648")] =
      some ([ascii "2147483648"], some 0) := by decide
  have ran : runNew true 0 [.append (ascii "2147483648")] =
      .ok (some ([17, 0, 0, 0, 1, 0, 0xF4, 0, 0, 0, 128, 0, 0, 0, 0, 9, 0xFF], some 6)) := by decide
  exact (all 0 _ _ _ _ _ legal ran).first (by decide)

end CarrotDb.Listpack
