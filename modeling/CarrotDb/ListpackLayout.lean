import CarrotDb.ListpackCodec

/-! What a listpack buffer looks like when it holds a list of byte strings,
and that walking it by the source's own functions visits exactly the entries
of that list. The layout fixes every byte up to the end marker; whatever the
allocation holds behind it is irrelevant. -/
namespace CarrotDb.Listpack
open CarrotDb.Decimal CarrotDb.Bits

variable {lp : Bytes}

/-- The six header bytes. -/
def header (total count : Nat) : Bytes :=
  [UInt8.ofNat total, UInt8.ofNat (total >>> 8), UInt8.ofNat (total >>> 16),
    UInt8.ofNat (total >>> 24), UInt8.ofNat count, UInt8.ofNat (count >>> 8)]

/-- The entries of a list, one behind the other. -/
def body (xs : List Bytes) : Bytes := xs.flatMap entry

/-- Header, entries and end marker. -/
def used (xs : List Bytes) : Nat := 7 + (body xs).length

/-- Where the entry of an index starts; the end marker for the index behind
the last. -/
def offset (xs : List Bytes) (i : Nat) : Nat := 6 + (body (xs.take i)).length

/-- The count field is exact until it has reached its largest value once,
which from then on means unknown. -/
def CountOk (count length : Nat) : Prop :=
  count ≤ lpHdrNumeleUnknown ∧ (count = length ∨ count = lpHdrNumeleUnknown)

/-- The buffer is the header, one entry for each string, the end marker, and
unused bytes; the header's total is the length in use. -/
def Layout (lp : Bytes) (xs : List Bytes) : Prop :=
  used xs ≤ 2 ^ 32 - 1 ∧ ∃ count tail, CountOk count xs.length ∧
    lp = header (used xs) count ++ (body xs ++ lpEof :: tail)

@[simp] theorem header_length (total count : Nat) : (header total count).length = 6 := rfl

theorem lpGetTotalBytes_header {total count : Nat} {rest : Bytes} (small : total < 2 ^ 32) :
    lpGetTotalBytes (header total count ++ rest) = .ok total := by
  change Except.ok _ = _
  simp only [toNat_ofNat, Nat.shiftRight_eq_div_pow]
  rw [le32_eq (by omega) (by omega) (by omega)]
  congr 1
  omega

theorem lpGetTotalNumElements_header {total count : Nat} {rest : Bytes} (small : count ≤ 65535) :
    lpGetTotalNumElements (header total count ++ rest) = .ok count := by
  change Except.ok _ = _
  simp only [toNat_ofNat, Nat.shiftRight_eq_div_pow]
  rw [le16_eq (by omega)]
  congr 1
  omega

theorem lpSetTotalBytes_header (old total count : Nat) (rest : Bytes) :
    lpSetTotalBytes (header old count ++ rest) total = .ok (header total count ++ rest) := by
  rw [lpSetTotalBytes, writeBytes, if_pos (by simp; omega)]
  rfl

theorem lpSetNumElements_header (total old count : Nat) (rest : Bytes) :
    lpSetNumElements (header total old ++ rest) count = .ok (header total count ++ rest) := by
  rw [lpSetNumElements, writeBytes, if_pos (by simp)]
  rfl

theorem layout_total (formed : Layout lp xs) : lpGetTotalBytes lp = .ok (used xs) := by
  obtain ⟨small, count, tail, _, rfl⟩ := formed
  exact lpGetTotalBytes_header (by omega)

theorem layout_count (formed : Layout lp xs) :
    ∃ count, lpGetTotalNumElements lp = .ok count ∧ CountOk count xs.length := by
  obtain ⟨_, count, tail, counted, rfl⟩ := formed
  exact ⟨count, lpGetTotalNumElements_header counted.1, counted⟩

theorem entry_length (x : Bytes) :
    (entry x).length = (payload x).length + lpEncodeBacklenBytes (payload x).length := by
  rw [entry, List.length_append, lpEncodeBacklen_length]

theorem entry_length_ge (x : Bytes) : 2 ≤ (entry x).length := by
  have head := List.length_pos_iff.mpr (payload_ne_nil x)
  have back := lpEncodeBacklenBytes_pos (payload x).length
  rw [entry_length]
  omega

theorem body_append (xs ys : List Bytes) : body (xs ++ ys) = body xs ++ body ys :=
  List.flatMap_append

theorem body_cons (x : Bytes) (xs : List Bytes) : body (x :: xs) = entry x ++ body xs :=
  List.flatMap_cons

theorem body_split {xs : List Bytes} {i : Nat} (index : i < xs.length) :
    body xs = body (xs.take i) ++ (entry xs[i] ++ body (xs.drop (i + 1))) := by
  rw [← body_cons, ← List.drop_eq_getElem_cons index, ← body_append, List.take_append_drop]

@[simp] theorem offset_zero (xs : List Bytes) : offset xs 0 = 6 := rfl

theorem offset_succ {xs : List Bytes} {i : Nat} (index : i < xs.length) :
    offset xs (i + 1) = offset xs i + (entry xs[i]).length := by
  have next : xs.take (i + 1) = xs.take i ++ [xs[i]] := by
    rw [List.take_add_one, List.getElem?_eq_getElem index]
    rfl
  rw [offset, offset, next, body_append, List.length_append, body_cons, List.length_append]
  simp only [body, List.flatMap_nil, List.length_nil]
  omega

theorem offset_end (xs : List Bytes) : offset xs xs.length = used xs - 1 := by
  rw [offset, used, List.take_length]
  omega

theorem used_eq {xs : List Bytes} {i : Nat} (index : i < xs.length) :
    used xs = offset xs (i + 1) + (body (xs.drop (i + 1))).length + 1 := by
  rw [used, offset_succ index, offset, body_split index]
  simp only [List.length_append]
  omega

theorem offset_ge (xs : List Bytes) (i : Nat) : 6 ≤ offset xs i := Nat.le_add_right 6 _

/-- A list is shorter than the bytes it takes. -/
theorem length_le_used (xs : List Bytes) : 7 + 2 * xs.length ≤ used xs := by
  induction xs with
  | nil => decide
  | cons x rest ih =>
    have least := entry_length_ge x
    rw [used, body_cons, List.length_append, List.length_cons]
    unfold used at ih
    omega

theorem layout_entry (formed : Layout lp xs) (index : i < xs.length) :
    Holds lp (offset xs i) (entry xs[i]) := by
  obtain ⟨_, count, tail, _, rfl⟩ := formed
  rw [body_split index]
  refine ⟨body (xs.drop (i + 1)) ++ lpEof :: tail, ?_⟩
  have front : offset xs i = (header (used xs) count ++ body (xs.take i)).length := by
    rw [List.length_append, header_length, offset]
  have split : header (used xs) count ++
      (body (xs.take i) ++ (entry xs[i] ++ body (xs.drop (i + 1))) ++ lpEof :: tail) =
      (header (used xs) count ++ body (xs.take i)) ++
        (entry xs[i] ++ (body (xs.drop (i + 1)) ++ lpEof :: tail)) := by
    simp only [List.append_assoc]
  rw [front, split, List.drop_left]

theorem layout_payload (formed : Layout lp xs) (index : i < xs.length) :
    Holds lp (offset xs i) (payload xs[i]) :=
  (holds_append.mp (layout_entry formed index)).1

theorem layout_backlen (formed : Layout lp xs) (index : i < xs.length) :
    Holds lp (offset xs i + (payload xs[i]).length) (lpEncodeBacklen (payload xs[i]).length) :=
  (holds_append.mp (layout_entry formed index)).2

theorem layout_end (formed : Layout lp xs) : readByte lp (offset xs xs.length) = .ok lpEof := by
  obtain ⟨_, count, tail, _, rfl⟩ := formed
  have front : offset xs xs.length = (header (used xs) count ++ body xs).length := by
    rw [List.length_append, header_length, offset, List.take_length]
  rw [front, ← List.append_assoc, readByte, List.getElem?_append_right (le_refl _)]
  simp

/-- A string whose payload fits 32 bits fits with room to spare. -/
theorem length_lt_of_payload {x : Bytes} (small : (payload x).length < 2 ^ 32 - 7) :
    x.length < 2 ^ 32 - 12 := by
  unfold payload at small
  cases taken : lpStringToInt64 x with
  | some v =>
    unfold lpStringToInt64 at taken
    split at taken
    · cases taken
    · rename_i short
      unfold maxLongIntStrLen at short
      omega
  | none =>
    rw [taken] at small
    dsimp only at small
    unfold lpEncodeString at small
    dsimp only at small
    split_ifs at small <;> simp only [List.length_cons] at small <;> omega

theorem layout_small (formed : Layout lp xs) (index : i < xs.length) :
    xs[i].length < 2 ^ 32 - 5 ∧ (payload xs[i]).length < 2 ^ 32 := by
  have total := formed.1
  have base := offset_ge xs i
  have back := lpEncodeBacklenBytes_pos (payload xs[i]).length
  rw [used_eq index, offset_succ index, entry_length] at total
  have small := @length_lt_of_payload xs[i] (by omega)
  exact ⟨by omega, by omega⟩

theorem layout_size (formed : Layout lp xs) (index : i < xs.length) :
    lpCurrentEncodedSizeUnsafe lp (offset xs i) = .ok (payload xs[i]).length :=
  lpCurrentEncodedSizeUnsafe_payload (layout_payload formed index) (layout_small formed index).1

theorem layout_head (formed : Layout lp xs) (index : i < xs.length) :
    ∃ byte, readByte lp (offset xs i) = .ok byte ∧ byte ≠ lpEof :=
  payload_head (layout_payload formed index)

/-- The length written in front of an offset leads back to the entry there. -/
theorem layout_decodeBacklen (formed : Layout lp xs) (index : i < xs.length) :
    lpDecodeBacklen lp (offset xs (i + 1) - 1) = .ok (payload xs[i]).length := by
  rw [offset_succ index, entry_length, ← Nat.add_assoc]
  exact lpDecodeBacklen_encoded (layout_backlen formed index)
    (Nat.lt_trans (layout_small formed index).2 (by decide))

private theorem inRange {total p : Nat} (low : 6 ≤ p) (high : p < total) :
    isOutOfRange total p = false := by
  rw [isOutOfRange, lpHeaderSize, Bool.or_eq_false_iff]
  exact ⟨decide_eq_false (by omega), decide_eq_false (by omega)⟩

theorem lpValidateNext_narrow (formed : Layout lp xs) (index : i < xs.length)
    (narrow : ¬ Wide xs[i]) :
    lpValidateNext lp (used xs) (some (offset xs i)) = .ok (true, some (offset xs (i + 1))) := by
  obtain ⟨byte, head, notEnd⟩ := layout_head formed index
  obtain ⟨size, sized, positive, sizeLe⟩ :=
    lpCurrentEncodedSizeBytes_narrow (layout_payload formed index) narrow
  have base := offset_ge xs i
  have total := used_eq index
  have next := offset_succ index
  have entryLen := entry_length xs[i]
  have back := layout_decodeBacklen formed index
  have width : u64 ((payload xs[i]).length + lpEncodeBacklenBytes (payload xs[i]).length) =
      (payload xs[i]).length + lpEncodeBacklenBytes (payload xs[i]).length := by
    have := (layout_small formed index).2
    have := lpEncodeBacklenBytes_le (payload xs[i]).length
    exact u64_of_lt (by omega)
  have at0 := @inRange (used xs) (offset xs i) base (by omega)
  have at1 := @inRange (used xs) (offset xs i + size) (by omega) (by omega)
  have at2 := @inRange (used xs) (offset xs (i + 1)) (by omega) (by omega)
  have notEndBool : (byte == lpEof) = false := by simp [notEnd]
  have nonzero : ¬ size = 0 := by omega
  rw [entryLen] at next
  rw [next] at back at2 ⊢
  simp only [lpValidateNext, at0, head, notEndBool, sized, nonzero, at1, layout_size formed index,
    at2, back, width, exec_ok_bind, exec_pure, Bool.false_eq_true, ↓reduceIte, ne_eq,
    not_true_eq_false]

theorem lpValidateNext_wide (formed : Layout lp xs) (index : i < xs.length) (wide : Wide xs[i]) :
    lpValidateNext lp (used xs) (some (offset xs i)) = .ok (false, some (offset xs i)) := by
  obtain ⟨byte, head, notEnd⟩ := layout_head formed index
  have sized := lpCurrentEncodedSizeBytes_wide (layout_payload formed index) wide
  have total := used_eq index
  have next := offset_succ index
  have at0 := @inRange (used xs) (offset xs i) (offset_ge xs i) (by omega)
  have notEndBool : (byte == lpEof) = false := by simp [notEnd]
  simp only [lpValidateNext, at0, head, notEndBool, sized, exec_ok_bind, exec_pure,
    Bool.false_eq_true, ↓reduceIte]

/-- The assertion at an entry holds, or is compiled out. -/
def Checked (ndebug : Bool) (x : Bytes) : Prop := ndebug = true ∨ ¬ Wide x

theorem lpAssertValidEntry_checked (formed : Layout lp xs) (index : i < xs.length)
    (checked : Checked ndebug xs[i]) :
    lpAssertValidEntry ndebug lp (used xs) (offset xs i) = .ok () := by
  unfold lpAssertValidEntry
  rcases checked with rfl | narrow
  · rfl
  · rw [lpValidateNext_narrow formed index narrow]
    exact cassert_true ndebug

theorem lpAssertValidEntry_wide (formed : Layout lp xs) (index : i < xs.length)
    (wide : Wide xs[i]) :
    lpAssertValidEntry false lp (used xs) (offset xs i) = .error .assertFailed := by
  unfold lpAssertValidEntry
  rw [lpValidateNext_wide formed index wide]
  rfl

/-! ## Walking -/

/-- The pointer to an entry, `nullptr` behind the last. -/
def pointer (xs : List Bytes) (i : Nat) : Option Nat :=
  if i < xs.length then some (offset xs i) else none

theorem lpSkip_layout (formed : Layout lp xs) (index : i < xs.length) :
    lpSkip lp (offset xs i) = .ok (offset xs (i + 1)) := by
  rw [lpSkip, layout_size formed index, offset_succ index, entry_length]
  rfl

/-- Reading the byte where an entry would start tells whether there is one. -/
private theorem readByte_offset (formed : Layout lp xs) (bound : i ≤ xs.length) :
    ∃ byte, readByte lp (offset xs i) = .ok byte ∧ (byte == lpEof) = decide (i = xs.length) := by
  by_cases last : i = xs.length
  · subst last
    exact ⟨lpEof, layout_end formed, by simp⟩
  · obtain ⟨byte, head, notEnd⟩ := @layout_head lp xs i formed (by omega)
    exact ⟨byte, head, by simp [last, notEnd]⟩

/-- `lpNext` looks at the entry it steps onto only. -/
theorem lpNext_checked (formed : Layout lp xs) (index : i < xs.length)
    (checked : ∀ x ∈ xs[i + 1]?, Checked ndebug x) :
    lpNext ndebug lp (some (offset xs i)) = .ok (pointer xs (i + 1)) := by
  obtain ⟨byte, head, isEnd⟩ := @readByte_offset lp xs (i + 1) formed index
  have total := used_eq index
  have at0 := @inRange (used xs) (offset xs (i + 1)) (offset_ge xs _) (by omega)
  simp only [lpNext, lpSkip_layout formed index, layout_total formed, at0, head, isEnd,
    exec_ok_bind, Bool.false_eq_true, ↓reduceIte, pointer]
  by_cases last : i + 1 = xs.length
  · simp [last]
  · have next : i + 1 < xs.length := by omega
    have valid := lpAssertValidEntry_checked formed next
      (checked _ (List.getElem?_eq_getElem next))
    simp [last, next, valid]

theorem lpNext_layout (formed : Layout lp xs) (index : i < xs.length)
    (checked : ∀ x ∈ xs, Checked ndebug x) :
    lpNext ndebug lp (some (offset xs i)) = .ok (pointer xs (i + 1)) :=
  lpNext_checked formed index fun x held => checked x (List.mem_of_getElem? held)

theorem lpPrev_layout (formed : Layout lp xs) (index : i < xs.length)
    (checked : Checked ndebug xs[i]) :
    lpPrev ndebug lp (some (offset xs (i + 1))) = .ok (some (offset xs i)) := by
  have base := offset_ge xs i
  have next := offset_succ index
  have entryLen := entry_length xs[i]
  have least := entry_length_ge xs[i]
  have width : u64 ((payload xs[i]).length + lpEncodeBacklenBytes (payload xs[i]).length) =
      (entry xs[i]).length := by
    have := (layout_small formed index).2
    have := lpEncodeBacklenBytes_le (payload xs[i]).length
    rw [entryLen]
    exact u64_of_lt (by omega)
  have notFirst : ¬ offset xs (i + 1) = lpHeaderSize := by unfold lpHeaderSize; omega
  have notNull : ¬ offset xs (i + 1) = 0 := by omega
  have back : offset xs (i + 1) - (entry xs[i]).length = offset xs i := by omega
  have room : ¬ offset xs (i + 1) < (entry xs[i]).length := by omega
  simp only [lpPrev, notFirst, notNull, layout_decodeBacklen formed index, width, room, back,
    layout_total formed, lpAssertValidEntry_checked formed index checked, exec_ok_bind, exec_pure,
    ↓reduceIte]

theorem lpPrev_first (ndebug : Bool) (lp : Bytes) (xs : List Bytes) :
    lpPrev ndebug lp (some (offset xs 0)) = .ok none := rfl

/-- `lpFirst` looks at the first entry only. -/
theorem lpFirst_checked (formed : Layout lp xs) (checked : ∀ x ∈ xs.head?, Checked ndebug x) :
    lpFirst ndebug lp = .ok (pointer xs 0) := by
  obtain ⟨byte, head, isEnd⟩ := @readByte_offset lp xs 0 formed (Nat.zero_le _)
  rw [offset_zero] at head
  simp only [lpFirst, lpHeaderSize, head, isEnd, layout_total formed, exec_ok_bind, pointer]
  cases xs with
  | nil => rfl
  | cons x rest =>
    have first : 0 < (x :: rest).length := Nat.zero_lt_succ _
    have valid := lpAssertValidEntry_checked formed first (checked x rfl)
    rw [offset_zero] at valid
    simp [valid]

theorem lpFirst_layout (formed : Layout lp xs) (checked : ∀ x ∈ xs, Checked ndebug x) :
    lpFirst ndebug lp = .ok (pointer xs 0) :=
  lpFirst_checked formed fun x member => checked x (List.mem_of_mem_head? member)

/-- A first entry that fails its check aborts. -/
theorem lpFirst_unchecked (formed : Layout lp (x :: xs)) (unchecked : ¬ Checked ndebug x) :
    lpFirst ndebug lp = .error .assertFailed := by
  obtain ⟨byte, head, isEnd⟩ := @readByte_offset lp (x :: xs) 0 formed (Nat.zero_le _)
  rw [offset_zero] at head
  rw [Checked, not_or, not_not, Bool.not_eq_true] at unchecked
  obtain ⟨rfl, wide⟩ := unchecked
  have first : 0 < (x :: xs).length := Nat.zero_lt_succ _
  have invalid := lpAssertValidEntry_wide formed first wide
  rw [offset_zero] at invalid
  rw [List.length_cons, decide_eq_false (by omega)] at isEnd
  rw [lpFirst, lpHeaderSize, head, exec_ok_bind, isEnd, if_neg Bool.false_ne_true,
    layout_total formed, exec_ok_bind, invalid, exec_error_bind]

theorem lpLast_layout (formed : Layout lp xs) (checked : ∀ x ∈ xs, Checked ndebug x) :
    lpLast ndebug lp = .ok (if xs = [] then none else some (offset xs (xs.length - 1))) := by
  have nonzero : ¬ used xs = 0 := by unfold used; omega
  simp only [lpLast, layout_total formed, exec_ok_bind, nonzero, ↓reduceIte, ← offset_end]
  cases xs with
  | nil => rfl
  | cons x rest =>
    have last : rest.length < (x :: rest).length := Nat.lt_succ_self _
    exact lpPrev_layout formed last (checked _ (List.getElem_mem last))

/-- Walking forward from an entry, up to and past the end. -/
theorem lpForward_layout (formed : Layout lp xs) (checked : ∀ x ∈ xs, Checked ndebug x)
    (steps i : Nat) : lpForward ndebug lp steps (pointer xs i) = .ok (pointer xs (i + steps)) := by
  induction steps generalizing i with
  | zero => rfl
  | succ steps ih =>
    by_cases index : i < xs.length
    · have here : pointer xs i = some (offset xs i) := if_pos index
      rw [here, lpForward, lpNext_layout formed index checked, exec_ok_bind, ih]
      congr 2
      omega
    · have here : pointer xs i = none := if_neg index
      have there : pointer xs (i + (steps + 1)) = none := if_neg (by omega)
      rw [here, there]
      rfl

/-- Walking backward from an entry, down to and past the first. -/
theorem lpBackward_layout (formed : Layout lp xs) (checked : ∀ x ∈ xs, Checked ndebug x)
    (steps : Nat) {i : Nat} (index : i < xs.length) :
    lpBackward ndebug lp steps (some (offset xs i)) =
      .ok (if steps ≤ i then some (offset xs (i - steps)) else none) := by
  induction steps generalizing i with
  | zero => rfl
  | succ steps ih =>
    cases i with
    | zero =>
      rw [lpBackward, lpPrev_first, exec_ok_bind, if_neg (by omega)]
      cases steps <;> rfl
    | succ i =>
      have prior : i < xs.length := by omega
      rw [lpBackward, lpPrev_layout formed prior (checked _ (List.getElem_mem prior)),
        exec_ok_bind, ih prior, Nat.add_sub_add_right]
      congr 1
      exact if_congr (by omega) rfl rfl

/-- The pointer to the entry of a signed index; negative indices count from
the end. -/
def seekPointer (xs : List Bytes) (index : Int) : Option Nat :=
  let i := if index < 0 then xs.length + index else index
  if 0 ≤ i then pointer xs i.toNat else none

private theorem lpBackward_last (formed : Layout lp xs) (checked : ∀ x ∈ xs, Checked ndebug x)
    (steps : Nat) :
    (do lpBackward ndebug lp steps (← lpLast ndebug lp)) =
      .ok (if steps < xs.length then pointer xs (xs.length - 1 - steps) else none) := by
  rw [lpLast_layout formed checked, exec_ok_bind]
  cases xs with
  | nil => cases steps <;> rfl
  | cons x rest =>
    rw [if_neg (List.cons_ne_nil _ _), lpBackward_layout formed checked steps (by simp)]
    congr 1
    by_cases within : steps < (x :: rest).length
    · have place : (x :: rest).length - 1 - steps < (x :: rest).length := by omega
      rw [if_pos (by omega), if_pos within, pointer, if_pos place]
    · rw [if_neg (by simp only [List.length_cons] at within ⊢; omega), if_neg within]

private theorem lpForward_first (formed : Layout lp xs) (checked : ∀ x ∈ xs, Checked ndebug x)
    (steps : Nat) : (do lpForward ndebug lp steps (← lpFirst ndebug lp)) = .ok (pointer xs steps) := by
  rw [lpFirst_layout formed checked, exec_ok_bind, lpForward_layout formed checked, Nat.zero_add]

/-- Every index finds the entry it names, by whichever direction is walked. -/
theorem lpSeek_layout (formed : Layout lp xs) (checked : ∀ x ∈ xs, Checked ndebug x)
    (index : Int) : lpSeek ndebug lp index = .ok (seekPointer xs index) := by
  obtain ⟨count, counted, _, exact_⟩ := layout_count formed
  have back := lpBackward_last formed checked
  have front := lpForward_first formed checked
  rw [lpSeek, counted, exec_ok_bind]
  by_cases known : count ≠ lpHdrNumeleUnknown
  · have same : count = xs.length := exact_.resolve_right known
    subst same
    simp only [if_pos known, back, front]
    generalize place : (if index < 0 then (xs.length : Int) + index else index) = i
    have target : seekPointer xs index = if 0 ≤ i then pointer xs i.toNat else none := by
      rw [← place, seekPointer]
    rw [target]
    by_cases low : i < 0
    · rw [if_pos low, if_neg (by omega)]
      rfl
    · by_cases high : i ≥ xs.length
      · rw [if_neg low, if_pos high, if_pos (by omega), pointer, if_neg (by omega)]
        rfl
      · have valid : 0 ≤ i := by omega
        have within : (-1 - (i - xs.length)).toNat < xs.length := by omega
        rw [if_neg low, if_neg high, if_pos within, if_pos valid]
        split
        · congr 2
          omega
        · rfl
  · rw [if_neg known, back, front, seekPointer]
    by_cases negative : index < 0
    · rw [if_pos negative]
      by_cases within : (-1 - index).toNat < xs.length
      · rw [if_pos within, if_pos negative, if_pos (by omega)]
        congr 2
        omega
      · rw [if_neg within, if_pos negative, if_neg (by omega)]
    · rw [if_neg negative, if_neg negative, if_pos (by omega)]

end CarrotDb.Listpack
