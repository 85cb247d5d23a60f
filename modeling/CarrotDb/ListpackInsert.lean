import CarrotDb.ListpackLayout

/-! The one update of a listpack: grow or shrink the buffer, move the tail,
write the new bytes over the gap, refresh the header. Insertion, replacement
and deletion all splice one run of bytes for another and leave every other
entry byte for byte as it was. -/
namespace CarrotDb.Listpack
open CarrotDb.Decimal CarrotDb.Bits

variable {lp : Bytes}

/-- Moving a tail over the run in front of it, up or down. -/
private theorem memmove_tail {front old moved room : Bytes} {k : Nat}
    (space : k ≤ old.length + room.length) :
    memmove (front ++ (old ++ (moved ++ room))) (front.length + k) (front.length + old.length)
        moved.length =
      .ok (front ++ ((old ++ (moved ++ room)).take k ++
        (moved ++ (old ++ (moved ++ room)).drop (k + moved.length)))) := by
  have bound : front.length + old.length + moved.length ≤
        (front ++ (old ++ (moved ++ room))).length ∧
      front.length + k + moved.length ≤ (front ++ (old ++ (moved ++ room))).length := by
    simp only [List.length_append]
    omega
  rw [memmove, if_pos bound, List.take_length_add_append, List.drop_length_add_append,
    Nat.add_assoc, List.drop_length_add_append, List.drop_left, List.take_left]
  simp only [List.append_assoc]

/-- Writing two runs one behind the other over a gap of their size. -/
private theorem writeBytes_pair {front gap back first second : Bytes}
    (size : gap.length = first.length + second.length) :
    ∃ half, writeBytes (front ++ (gap ++ back)) front.length first = .ok half ∧
      writeBytes half (front.length + first.length) second =
        .ok (front ++ (first ++ second ++ back)) := by
  refine ⟨front ++ first ++ (gap.drop first.length ++ back), ?_, ?_⟩
  · have whole : front ++ (gap ++ back) =
        front ++ gap.take first.length ++ (gap.drop first.length ++ back) := by
      conv_lhs => rw [← List.take_append_drop first.length gap]
      simp only [List.append_assoc]
    rw [whole]
    exact writeBytes_middle rfl (by rw [List.length_take]; omega)
  · rw [← List.append_assoc (front ++ first), writeBytes_middle (by simp)
      (by rw [List.length_drop]; omega)]
    simp only [List.append_assoc]

/-- Growing, moving and shrinking leave a gap of the new size between the
two kept runs; what follows them is no longer part of the listpack. -/
private theorem splice_moved {front old back tail : Bytes} {newLen total newTotal : Nat}
    {position : Where} (size : total = front.length + old.length + back.length)
    (newSize : newTotal = front.length + newLen + back.length)
    (fresh : position = .before → old = []) :
    ∃ grown moved gap rest,
      lpRealloc (newTotal > total) (front ++ (old ++ (back ++ tail))) total newTotal =
        .ok grown ∧
      lpMoveTail grown front.length newLen old.length total position = .ok moved ∧
      lpRealloc (newTotal < total) moved newTotal newTotal =
        .ok (front ++ (gap ++ (back ++ rest))) ∧ gap.length = newLen := by
  have move : ∀ grown, lpMoveTail grown front.length newLen old.length total position =
      memmove grown (front.length + newLen) (front.length + old.length) back.length := by
    intro grown
    unfold lpMoveTail sizeSub
    by_cases before : position = .before
    · have empty := fresh before
      subst empty
      rw [List.length_nil] at size ⊢
      rw [if_pos before, if_pos (by omega), exec_pure, exec_ok_bind]
      congr 1
      omega
    · rw [if_neg before, if_pos (by omega), exec_pure, exec_ok_bind]
      congr 1
      omega
  have moved : ∀ room : Bytes, newLen ≤ old.length + room.length → ∃ moved gap rest,
      lpMoveTail (front ++ (old ++ (back ++ room))) front.length newLen old.length total position =
        .ok moved ∧
      lpRealloc (newTotal < total) moved newTotal newTotal =
        .ok (front ++ (gap ++ (back ++ rest))) ∧ gap.length = newLen := by
    intro room space
    have gapSize : ((old ++ (back ++ room)).take newLen).length = newLen := by
      simp only [List.length_take, List.length_append]
      omega
    rw [move, memmove_tail space]
    generalize (old ++ (back ++ room)).take newLen = gap at gapSize ⊢
    by_cases shrink : newTotal < total
    · refine ⟨_, gap, [], rfl, ?_, gapSize⟩
      have prefix_ : newTotal = (front ++ (gap ++ back)).length := by
        simp only [List.length_append]
        omega
      rw [lpRealloc, if_pos (decide_eq_true shrink), ← List.append_assoc gap,
        ← List.append_assoc front, prefix_, reallocCopy, if_pos (by simp), List.take_left,
        Nat.sub_self]
      simp
    · exact ⟨_, gap, _, rfl, if_neg (by simpa using shrink), gapSize⟩
  by_cases grow : newTotal > total
  · have room : newLen ≤ old.length + (List.replicate (newTotal - total) (0 : UInt8)).length := by
      rw [List.length_replicate]
      omega
    obtain ⟨after, gap, rest, ran, shrank, gapSize⟩ := moved _ room
    refine ⟨_, after, gap, rest, ?_, ran, shrank, gapSize⟩
    have whole : front ++ (old ++ (back ++ tail)) = front ++ (old ++ back) ++ tail := by
      simp only [List.append_assoc]
    have prefix_ : total = (front ++ (old ++ back)).length := by
      simp only [List.length_append]
      omega
    have bound : total ≤ (front ++ (old ++ back) ++ tail).length ∧ total ≤ newTotal := by
      rw [List.length_append]
      omega
    have kept : (front ++ (old ++ back) ++ tail).take total = front ++ (old ++ back) := by
      rw [prefix_, List.take_left]
    rw [lpRealloc, if_pos (decide_eq_true grow), whole, reallocCopy, if_pos bound, kept]
    simp only [List.append_assoc]
  · obtain ⟨after, gap, rest, ran, shrank, gapSize⟩ := moved tail (by omega)
    exact ⟨_, after, gap, rest, if_neg (by simpa using grow), ran, shrank, gapSize⟩

/-- The count field after one more element, and after one less. -/
def countedUp (count : Nat) : Nat := if count = lpHdrNumeleUnknown then count else count + 1
def countedDown (count : Nat) : Nat := if count = lpHdrNumeleUnknown then count else count - 1

private theorem lpCountElement_up {rest : Bytes} {total count : Nat} (small : count ≤ 65535) :
    lpCountElement (header total count ++ rest) .before false =
      .ok (header total (countedUp count) ++ rest) := by
  unfold lpCountElement countedUp
  rw [if_pos (.inl (by decide)), lpGetTotalNumElements_header small, exec_ok_bind]
  split
  · rfl
  · exact lpSetNumElements_header _ _ _ _

private theorem lpCountElement_down {rest : Bytes} {total count : Nat} (small : count ≤ 65535)
    (positive : 0 < count) : lpCountElement (header total count ++ rest) .replace true =
      .ok (header total (countedDown count) ++ rest) := by
  unfold lpCountElement countedDown
  rw [if_pos (.inr rfl), lpGetTotalNumElements_header small, exec_ok_bind]
  split
  · rfl
  · have less : sub32 count 1 = count - 1 := sub32_of_le positive (by omega)
    rw [if_pos rfl, less]
    exact lpSetNumElements_header _ _ _ _

private theorem lpCountElement_same (lp : Bytes) : lpCountElement lp .replace false = .ok lp := rfl

/-- The first half of a splice: the move leaves a gap of the new size. -/
private theorem lpSplice_moved {front old back tail element backlen : Bytes}
    {total newTotal count : Nat} {position : Where}
    (size : total = 6 + front.length + old.length + back.length)
    (newSize : newTotal + old.length = total + (element.length + backlen.length))
    (fits : newTotal ≤ 2 ^ 32 - 1) (before : total ≤ 2 ^ 32 - 1)
    (fresh : position = .before → old = []) (isDelete : Bool) :
    ∃ gap rest, gap.length = element.length + backlen.length ∧
      lpSplice (header total count ++ (front ++ (old ++ (back ++ tail)))) (6 + front.length) element
          backlen total old.length position isDelete = (do
        let newp ← lpNewPointer (header total count ++ (front ++ (gap ++ (back ++ rest))))
          (6 + front.length) isDelete
        let lp ← lpWriteElement (header total count ++ (front ++ (gap ++ (back ++ rest))))
          (6 + front.length) element backlen isDelete
        let lp ← lpCountElement lp position isDelete
        let lp ← lpSetTotalBytes lp newTotal
        pure (some (lp, newp))) := by
  obtain ⟨grown, moved, gap, rest, grew, movedUp, shrank, gapSize⟩ :=
    @splice_moved (header total count ++ front) old back tail (element.length + backlen.length)
      total newTotal position (by simp only [List.length_append, header_length]; omega)
      (by simp only [List.length_append, header_length]; omega) fresh
  have width : sub64 (total + (element.length + backlen.length)) old.length = newTotal := by
    rw [sub64_of_le (by omega) (by omega)]
    omega
  have allowed : ¬ newTotal > 2 ^ 32 - 1 := by omega
  rw [List.append_assoc] at grew shrank
  rw [List.length_append, header_length] at movedUp
  refine ⟨gap, rest, gapSize, ?_⟩
  rw [lpSplice, width, if_neg allowed, grew, exec_ok_bind, movedUp, exec_ok_bind, shrank,
    exec_ok_bind]

private theorem lpWriteElement_gap {front gap back element backlen : Bytes} {total count : Nat}
    (size : gap.length = element.length + backlen.length) :
    lpWriteElement (header total count ++ (front ++ (gap ++ back))) (6 + front.length) element
      backlen false = .ok (header total count ++ (front ++ (element ++ backlen ++ back))) := by
  obtain ⟨half, wrote, wrote'⟩ := @writeBytes_pair (header total count ++ front) gap back _ _ size
  rw [List.length_append, header_length] at wrote wrote'
  rw [List.append_assoc] at wrote wrote'
  rw [lpWriteElement, if_neg Bool.false_ne_true, wrote, exec_ok_bind, wrote']

/-- A new entry in front of the run `back`, which may be the end marker. -/
private theorem lpSplice_fresh {front back tail element backlen : Bytes} {total newTotal count : Nat}
    (size : total = 6 + front.length + back.length) (small : count ≤ 65535)
    (newSize : newTotal = total + (element.length + backlen.length)) (fits : newTotal ≤ 2 ^ 32 - 1) :
    ∃ rest, lpSplice (header total count ++ (front ++ (back ++ tail))) (6 + front.length) element
        backlen total 0 .before false =
      .ok (some (header newTotal (countedUp count) ++
        (front ++ (element ++ backlen ++ (back ++ rest))), some (6 + front.length))) := by
  obtain ⟨gap, rest, gapSize, moved⟩ :=
    @lpSplice_moved front [] back tail element backlen total newTotal count .before size newSize
      fits (by omega) (fun _ => rfl) false
  refine ⟨rest, moved.trans ?_⟩
  rw [lpNewPointer, if_neg Bool.false_ne_true, exec_pure, exec_ok_bind, lpWriteElement_gap gapSize,
    exec_ok_bind, lpCountElement_up small, exec_ok_bind, lpSetTotalBytes_header, exec_ok_bind,
    exec_pure]

/-- A new entry in the place of the run `old`. -/
private theorem lpSplice_replaced {front old back tail element backlen : Bytes}
    {total newTotal count : Nat} (size : total = 6 + front.length + old.length + back.length)
    (newSize : newTotal + old.length = total + (element.length + backlen.length))
    (fits : newTotal ≤ 2 ^ 32 - 1) (before : total ≤ 2 ^ 32 - 1) :
    ∃ rest, lpSplice (header total count ++ (front ++ (old ++ (back ++ tail)))) (6 + front.length)
        element backlen total old.length .replace false =
      .ok (some (header newTotal count ++ (front ++ (element ++ backlen ++ (back ++ rest))),
        some (6 + front.length))) := by
  obtain ⟨gap, rest, gapSize, moved⟩ :=
    @lpSplice_moved front old back tail element backlen total newTotal count .replace size newSize
      fits before (fun wrong => nomatch wrong) false
  refine ⟨rest, moved.trans ?_⟩
  rw [lpNewPointer, if_neg Bool.false_ne_true, exec_pure, exec_ok_bind, lpWriteElement_gap gapSize,
    exec_ok_bind, lpCountElement_same, exec_ok_bind, lpSetTotalBytes_header, exec_ok_bind,
    exec_pure]

/-- The run `old` taken out; what follows it begins with `next`. -/
private theorem lpSplice_deleted {front old back tail : Bytes} {next : UInt8}
    {total newTotal count : Nat} (size : total = 6 + front.length + old.length + (next :: back).length)
    (small : count ≤ 65535) (positive : 0 < count) (newSize : newTotal + old.length = total)
    (before : total ≤ 2 ^ 32 - 1) :
    ∃ rest, lpSplice (header total count ++ (front ++ (old ++ (next :: back ++ tail))))
        (6 + front.length) [] [] total old.length .replace true =
      .ok (some (header newTotal (countedDown count) ++ (front ++ (next :: back ++ rest)),
        if next == lpEof then none else some (6 + front.length))) := by
  obtain ⟨gap, rest, gapSize, moved⟩ :=
    @lpSplice_moved front old (next :: back) tail [] [] total newTotal count .replace size newSize
      (by omega) before (fun wrong => nomatch wrong) true
  have empty : gap = [] := List.length_eq_zero_iff.mp gapSize
  subst empty
  have head : readByte (header total count ++ (front ++ ([] ++ (next :: back ++ rest))))
      (6 + front.length) = .ok next := by
    rw [readByte, List.getElem?_append_right (by rw [header_length]; omega), header_length,
      Nat.add_sub_cancel_left, List.getElem?_append_right (le_refl _), Nat.sub_self]
    rfl
  refine ⟨rest, moved.trans ?_⟩
  have pointer : lpNewPointer (header total count ++ (front ++ ([] ++ (next :: back ++ rest))))
      (6 + front.length) true = .ok (if next == lpEof then none else some (6 + front.length)) := by
    rw [lpNewPointer, if_pos rfl, head, exec_ok_bind]
    split <;> rfl
  rw [pointer, exec_ok_bind, lpWriteElement, if_pos rfl, exec_pure, exec_ok_bind,
    lpCountElement_down small positive, exec_ok_bind, lpSetTotalBytes_header, exec_ok_bind,
    exec_pure, List.nil_append]

/-! ## Updates of the list -/

private theorem lpEncodeElement_string (x : Bytes) : lpEncodeElement (some x) none = payload x := by
  unfold lpEncodeElement lpEncodeGetType payload
  dsimp only
  cases lpStringToInt64 x <;> rfl

private theorem lpInsertPoint_before (ndebug : Bool) (lp : Bytes) (p : Nat) :
    lpInsertPoint ndebug lp p .before = .ok (p, .before) := rfl

private theorem lpInsertPoint_replace (ndebug : Bool) (lp : Bytes) (p : Nat) :
    lpInsertPoint ndebug lp p .replace = .ok (p, .replace) := rfl

/-- An insertion of a byte string, once its entry is known. -/
private theorem lpInsert_string (ndebug : Bool) (lp x : Bytes) (p : Nat) (position : Where) :
    lpInsert ndebug lp (some x) none p position = (do
      let (poff, position) ← lpInsertPoint ndebug lp p position
      let total ← lpGetTotalBytes lp
      let replacedLen ← lpReplacedLen ndebug lp poff position
      lpSplice lp poff (payload x) (lpEncodeBacklen (payload x).length) total replacedLen position
        false) := by
  rw [← lpEncodeElement_string x]
  rfl

private theorem lpDelete_splice (ndebug : Bool) (lp : Bytes) (p : Nat) :
    lpDelete ndebug lp p = (do
      let total ← lpGetTotalBytes lp
      let replacedLen ← lpReplacedLen ndebug lp p .replace
      lpSplice lp p [] [] total replacedLen .replace true) := rfl

/-- An integer is inserted as its numeral is. -/
theorem lpInsertInteger_eq {v : Int} (range : Int64Range v) (ndebug : Bool) (lp : Bytes) (p : Nat)
    (position : Where) : lpInsertInteger ndebug lp v p position =
      lpInsert ndebug lp (some (intToDecimal v)) none p position := by
  have same : payload (intToDecimal v) = lpEncodeIntegerGetType v := by
    unfold payload
    rw [lpStringToInt64_intToDecimal range]
  rw [lpInsert_string, same]
  rfl

/-- The length in use after putting `x` in. -/
theorem used_insert (xs : List Bytes) (i : Nat) (x : Bytes) :
    used (xs.take i ++ x :: xs.drop i) = used xs + (entry x).length := by
  rw [used, used, body_append, body_cons]
  have split : (body xs).length = (body (xs.take i)).length + (body (xs.drop i)).length := by
    rw [← List.length_append, ← body_append, List.take_append_drop]
  simp only [List.length_append]
  omega

private theorem countOk_up {count length : Nat} (ok : CountOk count length) :
    CountOk (countedUp count) (length + 1) := by
  obtain ⟨small, same⟩ := ok
  unfold CountOk countedUp
  split
  · exact ⟨small, .inr ‹_›⟩
  · have exact_ : count = length := same.resolve_right ‹_›
    exact ⟨by omega, .inl (by omega)⟩

private theorem countOk_down {count length : Nat} (ok : CountOk count length)
    (positive : 0 < length) : CountOk (countedDown count) (length - 1) := by
  obtain ⟨small, same⟩ := ok
  unfold CountOk countedDown
  split
  · exact ⟨small, .inr ‹_›⟩
  · have exact_ : count = length := same.resolve_right ‹_›
    exact ⟨by omega, .inl (by omega)⟩

/-- The listpack of a list, with the count in its header. -/
def Counted (lp : Bytes) (xs : List Bytes) (count : Nat) : Prop :=
  Layout lp xs ∧ lpGetTotalNumElements lp = .ok count

theorem counted_of_layout (formed : Layout lp xs) :
    ∃ count, Counted lp xs count ∧ CountOk count xs.length := by
  obtain ⟨count, counted, ok⟩ := layout_count formed
  exact ⟨count, ⟨formed, counted⟩, ok⟩

/-- Insertion in front of an entry, or of the end, with the count it leaves. -/
theorem lpInsert_before_counted (held : Counted lp xs count) (index : i ≤ xs.length)
    (fits : used xs + (entry x).length ≤ 2 ^ 32 - 1) :
    ∃ lp', lpInsert ndebug lp (some x) none (offset xs i) .before =
        .ok (some (lp', some (offset xs i))) ∧
      Counted lp' (xs.take i ++ x :: xs.drop i) (countedUp count) := by
  obtain ⟨formed, field⟩ := held
  have total := layout_total formed
  obtain ⟨bound, count', tail, counted, rfl⟩ := formed
  rw [lpGetTotalNumElements_header counted.1] at field
  cases field
  have whole : body xs ++ lpEof :: tail =
      body (xs.take i) ++ (body (xs.drop i) ++ [lpEof] ++ tail) := by
    conv_lhs => rw [← List.take_append_drop i xs, body_append]
    simp only [List.append_assoc, List.singleton_append]
  have size : used xs = 6 + (body (xs.take i)).length + (body (xs.drop i) ++ [lpEof]).length := by
    rw [used, List.length_append, List.length_singleton]
    conv_lhs => rw [← List.take_append_drop i xs, body_append, List.length_append]
    omega
  rw [whole] at total ⊢
  obtain ⟨rest, ran⟩ := @lpSplice_fresh (body (xs.take i)) (body (xs.drop i) ++ [lpEof]) tail
    (payload x) (lpEncodeBacklen (payload x).length) (used xs) (used xs + (entry x).length) count
    size counted.1 (by rw [entry, List.length_append]) fits
  have up := countOk_up counted
  refine ⟨_, ?_, ⟨by rw [used_insert]; exact fits, countedUp count, rest, ?_, rfl⟩,
    lpGetTotalNumElements_header up.1⟩
  · rw [lpInsert_string, lpInsertPoint_before, exec_ok_bind]
    dsimp only
    rw [total, exec_ok_bind, lpReplacedLen, if_neg (by decide), exec_pure, exec_ok_bind, offset, ran,
      used_insert, body_append, body_cons, entry]
    simp only [List.append_assoc, List.singleton_append]
  · have length : (xs.take i ++ x :: xs.drop i).length = xs.length + 1 := by
      simp only [List.length_append, List.length_cons, List.length_take, List.length_drop]
      omega
    rw [length]
    exact up

theorem lpInsert_before_layout (formed : Layout lp xs) (index : i ≤ xs.length)
    (fits : used xs + (entry x).length ≤ 2 ^ 32 - 1) :
    ∃ lp', lpInsert ndebug lp (some x) none (offset xs i) .before =
        .ok (some (lp', some (offset xs i))) ∧ Layout lp' (xs.take i ++ x :: xs.drop i) := by
  obtain ⟨count, held, -⟩ := counted_of_layout formed
  obtain ⟨lp', ran, after, -⟩ := @lpInsert_before_counted lp xs count i x ndebug held index fits
  exact ⟨lp', ran, after⟩

/-- Insertion behind an entry is insertion in front of what follows it. -/
theorem lpInsert_after_layout (formed : Layout lp xs) (index : i < xs.length) :
    lpInsert ndebug lp (some x) none (offset xs i) .after =
      lpInsert ndebug lp (some x) none (offset xs (i + 1)) .before := by
  have inside : (lpHeaderSize ≤ offset xs (i + 1) && offset xs (i + 1) < used xs) = true := by
    have base := offset_ge xs (i + 1)
    have next := used_eq index
    rw [Bool.and_eq_true]
    exact ⟨decide_eq_true base, decide_eq_true (by omega)⟩
  have integrity : assertIntegrity ndebug lp (offset xs (i + 1)) = .ok () := by
    rw [assertIntegrity, layout_total formed, exec_ok_bind, inside]
    exact cassert_true ndebug
  rw [lpInsert_string, lpInsert_string, lpInsertPoint, lpSkip_layout formed index, exec_ok_bind,
    integrity]
  rfl

private theorem lpReplacedLen_layout (formed : Layout lp xs) (index : i < xs.length) :
    lpReplacedLen ndebug lp (offset xs i) .replace = .ok (entry xs[i]).length := by
  have base := offset_ge xs i
  have next := used_eq index
  have more := offset_succ index
  have width : u32 ((payload xs[i]).length + lpEncodeBacklenBytes (payload xs[i]).length) =
      (entry xs[i]).length := by
    have small := formed.1
    rw [entry_length] at more ⊢
    exact u32_of_lt (by omega)
  have inside : (lpHeaderSize ≤ offset xs i && offset xs i + (entry xs[i]).length < used xs) =
      true := by
    rw [Bool.and_eq_true]
    exact ⟨decide_eq_true base, decide_eq_true (by omega)⟩
  have integrity : assertIntegrityLen ndebug lp (offset xs i) (entry xs[i]).length = .ok () := by
    rw [assertIntegrityLen, layout_total formed, exec_ok_bind, inside]
    exact cassert_true ndebug
  rw [lpReplacedLen, if_pos rfl, layout_size formed index, exec_ok_bind]
  dsimp only
  rw [width, integrity, exec_ok_bind, exec_pure]

/-- The buffer around one entry. -/
private theorem layout_split {xs : List Bytes} {i : Nat} (index : i < xs.length) (tail : Bytes) :
    body xs ++ lpEof :: tail =
      body (xs.take i) ++ (entry xs[i] ++ (body (xs.drop (i + 1)) ++ [lpEof] ++ tail)) := by
  rw [body_split index]
  simp only [List.append_assoc, List.singleton_append]

private theorem used_split {xs : List Bytes} {i : Nat} (index : i < xs.length) :
    used xs = 6 + (body (xs.take i)).length + (entry xs[i]).length +
      (body (xs.drop (i + 1)) ++ [lpEof]).length := by
  rw [used, body_split index]
  simp only [List.length_append, List.length_singleton]
  omega

theorem body_set {xs : List Bytes} {i : Nat} (index : i < xs.length) (x : Bytes) :
    body (xs.set i x) = body (xs.take i) ++ (entry x ++ body (xs.drop (i + 1))) := by
  rw [List.set_eq_take_append_cons_drop, if_pos index, body_append, body_cons]

/-- Replacement of an entry, whatever the two sizes. -/
theorem lpInsert_replace_layout (formed : Layout lp xs) (index : i < xs.length)
    (fits : used (xs.set i x) ≤ 2 ^ 32 - 1) :
    ∃ lp', lpInsert ndebug lp (some x) none (offset xs i) .replace =
        .ok (some (lp', some (offset xs i))) ∧ Layout lp' (xs.set i x) := by
  have total := layout_total formed
  have replaced := @lpReplacedLen_layout lp xs i ndebug formed index
  obtain ⟨bound, count, tail, counted, rfl⟩ := formed
  have newSize : used (xs.set i x) + (entry xs[i]).length =
      used xs + ((payload x).length + (lpEncodeBacklen (payload x).length).length) := by
    rw [used, used, body_set index, body_split index]
    simp only [List.length_append, entry]
    omega
  rw [layout_split index] at total replaced ⊢
  obtain ⟨rest, ran⟩ := @lpSplice_replaced (body (xs.take i)) (entry xs[i])
    (body (xs.drop (i + 1)) ++ [lpEof]) tail (payload x) (lpEncodeBacklen (payload x).length)
    (used xs) (used (xs.set i x)) count (used_split index) newSize fits bound
  refine ⟨_, ?_, fits, count, rest, by rw [List.length_set]; exact counted, rfl⟩
  rw [lpInsert_string, lpInsertPoint_replace, exec_ok_bind]
  dsimp only
  rw [total, exec_ok_bind, replaced, exec_ok_bind, offset, ran, body_set index, entry]
  simp only [List.append_assoc, List.singleton_append]

/-- What follows an entry starts with the end marker only when nothing does. -/
private theorem body_head (xs : List Bytes) : ∃ next back, body xs ++ [lpEof] = next :: back ∧
    (next == lpEof) = decide (xs.length = 0) := by
  cases xs with
  | nil => exact ⟨lpEof, [], rfl, rfl⟩
  | cons x rest =>
    obtain ⟨byte, bytes, text, notEnd⟩ := payload_cons x
    rw [body_cons, entry, text]
    exact ⟨byte, _, rfl, by simp [notEnd]⟩

/-- Deletion of an entry; the new pointer is the entry that followed it. -/
theorem lpDelete_counted (held : Counted lp xs count) (index : i < xs.length) :
    ∃ lp', lpDelete ndebug lp (offset xs i) = .ok (some (lp', pointer (xs.eraseIdx i) i)) ∧
      Counted lp' (xs.eraseIdx i) (countedDown count) := by
  obtain ⟨formed, field⟩ := held
  have total := layout_total formed
  have replaced := @lpReplacedLen_layout lp xs i ndebug formed index
  obtain ⟨bound, count', tail, counted, rfl⟩ := formed
  rw [lpGetTotalNumElements_header counted.1] at field
  cases field
  have erased : body (xs.eraseIdx i) = body (xs.take i) ++ body (xs.drop (i + 1)) := by
    rw [List.eraseIdx_eq_take_drop_succ, body_append]
  have newSize : used (xs.eraseIdx i) + (entry xs[i]).length = used xs := by
    rw [used, used, erased, body_split index]
    simp only [List.length_append]
    omega
  have positive : 0 < count := by
    obtain ⟨-, rfl | rfl⟩ := counted <;> [omega; decide]
  obtain ⟨next, back, text, isEnd⟩ := body_head (xs.drop (i + 1))
  have sized := used_split index
  rw [layout_split index, text] at total replaced
  rw [layout_split index]
  rw [text] at sized ⊢
  obtain ⟨rest, ran⟩ := @lpSplice_deleted (body (xs.take i)) (entry xs[i]) back tail next (used xs)
    (used (xs.eraseIdx i)) count sized counted.1 positive newSize bound
  have down : CountOk (countedDown count) (xs.eraseIdx i).length := by
    rw [List.length_eraseIdx_of_lt index]
    exact countOk_down counted (by omega)
  refine ⟨_, ?_, ⟨by omega, countedDown count, rest, down, rfl⟩, lpGetTotalNumElements_header down.1⟩
  · have kept : (xs.eraseIdx i).take i = xs.take i := by
      rw [List.eraseIdx_eq_take_drop_succ, List.take_left' (by rw [List.length_take]; omega)]
    have newp : (if next == lpEof then none else some (6 + (body (xs.take i)).length)) =
        pointer (xs.eraseIdx i) i := by
      rw [pointer, offset, kept, List.length_eraseIdx_of_lt index, isEnd, List.length_drop]
      by_cases last : xs.length - (i + 1) = 0
      · rw [if_pos (decide_eq_true last), if_neg (by omega)]
      · rw [if_neg (by simpa using last), if_pos (by omega)]
    rw [lpDelete_splice, total, exec_ok_bind, replaced, exec_ok_bind, offset, ran, newp, erased,
      ← text]
    simp only [List.append_assoc, List.singleton_append]

theorem lpDelete_layout (formed : Layout lp xs) (index : i < xs.length) :
    ∃ lp', lpDelete ndebug lp (offset xs i) = .ok (some (lp', pointer (xs.eraseIdx i) i)) ∧
      Layout lp' (xs.eraseIdx i) := by
  obtain ⟨count, held, -⟩ := counted_of_layout formed
  obtain ⟨lp', ran, formed', -⟩ := @lpDelete_counted lp xs count i ndebug held index
  exact ⟨lp', ran, formed'⟩

/-! ## The operations built on insertion -/

theorem lpNew_counted (capacity : Nat) : ∃ lp, lpNew capacity = .ok lp ∧ Counted lp [] 0 := by
  obtain ⟨room, size⟩ : ∃ room, max capacity (lpHeaderSize + 1) = room + 7 :=
    ⟨max capacity 7 - 7, by unfold lpHeaderSize; omega⟩
  refine ⟨header 7 0 ++ (lpEof :: List.replicate room 0), ?_, ⟨by decide, 0, List.replicate room 0,
    ⟨by decide, .inl rfl⟩, rfl⟩, lpGetTotalNumElements_header (by decide)⟩
  have zeros : (List.replicate (room + 7) 0 : Bytes) =
      header 0 0 ++ ([0] ++ List.replicate room 0) := by
    rw [Nat.add_comm, List.replicate_add]
    rfl
  have wrote := @writeBytes_middle (header 7 0) [0] (List.replicate room 0) [lpEof] 6 rfl rfl
  rw [lpNew, size, zeros, lpSetTotalBytes_header, exec_ok_bind, lpSetNumElements_header,
    exec_ok_bind, ← List.append_assoc]
  exact wrote.trans (by rw [List.append_assoc]; rfl)

theorem lpNew_layout (capacity : Nat) : ∃ lp, lpNew capacity = .ok lp ∧ Layout lp [] := by
  obtain ⟨lp, made, held⟩ := lpNew_counted capacity
  exact ⟨lp, made, held.1⟩

theorem lpAppend_counted (held : Counted lp xs count)
    (fits : used xs + (entry x).length ≤ 2 ^ 32 - 1) :
    ∃ lp', lpAppend ndebug lp x = .ok (some (lp', some (offset xs xs.length))) ∧
      Counted lp' (xs ++ [x]) (countedUp count) := by
  have inserted := @lpInsert_before_counted lp xs count xs.length x ndebug held (le_refl _) fits
  rw [List.take_length, List.drop_length] at inserted
  rwa [lpAppend, layout_total held.1, exec_ok_bind, ← offset_end]

theorem lpAppend_layout (formed : Layout lp xs) (fits : used xs + (entry x).length ≤ 2 ^ 32 - 1) :
    ∃ lp', lpAppend ndebug lp x = .ok (some (lp', some (offset xs xs.length))) ∧
      Layout lp' (xs ++ [x]) := by
  obtain ⟨count, held, -⟩ := counted_of_layout formed
  obtain ⟨lp', ran, after, -⟩ := @lpAppend_counted lp xs count x ndebug held fits
  exact ⟨lp', ran, after⟩

/-- An element that no longer fits is refused with `NULL`. -/
theorem lpInsert_full (formed : Layout lp xs) (short : x.length < 2 ^ 32)
    (full : 2 ^ 32 - 1 < used xs + (entry x).length) (p : Nat) :
    lpInsert ndebug lp (some x) none p .before = .ok none := by
  have total := formed.1
  have element := payload_length_le x
  have back := lpEncodeBacklenBytes_le (payload x).length
  have beyond : sub64 (used xs + ((payload x).length + (lpEncodeBacklen (payload x).length).length)) 0 >
      2 ^ 32 - 1 := by
    rw [entry_length] at full
    rw [lpEncodeBacklen_length, sub64_of_le (Nat.zero_le _) (by omega), Nat.sub_zero]
    exact full
  rw [lpInsert_string, lpInsertPoint_before, exec_ok_bind]
  dsimp only
  rw [layout_total formed, exec_ok_bind, lpReplacedLen, if_neg (by decide), exec_pure,
    exec_ok_bind, lpSplice, if_pos beyond, exec_pure]

theorem lpAppend_full (formed : Layout lp xs) (short : x.length < 2 ^ 32)
    (full : 2 ^ 32 - 1 < used xs + (entry x).length) : lpAppend ndebug lp x = .ok none := by
  rw [lpAppend, layout_total formed, exec_ok_bind, lpInsert_full formed short full]

theorem lpAppendInteger_eq {v : Int} (range : Int64Range v) (ndebug : Bool) (lp : Bytes) :
    lpAppendInteger ndebug lp v = lpAppend ndebug lp (intToDecimal v) := by
  unfold lpAppendInteger lpAppend
  simp only [lpInsertInteger_eq range]

/-- Prepending looks at the first entry only. -/
theorem lpPrepend_counted (held : Counted lp xs count)
    (checked : ∀ y ∈ xs.head?, Checked ndebug y)
    (fits : used xs + (entry x).length ≤ 2 ^ 32 - 1) :
    ∃ lp', lpPrepend ndebug lp x = .ok (some (lp', some (offset xs 0))) ∧
      Counted lp' (x :: xs) (countedUp count) := by
  rw [lpPrepend, lpFirst_checked held.1 checked, exec_ok_bind]
  cases xs with
  | nil => exact lpAppend_counted held fits
  | cons y rest => exact lpInsert_before_counted held (Nat.zero_le _) fits

theorem lpPrepend_layout (formed : Layout lp xs) (checked : ∀ y ∈ xs.head?, Checked ndebug y)
    (fits : used xs + (entry x).length ≤ 2 ^ 32 - 1) :
    ∃ lp', lpPrepend ndebug lp x = .ok (some (lp', some (offset xs 0))) ∧ Layout lp' (x :: xs) := by
  obtain ⟨count, held, -⟩ := counted_of_layout formed
  obtain ⟨lp', ran, after, -⟩ := @lpPrepend_counted lp xs count ndebug x held checked fits
  exact ⟨lp', ran, after⟩

theorem lpPrepend_full (formed : Layout lp xs) (checked : ∀ y ∈ xs.head?, Checked ndebug y)
    (short : x.length < 2 ^ 32) (full : 2 ^ 32 - 1 < used xs + (entry x).length) :
    lpPrepend ndebug lp x = .ok none := by
  rw [lpPrepend, lpFirst_checked formed checked, exec_ok_bind]
  cases xs with
  | nil => exact lpAppend_full formed short full
  | cons y rest => exact lpInsert_full formed short full _

end CarrotDb.Listpack
