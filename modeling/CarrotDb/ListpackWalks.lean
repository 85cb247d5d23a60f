import CarrotDb.ListpackRuns
import CarrotDb.Lib.Walk

/-! What deep validation promises of a buffer that anybody may have written.
An accepted buffer is tiled by entries from its header to its end marker, and
both walks visit exactly those entries without leaving the buffer. -/
namespace CarrotDb.Listpack
open CarrotDb.Bits CarrotDb.Walk

variable {lp : Bytes}

/-- The entries visited from `lpFirst` by `lpNext`. -/
def forwardWalk (ndebug : Bool) (lp : Bytes) : Exec (List Nat) := do
  visited .undefinedBehaviour (fun p => lpNext ndebug lp (some p)) lp.length (← lpFirst ndebug lp)

/-- The entries visited from `lpLast` by `lpPrev`. -/
def backwardWalk (ndebug : Bool) (lp : Bytes) : Exec (List Nat) := do
  visited .undefinedBehaviour (fun p => lpPrev ndebug lp (some p)) lp.length (← lpLast ndebug lp)

theorem lpEncoding32BitStrLen_ok (read : lpEncoding32BitStrLen lp p = .ok length) :
    ∃ b1 b2 b3 b4 : UInt8, readByte lp (p + 1) = .ok b1 ∧ readByte lp (p + 2) = .ok b2 ∧
      readByte lp (p + 3) = .ok b3 ∧ readByte lp (p + 4) = .ok b4 ∧
      length = b1.toNat + b2.toNat * 256 + b3.toNat * 65536 + b4.toNat * 16777216 := by
  rw [lpEncoding32BitStrLen] at read
  obtain ⟨b1, read1, read⟩ := exec_bind_ok.mp read
  obtain ⟨b2, read2, read⟩ := exec_bind_ok.mp read
  obtain ⟨b3, read3, read⟩ := exec_bind_ok.mp read
  obtain ⟨b4, read4, read⟩ := exec_bind_ok.mp read
  cases read
  exact ⟨b1, b2, b3, b4, read1, read2, read3, read4,
    le32_eq b1.toNat_lt b2.toNat_lt b3.toNat_lt⟩

/-- No size leaves 32 bits: the strings' sizes are cut to them. -/
theorem lpCurrentEncodedSizeUnsafe_lt (sized : lpCurrentEncodedSizeUnsafe lp p = .ok size) :
    size < 2 ^ 32 := by
  rw [lpCurrentEncodedSizeUnsafe] at sized
  obtain ⟨byte, -, sized⟩ := exec_bind_ok.mp sized
  iterate 6 rcases ite_eq_iff.mp sized with ⟨-, sized⟩ | ⟨-, sized⟩; · cases sized; decide
  rcases ite_eq_iff.mp sized with ⟨-, sized⟩ | ⟨-, sized⟩
  · obtain ⟨length, read, same⟩ := exec_bind_ok.mp sized
    simp only [lpEncoding6BitStrLen, exec_bind_ok] at read
    obtain ⟨b0, -, value⟩ := read
    cases value
    cases same
    have := (b0 &&& 0x3F).toNat_lt
    omega
  rcases ite_eq_iff.mp sized with ⟨-, sized⟩ | ⟨-, sized⟩
  · obtain ⟨length, read, same⟩ := exec_bind_ok.mp sized
    simp only [lpEncoding12BitStrLen, exec_bind_ok] at read
    obtain ⟨b0, -, b1, -, value⟩ := read
    have low := b1.toNat_lt
    have high := (b0 &&& 0xF).toNat_lt
    rw [exec_pure, shiftLeft_or _ low] at value
    cases value
    cases same
    omega
  rcases ite_eq_iff.mp sized with ⟨-, sized⟩ | ⟨-, sized⟩
  · obtain ⟨length, -, same⟩ := exec_bind_ok.mp sized
    cases same
    exact Nat.mod_lt _ (by decide)
  · rcases ite_eq_iff.mp sized with ⟨-, sized⟩ | ⟨-, sized⟩ <;> cases sized <;> decide

theorem lpCurrentEncodedSizeUnsafe_32 {byte : UInt8} (head : readByte lp p = .ok byte)
    (string : lpEncodingIs32BitStr byte = true) :
    byte = 0xF0 ∧ lpCurrentEncodedSizeUnsafe lp p =
      (do return u32 (5 + (← lpEncoding32BitStrLen lp p))) := by
  have same : byte = 0xF0 := by
    have mask : ∀ byte : UInt8, byte &&& 0xFF = byte := fun byte => UInt8.and_neg_one
    simpa [lpEncodingIs32BitStr, mask] using string
  subst same
  refine ⟨rfl, ?_⟩
  rw [lpCurrentEncodedSizeUnsafe, head]
  rfl

/-- What later bytes add to a length keeps the groups read before them. -/
private theorem lpDecodeBacklenLoop_ok
    (read : lpDecodeBacklenLoop lp rounds p value shift = .ok result) (small : value < 2 ^ shift) :
    result = uint64Max ∨ result % 2 ^ shift = value ∧ result < 2 ^ (shift + 7 * rounds) := by
  induction rounds generalizing p value shift with
  | zero =>
    cases read
    exact .inl rfl
  | succ rounds ih =>
    simp only [lpDecodeBacklenLoop, exec_bind_ok] at read
    obtain ⟨byte, -, read⟩ := read
    have group : (byte &&& 127).toNat < 128 := by
      rw [UInt8.toNat_and]
      exact lt_of_le_of_lt Nat.and_le_right (by decide)
    rw [shiftLeft_or _ small] at read
    have wider : value + (byte &&& 127).toNat * 2 ^ shift < 2 ^ (shift + 7) := by
      rw [Nat.pow_add]
      nlinarith
    have keeps : (value + (byte &&& 127).toNat * 2 ^ shift) % 2 ^ shift = value := by
      rw [Nat.add_mul_mod_self_right, Nat.mod_eq_of_lt small]
    split at read
    · cases read
      refine .inr ⟨keeps, lt_of_lt_of_le wider ?_⟩
      exact Nat.pow_le_pow_right (by decide) (by omega)
    · split at read
      · cases read
        exact .inl rfl
      · split at read
        · cases read
        · rcases ih read wider with malformed | ⟨low, bound⟩
          · exact .inl malformed
          · refine .inr ⟨?_, by rwa [show shift + 7 * (rounds + 1) = shift + 7 + 7 * rounds by ring]⟩
            rw [← keeps, ← low, Nat.mod_mod_of_dvd _ (pow_dvd_pow 2 (Nat.le_add_right _ _))]

/-- A well-formed length ends with the seven bits of the byte it is read from. -/
theorem lpDecodeBacklen_ok (read : lpDecodeBacklen lp p = .ok result) :
    ∃ byte, readByte lp p = .ok byte ∧
      (result = uint64Max ∨ result % 128 = (byte &&& 127).toNat ∧ result < 2 ^ 35) := by
  rw [lpDecodeBacklen, lpDecodeBacklenLoop, exec_bind_ok] at read
  obtain ⟨byte, head, read⟩ := read
  refine ⟨byte, head, ?_⟩
  have group : (byte &&& 127).toNat < 128 := by
    rw [UInt8.toNat_and]
    exact lt_of_le_of_lt Nat.and_le_right (by decide)
  simp only [Nat.shiftLeft_zero, Nat.or_zero, Nat.zero_add] at read
  split at read
  · cases read
    exact .inr ⟨Nat.mod_eq_of_lt group, by omega⟩
  · rw [if_neg (by decide)] at read
    split at read
    · cases read
    · rcases lpDecodeBacklenLoop_ok read group with malformed | ⟨low, bound⟩
      · exact .inl malformed
      · exact .inr ⟨low, bound⟩

/-- The entry at `p` ends in front of `q`: header and payload have the size
the header announces, and the length behind them leads back to `p`. -/
structure Tile (lp : Bytes) (p size q : Nat) : Prop where
  head : ∃ byte, readByte lp p = .ok byte ∧ byte ≠ lpEof
  announced : lpCurrentEncodedSizeUnsafe lp p = .ok size
  /-- The announced size of a long string is its length, not cut to 32 bits. -/
  unwrapped : ∀ byte length, readByte lp p = .ok byte → lpEncodingIs32BitStr byte = true →
    lpEncoding32BitStrLen lp p = .ok length → size = 5 + length
  ends : q = p + (size + lpEncodeBacklenBytes size)
  backlen : lpDecodeBacklen lp (q - 1) = .ok size
  inside : lpHeaderSize ≤ p ∧ q < lp.length
  valid : lpValidateNext lp lp.length (some p) = .ok (true, some q)

/-- Entries at these offsets, each directly behind the one before it, from
`p` up to `stop`. -/
inductive Tiled (lp : Bytes) (stop : Nat) : Nat → List Nat → Prop where
  | nil : Tiled lp stop stop []
  | cons (tile : Tile lp p size q) (rest : Tiled lp stop q entries) :
      Tiled lp stop p (p :: entries)

private theorem inRange_ok (inRange : ¬ isOutOfRange total p = true) :
    lpHeaderSize ≤ p ∧ p ≤ total - 1 := by
  simpa [isOutOfRange] using inRange

/-- A size that wrapped leaves at most four, and then the byte in front of
the next entry is one of the long string's header, whose low bits differ. -/
private theorem size_unwrapped {byte : UInt8} (head : readByte lp p = .ok byte)
    (string : lpEncodingIs32BitStr byte = true)
    (announced : lpCurrentEncodedSizeUnsafe lp p = .ok size)
    (backlen : lpDecodeBacklen lp (p + (size + lpEncodeBacklenBytes size) - 1) = .ok size)
    (read : lpEncoding32BitStrLen lp p = .ok length) : size = 5 + length := by
  obtain ⟨rfl, sized⟩ := lpCurrentEncodedSizeUnsafe_32 head string
  obtain ⟨b1, b2, b3, b4, read1, read2, read3, read4, value⟩ := lpEncoding32BitStrLen_ok read
  rw [sized, read] at announced
  have cut : size = (5 + length) % 2 ^ 32 := (Except.ok.inj announced).symm
  have small1 := b1.toNat_lt
  have small2 := b2.toNat_lt
  have small3 := b3.toNat_lt
  have small4 := b4.toNat_lt
  by_contra wrapped
  have tiny : size ≤ 4 := by omega
  have one : lpEncodeBacklenBytes size = 1 := if_pos (by omega)
  rw [one, show p + (size + 1) - 1 = p + size by omega] at backlen
  obtain ⟨last, lastRead, malformed | ⟨low, -⟩⟩ := lpDecodeBacklen_ok backlen
  · unfold uint64Max at malformed
    omega
  · rw [UInt8.toNat_and, show (127 : UInt8).toNat = 2 ^ 7 - 1 from rfl,
      Nat.and_two_pow_sub_one_eq_mod] at low
    interval_cases size
    · rw [Nat.add_zero, head] at lastRead
      cases lastRead
      exact absurd low (by decide)
    · rw [read1] at lastRead
      cases lastRead
      omega
    · rw [read2] at lastRead
      cases lastRead
      omega
    · rw [read3] at lastRead
      cases lastRead
      omega
    · rw [read4] at lastRead
      cases lastRead
      omega

/-- An accepted entry that is not the end marker is a tile. -/
theorem lpValidateNext_tile {byte : UInt8}
    (valid : lpValidateNext lp lp.length (some p) = .ok (true, next))
    (head : readByte lp p = .ok byte) (notEnd : byte ≠ lpEof) :
    ∃ size q, next = some q ∧ Tile lp p size q := by
  have accepted := valid
  simp only [lpValidateNext] at valid
  split at valid
  · cases valid
  rename_i start
  rw [head, exec_ok_bind, if_neg (by simpa using notEnd), exec_bind_ok] at valid
  obtain ⟨lenbytes, -, valid⟩ := valid
  split at valid
  · cases valid
  split at valid
  · cases valid
  obtain ⟨size, announced, valid⟩ := exec_bind_ok.mp valid
  split at valid
  · cases valid
  rename_i stop
  obtain ⟨prevbacklen, decoded, valid⟩ := exec_bind_ok.mp valid
  split at valid
  · cases valid
  rename_i agrees
  cases valid
  have small := lpCurrentEncodedSizeUnsafe_lt announced
  have width := lpEncodeBacklenBytes_le size
  have same : prevbacklen = size := by
    obtain ⟨last, -, malformed | ⟨-, bound⟩⟩ := lpDecodeBacklen_ok decoded
    · unfold u64 at agrees
      unfold uint64Max at malformed
      omega
    · unfold u64 at agrees
      omega
  subst same
  have low := (inRange_ok start).1
  have high := (inRange_ok stop).2
  refine ⟨prevbacklen, _, rfl, ⟨byte, head, notEnd⟩, announced, ?_, rfl, decoded, ⟨low, ?_⟩, accepted⟩
  · intro byte length head string read
    exact size_unwrapped head string announced decoded read
  · have : lp ≠ [] := by
      rintro rfl
      cases head
    have := List.length_pos_iff.mpr this
    omega

theorem Tile.lt (tile : Tile lp p size q) : p < q := by
  have positive := lpEncodeBacklenBytes_pos size
  rw [tile.ends]
  omega

theorem Tiled.length_le (tiled : Tiled lp stop p entries) : p + entries.length ≤ stop := by
  induction tiled with
  | nil => exact le_refl _
  | cons tile _ ih =>
    have := tile.lt
    rw [List.length_cons]
    omega

/-- The last entry of a tiled stretch, taken off. -/
theorem Tiled.unsnoc (tiled : Tiled lp stop p (entries ++ [last])) :
    ∃ size, Tile lp last size stop ∧ Tiled lp last p entries := by
  induction entries generalizing p with
  | nil =>
    cases tiled with
    | cons tile rest =>
      cases rest
      exact ⟨_, tile, .nil⟩
  | cons first entries ih =>
    cases tiled with
    | cons tile rest =>
      obtain ⟨size, lastTile, others⟩ := ih rest
      exact ⟨size, lastTile, .cons tile others⟩

/-- The loop of the validator stops at the end marker behind a tiled stretch
and has counted its entries. -/
theorem lpValidateEntries_tiled (small : count < 2 ^ 32)
    (walked : lpValidateEntries lp lp.length rounds (some p) count = .ok (some (stop, counted))) :
    ∃ q entries, stop = some q ∧ readByte lp q = .ok lpEof ∧ Tiled lp q p entries ∧
      counted = u32 (count + entries.length) := by
  induction rounds generalizing p count with
  | zero => cases walked
  | succ rounds ih =>
    simp only [lpValidateEntries, exec_bind_ok] at walked
    obtain ⟨byte, head, walked⟩ := walked
    split at walked
    · rename_i atEnd
      cases walked
      rw [beq_iff_eq.mp atEnd] at head
      exact ⟨p, [], rfl, head, .nil, (u32_of_lt small).symm⟩
    · rename_i notEnd
      obtain ⟨⟨verdict, next⟩, valid, walked⟩ := exec_bind_ok.mp walked
      dsimp only at walked
      split at walked
      · rename_i accepted
        rw [accepted] at valid
        obtain ⟨size, q, rfl, tile⟩ := lpValidateNext_tile valid head (by simpa using notEnd)
        obtain ⟨stop, entries, rfl, ending, tiled, total⟩ := ih (Nat.mod_lt _ (by decide)) walked
        refine ⟨stop, p :: entries, rfl, ending, .cons tile tiled, ?_⟩
        rw [total, List.length_cons]
        unfold u32
        omega
      · cases walked

/-! ## The walks -/

section Walks
variable (sized : lpGetTotalBytes lp = .ok lp.length)
include sized

private theorem Tile.lpPrev (tile : Tile lp p size q) (ndebug : Bool) :
    lpPrev ndebug lp (some q) = .ok (some p) := by
  have small := lpCurrentEncodedSizeUnsafe_lt tile.announced
  have width := lpEncodeBacklenBytes_le size
  have positive := lpEncodeBacklenBytes_pos size
  have start := tile.inside.1
  have place := tile.ends
  have whole : u64 (size + lpEncodeBacklenBytes size) = size + lpEncodeBacklenBytes size :=
    u64_of_lt (by omega)
  have back : q - (size + lpEncodeBacklenBytes size) = p := by omega
  have notFirst : ¬ q = lpHeaderSize := by omega
  have notNull : ¬ q = 0 := by omega
  have room : ¬ q < size + lpEncodeBacklenBytes size := by omega
  have valid : lpAssertValidEntry ndebug lp lp.length p = .ok () := by
    rw [lpAssertValidEntry, tile.valid]
    exact cassert_true ndebug
  simp only [Listpack.lpPrev, notFirst, notNull, tile.backlen, whole, room, back, sized, valid,
    exec_ok_bind, exec_pure, ↓reduceIte]

/-- The pointer behind a tile is the next tile's, or null at the end marker. -/
private theorem Tile.lpNext (tile : Tile lp p size q) (rest : Tiled lp stop q entries)
    (ending : readByte lp stop = .ok lpEof) (ndebug : Bool) :
    lpNext ndebug lp (some p) = .ok entries.head? := by
  have skipped : lpSkip lp p = .ok q := by
    rw [lpSkip, tile.announced, tile.ends]
    rfl
  have inRange : isOutOfRange lp.length q = false := by
    have := tile.lt
    have := tile.inside
    simp only [isOutOfRange, Bool.or_eq_false_iff, decide_eq_false_iff_not]
    omega
  simp only [Listpack.lpNext, skipped, sized, inRange, exec_ok_bind, Bool.false_eq_true, ↓reduceIte]
  cases rest with
  | nil => simp [ending]
  | cons next rest =>
    obtain ⟨byte, head, notEnd⟩ := next.head
    simp [head, notEnd, lpAssertValidEntry, next.valid]

theorem Tiled.chained_next (tiled : Tiled lp stop p entries)
    (ending : readByte lp stop = .ok lpEof) (ndebug : Bool) :
    Chained (fun p => Listpack.lpNext ndebug lp (some p)) entries := by
  induction tiled with
  | nil => trivial
  | cons tile rest ih => exact ⟨tile.lpNext sized rest ending ndebug, ih⟩

/-- Backward from the end of a stretch that starts at the header. -/
theorem Tiled.chained_prev (tiled : Tiled lp stop lpHeaderSize entries) (ndebug : Bool) :
    Listpack.lpPrev ndebug lp (some stop) = .ok entries.reverse.head? ∧
      Chained (fun p => Listpack.lpPrev ndebug lp (some p)) entries.reverse := by
  induction entries using List.reverseRecOn generalizing stop with
  | nil =>
    cases tiled
    exact ⟨rfl, trivial⟩
  | append_singleton entries last ih =>
    obtain ⟨size, tile, others⟩ := tiled.unsnoc
    rw [List.reverse_concat]
    exact ⟨tile.lpPrev sized ndebug, ih others⟩

theorem Tiled.lpFirst (tiled : Tiled lp stop lpHeaderSize entries)
    (ending : readByte lp stop = .ok lpEof) (ndebug : Bool) :
    Listpack.lpFirst ndebug lp = .ok entries.head? := by
  cases tiled with
  | nil => simp [Listpack.lpFirst, ending]
  | cons tile rest =>
    obtain ⟨byte, head, notEnd⟩ := tile.head
    simp [Listpack.lpFirst, head, notEnd, sized, lpAssertValidEntry, tile.valid]

end Walks

/-- What the validator has checked of the buffer as a whole. -/
private theorem lpValidateIntegrity_ok (accepted : lpValidateIntegrity lp lp.length true = .ok true) :
    lpHeaderSize < lp.length ∧ lpGetTotalBytes lp = .ok lp.length ∧
      readByte lp (lp.length - 1) = .ok lpEof ∧
      ∃ numelement count, lpGetTotalNumElements lp = .ok numelement ∧
        lpValidateEntries lp lp.length lp.length (some lpHeaderSize) 0 =
          .ok (some (some (lp.length - 1), count)) ∧
        (numelement = lpHdrNumeleUnknown ∨ numelement = count) := by
  unfold lpValidateIntegrity at accepted
  split at accepted
  · cases accepted
  rename_i room
  obtain ⟨total, sized, accepted⟩ := exec_bind_ok.mp accepted
  split at accepted
  · cases accepted
  rename_i whole
  obtain rfl : total = lp.length := not_not.mp whole
  obtain ⟨last, ending, accepted⟩ := exec_bind_ok.mp accepted
  split at accepted
  · cases accepted
  rename_i atEnd
  obtain rfl : last = lpEof := not_not.mp atEnd
  rw [if_neg (by decide)] at accepted
  obtain ⟨numelement, counted, accepted⟩ := exec_bind_ok.mp accepted
  obtain ⟨outcome, walked, accepted⟩ := exec_bind_ok.mp accepted
  split at accepted
  · cases accepted
  split at accepted
  · cases accepted
  rename_i place
  split at accepted
  · cases accepted
  rename_i agrees
  rw [not_not.mp place] at walked
  refine ⟨by omega, sized, ending, numelement, _, counted, walked, ?_⟩
  by_contra neither
  exact agrees (not_or.mp neither)

private theorem lpGetTotalBytes_lt (sized : lpGetTotalBytes lp = .ok total) : total < 2 ^ 32 := by
  rw [lpGetTotalBytes] at sized
  obtain ⟨b0, -, sized⟩ := exec_bind_ok.mp sized
  obtain ⟨b1, -, sized⟩ := exec_bind_ok.mp sized
  obtain ⟨b2, -, sized⟩ := exec_bind_ok.mp sized
  obtain ⟨b3, -, sized⟩ := exec_bind_ok.mp sized
  rw [exec_pure, le32_eq b0.toNat_lt b1.toNat_lt b2.toNat_lt] at sized
  cases sized
  have := b0.toNat_lt
  have := b1.toNat_lt
  have := b2.toNat_lt
  have := b3.toNat_lt
  omega

/-- A buffer the deep check accepts is filled by entries from its header to
its end marker. Both walks stay inside it and visit exactly these entries,
each in its own order, and the header counts them unless it is unknown. -/
theorem lpValidateIntegrity_sound (accepted : lpValidateIntegrity lp lp.length true = .ok true) :
    ∃ entries count, Tiled lp (lp.length - 1) lpHeaderSize entries ∧
      readByte lp (lp.length - 1) = .ok lpEof ∧
      (∀ ndebug, forwardWalk ndebug lp = .ok entries ∧
        backwardWalk ndebug lp = .ok entries.reverse) ∧
      lpGetTotalNumElements lp = .ok count ∧
      (count = lpHdrNumeleUnknown ∨ count = entries.length) := by
  obtain ⟨room, sized, ending, numelement, count, counted, walked, agrees⟩ :=
    lpValidateIntegrity_ok accepted
  obtain ⟨stop, entries, same, -, tiled, total⟩ := lpValidateEntries_tiled (by decide) walked
  cases same
  have short := tiled.length_le
  have small := lpGetTotalBytes_lt sized
  have number : count = entries.length := by
    rw [total, Nat.zero_add]
    exact u32_of_lt (by omega)
  refine ⟨entries, numelement, tiled, ending, fun ndebug => ⟨?_, ?_⟩, counted, number ▸ agrees⟩
  · have chained := tiled.chained_next sized ending ndebug
    rw [forwardWalk, tiled.lpFirst sized ending ndebug, exec_ok_bind]
    exact visited_chained chained (by omega) _
  · obtain ⟨last, chained⟩ := tiled.chained_prev sized ndebug
    have nonempty : ¬ lp.length = 0 := by omega
    rw [backwardWalk, lpLast, sized, exec_ok_bind, if_neg nonempty, last, exec_ok_bind]
    exact visited_chained chained (by rw [List.length_reverse]; omega) _

/-- An unknown count, and a length whose continuation runs into the payload. -/
theorem lpValidateIntegrity_sound_continued :
    ∃ entries count,
      Tiled [12, 0, 0, 0, 255, 255, 0x81, 0, 0x82, 3, 1, 0xFF] 11 lpHeaderSize entries ∧
      readByte [12, 0, 0, 0, 255, 255, 0x81, 0, 0x82, 3, 1, 0xFF] 11 = .ok lpEof ∧
      (∀ ndebug,
        forwardWalk ndebug [12, 0, 0, 0, 255, 255, 0x81, 0, 0x82, 3, 1, 0xFF] = .ok entries ∧
        backwardWalk ndebug [12, 0, 0, 0, 255, 255, 0x81, 0, 0x82, 3, 1, 0xFF] =
          .ok entries.reverse) ∧
      lpGetTotalNumElements [12, 0, 0, 0, 255, 255, 0x81, 0, 0x82, 3, 1, 0xFF] = .ok count ∧
      (count = lpHdrNumeleUnknown ∨ count = entries.length) :=
  lpValidateIntegrity_sound (by decide)

/-! ## Indexing -/

/-- The place that a signed index names in a list of this length; a negative
index counts from the end. -/
def denoted (length : Nat) (index : Int) : Option Nat :=
  let i := if index < 0 then length + index else index
  if 0 ≤ i ∧ i < length then some i.toNat else none

/-- The listpack is indexed as the list is. Seeking an index gives the entry
at the place it names, or null when it names none; each entry reads as the
element there; and a step forward and a step back lead between neighbours. -/
structure Indexed (lp : Bytes) (xs : List Bytes) : Prop where
  seek : ∀ index : Int, lpSeek true lp index =
    match denoted xs.length index with
    | some i => entryPointer lp i
    | none => .ok none
  entry : ∀ i x, xs[i]? = some x → ∃ p element, entryPointer lp i = .ok (some p) ∧
    lpGetWithSize lp p = .ok element ∧ elementText lp element = .ok x
  adjacent : ∀ i p q, entryPointer lp i = .ok (some p) → entryPointer lp (i + 1) = .ok (some q) →
    lpNext true lp (some p) = .ok (some q) ∧ lpPrev true lp (some q) = .ok (some p)

private theorem seekPointer_denoted (xs : List Bytes) (index : Int) :
    seekPointer xs index = (denoted xs.length index).bind (pointer xs) := by
  unfold seekPointer denoted
  dsimp only
  generalize (if index < 0 then (xs.length : Int) + index else index) = i
  by_cases low : 0 ≤ i
  · by_cases high : i < xs.length
    · rw [if_pos low, if_pos ⟨low, high⟩, Option.bind_some]
    · rw [if_pos low, if_neg (by simp [high]), pointer, if_neg (by omega), Option.bind_none]
  · rw [if_neg low, if_neg (by simp [low]), Option.bind_none]

theorem indexed_of_layout (formed : Layout lp xs) : Indexed lp xs := by
  have checked : ∀ x ∈ xs, Checked true x := fun _ _ => .inl rfl
  have place : ∀ {i p}, entryPointer lp i = .ok (some p) → i < xs.length ∧ p = offset xs i := by
    intro i p found
    rw [entryPointer_layout formed, pointer] at found
    split at found
    · cases found
      exact ⟨‹_›, rfl⟩
    · cases found
  constructor
  · intro index
    rw [lpSeek_layout formed checked, seekPointer_denoted]
    cases denoted xs.length index with
    | none => rfl
    | some i => exact (entryPointer_layout formed i).symm
  · intro i x here
    obtain ⟨inside, rfl⟩ := List.getElem?_eq_some_iff.mp here
    obtain ⟨element, read, text, -⟩ :=
      lpGetWithSize_payload (layout_payload formed inside) (layout_small formed inside).1
    refine ⟨offset xs i, element, ?_, read, text⟩
    rw [entryPointer_layout formed, pointer, if_pos inside]
  · intro i p q here there
    obtain ⟨inside, rfl⟩ := place here
    obtain ⟨inside', rfl⟩ := place there
    refine ⟨?_, lpPrev_layout formed inside (.inl rfl)⟩
    rw [lpNext_layout formed inside checked, pointer, if_pos inside']

/-- What a run of updates leaves is indexed as the list of the same run, from
either end and whether or not the header still counts it. -/
theorem runNew_indexed (capacity : Nat) (legal : listFrom [] none ops = some (xs, target)) :
    ∃ lp newp, runNew true capacity ops = .ok (some (lp, newp)) ∧ Indexed lp xs := by
  obtain ⟨lp, ran, formed⟩ := runNew_layout capacity legal
  exact ⟨lp, _, ran, indexed_of_layout formed⟩

theorem runNew_indexed_mixed :
    ∃ lp newp, runNew true 0 [.append (ascii "ab"), .prepend (ascii "12"), .insert [] 0 .after,
        .delete 0] = .ok (some (lp, newp)) ∧ Indexed lp [[], ascii "ab"] :=
  runNew_indexed 0 (by decide : _ = some (_, some 0))

end CarrotDb.Listpack
