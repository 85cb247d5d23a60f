import CarrotDb.Stream
import CarrotDb.RadixTreeProofs
import CarrotDb.BulkSequences

/-! A stream is a log of entries under strictly increasing identifiers. The
binary keys order the entries as the identifiers do, so a range search reads
off the part of the log between two identifiers, and the stored payloads
parse back to the fields they were made of. -/
namespace CarrotDb
open Decimal Resp RadixTree SortedMap PrefixOrder

/-- Both numbers fit the fields of the source. -/
def StreamID.Fits (id : StreamID) : Prop := id.ms < 2 ^ 64 ∧ id.seq < 2 ^ 64

/-- The greatest identifier. -/
def StreamID.greatest : StreamID := ⟨2 ^ 64 - 1, 2 ^ 64 - 1⟩

/-- Milliseconds decide, then sequence numbers. -/
def StreamID.Le (a b : StreamID) : Prop := a.ms < b.ms ∨ a.ms = b.ms ∧ a.seq ≤ b.seq

instance : DecidableRel StreamID.Le := fun a b =>
  inferInstanceAs (Decidable (a.ms < b.ms ∨ a.ms = b.ms ∧ a.seq ≤ b.seq))

/-- Identifiers in their strict order, as `isGreater` decides it. -/
def StreamID.Lt (a b : StreamID) : Prop := b.isGreater a = true

theorem StreamID.eq_zero_iff (id : StreamID) : id = ⟨0, 0⟩ ↔ id.ms = 0 ∧ id.seq = 0 := by
  cases id
  simp

theorem StreamID.lt_iff (a b : StreamID) :
    StreamID.Lt a b ↔ a.ms < b.ms ∨ a.ms = b.ms ∧ a.seq < b.seq := by
  unfold StreamID.Lt StreamID.isGreater
  split
  · simp; omega
  · split
    · simp; omega
    · simp; omega

theorem bigEndian_length (n : Nat) : (bigEndian n).length = 8 := rfl

private theorem foldl_bytes (start : Nat) (bytes : Bytes) :
    bytes.foldl (fun n byte => n * 256 + byte.toNat) start =
      start * 256 ^ bytes.length + ofBigEndian bytes := by
  induction bytes generalizing start with
  | nil => simp [ofBigEndian]
  | cons byte rest ih =>
    simp only [ofBigEndian, List.foldl_cons, List.length_cons]
    rw [ih, ih (0 * 256 + byte.toNat)]
    ring

private theorem ofBigEndian_cons (byte : UInt8) (rest : Bytes) :
    ofBigEndian (byte :: rest) = byte.toNat * 256 ^ rest.length + ofBigEndian rest := by
  rw [ofBigEndian, List.foldl_cons, foldl_bytes]
  simp

private theorem ofBigEndian_lt (bytes : Bytes) : ofBigEndian bytes < 256 ^ bytes.length := by
  induction bytes with
  | nil => decide
  | cons byte rest ih =>
    have small := byte.toNat_lt
    rw [ofBigEndian_cons, List.length_cons, pow_succ]
    nlinarith

/-- Big-endian bytes of one length compare as their numbers do. -/
theorem ofBigEndian_lt_iff {a b : Bytes} (size : a.length = b.length) :
    a < b ↔ ofBigEndian a < ofBigEndian b := by
  induction a generalizing b with
  | nil =>
    obtain rfl := List.length_eq_zero_iff.mp size.symm
    simp [ofBigEndian]
  | cons x a ih =>
    cases b with
    | nil => cases size
    | cons y b =>
      have size : a.length = b.length := Nat.succ.inj size
      have low := ofBigEndian_lt a
      have high := ofBigEndian_lt b
      rw [List.cons_lt_cons_iff, ih size, ofBigEndian_cons, ofBigEndian_cons, ← size]
      rw [← size] at high
      rcases lt_trichotomy x y with less | rfl | greater
      · have strict := UInt8.lt_iff_toNat_lt.mp less
        refine iff_of_true (.inl less) ?_
        nlinarith
      · simp
      · have strict := UInt8.lt_iff_toNat_lt.mp greater
        refine iff_of_false ?_ ?_
        · rintro (less | ⟨rfl, -⟩)
          · exact lt_asymm less greater
          · exact lt_irrefl _ greater
        · nlinarith

theorem ofBigEndian_bigEndian {n : Nat} (small : n < 2 ^ 64) : ofBigEndian (bigEndian n) = n := by
  simp only [bigEndian, ofBigEndian, List.map_cons, List.map_nil, List.foldl_cons, List.foldl_nil,
    UInt8.toNat_ofNat', Nat.mod_mod]
  omega

private theorem ofBigEndian_append (a b : Bytes) :
    ofBigEndian (a ++ b) = ofBigEndian a * 256 ^ b.length + ofBigEndian b := by
  rw [ofBigEndian, List.foldl_append, foldl_bytes]
  rfl

private theorem toBinary_number {id : StreamID} (fits : id.Fits) :
    ofBigEndian id.toBinary = id.ms * 2 ^ 64 + id.seq := by
  rw [StreamID.toBinary, ofBigEndian_append, ofBigEndian_bigEndian fits.1,
    ofBigEndian_bigEndian fits.2, bigEndian_length, show 256 ^ 8 = 2 ^ 64 by norm_num]

/-- The keys of the tree compare as the identifiers do. -/
theorem toBinary_lt_iff {a b : StreamID} (fitsA : a.Fits) (fitsB : b.Fits) :
    a.toBinary < b.toBinary ↔ StreamID.Lt a b := by
  have left := fitsA.2
  have right := fitsB.2
  have size : a.toBinary.length = b.toBinary.length := rfl
  rw [ofBigEndian_lt_iff size, toBinary_number fitsA, toBinary_number fitsB, StreamID.lt_iff]
  omega

theorem toBinary_le_iff {a b : StreamID} (fitsA : a.Fits) (fitsB : b.Fits) :
    a.toBinary ≤ b.toBinary ↔ StreamID.Le a b := by
  rw [← not_lt, toBinary_lt_iff fitsB fitsA, StreamID.lt_iff, StreamID.Le]
  omega

theorem fromBinary_toBinary {id : StreamID} (fits : id.Fits) :
    StreamID.fromBinary id.toBinary = .ok id := by
  have size : 16 ≤ id.toBinary.length := Nat.le_refl 16
  have first : id.toBinary.take 8 = bigEndian id.ms := rfl
  have second : (id.toBinary.drop 8).take 8 = bigEndian id.seq := rfl
  rw [StreamID.fromBinary, if_pos size, first, second, ofBigEndian_bigEndian fits.1,
    ofBigEndian_bigEndian fits.2]

/-- The entries a stream accepted, in order: identifiers and payloads. -/
abbrev Log := List (StreamID × Bytes)

/-- What the tree stores for a log. -/
def Log.pairs (log : Log) : List (Bytes × Bytes) :=
  log.map fun entry => (entry.1.toBinary, entry.2)

/-- A stream holds a log: the identifiers increase from above 0-0 to the last
one inserted, and the tree stores just the entries. -/
structure Stream.Logs (stream : Stream) (log : Log) : Prop where
  fits : ∀ entry ∈ log, entry.1.Fits
  positive : ∀ entry ∈ log, entry.1 ≠ ⟨0, 0⟩
  lastFits : stream.lastInsertStreamID.Fits
  increasing : log.Pairwise fun a b => StreamID.Lt a.1 b.1
  bounded : ∀ entry ∈ log, StreamID.Le entry.1 stream.lastInsertStreamID
  fresh : stream.radixTreePtr = none → log = [] ∧ stream.lastInsertStreamID = ⟨0, 0⟩
  stored : ∀ root, stream.radixTreePtr = some root →
    log ≠ [] ∧ stream.lastInsertStreamID ≠ ⟨0, 0⟩ ∧ Valid root ∧ entries root [] = log.pairs

theorem new_logs : Stream.new.Logs [] where
  fits := fun _ member => absurd member List.not_mem_nil
  positive := fun _ member => absurd member List.not_mem_nil
  lastFits := ⟨Nat.two_pow_pos 64, Nat.two_pow_pos 64⟩
  increasing := List.Pairwise.nil
  bounded := fun _ member => absurd member List.not_mem_nil
  fresh := fun _ => ⟨rfl, rfl⟩
  stored := fun _ absent => nomatch absent

theorem convertPositiveFrom_lt {s : Bytes} {number : Nat} (small : number < 2 ^ 64) :
    (convertPositiveFrom s number).2 < 2 ^ 64 := by
  induction s generalizing number with
  | nil => exact small
  | cons x rest ih =>
    rw [convertPositiveFrom]
    split
    · exact ih (Nat.mod_lt _ (by decide))
    · exact small

theorem convertPositiveStringToNumber_lt {s : Bytes} {verdict : Bool} {value : Nat}
    (read : convertPositiveStringToNumber s = (verdict, value)) : value < 2 ^ 64 := by
  have bound := @convertPositiveFrom_lt s 0 (by decide)
  rwa [show convertPositiveFrom s 0 = (verdict, value) from read] at bound

theorem fromString_fits {stream : Stream} {systemMs : Nat} {str : Bytes} {id : StreamID}
    (read : stream.fromString systemMs str = some id) : id.Fits := by
  unfold Stream.fromString at read
  split at read
  · cases read
    refine ⟨Nat.mod_lt _ (by decide), ?_⟩
    dsimp only
    split <;> decide
  · split at read
    · cases read
    · rename_i msStr seqStr _
      rcases msRead : convertPositiveStringToNumber msStr with ⟨_ | _, msVal⟩
      · rw [msRead] at read
        cases read
      · have msFits := convertPositiveStringToNumber_lt msRead
        rw [msRead] at read
        dsimp only at read
        split at read
        · split at read
          · cases read
            exact ⟨msFits, Nat.mod_lt _ (by decide)⟩
          · cases read
            exact ⟨msFits, Nat.two_pow_pos 64⟩
        · rcases seqRead : convertPositiveStringToNumber seqStr with ⟨_ | _, seqVal⟩
          · rw [seqRead] at read
            cases read
          · rw [seqRead] at read
            cases read
            exact ⟨msFits, convertPositiveStringToNumber_lt seqRead⟩

/-- An insertion either leaves the stream alone and reports why, or appends
one entry and reports its identifier. -/
theorem insert_logs {stream : Stream} {log : Log} (logs : stream.Logs log) (systemMs : Nat)
    (streamId value : Bytes) :
    (stream.insert systemMs streamId value).1 = stream ∧
      (stream.insert systemMs streamId value).2.error ≠ .ok ∨
    ∃ id, stream.fromString systemMs streamId = some id ∧
      (stream.insert systemMs streamId value).2 = ⟨.ok, id.toString⟩ ∧
      (stream.insert systemMs streamId value).1.Logs (log ++ [(id, value)]) := by
  unfold Stream.insert
  rcases read : stream.fromString systemMs streamId with _ | id
  · exact .inl ⟨rfl, nofun⟩
  have fits := fromString_fits read
  dsimp only
  split
  · exact .inl ⟨rfl, nofun⟩
  rename_i positive
  split
  · exact .inl ⟨rfl, nofun⟩
  rename_i accepted
  refine .inr ⟨id, rfl, rfl, ?_⟩
  have nonzero : id ≠ ⟨0, 0⟩ := fun zero => positive (id.eq_zero_iff.mp zero)
  have greater : StreamID.Lt stream.lastInsertStreamID id := by
    by_cases first : stream.lastInsertStreamID = ⟨0, 0⟩
    · rw [first, StreamID.lt_iff]
      dsimp only
      omega
    · by_contra refused
      rw [StreamID.eq_zero_iff] at first
      exact accepted ⟨by omega, by simpa [StreamID.Lt] using refused⟩
  have above : ∀ entry ∈ log, StreamID.Lt entry.1 id := by
    intro entry member
    have below := logs.bounded entry member
    rw [StreamID.lt_iff] at greater ⊢
    unfold StreamID.Le at below
    omega
  refine ⟨?_, ?_, fits, ?_, ?_, fun absent => (nomatch absent), ?_⟩
  · intro entry member
    rcases List.mem_append.mp member with old | new
    · exact logs.fits entry old
    · rw [List.mem_singleton.mp new]
      exact fits
  · intro entry member
    rcases List.mem_append.mp member with old | new
    · exact logs.positive entry old
    · rw [List.mem_singleton.mp new]
      exact nonzero
  · refine List.pairwise_append.mpr ⟨logs.increasing, List.pairwise_singleton _ _, ?_⟩
    intro entry member last new
    rw [List.mem_singleton.mp new]
    exact above entry member
  · intro entry member
    rcases List.mem_append.mp member with old | new
    · have below := (StreamID.lt_iff _ _).mp (above entry old)
      unfold StreamID.Le
      dsimp only
      omega
    · rw [List.mem_singleton.mp new]
      exact .inr ⟨rfl, Nat.le_refl _⟩
  · intro root shape
    obtain rfl := Option.some.inj shape
    refine ⟨by simp, nonzero, ?_⟩
    rcases held : stream.radixTreePtr with _ | old
    · obtain ⟨rfl, -⟩ := logs.fresh held
      exact insert_entries emptyNode trivial id.toBinary value
    · obtain ⟨-, -, valid, same⟩ := logs.stored old held
      obtain ⟨placed, below⟩ := insert_entries old valid id.toBinary value
      refine ⟨placed, ?_⟩
      rw [below, same, upsert_last]
      · simp [Log.pairs]
      · intro pair member
        obtain ⟨entry, inside, rfl⟩ := List.mem_map.mp member
        exact (toBinary_lt_iff (logs.fits entry inside) fits).mpr (above entry inside)

/-- The part of a log between two identifiers, both included. -/
def Log.between (log : Log) (low high : StreamID) : Log :=
  log.filter fun entry => StreamID.Le low entry.1 ∧ StreamID.Le entry.1 high

/-- A range search of a stream reads off the part of the log between the two
identifiers; it fails on a stream that never held an entry. -/
theorem xrangeData_logs {stream : Stream} {log : Log} (logs : stream.Logs log)
    {startText endText : Bytes} {low high : StreamID}
    (startRead : fromStringForSearch startText false = some low)
    (endRead : fromStringForSearch endText true = some high)
    (lowFits : low.Fits) (highFits : high.Fits) :
    stream.xrangeData startText endText false =
      if log = [] then none else some (log.between low high).pairs := by
  rw [Stream.xrangeData, startRead, endRead]
  dsimp only
  rcases held : stream.radixTreePtr with _ | root
  · rw [if_pos (logs.fresh held).1]
  · obtain ⟨nonempty, -, valid, same⟩ := logs.stored root held
    rw [if_neg nonempty]
    dsimp only
    rw [rangeSearch_eq root valid, same, Log.pairs, List.filter_map, Log.pairs, Log.between]
    congr 2
    refine List.filter_congr fun entry member => ?_
    have fits := logs.fits entry member
    simp only [Function.comp_apply, InRange, toBinary_le_iff lowFits fits,
      toBinary_le_iff fits highFits]
    simp

/-- A numeral below 2^64, leading zeros allowed. -/
def Numeral (text : Bytes) : Prop :=
  text ≠ [] ∧ (∀ byte ∈ text, isDigit byte = true) ∧ ofDecimal text < 2 ^ 64

/-- A bound of XRANGE as a client writes it. -/
inductive RangeBound where
  | least
  | greatest
  | full (ms seq : Bytes)
  | bare (ms : Bytes)

def RangeBound.text : RangeBound → Bytes
  | .least => ascii "-"
  | .greatest => ascii "+"
  | .full ms seq => ms ++ 45 :: seq
  | .bare ms => ms

def RangeBound.WellFormed : RangeBound → Prop
  | .least => True
  | .greatest => True
  | .full ms seq => Numeral ms ∧ Numeral seq
  | .bare ms => Numeral ms

/-- The identifier a bound stands for; bare milliseconds are completed to the
least or the greatest identifier that has them. -/
def RangeBound.id (isEndKey : Bool) : RangeBound → StreamID
  | .least => ⟨0, 0⟩
  | .greatest => ⟨2 ^ 64 - 1, 2 ^ 64 - 1⟩
  | .full ms seq => ⟨ofDecimal ms, ofDecimal seq⟩
  | .bare ms => ⟨ofDecimal ms, if isEndKey then 2 ^ 64 - 1 else 0⟩

theorem RangeBound.id_fits {bound : RangeBound} (formed : bound.WellFormed) (isEndKey : Bool) :
    (bound.id isEndKey).Fits := by
  cases bound with
  | least => exact ⟨Nat.two_pow_pos 64, Nat.two_pow_pos 64⟩
  | greatest => exact ⟨Nat.sub_lt (Nat.two_pow_pos 64) Nat.one_pos, Nat.sub_lt (Nat.two_pow_pos 64) Nat.one_pos⟩
  | full ms seq => exact ⟨formed.1.2.2, formed.2.2.2⟩
  | bare ms =>
    refine ⟨formed.2.2, ?_⟩
    dsimp only [RangeBound.id]
    split
    · exact Nat.sub_lt (Nat.two_pow_pos 64) Nat.one_pos
    · exact Nat.two_pow_pos 64

theorem convertPositiveStringToNumber_numeral {text : Bytes} (formed : Numeral text) :
    convertPositiveStringToNumber text = (true, ofDecimal text) := by
  rw [convertPositiveStringToNumber, convertPositiveFrom_digits formed.2.1,
    foldl_u64_ofDecimal formed.2.2]

theorem splitDash_cons {byte : UInt8} (other : byte ≠ 45) (rest : Bytes) :
    splitDash (byte :: rest) = (splitDash rest).map fun (ms, seq) => (byte :: ms, seq) := by
  rw [splitDash]
  simp [other]

theorem splitDash_found {ms : Bytes} (clean : 45 ∉ ms) (seq : Bytes) :
    splitDash (ms ++ 45 :: seq) = some (ms, seq) := by
  induction ms with
  | nil => rfl
  | cons byte ms ih =>
    rw [List.mem_cons, not_or] at clean
    rw [List.cons_append, splitDash_cons (Ne.symm clean.1), ih clean.2]
    rfl

private theorem splitDash_missing {ms : Bytes} (clean : 45 ∉ ms) : splitDash ms = none := by
  induction ms with
  | nil => rfl
  | cons byte ms ih =>
    rw [List.mem_cons, not_or] at clean
    rw [splitDash_cons (Ne.symm clean.1), ih clean.2]
    rfl

theorem Numeral.no_dash {text : Bytes} (formed : Numeral text) : 45 ∉ text :=
  fun member => absurd (formed.2.1 45 member) (by decide)

theorem numeral_toDecimal {n : Nat} (small : n < 2 ^ 64) : Numeral (toDecimal n) :=
  ⟨toDecimal_ne_nil n, toDecimal_digits n, by rwa [ofDecimal_toDecimal]⟩

/-- A text that starts with a digit is neither of the one-byte bounds. -/
private theorem Numeral.ne_bound {text : Bytes} (formed : Numeral text) (rest : Bytes)
    {byte : UInt8} (other : isDigit byte = false) : text ++ rest ≠ [byte] := by
  obtain ⟨first, tail, rfl⟩ := List.exists_cons_of_ne_nil formed.1
  intro same
  rw [List.cons_append, List.cons.injEq] at same
  have digit := formed.2.1 first List.mem_cons_self
  rw [same.1, other] at digit
  cases digit

private theorem fromStringForSearch_split {str msStr seqStr : Bytes} {isEndKey : Bool}
    (low : str ≠ ascii "-") (high : str ≠ ascii "+")
    (split : (splitDash str).getD
      (str, if isEndKey then toDecimal (2 ^ 64 - 1) else ascii "0") = (msStr, seqStr))
    (ms : Numeral msStr) (seq : Numeral seqStr) :
    fromStringForSearch str isEndKey = some ⟨ofDecimal msStr, ofDecimal seqStr⟩ := by
  rw [fromStringForSearch, if_neg low, if_neg high, split]
  dsimp only
  rw [convertPositiveStringToNumber_numeral ms]
  dsimp only
  rw [convertPositiveStringToNumber_numeral seq]

/-- A well-formed bound is read as the identifier it stands for. -/
theorem fromStringForSearch_bound {bound : RangeBound} (formed : bound.WellFormed)
    (isEndKey : Bool) : fromStringForSearch bound.text isEndKey = some (bound.id isEndKey) := by
  cases bound with
  | least => rfl
  | greatest => rfl
  | full ms seq =>
    refine fromStringForSearch_split (formed.1.ne_bound _ rfl) (formed.1.ne_bound _ rfl) ?_
      formed.1 formed.2
    rw [RangeBound.text, splitDash_found formed.1.no_dash]
    rfl
  | bare ms =>
    have low : ms ++ [] ≠ ascii "-" := Numeral.ne_bound formed _ rfl
    have high : ms ++ [] ≠ ascii "+" := Numeral.ne_bound formed _ rfl
    rw [List.append_nil] at low high
    have completed : Numeral (if isEndKey then toDecimal (2 ^ 64 - 1) else ascii "0") := by
      cases isEndKey with
      | false => exact ⟨by decide, List.all_eq_true.mp rfl, by decide⟩
      | true => exact @numeral_toDecimal (2 ^ 64 - 1) (by decide)
    have value : ofDecimal (if isEndKey then toDecimal (2 ^ 64 - 1) else ascii "0") =
        if isEndKey then 2 ^ 64 - 1 else 0 := by
      cases isEndKey with
      | false => rfl
      | true => exact ofDecimal_toDecimal (2 ^ 64 - 1)
    have split := splitDash_missing (Numeral.no_dash formed)
    refine (fromStringForSearch_split low high (by rw [split]; rfl) formed completed).trans ?_
    rw [value]
    rfl

/-! ## Payloads -/

/-- Stored strings are read back, whatever bytes they are made of. -/
theorem parseBulkStringSequence_items {items : List Bytes}
    (small : ∀ item ∈ items, item.length < 2 ^ 64) :
    parseBulkStringSequence (items.flatMap encodeBulkString) = (items, true) := by
  have enough : items.length ≤ (items.flatMap encodeBulkString).length := by
    clear small
    induction items with
    | nil => exact Nat.zero_le _
    | cons item rest ih =>
      rw [List.flatMap_cons, List.length_append, List.length_cons, encodeBulkString_length]
      omega
  rw [parseBulkStringSequence, parseBulkStringSequenceFrom_items small (Nat.lt_succ_of_le enough) rfl]
  rfl

end CarrotDb
