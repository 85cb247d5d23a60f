import CarrotDb.StreamProofs

/-! Identifiers of stream entries: those the server makes up for `*` and
`ms-*`, and those a client spells out. -/
namespace CarrotDb
open Decimal Resp

/-- One XADD to a stream: the clock it reads, in milliseconds, the text of its
identifier, and the payload. -/
structure Addition where
  systemMs : Nat
  streamId : Bytes
  value : Bytes

/-- The stream after an XADD, and what is reported of it. -/
def Stream.add (stream : Stream) (addition : Addition) : Stream × StreamStatus :=
  stream.insert addition.systemMs addition.streamId addition.value

/-- The addition goes through, under an identifier above the last one. -/
def Grows (stream : Stream) (addition : Addition) : Prop :=
  ∃ id, (stream.add addition).2 = ⟨.ok, id.toString⟩ ∧
    (stream.add addition).1.lastInsertStreamID = id ∧ StreamID.Lt stream.lastInsertStreamID id

/-- An identifier the server makes up, whole or from given milliseconds, goes
through wherever there is a greater one to make up. -/
structure Generates (stream : Stream) (addition : Addition) : Prop where
  whole : addition.streamId = ascii "*" →
    stream.lastInsertStreamID = .greatest ∨ Grows stream addition
  sequence : ∀ ms, addition.streamId = ms ++ ascii "-*" → Numeral ms →
    stream.lastInsertStreamID.ms ≤ ofDecimal ms →
    (stream.lastInsertStreamID.ms = ofDecimal ms → stream.lastInsertStreamID.seq + 1 < 2 ^ 64) →
    Grows stream addition

/-- A `*` finds the clock past the last identifier's milliseconds, or just at
them and the sequence number still 0. -/
def ClockAhead (stream : Stream) (addition : Addition) : Prop :=
  addition.streamId = ascii "*" →
    let last := stream.lastInsertStreamID
    last = .greatest ∨ last.ms < u64 addition.systemMs ∨
      last.ms = u64 addition.systemMs ∧ last.seq = 0

/-- An identifier goes through above the last one just when it is greater. -/
theorem grows_iff {stream : Stream} {addition : Addition} {sid : StreamID}
    (read : stream.fromString addition.systemMs addition.streamId = some sid) :
    Grows stream addition ↔ StreamID.Lt stream.lastInsertStreamID sid := by
  unfold Grows Stream.add Stream.insert
  rw [read]
  dsimp only
  constructor
  · rintro ⟨id, reported, stored, greater⟩
    split at reported
    · cases reported
    · rename_i positive
      rw [if_neg positive] at stored
      split at reported
      · cases reported
      · rename_i accepted
        rw [if_neg accepted] at stored
        cases stored
        exact greater
  · intro greater
    have positive : ¬ (sid.ms = 0 ∧ sid.seq = 0) := by
      have order := (StreamID.lt_iff _ _).mp greater
      omega
    have accepted : ¬ ((stream.lastInsertStreamID.ms ≠ 0 ∨ stream.lastInsertStreamID.seq ≠ 0) ∧
        sid.isGreater stream.lastInsertStreamID = false) := by
      rintro ⟨-, refused⟩
      rw [StreamID.Lt, refused] at greater
      cases greater
    rw [if_neg positive, if_neg accepted]
    exact ⟨sid, rfl, rfl, greater⟩

theorem fromString_star (stream : Stream) (systemMs : Nat) :
    stream.fromString systemMs (ascii "*") =
      some ⟨u64 systemMs, if stream.lastInsertStreamID.ms = u64 systemMs then 1 else 0⟩ := rfl

theorem fromString_sequence (stream : Stream) (systemMs : Nat) {ms : Bytes} (numeral : Numeral ms) :
    stream.fromString systemMs (ms ++ ascii "-*") =
      some ⟨ofDecimal ms, if stream.lastInsertStreamID.ms = ofDecimal ms then
        u64 (stream.lastInsertStreamID.seq + 1) else 0⟩ := by
  have longer : ms ++ ascii "-*" ≠ ascii "*" := by
    intro same
    have lengths := congrArg List.length same
    have nonempty := List.length_pos_iff.mpr numeral.1
    rw [List.length_append] at lengths
    simp [ascii] at lengths
  have parts : splitDash (ms ++ ascii "-*") = some (ms, ascii "*") :=
    splitDash_found numeral.no_dash (ascii "*")
  rw [Stream.fromString, if_neg longer, parts]
  dsimp only
  rw [convertPositiveStringToNumber_numeral numeral]
  dsimp only
  rw [if_pos rfl]
  split <;> rfl

/-- Given milliseconds always get a greater identifier where there is one. -/
theorem grows_sequence {stream : Stream} {addition : Addition} {ms : Bytes}
    (text : addition.streamId = ms ++ ascii "-*") (numeral : Numeral ms)
    (notBehind : stream.lastInsertStreamID.ms ≤ ofDecimal ms)
    (room : stream.lastInsertStreamID.ms = ofDecimal ms →
      stream.lastInsertStreamID.seq + 1 < 2 ^ 64) : Grows stream addition := by
  have read := fromString_sequence stream addition.systemMs numeral
  rw [← text] at read
  apply (grows_iff read).mpr
  rw [StreamID.lt_iff]
  dsimp only
  by_cases same : stream.lastInsertStreamID.ms = ofDecimal ms
  · rw [if_pos same, u64_of_lt (room same)]
    omega
  · rw [if_neg same]
    omega

/-- One XADD: a `*` gives a greater identifier just when the clock is ahead. -/
theorem generates_iff {stream : Stream} {addition : Addition} :
    Generates stream addition ↔ ClockAhead stream addition := by
  have star (text : addition.streamId = ascii "*") : Grows stream addition ↔
      stream.lastInsertStreamID.ms < u64 addition.systemMs ∨
        stream.lastInsertStreamID.ms = u64 addition.systemMs ∧ stream.lastInsertStreamID.seq = 0 := by
    have read := fromString_star stream addition.systemMs
    rw [← text] at read
    rw [grows_iff read, StreamID.lt_iff]
    dsimp only
    split <;> omega
  constructor
  · intro generates text
    exact (generates.whole text).imp_right (star text).mp
  · intro ahead
    refine ⟨fun text => (ahead text).imp_right (star text).mpr, ?_⟩
    intro ms text numeral notBehind room
    exact grows_sequence text numeral notBehind room

/-- A statement about every XADD of a run, each made to the stream that those
before it have left. -/
def Along (P : Stream → Addition → Prop) : Stream → List Addition → Prop
  | _, [] => True
  | stream, addition :: rest => P stream addition ∧ Along P (stream.add addition).1 rest

/-- In a run of XADDs to a new stream, every generated identifier goes through
just when every `*` finds the clock ahead of the identifiers before it. -/
theorem generates_along_iff (run : List Addition) :
    Along Generates Stream.new run ↔ Along ClockAhead Stream.new run := by
  generalize Stream.new = stream
  induction run generalizing stream with
  | nil => exact Iff.rfl
  | cons addition rest ih => exact and_congr generates_iff (ih _)

/-- The third entry of one millisecond is refused. -/
theorem generates_twice_only : ¬ ∀ run : List Addition,
    (∀ addition ∈ run, 1 ≤ u64 addition.systemMs) → Along Generates Stream.new run := by
  intro all
  have clock : ∀ addition ∈ List.replicate 3 (⟨1000, ascii "*", ascii "v"⟩ : Addition),
      1 ≤ u64 addition.systemMs := by decide
  obtain ⟨-, -, third, -⟩ := all _ clock
  rcases third.whole rfl with last | ⟨id, reported, -⟩
  · exact absurd last (by decide)
  · have refused : (Stream.add (((Stream.new.add ⟨1000, ascii "*", ascii "v"⟩).1).add
        ⟨1000, ascii "*", ascii "v"⟩).1 ⟨1000, ascii "*", ascii "v"⟩).2.error = .ok :=
      congrArg StreamStatus.error reported
    exact absurd refused (by decide)

/-! ## Identifiers spelled out -/

/-- A text is two numerals below 2^64 around a dash and is read as just these
numbers, which are what the stream then stores; or it is rejected and the
stream stays as it is. -/
def ReadsExactly (stream : Stream) (systemMs : Nat) (text : Bytes) : Prop :=
  (∃ ms seq, text = ms ++ 45 :: seq ∧ Numeral ms ∧ Numeral seq ∧
    stream.fromString systemMs text = some ⟨ofDecimal ms, ofDecimal seq⟩ ∧
    ∀ value, (stream.insert systemMs text value).2.error = .ok →
      (stream.insert systemMs text value).1.lastInsertStreamID = ⟨ofDecimal ms, ofDecimal seq⟩) ∨
  stream.fromString systemMs text = none ∧
    ∀ value, stream.insert systemMs text value = (stream, ⟨.invalidIdFormat, []⟩)

/-- Two runs of digits around a dash, of which one is empty or too great. -/
def Misshapen (text : Bytes) : Prop :=
  ∃ ms seq, text = ms ++ 45 :: seq ∧ (∀ byte ∈ ms ++ seq, isDigit byte = true) ∧
    (ms = [] ∨ seq = [] ∨ 2 ^ 64 ≤ ofDecimal ms ∨ 2 ^ 64 ≤ ofDecimal seq)

theorem splitDash_some {text ms seq : Bytes} (split : splitDash text = some (ms, seq)) :
    text = ms ++ 45 :: seq := by
  induction text generalizing ms with
  | nil => cases split
  | cons byte rest ih =>
    by_cases dash : byte = 45
    · subst dash
      cases split
      rfl
    · rw [splitDash_cons dash] at split
      obtain ⟨⟨front, back⟩, below, same⟩ := Option.map_eq_some_iff.mp split
      cases same
      rw [ih below]
      rfl

theorem convertPositiveFrom_true {text : Bytes} {number value : Nat}
    (read : convertPositiveFrom text number = (true, value)) : ∀ byte ∈ text, isDigit byte = true := by
  induction text generalizing number with
  | nil => exact fun _ absent => nomatch absent
  | cons byte rest ih =>
    rw [convertPositiveFrom] at read
    split at read
    · rename_i digit
      exact List.forall_mem_cons.mpr ⟨digit, ih read⟩
    · cases read

/-- What is read without a `*` is two runs of digits around a dash. -/
theorem fromString_explicit {stream : Stream} {systemMs : Nat} {text : Bytes} {id : StreamID}
    (clean : 42 ∉ text) (read : stream.fromString systemMs text = some id) :
    ∃ ms seq, text = ms ++ 45 :: seq ∧ (∀ byte ∈ ms ++ seq, isDigit byte = true) := by
  have whole : text ≠ ascii "*" := by
    rintro rfl
    exact clean (by decide)
  rw [Stream.fromString, if_neg whole] at read
  split at read
  · cases read
  · rename_i msStr seqStr split
    have parts := splitDash_some split
    refine ⟨msStr, seqStr, parts, ?_⟩
    have open_ : seqStr ≠ ascii "*" := by
      rintro rfl
      exact clean (parts ▸ List.mem_append_right _ (by decide))
    split at read
    · cases read
    · rename_i msVal msRead
      rw [if_neg open_] at read
      split at read
      · cases read
      · rename_i seqVal seqRead
        intro byte member
        rcases List.mem_append.mp member with front | back
        · exact convertPositiveFrom_true msRead byte front
        · exact convertPositiveFrom_true seqRead byte back

/-- Two runs of digits around a dash are always read. -/
theorem fromString_digits (stream : Stream) (systemMs : Nat) {ms seq : Bytes}
    (digits : ∀ byte ∈ ms ++ seq, isDigit byte = true) :
    stream.fromString systemMs (ms ++ 45 :: seq) =
      some ⟨(convertPositiveStringToNumber ms).2, (convertPositiveStringToNumber seq).2⟩ := by
  have msDigits : ∀ byte ∈ ms, isDigit byte = true :=
    fun byte member => digits byte (List.mem_append_left _ member)
  have seqDigits : ∀ byte ∈ seq, isDigit byte = true :=
    fun byte member => digits byte (List.mem_append_right _ member)
  have dashless : 45 ∉ ms := fun member => absurd (msDigits 45 member) (by decide)
  have starless : seq ≠ ascii "*" := by
    rintro rfl
    exact absurd (seqDigits 42 (by decide)) (by decide)
  have longer : ms ++ 45 :: seq ≠ ascii "*" := by
    intro same
    have dash : (45 : UInt8) ∈ ascii "*" := same ▸ List.mem_append_right _ List.mem_cons_self
    exact absurd dash (by decide)
  rw [Stream.fromString, if_neg longer, splitDash_found dashless]
  dsimp only
  rw [convertPositiveStringToNumber, convertPositiveFrom_digits msDigits]
  dsimp only
  rw [if_neg starless, convertPositiveStringToNumber, convertPositiveFrom_digits seqDigits]

/-- Two numerals around a dash are read as their values. -/
theorem fromString_numerals (stream : Stream) (systemMs : Nat) {ms seq : Bytes}
    (numeral : Numeral ms) (numeral' : Numeral seq) :
    stream.fromString systemMs (ms ++ 45 :: seq) = some ⟨ofDecimal ms, ofDecimal seq⟩ := by
  have digits : ∀ byte ∈ ms ++ seq, isDigit byte = true := by
    intro byte member
    rcases List.mem_append.mp member with front | back
    · exact numeral.2.1 byte front
    · exact numeral'.2.1 byte back
  rw [fromString_digits stream systemMs digits, convertPositiveStringToNumber_numeral numeral,
    convertPositiveStringToNumber_numeral numeral']

/-- A run of digits around one dash comes apart in one way. -/
private theorem digits_split {ms seq ms' seq' : Bytes} (same : ms ++ 45 :: seq = ms' ++ 45 :: seq')
    (dashless : 45 ∉ ms) (dashless' : 45 ∉ ms') : ms = ms' ∧ seq = seq' := by
  have split := splitDash_found dashless seq
  rw [same, splitDash_found dashless'] at split
  exact (Prod.mk.inj (Option.some.inj split)).imp Eq.symm Eq.symm

/-- Without a `*`, a text is read for exactly what it spells, just when it is
not two runs of digits of which one is empty or too great. -/
theorem fromString_exact_iff {stream : Stream} {systemMs : Nat} {text : Bytes} (clean : 42 ∉ text) :
    ReadsExactly stream systemMs text ↔ ¬ Misshapen text := by
  constructor
  · rintro reads ⟨ms, seq, rfl, digits, wrong⟩
    have dashless : 45 ∉ ms := fun member =>
      absurd (digits 45 (List.mem_append_left _ member)) (by decide)
    rcases reads with ⟨ms', seq', same, numeral, numeral', -⟩ | ⟨rejected, -⟩
    · obtain ⟨rfl, rfl⟩ := digits_split same dashless numeral.no_dash
      rcases wrong with empty | empty | large | large
      · exact numeral.1 empty
      · exact numeral'.1 empty
      · exact absurd numeral.2.2 (Nat.not_lt.mpr large)
      · exact absurd numeral'.2.2 (Nat.not_lt.mpr large)
    · rw [fromString_digits stream systemMs digits] at rejected
      cases rejected
  · intro shaped
    cases read : stream.fromString systemMs text with
    | none =>
      refine .inr ⟨read, fun value => ?_⟩
      rw [Stream.insert, read]
    | some id =>
      obtain ⟨ms, seq, rfl, digits⟩ := fromString_explicit clean read
      have fits : ¬ (ms = [] ∨ seq = [] ∨ 2 ^ 64 ≤ ofDecimal ms ∨ 2 ^ 64 ≤ ofDecimal seq) :=
        fun wrong => shaped ⟨ms, seq, rfl, digits, wrong⟩
      simp only [not_or, Nat.not_le] at fits
      obtain ⟨msFilled, seqFilled, msSmall, seqSmall⟩ := fits
      have numeral : Numeral ms :=
        ⟨msFilled, fun byte member => digits byte (List.mem_append_left _ member), msSmall⟩
      have numeral' : Numeral seq :=
        ⟨seqFilled, fun byte member => digits byte (List.mem_append_right _ member), seqSmall⟩
      have value := fromString_numerals stream systemMs numeral numeral'
      refine .inl ⟨ms, seq, rfl, numeral, numeral', value, fun payload => ?_⟩
      unfold Stream.insert
      rw [value]
      dsimp only
      split
      · exact nofun
      · split
        · exact nofun
        · exact fun _ => rfl

theorem fromString_exact_iff_padded :
    ReadsExactly Stream.new 0 (ascii "007-10") ↔ ¬ Misshapen (ascii "007-10") :=
  fromString_exact_iff (by decide)

/-- An identifier without milliseconds is read as if they were 0. -/
theorem fromString_inexact : ¬ ∀ (stream : Stream) (systemMs : Nat) (text : Bytes), 42 ∉ text →
    ReadsExactly stream systemMs text := by
  intro all
  rcases all Stream.new 0 (ascii "-5") (by decide) with ⟨ms, seq, same, numeral, -⟩ | ⟨rejected, -⟩
  · have front : [] ++ 45 :: ascii "5" = ms ++ 45 :: seq := same
    obtain ⟨empty, -⟩ := digits_split front List.not_mem_nil numeral.no_dash
    exact numeral.1 empty.symm
  · cases rejected

end CarrotDb
