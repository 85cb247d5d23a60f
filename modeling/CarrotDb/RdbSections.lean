import CarrotDb.RdbCodes

/-! The sections of a snapshot file: pairs of metadata, what opens a database,
and the loops over them. Each loop takes the codes in front of it, and what it
leaves is what it was asked to stop at. -/
namespace CarrotDb.Rdb

/-- The codes of metadata. -/
inductive PairCodes : Bytes → Prop where
  | nil : PairCodes []
  | cons {keyCode valueCode later key value : Bytes} (keyIs : StringCode keyCode key)
    (valueIs : StringCode valueCode value) (tail : PairCodes later) :
    PairCodes (rdbOpcodeAux :: (keyCode ++ valueCode ++ later))

/-- A number that is read and dropped. -/
inductive NumberCode : Bytes → Prop where
  | length {code : Bytes} {n : Nat} (is : LengthCode code n) : NumberCode code
  | encoded {byte : UInt8} (kind : byte.toNat / 64 = 3) : NumberCode [byte]

/-- What stands in front of the entries of a database. Without `RESIZEDB` the
byte behind the number is lost; a database that is not selected loses its
first byte. -/
inductive OpeningCode : Bytes → Prop where
  | resized {number hashTable expireTable : Bytes} (numberIs : NumberCode number)
    (hashTableIs : NumberCode hashTable) (expireTableIs : NumberCode expireTable) :
    OpeningCode (rdbOpcodeSelectDb :: (number ++ rdbOpcodeResizeDb :: (hashTable ++ expireTable)))
  | selected {number : Bytes} {byte : UInt8} (numberIs : NumberCode number)
    (lost : byte ≠ rdbOpcodeResizeDb) : OpeningCode (rdbOpcodeSelectDb :: (number ++ [byte]))
  | unselected {byte : UInt8} (lost : byte ≠ rdbOpcodeSelectDb ∧ byte ≠ rdbOpcodeEof) :
    OpeningCode [byte]

/-- The file ends where a number should begin. -/
inductive CutOpening : Bytes → Prop where
  | number : CutOpening [rdbOpcodeSelectDb]
  | hashTable {number : Bytes} (numberIs : NumberCode number) :
    CutOpening (rdbOpcodeSelectDb :: (number ++ [rdbOpcodeResizeDb]))
  | expireTable {number hashTable : Bytes} (numberIs : NumberCode number)
    (hashTableIs : NumberCode hashTable ∨ ShortLength hashTable) :
    CutOpening (rdbOpcodeSelectDb :: (number ++ rdbOpcodeResizeDb :: hashTable))

variable {io : RIO} {byte : UInt8} {code more rest : Bytes} {calls : List Call}
  {rounds databases : Nat}

private theorem magic_length : (ascii "REDIS").length = 5 := rfl

theorem parseHeader_code {version : Bytes} (size : version.length = 4)
    (here : io.rest = ascii "REDIS" ++ version ++ rest) :
    ∃ io', parseHeader io = .ok (true, io') ∧ io'.rest = rest := by
  rw [List.append_assoc] at here
  have magic : io.rest.take 5 = ascii "REDIS" := by rw [here, ← magic_length, List.take_left]
  have behind : (io.get 5).2.rest = version ++ rest := by
    rw [InputStream.get_rest, here, ← magic_length, List.drop_left]
  refine ⟨((io.get 5).2.get 4).2, ?_, by simp [behind, size]⟩
  simp [parseHeader, magic, magic_length, behind, size]

/-- A header is taken, or the loader returns. -/
theorem parseHeader_cases (io : RIO) :
    (∃ version rest, version.length = 4 ∧ io.rest = ascii "REDIS" ++ version ++ rest) ∨
    ∃ io', parseHeader io = .ok (false, io') := by
  by_cases magic : io.rest.take 5 = ascii "REDIS"
  · have split : io.rest = ascii "REDIS" ++ (io.get 5).2.rest := by
      rw [← magic, InputStream.get_rest, List.take_append_drop]
    obtain short | enough := Nat.lt_or_ge (io.get 5).2.rest.length 4
    · refine .inr ⟨((io.get 5).2.get 4).2, ?_⟩
      have few : ((io.get 5).2.rest.take 4).length ≠ 4 := by
        rw [List.length_take]
        omega
      simp only [parseHeader, read_five, ok_bind, magic, magic_length, ne_eq, not_true_eq_false,
        ↓reduceIte, read_four, few, not_false_eq_true, pure_ok]
    · refine .inl ⟨(io.get 5).2.rest.take 4, (io.get 5).2.rest.drop 4, by simpa using enough, ?_⟩
      rw [List.append_assoc, List.take_append_drop, split]
  · refine .inr ⟨(io.get 5).2, ?_⟩
    by_cases size : (io.rest.take 5).length = 5
    · simp only [parseHeader, read_five, ok_bind, size, ne_eq, not_true_eq_false, ↓reduceIte, magic,
        not_false_eq_true, pure_ok]
    · simp only [parseHeader, read_five, ok_bind, size, ne_eq, ↓reduceIte, not_false_eq_true, pure_ok]

theorem parseMetadata_codes (are : PairCodes code) (here : io.rest = code ++ rest)
    (next : rest.head? ≠ some rdbOpcodeAux) (enough : code.length < rounds) :
    ∃ io', parseMetadata rounds io = .ok io' ∧ io'.rest = rest := by
  induction are generalizing io rounds with
  | nil =>
    obtain ⟨rounds, rfl⟩ := Nat.exists_eq_add_of_lt enough
    cases rest with
    | nil => exact ⟨(io.get 1).2, by simp [parseMetadata, here], by simp [here]⟩
    | cons byte rest =>
      have other : byte ≠ rdbOpcodeAux := by simpa using next
      have back := seekBackRead_one here
      exact ⟨io, by simp [parseMetadata, here, other, back], here⟩
  | @cons keyCode valueCode later key value keyIs valueIs tail ih =>
    cases rounds with
    | zero => cases enough
    | succ rounds =>
      have front : (io.get 1).2.rest = keyCode ++ (valueCode ++ (later ++ rest)) := by simp [here]
      obtain ⟨middle, first, behind⟩ := parseString_code keyIs front
      obtain ⟨last, second, left⟩ := parseString_code valueIs behind
      have fewer : later.length < rounds := by
        simp only [List.length_cons, List.length_append] at enough
        omega
      obtain ⟨io', ran, final⟩ := ih left fewer
      exact ⟨io', by simp [parseMetadata, here, first, second, ran], final⟩

theorem parseMetadata_end (here : io.rest = []) (some_ : 0 < rounds) :
    ∃ io', parseMetadata rounds io = .ok io' ∧ io'.rest = [] := by
  obtain ⟨rounds, rfl⟩ := Nat.exists_eq_add_of_lt some_
  exact ⟨(io.get 1).2, by simp [parseMetadata, here], by simp [here]⟩

/-- Metadata are taken whole, or nothing is left behind them. -/
theorem parseMetadata_cases (enough : io.rest.length < rounds) :
    (∃ code rest, PairCodes code ∧ io.rest = code ++ rest ∧ rest.head? ≠ some rdbOpcodeAux) ∨
    parseMetadata rounds io = .error .lengthError ∨
    ∃ io', parseMetadata rounds io = .ok io' ∧ io'.rest = [] := by
  induction rounds generalizing io with
  | zero => cases enough
  | succ rounds ih =>
    match here : io.rest with
    | [] => exact .inl ⟨[], [], .nil, rfl, by simp⟩
    | byte :: tail =>
      by_cases aux : byte = rdbOpcodeAux
      · subst aux
        have behind : (io.get 1).2.rest = tail := by simp [here]
        have positive : 0 < rounds := by
          simp only [here, List.length_cons] at enough
          omega
        obtain ⟨keyCode, key, left, keyIs, split⟩ | stopped | ⟨key, middle, first, left⟩ :=
          parseString_cases (io.get 1).2
        · obtain ⟨middle, first, remaining⟩ := parseString_code keyIs split
          obtain ⟨valueCode, value, later, valueIs, split'⟩ | stopped | ⟨value, last, second, ended⟩ :=
            parseString_cases middle
          · obtain ⟨last, second, final⟩ := parseString_code valueIs split'
            have whole : tail = keyCode ++ (valueCode ++ later) := by
              rw [← behind, split, ← remaining, split']
            have shorter : last.rest.length < rounds := by
              simp only [here, whole, final, List.length_cons, List.length_append] at enough ⊢
              omega
            obtain ⟨pairs, rest, are, split'', next⟩ | stopped | ⟨io', ran, ended⟩ := ih shorter
            · refine .inl ⟨_, rest, .cons keyIs valueIs are, ?_, next⟩
              rw [whole, ← final, split'']
              simp
            · exact .inr (.inl (by simp [parseMetadata, here, first, second, stopped]))
            · exact .inr (.inr ⟨io', by simp [parseMetadata, here, first, second, ran], ended⟩)
          · exact .inr (.inl (by simp [parseMetadata, here, first, stopped]))
          · obtain ⟨io', ran, final⟩ := parseMetadata_end ended positive
            exact .inr (.inr ⟨io', by simp [parseMetadata, here, first, second, ran], final⟩)
        · exact .inr (.inl (by simp [parseMetadata, here, stopped]))
        · obtain ⟨last, second, ended⟩ := parseString_end left
          obtain ⟨io', ran, final⟩ := parseMetadata_end ended positive
          exact .inr (.inr ⟨io', by simp [parseMetadata, here, first, second, ran], final⟩)
      · exact .inl ⟨[], byte :: tail, .nil, rfl, by simpa using aux⟩

theorem NumberCode.cons (is : NumberCode code) : ∃ byte more, code = byte :: more := by
  cases is with
  | length is => exact is.cons
  | encoded kind => exact ⟨_, _, rfl⟩

theorem getLength_number (is : NumberCode (byte :: more)) (here : io.rest = more ++ rest) :
    ∃ n isEncType io', getLength io byte = .ok (n, isEncType, io') ∧ io'.rest = rest := by
  generalize whole : byte :: more = code at is
  cases is with
  | length is =>
    subst whole
    obtain ⟨io', ran, left⟩ := getLength_code is here
    exact ⟨_, _, io', ran, left⟩
  | encoded kind =>
    cases whole
    exact ⟨_, _, io, getLength_encoded kind, here⟩

theorem number_cases (byte : UInt8) (rest : Bytes) :
    (∃ more later, NumberCode (byte :: more) ∧ rest = more ++ later) ∨ ShortLength (byte :: rest) := by
  obtain ⟨more, n, later, is, split⟩ | kind | short := length_cases byte rest
  · exact .inl ⟨more, later, .length is, split⟩
  · exact .inl ⟨[], rest, .encoded kind, rfl⟩
  · exact .inr short

private theorem selectDb_kinds : rdbOpcodeSelectDb ≠ rdbOpcodeEof := by decide

theorem parseOpening_code (is : OpeningCode code) (here : io.rest = code ++ rest) :
    ∃ io', parseOpening io = .ok (true, io') ∧ io'.rest = rest := by
  cases is with
  | resized numberIs hashTableIs expireTableIs =>
    obtain ⟨byte, more, rfl⟩ := numberIs.cons
    obtain ⟨byte', more', rfl⟩ := hashTableIs.cons
    obtain ⟨byte'', more'', rfl⟩ := expireTableIs.cons
    have front : ((io.get 1).2.get 1).2.rest =
        more ++ rdbOpcodeResizeDb :: byte' :: (more' ++ byte'' :: (more'' ++ rest)) := by
      simp [here]
    obtain ⟨_, _, first, ran, left⟩ := getLength_number numberIs front
    have front' : ((first.get 1).2.get 1).2.rest = more' ++ byte'' :: (more'' ++ rest) := by
      simp [left]
    obtain ⟨_, _, second, ran', left'⟩ := getLength_number hashTableIs front'
    have front'' : (second.get 1).2.rest = more'' ++ rest := by simp [left']
    obtain ⟨_, _, third, ran'', left''⟩ := getLength_number expireTableIs front''
    refine ⟨third, ?_, left''⟩
    simp [parseOpening, here, selectDb_kinds, ran, left, ran', left', ran'']
  | @selected number byte numberIs lost =>
    obtain ⟨first, more, rfl⟩ := numberIs.cons
    have front : ((io.get 1).2.get 1).2.rest = more ++ byte :: rest := by simp [here]
    obtain ⟨_, _, middle, ran, left⟩ := getLength_number numberIs front
    refine ⟨(middle.get 1).2, ?_, by simp [left]⟩
    simp [parseOpening, here, selectDb_kinds, ran, left, lost]
  | unselected lost =>
    exact ⟨(io.get 1).2, by simp [parseOpening, here, lost], by simp [here]⟩

theorem parseOpening_cut (is : CutOpening io.rest) :
    parseOpening io = .error .undefinedBehaviour := by
  generalize here : io.rest = code at is
  cases is with
  | number => simp [parseOpening, here, selectDb_kinds, index]
  | hashTable numberIs =>
    obtain ⟨byte, more, rfl⟩ := numberIs.cons
    have front : ((io.get 1).2.get 1).2.rest = more ++ [rdbOpcodeResizeDb] := by simp [here]
    obtain ⟨_, _, first, ran, left⟩ := getLength_number numberIs front
    simp [parseOpening, here, selectDb_kinds, ran, left, index]
  | @expireTable number hashTable numberIs hashTableIs =>
    obtain ⟨byte, more, rfl⟩ := numberIs.cons
    have front : ((io.get 1).2.get 1).2.rest = more ++ rdbOpcodeResizeDb :: hashTable := by
      simp [here]
    obtain ⟨_, _, first, ran, left⟩ := getLength_number numberIs front
    obtain ⟨byte', more', rfl⟩ : ∃ byte' more', hashTable = byte' :: more' := by
      obtain is | short := hashTableIs
      · exact is.cons
      · cases short <;> exact ⟨_, _, rfl⟩
    have behind : ((first.get 1).2.get 1).2.rest = more' := by simp [left]
    obtain ⟨_, _, second, ran', left'⟩ : ∃ n isEncType io',
        getLength ((first.get 1).2.get 1).2 byte' = .ok (n, isEncType, io') ∧ io'.rest = [] := by
      obtain is | short := hashTableIs
      · exact getLength_number is (by simpa using behind)
      · obtain ⟨io', ran', left'⟩ := getLength_short (behind ▸ short)
        exact ⟨_, _, io', ran', left'⟩
    simp [parseOpening, here, selectDb_kinds, ran, left, ran', left', index]

/-- An opening is taken, or cut off, or no entries are behind it. -/
theorem parseOpening_cases (io : RIO) :
    (∃ code rest, OpeningCode code ∧ io.rest = code ++ rest) ∨ CutOpening io.rest ∨
    ∃ more io', parseOpening io = .ok (more, io') ∧ (more = true → io'.rest = []) := by
  match here : io.rest with
  | [] => exact .inr (.inr ⟨false, (io.get 1).2, by simp [parseOpening, here], nofun⟩)
  | byte :: tail =>
    by_cases ended : byte = rdbOpcodeEof
    · exact .inr (.inr ⟨false, (io.get 1).2, by simp [parseOpening, here, ended], nofun⟩)
    by_cases selects : byte = rdbOpcodeSelectDb
    swap
    · exact .inl ⟨[byte], tail, .unselected ⟨selects, ended⟩, rfl⟩
    subst selects
    match tail with
    | [] => exact .inr (.inl .number)
    | byte :: tail =>
      have behind : ((io.get 1).2.get 1).2.rest = tail := by simp [here]
      obtain ⟨more, later, numberIs, rfl⟩ | short := number_cases byte tail
      swap
      · obtain ⟨middle, ran, left⟩ := getLength_short (behind ▸ short)
        refine .inr (.inr ⟨true, (middle.get 1).2, ?_, fun _ => by simp [left]⟩)
        simp [parseOpening, here, selectDb_kinds, ran, left]
      obtain ⟨_, _, middle, ran, left⟩ := getLength_number numberIs behind
      match later with
      | [] =>
        refine .inr (.inr ⟨true, (middle.get 1).2, ?_, fun _ => by simp [left]⟩)
        simp [parseOpening, here, selectDb_kinds, ran, left]
      | next :: later =>
        by_cases resizes : next = rdbOpcodeResizeDb
        swap
        · exact .inl ⟨_, later, .selected numberIs resizes, by simp⟩
        subst resizes
        match later with
        | [] => exact .inr (.inl (.hashTable numberIs))
        | byte' :: later =>
          obtain ⟨more', later', hashTableIs, rfl⟩ | short := number_cases byte' later
          swap
          · exact .inr (.inl (.expireTable numberIs (.inr short)))
          match later' with
          | [] => exact .inr (.inl (by simpa using .expireTable numberIs (.inl hashTableIs)))
          | byte'' :: later' =>
            obtain ⟨more'', rest, expireTableIs, rfl⟩ | short := number_cases byte'' later'
            · refine .inl ⟨_, rest, .resized numberIs hashTableIs expireTableIs, ?_⟩
              simp
            have behind' : ((middle.get 1).2.get 1).2.rest = more' ++ byte'' :: later' := by
              simp [left]
            obtain ⟨_, _, second, ran', left'⟩ := getLength_number hashTableIs behind'
            have behind'' : (second.get 1).2.rest = later' := by simp [left']
            obtain ⟨third, ran'', left''⟩ := getLength_short (behind'' ▸ short)
            refine .inr (.inr ⟨true, third, ?_, fun _ => left''⟩)
            simp [parseOpening, here, selectDb_kinds, ran, left, ran', left', ran'']

/-! ## The loop over entries -/

/-- Entries are taken, and the loop goes on behind them. -/
theorem parseEntries_append (are : EntryCodes code calls) (here : io.rest = code ++ rest)
    (rounds : Nat) : ∃ io', io'.rest = rest ∧ parseEntries (calls.length + rounds) io =
      ⟨calls ++ (parseEntries rounds io').calls, (parseEntries rounds io').ending⟩ := by
  induction are generalizing io with
  | nil => exact ⟨io, here, by simp⟩
  | @cons code later call calls head tail ih =>
    obtain ⟨middle, ran, left⟩ := parseRound_code head (here.trans (List.append_assoc ..))
    obtain ⟨io', final, all⟩ := ih left
    refine ⟨io', final, ?_⟩
    rw [List.length_cons, Nat.add_right_comm, parseEntries, ran]
    simp [all]

theorem EntryCodes.length_le (are : EntryCodes code calls) : calls.length ≤ code.length := by
  induction are with
  | nil => exact le_refl _
  | cons head tail ih =>
    have positive := head.positive
    simp only [List.length_cons, List.length_append]
    omega

/-- Up to what ends them, entries are taken whole. -/
theorem parseEntries_codes (are : EntryCodes code calls) (here : io.rest = code ++ byte :: rest)
    (ends : byte = rdbOpcodeSelectDb ∨ byte = rdbOpcodeEof) (enough : code.length < rounds) :
    ∃ io', parseEntries rounds io = ⟨calls, .ok (true, io')⟩ ∧ io'.rest = byte :: rest := by
  have fewer := are.length_le
  obtain ⟨spare, rfl⟩ : ∃ spare, rounds = calls.length + (spare + 1) :=
    ⟨rounds - calls.length - 1, by omega⟩
  obtain ⟨io', left, all⟩ := parseEntries_append are here (spare + 1)
  refine ⟨io', ?_, left⟩
  rw [all]
  simp [parseEntries, parseRound_end left ends]

theorem parseEntries_end (here : io.rest = []) (some_ : 0 < rounds) :
    ∃ io', parseEntries rounds io = ⟨[], .ok (false, io')⟩ := by
  obtain ⟨rounds, rfl⟩ := Nat.exists_eq_add_of_lt some_
  exact ⟨(io.get 1).2, by simp [parseEntries, parseRound_empty here]⟩

/-- Entries end where they should, or the loop returns, or it stops at a length
that no vector has. -/
theorem parseEntries_cases (enough : io.rest.length < rounds) :
    (∃ code calls byte rest, EntryCodes code calls ∧ io.rest = code ++ byte :: rest ∧
      (byte = rdbOpcodeSelectDb ∨ byte = rdbOpcodeEof)) ∨
    (parseEntries rounds io).ending = .error .lengthError ∨
    ∃ io', (parseEntries rounds io).ending = .ok (false, io') := by
  induction rounds generalizing io with
  | zero => cases enough
  | succ rounds ih =>
    obtain ⟨code, call, rest, is, split⟩ | ⟨byte, rest, split, ends⟩ | stalls := parseRound_cases io
    · obtain ⟨middle, ran, left⟩ := parseRound_code is split
      have shorter : middle.rest.length < rounds := by
        have positive := is.positive
        simp only [split, left, List.length_append] at enough ⊢
        omega
      obtain ⟨codes, calls, byte, rest', are, split', ends⟩ | stopped | ⟨io', ended⟩ := ih shorter
      · refine .inl ⟨code ++ codes, call :: calls, byte, rest', .cons is are, ?_, ends⟩
        rw [split, ← left, split', List.append_assoc]
      · exact .inr (.inl (by simp [parseEntries, ran, stopped]))
      · exact .inr (.inr ⟨io', by simp [parseEntries, ran, ended]⟩)
    · exact .inl ⟨[], [], byte, rest, .nil, split, ends⟩
    · obtain stopped | ⟨io', ran⟩ | ⟨call, middle, ran, left⟩ := stalls
      · exact .inr (.inl (by simp [parseEntries, stopped]))
      · exact .inr (.inr ⟨io', by simp [parseEntries, ran]⟩)
      · have positive : 0 < rounds := by
          by_contra none_
          have nothing : io.rest = [] := by
            apply List.length_eq_zero_iff.mp
            omega
          simp [parseRound_empty nothing] at ran
        obtain ⟨io', ended⟩ := parseEntries_end left positive
        exact .inr (.inr ⟨io', by simp [parseEntries, ran, ended]⟩)

end CarrotDb.Rdb
