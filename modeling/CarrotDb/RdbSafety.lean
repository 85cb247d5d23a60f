import CarrotDb.RdbSections

/-! Loading any file comes to an end, and the files on which it indexes a read
that came back empty are those that end where `parseDatabase` takes the first
byte of a number for granted. -/
namespace CarrotDb.Rdb

/-- Databases that run past the end of the file: whole ones, and then an
opening that is cut off. -/
inductive Overruns : Bytes → Prop where
  | cut {rest : Bytes} (is : CutOpening rest) : Overruns rest
  | database {opening entries later : Bytes} {calls : List Call} (openingIs : OpeningCode opening)
    (entriesAre : EntryCodes entries calls) (tail : Overruns (rdbOpcodeSelectDb :: later)) :
    Overruns (opening ++ (entries ++ rdbOpcodeSelectDb :: later))

/-- A file that runs past its end: the header, metadata, and such databases. -/
def FileOverruns (file : Bytes) : Prop :=
  ∃ version pairs rest, version.length = 4 ∧ PairCodes pairs ∧ rest.head? ≠ some rdbOpcodeAux ∧
    Overruns rest ∧ file = ascii "REDIS" ++ version ++ pairs ++ rest

/-- The loops come to an end, and every index is inside what was read: the
loader returns, or leaves by an exception. -/
def ParsesSafely (file : Bytes) : Prop :=
  ∀ rounds, file.length < rounds →
    (parse rounds file).ending = .ok () ∨ (parse rounds file).ending = .error .lengthError

variable {io : RIO} {byte : UInt8} {code more rest file : Bytes} {calls : List Call}
  {rounds databases : Nat}

/-- A database that another opcode ends is taken whole. -/
theorem parseDatabase_code {opening entries : Bytes} (openingIs : OpeningCode opening)
    (entriesAre : EntryCodes entries calls) (ends : byte = rdbOpcodeSelectDb ∨ byte = rdbOpcodeEof)
    (here : io.rest = opening ++ (entries ++ byte :: rest)) (enough : io.rest.length < rounds) :
    ∃ io', parseDatabase rounds io = ⟨calls, .ok (true, io')⟩ ∧ io'.rest = byte :: rest := by
  obtain ⟨middle, opened, left⟩ := parseOpening_code openingIs here
  have fewer : entries.length < rounds := by
    simp only [here, List.length_append] at enough
    omega
  obtain ⟨io', ran, final⟩ := parseEntries_codes entriesAre left ends fewer
  exact ⟨io', by simp [parseDatabase, opened, ran], final⟩

theorem OpeningCode.positive (is : OpeningCode code) : 0 < code.length := by
  cases is <;> simp

theorem parseDatabases_stop {stop : Stop} (ends : (parseDatabase rounds io).ending = .error stop) :
    (parseDatabases rounds (databases + 1) io).ending = .error stop := by
  unfold parseDatabases
  generalize parseDatabase rounds io = parsed at ends ⊢
  obtain ⟨calls, ending⟩ := parsed
  cases ends
  rfl

theorem parseDatabases_return (io' : RIO)
    (ends : (parseDatabase rounds io).ending = .ok (false, io')) :
    (parseDatabases rounds (databases + 1) io).ending = .ok () := by
  unfold parseDatabases
  generalize parseDatabase rounds io = parsed at ends ⊢
  obtain ⟨calls, ending⟩ := parsed
  cases ends
  rfl

/-- What runs past the end does not begin with the end of the file. -/
theorem Overruns.head (overruns : Overruns rest) : rest.head? ≠ some rdbOpcodeEof := by
  cases overruns with
  | cut is => cases is <;> simp [rdbOpcodeSelectDb, rdbOpcodeEof]
  | database openingIs entriesAre tail =>
    cases openingIs with
    | resized => simp [rdbOpcodeSelectDb, rdbOpcodeEof]
    | selected => simp [rdbOpcodeSelectDb, rdbOpcodeEof]
    | unselected lost => simpa using lost.2

theorem parseDatabases_overruns (overruns : Overruns rest) (here : io.rest = rest)
    (enough : rest.length < rounds) (enough' : rest.length < databases) :
    (parseDatabases rounds databases io).ending = .error .undefinedBehaviour := by
  induction overruns generalizing io databases with
  | cut is =>
    obtain ⟨databases, rfl⟩ := Nat.exists_eq_add_of_lt enough'
    apply parseDatabases_stop
    simp [parseDatabase, parseOpening_cut (here ▸ is)]
  | @database opening entries later calls openingIs entriesAre tail ih =>
    cases databases with
    | zero => cases enough'
    | succ databases =>
      obtain ⟨io', ran, left⟩ :=
        parseDatabase_code openingIs entriesAre (.inl rfl) here (here ▸ enough)
      have positive := openingIs.positive
      have fewer : (rdbOpcodeSelectDb :: later).length < rounds ∧
          (rdbOpcodeSelectDb :: later).length < databases := by
        simp only [List.length_append] at enough enough'
        omega
      simp [parseDatabases, ran, ih left fewer.1 fewer.2]

/-- Where the databases do not run past the end, the loader gets through. -/
theorem parseDatabases_cases (enough : io.rest.length < rounds)
    (enough' : io.rest.length < databases) :
    Overruns io.rest ∨ (parseDatabases rounds databases io).ending = .ok () ∨
    (parseDatabases rounds databases io).ending = .error .lengthError := by
  induction databases generalizing io with
  | zero => cases enough'
  | succ databases ih =>
    obtain ⟨opening, behind, openingIs, split⟩ | cut | ⟨more, middle, opened, nothing⟩ :=
      parseOpening_cases io
    · obtain ⟨middle, opened, left⟩ := parseOpening_code openingIs split
      have positive := openingIs.positive
      have shorter : middle.rest.length < rounds := by
        simp only [split, left, List.length_append] at enough ⊢
        omega
      obtain ⟨entries, calls, byte, rest, entriesAre, split', ends⟩ | stopped | ⟨io', ended⟩ :=
        parseEntries_cases shorter
      · rw [← left, split'] at split
        obtain ⟨io', ran, final⟩ := parseDatabase_code openingIs entriesAre ends split enough
        have fewer : io'.rest.length < rounds ∧ io'.rest.length < databases := by
          simp only [split, final, List.length_append] at enough enough' ⊢
          omega
        obtain overruns | returned | stopped := ih fewer.1 fewer.2
        · rw [final] at overruns
          obtain rfl | rfl := ends
          · exact .inl (split ▸ .database openingIs entriesAre overruns)
          · exact absurd rfl overruns.head
        · exact .inr (.inl (by simp [parseDatabases, ran, returned]))
        · exact .inr (.inr (by simp [parseDatabases, ran, stopped]))
      · exact .inr (.inr (parseDatabases_stop (by simpa [parseDatabase, opened] using stopped)))
      · refine .inr (.inl (parseDatabases_return io' ?_))
        simpa [parseDatabase, opened] using ended
    · exact .inl (.cut cut)
    · right; left
      cases more with
      | false => exact parseDatabases_return middle (by simp [parseDatabase, opened])
      | true =>
        obtain ⟨io', ended⟩ := parseEntries_end (nothing rfl) (by omega : 0 < rounds)
        exact parseDatabases_return io' (by simp [parseDatabase, opened, ended])

/-! ## Files -/

/-- The rounds suffice, and the loader gets through unless the file overruns. -/
theorem parse_cases (enough : file.length < rounds) :
    FileOverruns file ∨ (parse rounds file).ending = .ok () ∨
    (parse rounds file).ending = .error .lengthError := by
  obtain ⟨version, behind, size, split⟩ | ⟨io', ran⟩ := parseHeader_cases { content := file }
  · obtain ⟨middle, ran, left⟩ := parseHeader_code size split
    have shorter : middle.rest.length < rounds := by
      rw [InputStream.rest_start] at split
      simp only [split, left, List.length_append] at enough ⊢
      omega
    obtain ⟨pairs, rest, are, split', next⟩ | stopped | ⟨last, ran', ended⟩ :=
      parseMetadata_cases shorter
    · have fewer : pairs.length < rounds ∧ rest.length < rounds := by
        simp only [split', List.length_append] at shorter
        omega
      obtain ⟨last, ran', final⟩ := parseMetadata_codes are split' next fewer.1
      obtain overruns | returned := parseDatabases_cases (final ▸ fewer.2) (final ▸ fewer.2)
      · refine .inl ⟨version, pairs, rest, size, are, next, final ▸ overruns, ?_⟩
        rw [← InputStream.rest_start file, split, ← left, split', ← List.append_assoc]
      · right
        simpa [parse, ran, ran'] using returned
    · exact .inr (.inr (by simp [parse, ran, stopped]))
    · have returned (some_ : Nat) : parseDatabase some_ last = ⟨[], .ok (false, (last.get 1).2)⟩ := by
        simp [parseDatabase, parseOpening, ended]
      obtain ⟨rounds, rfl⟩ := Nat.exists_eq_add_of_lt enough
      exact .inr (.inl (by simp [parse, ran, ran', parseDatabases, returned]))
  · exact .inr (.inl (by simp [parse, ran]))

/-- On a file that overruns, the loader indexes an empty read. -/
theorem parse_overruns (overruns : FileOverruns file) (enough : file.length < rounds) :
    (parse rounds file).ending = .error .undefinedBehaviour := by
  obtain ⟨version, pairs, rest, size, are, next, overruns, rfl⟩ := overruns
  generalize file : ascii "REDIS" ++ version ++ pairs ++ rest = whole at enough ⊢
  rw [List.append_assoc] at file
  have fewer : pairs.length < rounds ∧ rest.length < rounds := by
    simp only [← file, List.length_append] at enough
    omega
  obtain ⟨middle, ran, left⟩ := parseHeader_code size ((InputStream.rest_start whole).trans file.symm)
  obtain ⟨last, ran', final⟩ := parseMetadata_codes are left next fewer.1
  simp [parse, ran, ran', parseDatabases_overruns overruns final fewer.2 fewer.2]

/-- Loading a file always ends, and no index is outside what was read exactly
when the file does not overrun. -/
theorem parsesSafely_iff (file : Bytes) :
    (∀ rounds, file.length < rounds → (parse rounds file).ending ≠ .error .outOfFuel) ∧
    (ParsesSafely file ↔ ¬ FileOverruns file) := by
  refine ⟨fun rounds enough stuck => ?_, fun safe overruns => ?_, fun whole rounds enough => ?_⟩
  · obtain overruns | returned | stopped := parse_cases enough
    · simp [parse_overruns overruns enough] at stuck
    · simp [returned] at stuck
    · simp [stopped] at stuck
  · have ran := parse_overruns overruns (Nat.lt_succ_self _)
    obtain returned | stopped := safe _ (Nat.lt_succ_self _)
    · simp [ran] at returned
    · simp [ran] at stopped
  · exact (parse_cases enough).resolve_left whole

/-- A file that ends behind `SELECTDB`. -/
theorem selectDb_overruns : ¬ ∀ file, ParsesSafely file := by
  intro safe
  have ending := safe (ascii "REDIS0011" ++ [rdbOpcodeSelectDb]) 11 (by decide)
  revert ending
  decide

end CarrotDb.Rdb
