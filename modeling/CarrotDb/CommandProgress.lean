import CarrotDb.CommandTokens

/-! Rejected input. A call of `parseCommand` that finds no token at the front
leaves the buffer as it is, and every later call finds the same; any other
rejection takes bytes off the buffer. -/
namespace CarrotDb
open Decimal Resp

/-- A star or a dollar sign, and nothing but digits up to the next carriage
return or the end of the buffer. -/
def LeadsWithToken (buffer : Bytes) : Prop :=
  ∃ first rest, buffer = first :: rest ∧ (first = 42 ∨ first = 36) ∧
    ∀ x ∈ visible rest, isDigit x = true

private theorem calculateLengthFrom_verdict (text : Bytes) (position length : Nat) :
    (calculateLengthFrom text position length).1 = true ↔ ∀ x ∈ visible text, isDigit x = true := by
  induction text generalizing position length with
  | nil => simp [calculateLengthFrom, visible]
  | cons x rest ih =>
    unfold calculateLengthFrom
    by_cases stop : x = 13
    · simp [stop, visible]
    · rw [if_neg stop]
      by_cases digit : isDigit x = true
      · rw [if_pos digit, ih]
        simp [visible, stop, digit]
      · rw [if_neg digit]
        simp [visible, stop, digit]

/-- The first token is known just where the buffer leads with one. -/
theorem parse_front_unknown (buffer : Bytes) :
    (parse buffer 0).1.type = .unknown ↔ ¬ LeadsWithToken buffer := by
  cases buffer with
  | nil => simp [LeadsWithToken, parse, unknownToken]
  | cons first rest =>
    have lengths : calculateLength (first :: rest) (0 + 1) = calculateLengthFrom rest 1 0 := rfl
    have verdict := calculateLengthFrom_verdict rest 1 0
    have leads : LeadsWithToken (first :: rest) ↔
        (first = 42 ∨ first = 36) ∧ ∀ x ∈ visible rest, isDigit x = true := by
      constructor
      · rintro ⟨_, _, same, starts, digits⟩
        cases same
        exact ⟨starts, digits⟩
      · rintro ⟨starts, digits⟩
        exact ⟨first, rest, rfl, starts, digits⟩
    rw [leads, ← verdict]
    unfold parse
    rw [lengths]
    rcases calculateLengthFrom rest 1 0 with ⟨_ | _, length, position⟩
    · by_cases star : first = 42
      · simp [star, unknownToken]
      · by_cases dollar : first = 36
        · simp [dollar, unknownToken]
        · simp [star, dollar, unknownToken]
    · by_cases star : first = 42
      · simp [star]
      · by_cases dollar : first = 36
        · simp [dollar]
        · simp [star, dollar, unknownToken]

/-- What has once been rejected at the front is rejected with anything behind it. -/
theorem not_leadsWithToken_append {buffer : Bytes} (nonempty : buffer ≠ [])
    (rejected : ¬ LeadsWithToken buffer) (later : Bytes) : ¬ LeadsWithToken (buffer ++ later) := by
  rintro ⟨first, rest, same, starts, digits⟩
  cases buffer with
  | nil => exact nonempty rfl
  | cons x tail =>
    rw [List.cons_append, List.cons.injEq] at same
    obtain ⟨rfl, rfl⟩ := same
    refine rejected ⟨x, tail, rfl, starts, fun y member => digits y ?_⟩
    unfold visible at member ⊢
    rw [List.takeWhile_append]
    split
    · exact List.mem_append_left _ (List.takeWhile_subset _ member)
    · exact member

theorem parseCommand_rejects {buffer : Bytes} (rejected : ¬ LeadsWithToken buffer) :
    parseCommand buffer = .ok ⟨.unknow, 0, buffer⟩ := by
  rw [parseCommand, parseCommandFrom]
  have unknown := (parse_front_unknown buffer).mpr rejected
  rcases parsing : parse buffer 0 with ⟨token, position⟩
  rw [parsing] at unknown
  dsimp only at unknown ⊢
  rw [unknown]
  rfl

private theorem parseArray_le {buffer : Bytes}
    (ran : parseArray buffer length position = .ok parsed) (forward : 0 < position)
    (nonempty : buffer ≠ []) : parsed.readBuffer.length < buffer.length := by
  have positive := List.length_pos_iff.mpr nonempty
  unfold parseArray at ran
  have step := le_parse buffer position
  rcases parse buffer position with ⟨token, named⟩
  dsimp only at ran step
  split at ran
  · cases ran
    exact positive
  · obtain ⟨⟨command, behind⟩, parsing, same⟩ := exec_bind_ok.mp ran
    cases same
    have moved := Tokens.le_of_run parsing
    rw [List.length_drop]
    omega

theorem parseCommandFrom_le {rounds : Nat} {buffer : Bytes}
    (ran : parseCommandFrom rounds buffer = .ok parsed) :
    parsed.readBuffer.length ≤ buffer.length := by
  induction rounds generalizing buffer with
  | zero =>
    cases ran
    exact le_rfl
  | succ rounds ih =>
    unfold parseCommandFrom at ran
    rcases parsing : parse buffer 0 with ⟨token, position⟩
    rw [parsing] at ran
    dsimp only at ran
    cases type : token.type with
    | unknown =>
      rw [type] at ran
      cases ran
      exact le_rfl
    | bulkString =>
      rw [type] at ran
      refine (ih ran).trans ?_
      rw [List.length_drop]
      omega
    | array =>
      rw [type] at ran
      have known : startsToken buffer[0]? = true := by
        by_contra other
        rw [Bool.not_eq_true] at other
        rw [parse_other other, Prod.mk.injEq] at parsing
        rw [← parsing.1] at type
        cases type
      have forward := lt_parse known
      rw [parsing] at forward
      refine (parseArray_le ran forward ?_).le
      rintro rfl
      cases known

/-- A call of `parseCommand` that finds a token at the front takes bytes. -/
theorem parseCommand_takes {buffer : Bytes} (leads : LeadsWithToken buffer)
    (ran : parseCommand buffer = .ok parsed) : parsed.readBuffer.length < buffer.length := by
  have nonempty : buffer ≠ [] := by
    rintro rfl
    obtain ⟨_, _, absent, _⟩ := leads
    cases absent
  have positive := List.length_pos_iff.mpr nonempty
  have known : startsToken buffer[0]? = true := by
    obtain ⟨first, rest, rfl, starts, -⟩ := leads
    rcases starts with rfl | rfl <;> rfl
  have forward := lt_parse known
  have typed := mt (parse_front_unknown buffer).mp (not_not.mpr leads)
  rw [parseCommand] at ran
  unfold parseCommandFrom at ran
  rcases parsing : parse buffer 0 with ⟨token, position⟩
  rw [parsing] at ran forward typed
  dsimp only at ran forward typed
  cases type : token.type with
  | unknown => exact absurd type typed
  | bulkString =>
    rw [type] at ran
    have fewer := parseCommandFrom_le ran
    rw [List.length_drop] at fewer
    omega
  | array =>
    rw [type] at ran
    exact parseArray_le ran forward nonempty

/-- A call takes bytes off the buffer, also where it rejects it, just where the
buffer leads with a token. Where it does not, every later call rejects it again
with all that has come behind it. -/
theorem rejection_progresses_iff {buffer : Bytes} {parsed : Parsed} (nonempty : buffer ≠ [])
    (ran : parseCommand buffer = .ok parsed) :
    (parsed.readBuffer.length < buffer.length ↔ LeadsWithToken buffer) ∧
      (¬ LeadsWithToken buffer → ∀ later,
        parseCommand (buffer ++ later) = .ok ⟨.unknow, 0, buffer ++ later⟩) := by
  refine ⟨⟨fun fewer => ?_, fun leads => parseCommand_takes leads ran⟩, fun rejected later =>
    parseCommand_rejects (not_leadsWithToken_append nonempty rejected later)⟩
  by_contra rejected
  rw [parseCommand_rejects rejected] at ran
  cases ran
  exact lt_irrefl _ fewer

/-- A name that is not known takes the whole buffer with it. -/
theorem rejection_progresses_iff_unknown :
    ([] : Bytes).length < (ascii "*1\r\n$1\r\nx\r\n").length ↔
      LeadsWithToken (ascii "*1\r\n$1\r\nx\r\n") :=
  (@rejection_progresses_iff (ascii "*1\r\n$1\r\nx\r\n") ⟨.unknow, 11, []⟩ (by decide) rfl).1

/-- A stray line end is never removed, and no later command gets past it. -/
theorem rejection_sticks : ∃ buffer : Bytes, buffer ≠ [] ∧ ∀ later,
    parseCommand (buffer ++ later) = .ok ⟨.unknow, 0, buffer ++ later⟩ := by
  refine ⟨crlf, by decide, fun later => parseCommand_rejects ?_⟩
  rintro ⟨first, rest, same, starts, -⟩
  cases same
  revert starts
  decide

end CarrotDb
