import CarrotDb.ParsedCommands

/-! The strings that the parser builds from the buffer. Positions are moved
behind line ends that nobody has looked for, so a token may start beyond the
buffer; its string is then empty, because the length wraps around to zero. -/
namespace CarrotDb
open Resp

/-- `token.end_pos - token.start_pos + 1` on `size_t`. -/
def Resp.ParsedToken.size (token : ParsedToken) : UInt64 :=
  .ofNat token.endPos - .ofNat token.startPos + 1

/-- The string of a token is empty, or it ends within the buffer. -/
def Resp.ParsedToken.Inside (token : ParsedToken) (buffer : Bytes) : Prop :=
  token.size ≠ 0 → token.startPos + token.size.toNat ≤ buffer.length

/-- A span that is told by its start and by the position behind it. -/
structure Resp.ParsedToken.Spans (token : ParsedToken) (behind : Nat) : Prop where
  ordered : token.startPos ≤ behind
  ends : token.endPos + 1 = behind

theorem Resp.ParsedToken.Spans.size_le {token : ParsedToken} {behind : Nat}
    (spans : token.Spans behind) : token.size.toNat ≤ behind - token.startPos := by
  obtain ⟨ordered, rfl⟩ := spans
  simp only [ParsedToken.size, UInt64.toNat_add, UInt64.toNat_sub, UInt64.toNat_ofNat',
    UInt64.toNat_one]
  omega

/-- The length wraps only for a span that no buffer holds. -/
theorem Resp.ParsedToken.Spans.size_eq {token : ParsedToken} {behind : Nat}
    (spans : token.Spans behind) (small : behind - token.startPos < 2 ^ 64) :
    token.size.toNat = token.endPos + 1 - token.startPos := by
  obtain ⟨ordered, rfl⟩ := spans
  simp only [ParsedToken.size, UInt64.toNat_add, UInt64.toNat_sub, UInt64.toNat_ofNat',
    UInt64.toNat_one]
  omega

/-- The scan for the end of a payload ends at the end of the buffer. -/
theorem scanFrom_le (text : Bytes) (position : Nat) :
    scanFrom text position ≤ position + text.length := by
  induction text generalizing position with
  | nil => exact Nat.le_add_right _ _
  | cons x rest ih =>
    rw [scanFrom]
    split
    · exact Nat.le_add_right _ _
    · have later := ih (position + 1)
      rw [List.length_cons]
      omega

theorem le_calculateLength (buffer : Bytes) (position : Nat) :
    position ≤ (calculateLength buffer position).2.2 := by
  rw [calculateLength]
  exact le_calculateLengthFrom _ _ _

/-- Every token of a parser is a span: of the first byte, or of a payload that
has been scanned. -/
theorem parse_spans (buffer : Bytes) (position : Nat) :
    ∃ behind, (parse buffer position).1.Spans behind ∧
      (behind = 1 ∨ behind = (parse buffer position).1.startPos ∨ behind ≤ buffer.length) := by
  have first (type : TokenType) (length : Nat) :
      ∃ behind, (ParsedToken.mk type 0 0 length).Spans behind ∧
        (behind = 1 ∨ behind = 0 ∨ behind ≤ buffer.length) := ⟨1, ⟨Nat.zero_le _, rfl⟩, .inl rfl⟩
  have moved := le_calculateLength buffer (position + 1)
  rw [parse]
  rcases computed : calculateLength buffer (position + 1) with ⟨verdict, length, start⟩
  rw [computed] at moved
  split
  · cases verdict <;> exact first _ _
  · split
    · cases verdict with
      | false => exact first _ _
      | true =>
        have low := le_scanFrom (buffer.drop start) start
        have high := scanFrom_le (buffer.drop start) start
        rw [List.length_drop] at high
        refine ⟨scanFrom (buffer.drop start) start, ⟨low, ?_⟩, .inr ?_⟩
        · dsimp only at moved ⊢
          omega
        · dsimp only
          omega
    · exact first _ _

-- A payload that would start behind the end of the buffer.
example : (parse (ascii "*1\r\n$") 4).1 = ⟨.bulkString, 7, 6, 0⟩ := by decide

/-- A token that is read from a buffer with bytes in it lies inside. -/
theorem parse_inside {buffer : Bytes} (some_ : buffer ≠ []) (position : Nat) :
    (parse buffer position).1.Inside buffer := by
  intro nonempty
  obtain ⟨behind, spans, place⟩ := parse_spans buffer position
  have ordered := spans.ordered
  have within := spans.size_le
  have positive := List.length_pos_iff.mpr some_
  have length : (parse buffer position).1.size.toNat ≠ 0 := fun zero =>
    nonempty (UInt64.toNat_inj.mp zero)
  omega

/-! ## The tokens of a command -/

/-- A parser with an account of the tokens it has taken. -/
def Tokens.traced (buffer : Bytes) : Tokens α → Nat → List ParsedToken × Exec (α × Nat)
  | .done result, position => ([], do pure (← result, position))
  | .read next, position =>
    let (token, position) := parse buffer position
    let (tokens, outcome) :=
      (next ⟨token.type == .bulkString, tokenText buffer token⟩).traced buffer position
    (token :: tokens, outcome)

theorem Tokens.traced_run (buffer : Bytes) (parser : Tokens α) (position : Nat) :
    (parser.traced buffer position).2 = parser.run buffer position := by
  induction parser generalizing position with
  | done result => rfl
  | read next ih => exact ih _ _

/-- `parseArray` with an account of the tokens that strings are built from:
that of the name, and those of the parser. -/
def parseArrayTraced (buffer : Bytes) (length position : Nat) : List ParsedToken × Exec Parsed :=
  let (token, position) := parse buffer position
  match commandParser (tokenText buffer token) (i32 ((length : Int) - 1)) with
  | none => ([token], pure ⟨.unknow, position, []⟩)
  | some parser =>
    let (tokens, outcome) := parser.traced buffer position
    (token :: tokens, do
      let (command, position) ← outcome
      pure ⟨command, position, buffer.drop position⟩)

theorem parseArrayTraced_snd (buffer : Bytes) (length position : Nat) :
    (parseArrayTraced buffer length position).2 = parseArray buffer length position := by
  rw [parseArrayTraced, parseArray]
  dsimp only
  cases commandParser (tokenText buffer (parse buffer position).1) (i32 ((length : Int) - 1)) with
  | none => rfl
  | some parser =>
    dsimp only
    rw [Tokens.traced_run]

/-- `parseCommandFrom` with an account of the tokens that strings are built
from, each with the read buffer of its moment: what is skipped in front of a
command is erased before. -/
def parseCommandTracedFrom : (rounds : Nat) → (buffer : Bytes) →
    List (Bytes × ParsedToken) × Exec Parsed
  | 0, buffer => ([], pure ⟨.unknow, 0, buffer⟩)
  | rounds + 1, buffer =>
    let (token, position) := parse buffer 0
    match token.type with
    | .unknown => ([], pure ⟨.unknow, 0, buffer⟩)
    | .bulkString => parseCommandTracedFrom rounds (buffer.drop (token.endPos + 1))
    | .array =>
      let (tokens, outcome) := parseArrayTraced buffer token.length position
      (tokens.map fun token => (buffer, token), outcome)

/-- `parseCommand` with an account of the tokens that strings are built from. -/
def parseCommandTraced (buffer : Bytes) : List (Bytes × ParsedToken) × Exec Parsed :=
  parseCommandTracedFrom (buffer.length + 1) buffer

/-- The account leaves the parser what it is. -/
theorem parseCommandTraced_snd (buffer : Bytes) :
    (parseCommandTraced buffer).2 = parseCommand buffer := by
  rw [parseCommandTraced, parseCommand]
  generalize buffer.length + 1 = rounds
  induction rounds generalizing buffer with
  | zero => rfl
  | succ rounds ih =>
    rw [parseCommandTracedFrom, parseCommandFrom]
    dsimp only
    cases (parse buffer 0).1.type with
    | unknown => rfl
    | bulkString => exact ih _
    | array => exact parseArrayTraced_snd _ _ _

/-- A token that is read somewhere in a buffer. -/
def ReadFrom (buffer : Bytes) (token : ParsedToken) : Prop :=
  ∃ position, (parse buffer position).1 = token

theorem Tokens.traced_read (buffer : Bytes) (parser : Tokens α) (position : Nat) :
    ∀ token ∈ (parser.traced buffer position).1, ReadFrom buffer token := by
  induction parser generalizing position with
  | done result => exact List.forall_mem_nil _
  | read next ih => exact List.forall_mem_cons.mpr ⟨⟨position, rfl⟩, ih _ _⟩

theorem parseArrayTraced_read (buffer : Bytes) (length position : Nat) :
    ∀ token ∈ (parseArrayTraced buffer length position).1, ReadFrom buffer token := by
  rw [parseArrayTraced]
  dsimp only
  split
  · exact List.forall_mem_singleton.mpr ⟨position, rfl⟩
  · exact List.forall_mem_cons.mpr ⟨⟨position, rfl⟩, Tokens.traced_read _ _ _⟩

/-- A buffer in which an array starts has bytes in it. -/
theorem ne_nil_of_array {buffer : Bytes} (array : (parse buffer 0).1.type = .array) :
    buffer ≠ [] := by
  rintro rfl
  cases array

/-- Every token that a string is built from is read from the buffer of its
moment, and there are bytes in it. -/
theorem parseCommandTraced_read (buffer : Bytes) :
    ∀ built ∈ (parseCommandTraced buffer).1, built.1 ≠ [] ∧ ReadFrom built.1 built.2 := by
  rw [parseCommandTraced]
  generalize buffer.length + 1 = rounds
  induction rounds generalizing buffer with
  | zero => exact List.forall_mem_nil _
  | succ rounds ih =>
    rw [parseCommandTracedFrom]
    dsimp only
    split
    · exact List.forall_mem_nil _
    · exact ih _
    · rename_i array
      intro built inside
      obtain ⟨token, taken, rfl⟩ := List.mem_map.mp inside
      exact ⟨ne_nil_of_array array, parseArrayTraced_read _ _ _ token taken⟩

/-- Whatever the read buffer holds, every string that is built from a token
and is not empty lies inside the buffer as it is then. -/
theorem parseCommand_inside (buffer : Bytes) :
    (parseCommandTraced buffer).2 = parseCommand buffer ∧
      ∀ built ∈ (parseCommandTraced buffer).1, built.2.Inside built.1 := by
  refine ⟨parseCommandTraced_snd buffer, fun built taken => ?_⟩
  obtain ⟨some_, position, read⟩ := parseCommandTraced_read buffer built taken
  rw [← read]
  exact parse_inside some_ position

end CarrotDb
