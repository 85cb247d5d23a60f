import CarrotDb.RespParsing
import CarrotDb.Lib.Rounds

/-! `parse_bulk_string_sequence` on arbitrary bytes. A length is added to a
position in 64 bits, so a header can lead back into text that has been read,
and the reader then goes around for ever or accepts what is no sequence. -/
namespace CarrotDb.Resp
open Decimal Relation Rounds

variable {raw text rest strays digits payload : Bytes} {pos next : Nat}

/-- Line ends, which are skipped wherever a bulk string may start. -/
def Stray (text : Bytes) : Prop := ∀ byte ∈ text, byte = 13 ∨ byte = 10

instance (text : Bytes) : Decidable (Stray text) := inferInstanceAs (Decidable (∀ _ ∈ _, _))

/-- What stands in front of a payload: line ends and a length in digits. -/
structure SequenceHeader where
  strays : Bytes
  digits : Bytes
  stray : Stray strays
  nonempty : digits ≠ []
  decimal : ∀ byte ∈ digits, isDigit byte = true

def SequenceHeader.bytes (header : SequenceHeader) : Bytes :=
  header.strays ++ 36 :: (header.digits ++ [13, 10])

/-- The length that is written, which may be any number. -/
def SequenceHeader.length (header : SequenceHeader) : Nat := ofDecimal header.digits

/-- A text is a sequence of bulk strings with these payloads, each as long as
its header says, with line ends only in between. -/
inductive BulkSequence : Bytes → List Bytes → Prop where
  | ending {strays : Bytes} (stray : Stray strays) : BulkSequence strays []
  | item {payload rest : Bytes} {payloads : List Bytes} (header : SequenceHeader)
    (exact : payload.length = header.length) (later : BulkSequence rest payloads) :
    BulkSequence (header.bytes ++ (payload ++ 13 :: 10 :: rest)) (payload :: payloads)

theorem skipCrlf_other {byte : UInt8} (other : ¬ (byte = 13 ∨ byte = 10)) (text : Bytes) :
    skipCrlf (byte :: text) = byte :: text := by
  rw [not_or] at other
  rw [skipCrlf] <;> simp [other.1, other.2]

theorem skipCrlf_stray (stray : Stray strays) (text : Bytes) :
    skipCrlf (strays ++ text) = skipCrlf text := by
  induction strays with
  | nil => rfl
  | cons byte strays ih =>
    have remaining := ih fun other member => stray other (List.mem_cons_of_mem _ member)
    rcases stray byte List.mem_cons_self with rfl | rfl <;> simpa [skipCrlf] using remaining

/-- Skipping takes line ends off the front, and nothing else. -/
theorem skipCrlf_split (text : Bytes) : ∃ strays, Stray strays ∧ text = strays ++ skipCrlf text := by
  induction text with
  | nil => exact ⟨[], List.forall_mem_nil _, rfl⟩
  | cons byte text ih =>
    obtain ⟨strays, stray, split⟩ := ih
    by_cases skipped : byte = 13 ∨ byte = 10
    · refine ⟨byte :: strays, List.forall_mem_cons.mpr ⟨skipped, stray⟩, ?_⟩
      rcases skipped with rfl | rfl <;> simpa [skipCrlf] using split
    · exact ⟨[], List.forall_mem_nil _, (skipCrlf_other skipped text).symm⟩

theorem sequenceLength_digits (decimal : ∀ x ∈ digits, isDigit x = true) (rest : Bytes) (len : Nat) :
    sequenceLength (digits ++ 13 :: rest) len =
      some (digits.foldl (fun number x => u64 (number * 10 + digitValue x)) len, 13 :: rest) := by
  induction digits generalizing len with
  | nil => rfl
  | cons x tail ih =>
    have digit := decimal x List.mem_cons_self
    have other : x ≠ 13 := by
      rintro rfl
      exact absurd digit (by decide)
    rw [List.cons_append, sequenceLength, if_neg other, if_pos digit,
      ih (fun y member => decimal y (List.mem_cons_of_mem _ member)), List.foldl_cons]

/-- What the length loop accepts is digits up to a carriage return. -/
theorem sequenceLength_some {len total : Nat} (ran : sequenceLength text len = some (total, 13 :: rest)) :
    ∃ digits, (∀ x ∈ digits, isDigit x = true) ∧ text = digits ++ 13 :: rest := by
  induction text generalizing len with
  | nil => simp [sequenceLength] at ran
  | cons x text ih =>
    rw [sequenceLength] at ran
    split at ran
    · rename_i mark
      cases ran
      exact ⟨[], List.forall_mem_nil _, rfl⟩
    · split at ran
      · rename_i digit
        obtain ⟨digits, decimal, rfl⟩ := ih ran
        exact ⟨x :: digits, List.forall_mem_cons.mpr ⟨digit, decimal⟩, rfl⟩
      · cases ran

/-- Behind a header the round goes on with the payload. -/
theorem sequenceRound_header (header : SequenceHeader) (here : raw.drop pos = header.bytes ++ text) :
    sequenceRound raw pos = sequenceItem raw text (u64 header.length) := by
  obtain ⟨strays, digits, stray, nonempty, decimal⟩ := header
  obtain ⟨first, others, rfl⟩ := List.exists_cons_of_ne_nil nonempty
  have digit : isDigit first = true := decimal first List.mem_cons_self
  have read := sequenceLength_digits decimal (10 :: text) 0
  rw [foldl_u64] at read
  have shape : raw.drop pos = strays ++ 36 :: first :: (others ++ 13 :: 10 :: text) := by
    simpa [SequenceHeader.bytes] using here
  have skipped : skipCrlf (36 :: first :: (others ++ 13 :: 10 :: text)) =
      36 :: first :: (others ++ 13 :: 10 :: text) := skipCrlf_other (by decide) _
  rw [List.cons_append] at read
  rw [sequenceRound, shape, skipCrlf_stray stray, skipped]
  simp only [digit, Bool.not_true, Bool.false_eq_true, ↓reduceIte, read, SequenceHeader.length]

theorem sequenceRound_stray (stray : Stray (raw.drop pos)) : sequenceRound raw pos = .ended := by
  have skipped := skipCrlf_stray stray []
  rw [List.append_nil] at skipped
  rw [sequenceRound, skipped]
  rfl

/-- A round ends the text, comes behind a header, or refuses what it sees. -/
theorem sequenceRound_cases (raw : Bytes) (pos : Nat) :
    Stray (raw.drop pos) ∨ (∃ header : SequenceHeader, header.bytes <+: raw.drop pos) ∨
      sequenceRound raw pos = .refused [] := by
  obtain ⟨strays, stray, split⟩ := skipCrlf_split (raw.drop pos)
  rw [sequenceRound]
  split
  · rename_i ended
    rw [ended, List.append_nil] at split
    exact .inl (split ▸ stray)
  · rename_i first text skipped
    split
    · exact .inr (.inr rfl)
    · rename_i digit
      split
      · rename_i len text' read
        obtain ⟨digits, decimal, shape⟩ := sequenceLength_some read
        have nonempty : digits ≠ [] := by
          rintro rfl
          cases shape
          exact absurd digit (by decide)
        refine .inr (.inl ⟨⟨strays, digits, stray, nonempty, decimal⟩, text', ?_⟩)
        rw [split, skipped, shape]
        simp [SequenceHeader.bytes]
      · exact .inr (.inr rfl)
  · exact .inr (.inr rfl)

theorem positionBehind_inside {len : Nat} (inside : pos + len ≤ raw.length) :
    positionBehind raw pos len = pos + len := if_pos inside

/-- In a text that has a `size_t` for its size, the sum is taken in 64 bits. -/
theorem positionBehind_eq (small : raw.length < 2 ^ 64) (pos len : Nat) :
    positionBehind raw pos len = u64 (pos + len) := by
  unfold positionBehind
  split
  · rw [u64_of_lt (by omega)]
  · rfl

/-- The payload is followed by a line end. -/
theorem sequenceItem_closed {len behind : Nat}
    (found : positionBehind raw (raw.length - text.length) len = behind)
    (closed : crlf <+: raw.drop behind) :
    sequenceItem raw text len = .item (text.take len) (behind + 2) := by
  obtain ⟨rest, split⟩ := closed
  have size := congrArg List.length split
  simp only [crlf, List.cons_append, List.nil_append, List.length_cons, List.length_drop] at size split
  rw [sequenceItem, found, ← split]
  simp only
  rw [if_neg (by omega)]
  congr 1
  omega

/-- It is not, or it would end behind the text. -/
theorem sequenceItem_open {len behind : Nat}
    (found : positionBehind raw (raw.length - text.length) len = behind)
    (notClosed : ¬ crlf <+: raw.drop behind) : ∃ out, sequenceItem raw text len = .refused out := by
  rw [sequenceItem, found]
  split
  · exact ⟨_, rfl⟩
  · split
    · rename_i rest split
      exact absurd ⟨rest, split.symm⟩ notClosed
    · exact ⟨_, rfl⟩

/-- The header that the encoder writes. -/
def SequenceHeader.ofLength (n : Nat) : SequenceHeader :=
  ⟨[], toDecimal n, List.forall_mem_nil _, toDecimal_ne_nil n, toDecimal_digits n⟩

@[simp] theorem SequenceHeader.length_ofLength (n : Nat) : (ofLength n).length = n :=
  ofDecimal_toDecimal n

theorem encodeBulkString_header (item rest : Bytes) :
    encodeBulkString item ++ rest =
      (SequenceHeader.ofLength item.length).bytes ++ (item ++ 13 :: 10 :: rest) := by
  simp [SequenceHeader.ofLength, SequenceHeader.bytes, encodeBulkString, crlf]

/-- One stored string is read back whatever its bytes are. -/
theorem sequenceRound_encoded {item : Bytes} (small : item.length < 2 ^ 64)
    (here : raw.drop pos = encodeBulkString item ++ rest) :
    sequenceRound raw pos = .item item (pos + (encodeBulkString item).length) := by
  have size := congrArg List.length here
  have written := congrArg List.length (encodeBulkString_header item [])
  simp only [List.length_drop, List.length_append, List.length_cons, List.length_nil] at size written
  have closed : crlf <+: raw.drop (pos + (SequenceHeader.ofLength item.length).bytes.length +
      item.length) := by
    rw [← List.drop_drop, ← List.drop_drop, here, encodeBulkString_header, List.drop_left,
      List.drop_left]
    exact ⟨rest, rfl⟩
  rw [encodeBulkString_header] at here
  have shape := congrArg List.length here
  have filled : 0 < (SequenceHeader.ofLength item.length).bytes.length := by
    simp [SequenceHeader.bytes]
  simp only [List.length_drop, List.length_append, List.length_cons] at shape
  have start : raw.length - (item ++ 13 :: 10 :: rest).length =
      pos + (SequenceHeader.ofLength item.length).bytes.length := by
    simp only [List.length_append, List.length_cons]
    omega
  rw [sequenceRound_header _ here, SequenceHeader.length_ofLength, u64_of_lt small,
    sequenceItem_closed (by rw [start]; exact positionBehind_inside (by omega)) closed, List.take_left]
  congr 1
  omega

/-- Stored strings are read back from any position on. -/
theorem parseBulkStringSequenceFrom_items {items : List Bytes}
    (small : ∀ item ∈ items, item.length < 2 ^ 64) {rounds : Nat} (enough : items.length < rounds)
    (here : raw.drop pos = items.flatMap encodeBulkString) :
    parseBulkStringSequenceFrom raw rounds pos = some (items, true) := by
  induction items generalizing rounds pos with
  | nil =>
    obtain ⟨rounds, rfl⟩ := Nat.exists_eq_succ_of_ne_zero (Nat.ne_of_gt enough)
    rw [parseBulkStringSequenceFrom, sequenceRound_stray]
    rw [here]
    exact List.forall_mem_nil _
  | cons item rest ih =>
    obtain ⟨rounds, rfl⟩ := Nat.exists_eq_succ_of_ne_zero (Nat.ne_of_gt (Nat.zero_lt_of_lt enough))
    rw [List.flatMap_cons] at here
    have later : raw.drop (pos + (encodeBulkString item).length) = rest.flatMap encodeBulkString := by
      rw [← List.drop_drop, here, List.drop_left]
    rw [parseBulkStringSequenceFrom, sequenceRound_encoded (small item List.mem_cons_self) here]
    simp only [ih (fun other member => small other (List.mem_cons_of_mem _ member))
      (Nat.lt_of_succ_lt_succ enough) later, Option.map_some]

/-- Where the payload of a header at this position ends, by the length that is
written. -/
def SequenceHeader.endAt (header : SequenceHeader) (pos : Nat) : Nat :=
  pos + header.bytes.length + header.length

/-- The reader goes over the bulk string of a header, from one position to the
next. It finds the end of the payload in 64 bits. -/
structure Jump (raw : Bytes) (header : SequenceHeader) (pos next : Nat) : Prop where
  read : header.bytes <+: raw.drop pos
  closed : crlf <+: raw.drop (u64 (header.endAt pos))
  next : next = u64 (header.endAt pos) + 2

def Jumps (raw : Bytes) (pos next : Nat) : Prop := ∃ header, Jump raw header pos next

/-- A bulk string whose end is not where its length says, but back from there
by a multiple of 2^64. -/
def Overflows (raw : Bytes) (pos next : Nat) : Prop :=
  ∃ header, Jump raw header pos next ∧ 2 ^ 64 ≤ header.endAt pos

/-- There is neither a bulk string nor the end of the text. -/
def Stuck (raw : Bytes) (pos : Nat) : Prop :=
  ¬ Stray (raw.drop pos) ∧ ∀ next, ¬ Jumps raw pos next

/-- The state of the loop is its position. -/
def nextPosition (raw : Bytes) (pos : Nat) : Option Nat :=
  match sequenceRound raw pos with
  | .item _ next => some next
  | _ => none

theorem SequenceHeader.positionBehind_endAt (header : SequenceHeader) (small : raw.length < 2 ^ 64)
    (here : raw.drop pos = header.bytes ++ text) :
    positionBehind raw (raw.length - text.length) (u64 header.length) = u64 (header.endAt pos) := by
  have size := congrArg List.length here
  have filled : 0 < header.bytes.length := by simp [SequenceHeader.bytes]
  simp only [List.length_drop, List.length_append] at size
  have start : raw.length - text.length = pos + header.bytes.length := by omega
  rw [positionBehind_eq small, start, SequenceHeader.endAt]
  unfold u64
  omega

theorem Jump.round {header : SequenceHeader} (jump : Jump raw header pos next)
    (small : raw.length < 2 ^ 64) (here : raw.drop pos = header.bytes ++ text) :
    sequenceRound raw pos = .item (text.take (u64 header.length)) next := by
  rw [sequenceRound_header header here, jump.next]
  exact sequenceItem_closed (header.positionBehind_endAt small here) jump.closed

theorem leads_of_jumps (small : raw.length < 2 ^ 64) (jumps : Jumps raw pos next) :
    Leads (nextPosition raw) pos next := by
  obtain ⟨header, jump⟩ := jumps
  obtain ⟨text, here⟩ := jump.read
  rw [Leads, nextPosition, jump.round small here.symm]

/-- A round goes over a bulk string, or it ends the loop, with the verdict
that the position deserves. -/
theorem sequenceRound_meaning (small : raw.length < 2 ^ 64) (pos : Nat) :
    Stray (raw.drop pos) ∧ sequenceRound raw pos = .ended ∨
    (∃ next, Jumps raw pos next) ∨
    Stuck raw pos ∧ ∃ out, sequenceRound raw pos = .refused out := by
  have stuck {out : List Bytes} (refused : sequenceRound raw pos = .refused out) : Stuck raw pos := by
    refine ⟨fun stray => ?_, fun next jumps => ?_⟩
    · rw [sequenceRound_stray stray] at refused
      cases refused
    · have leads : Leads (nextPosition raw) pos next := leads_of_jumps small jumps
      rw [Leads, nextPosition, refused] at leads
      cases leads
  rcases sequenceRound_cases raw pos with stray | ⟨header, text, here⟩ | refused
  · exact .inl ⟨stray, sequenceRound_stray stray⟩
  · by_cases closed : crlf <+: raw.drop (u64 (header.endAt pos))
    · exact .inr (.inl ⟨_, header, ⟨text, here⟩, closed, rfl⟩)
    · obtain ⟨out, refused⟩ :=
        sequenceItem_open (header.positionBehind_endAt small here.symm) closed
      rw [← sequenceRound_header header here.symm] at refused
      exact .inr (.inr ⟨stuck refused, out, refused⟩)
  · exact .inr (.inr ⟨stuck refused, [], refused⟩)

theorem leads_iff (small : raw.length < 2 ^ 64) :
    Leads (nextPosition raw) pos next ↔ Jumps raw pos next := by
  refine ⟨fun leads => ?_, leads_of_jumps small⟩
  rcases sequenceRound_meaning small pos with ⟨-, ended⟩ | ⟨other, jumps⟩ | ⟨-, out, refused⟩
  · rw [Leads, nextPosition, ended] at leads
    cases leads
  · rwa [leads_unique leads (leads_of_jumps small jumps)]
  · rw [Leads, nextPosition, refused] at leads
    cases leads

theorem leads_eq (small : raw.length < 2 ^ 64) : Leads (nextPosition raw) = Jumps raw := by
  ext pos next
  exact leads_iff small

theorem parseBulkStringSequenceFrom_isSome (raw : Bytes) (rounds pos : Nat) :
    (parseBulkStringSequenceFrom raw rounds pos).isSome = returns (nextPosition raw) rounds pos := by
  induction rounds generalizing pos with
  | zero => rfl
  | succ rounds ih =>
    rw [parseBulkStringSequenceFrom, returns, nextPosition]
    cases sequenceRound raw pos with
    | ended => rfl
    | refused out => rfl
    | item payload next => simpa using ih next

/-- More rounds change nothing once the loop has returned. -/
theorem parseBulkStringSequenceFrom_more {rounds more : Nat} {result : List Bytes × Bool}
    (ran : parseBulkStringSequenceFrom raw rounds pos = some result)
    (returned : (parseBulkStringSequenceFrom raw more pos).isSome) :
    parseBulkStringSequenceFrom raw more pos = some result := by
  induction rounds generalizing pos more result with
  | zero => cases ran
  | succ rounds ih =>
    cases more with
    | zero => cases returned
    | succ more =>
      rw [parseBulkStringSequenceFrom] at ran returned ⊢
      cases round : sequenceRound raw pos with
      | ended => rwa [round] at ran
      | refused out => rwa [round] at ran
      | item payload next =>
        rw [round] at ran returned
        obtain ⟨earlier, first, rfl⟩ := Option.map_eq_some_iff.mp ran
        rw [Option.isSome_map] at returned
        simp only [ih first returned, Option.map_some]

theorem Jump.inside {header : SequenceHeader} (jump : Jump raw header pos next) : next ≤ raw.length := by
  have room := jump.closed.length_le
  have size := jump.next
  simp only [crlf, List.length_cons, List.length_nil, List.length_drop] at room
  omega

/-- The rounds that the model gives to the loop suffice, if any do. -/
theorem parseBulkStringSequence_of_run (small : raw.length < 2 ^ 64) {rounds : Nat}
    {result : List Bytes × Bool} (ran : parseBulkStringSequenceFrom raw rounds 0 = some result) :
    parseBulkStringSequence raw = result := by
  have closed : ∀ pos ∈ Finset.range (raw.length + 1), ∀ next, Leads (nextPosition raw) pos next →
      next ∈ Finset.range (raw.length + 1) := by
    intro pos _ next leads
    obtain ⟨header, jump⟩ := (leads_iff small).mp leads
    exact Finset.mem_range.mpr (Nat.lt_succ_of_le jump.inside)
  have returned : returns (nextPosition raw) rounds 0 = true := by
    rw [← parseBulkStringSequenceFrom_isSome, ran]
    rfl
  have within := returns_within closed (Finset.mem_range.mpr (Nat.succ_pos _)) returned
  rw [Finset.card_range, ← parseBulkStringSequenceFrom_isSome] at within
  rw [parseBulkStringSequence, parseBulkStringSequenceFrom_more ran within]
  rfl

theorem Stray.not_jumps (stray : Stray (raw.drop pos)) (small : raw.length < 2 ^ 64) :
    ¬ Jumps raw pos next := by
  intro jumps
  have leads : Leads (nextPosition raw) pos next := leads_of_jumps small jumps
  rw [Leads, nextPosition, sequenceRound_stray stray] at leads
  cases leads

/-- The verdict is decided by the position at which the loop stops. -/
theorem parse_final (small : raw.length < 2 ^ 64) {rounds : Nat} {out : List Bytes} {ok : Bool}
    (ran : parseBulkStringSequenceFrom raw rounds pos = some (out, ok)) :
    ∃ final, ReflTransGen (Jumps raw) pos final ∧
      (ok = true ∧ Stray (raw.drop final) ∨ ok = false ∧ Stuck raw final) := by
  induction rounds generalizing pos out with
  | zero => cases ran
  | succ rounds ih =>
    rw [parseBulkStringSequenceFrom] at ran
    rcases sequenceRound_meaning small pos with ⟨stray, ended⟩ | ⟨next, jumps⟩ | ⟨stuck, out', refused⟩
    · rw [ended] at ran
      cases ran
      exact ⟨pos, .refl, .inl ⟨rfl, stray⟩⟩
    · obtain ⟨header, jump⟩ := jumps
      obtain ⟨text, here⟩ := jump.read
      rw [jump.round small here.symm] at ran
      obtain ⟨⟨later, verdict⟩, first, same⟩ := Option.map_eq_some_iff.mp ran
      cases same
      obtain ⟨final, reached, decided⟩ := ih first
      exact ⟨final, .head ⟨header, jump⟩ reached, decided⟩
    · rw [refused] at ran
      cases ran
      exact ⟨pos, .refl, .inr ⟨rfl, stuck⟩⟩

/-- The loop that can stop at a position behind its own returns. -/
theorem parse_returns (small : raw.length < 2 ^ 64) {final : Nat}
    (reached : ReflTransGen (Jumps raw) pos final) (stop : ∀ next, ¬ Jumps raw final next) :
    ∃ rounds out ok, parseBulkStringSequenceFrom raw rounds pos = some (out, ok) := by
  have none : nextPosition raw final = none := by
    cases leads : nextPosition raw final with
    | none => rfl
    | some next => exact absurd ((leads_iff small).mp leads) (stop next)
  rw [← leads_eq small] at reached
  obtain ⟨rounds, returned⟩ := returns_iff.mpr ⟨final, reached, none⟩
  rw [← parseBulkStringSequenceFrom_isSome, Option.isSome_iff_exists] at returned
  obtain ⟨⟨out, ok⟩, ran⟩ := returned
  exact ⟨rounds, out, ok, ran⟩

/-- Two positions that a loop stops at are one. -/
theorem final_unique (small : raw.length < 2 ^ 64) {first second : Nat}
    (reached : ReflTransGen (Jumps raw) pos first) (stop : ∀ next, ¬ Jumps raw first next)
    (reached' : ReflTransGen (Jumps raw) pos second) : ReflTransGen (Jumps raw) second first := by
  have unique : Relator.RightUnique (Jumps raw) := leads_eq small ▸ leads_unique
  rcases ReflTransGen.total_of_right_unique unique reached reached' with forward | backward
  · rcases forward.cases_head with rfl | ⟨next, jumps, -⟩
    · exact .refl
    · exact absurd jumps (stop next)
  · exact backward

/-! ## What is accepted -/

/-- No position that is reached leads past 2^64. -/
def NoOverflow (raw : Bytes) (pos : Nat) : Prop :=
  ∀ p next, ReflTransGen (Jumps raw) pos p → ¬ Overflows raw p next

theorem NoOverflow.behind (plain : NoOverflow raw pos) (jumps : Jumps raw pos next) :
    NoOverflow raw next := fun p after reached => plain p after (.head jumps reached)

theorem NoOverflow.endAt_lt (plain : NoOverflow raw pos) {header : SequenceHeader}
    (jump : Jump raw header pos next) : header.endAt pos < 2 ^ 64 :=
  Nat.lt_of_not_le fun long => plain pos next .refl ⟨header, jump, long⟩

/-- Line ends and digits are told from what follows them. -/
theorem SequenceHeader.unique {first second : SequenceHeader} {text' : Bytes}
    (same : first.bytes ++ text = second.bytes ++ text') : first = second := by
  have front (header : SequenceHeader) (rest : Bytes) :
      (header.bytes ++ rest).takeWhile (fun byte => byte = 13 || byte = 10) = header.strays := by
    have skipped : ∀ byte ∈ header.strays, (decide (byte = 13) || decide (byte = 10)) = true := by
      intro byte member
      simpa using header.stray byte member
    rw [SequenceHeader.bytes, List.append_assoc, List.takeWhile_append_of_pos skipped]
    simp
  have numeral (header : SequenceHeader) (rest : Bytes) :
      (header.digits ++ [13, 10] ++ rest).takeWhile isDigit = header.digits := by
    rw [List.append_assoc, List.takeWhile_append_of_pos header.decimal]
    simp [isDigit]
  have strays : first.strays = second.strays := by
    rw [← front first text, same, front second text']
  have digits : first.digits = second.digits := by
    simp only [SequenceHeader.bytes, strays, List.append_assoc, List.append_cancel_left_eq,
      List.cons_append, List.cons.injEq, true_and] at same
    rw [← numeral first text, ← numeral second text', List.append_assoc, List.append_assoc]
    exact congrArg (List.takeWhile isDigit) same
  cases first
  cases second
  cases strays
  cases digits
  rfl

/-- In a sequence no length leads past the end of the text. -/
theorem BulkSequence.noOverflow (sequence : BulkSequence text payloads) (small : raw.length < 2 ^ 64)
    (here : raw.drop pos = text) : NoOverflow raw pos := by
  induction sequence generalizing pos with
  | ending stray =>
    intro p next reached overflows
    have none {after : Nat} : ¬ Jumps raw pos after :=
      Stray.not_jumps (by rw [here]; exact stray) small
    rcases reached.cases_head with rfl | ⟨after, jumps, -⟩
    · obtain ⟨header, jump, -⟩ := overflows
      exact none ⟨header, jump⟩
    · exact none jumps
  | @item payload rest payloads header exact later ih =>
    have size := congrArg List.length here
    simp only [List.length_drop, List.length_append, List.length_cons] at size
    have fits : header.endAt pos + 2 ≤ raw.length := by
      rw [SequenceHeader.endAt]
      omega
    have only {header' : SequenceHeader} {after : Nat} (jump : Jump raw header' pos after) :
        header' = header := by
      obtain ⟨text, split⟩ := jump.read
      exact SequenceHeader.unique (split.trans here)
    intro p next reached overflows
    rcases reached.cases_head with rfl | ⟨after, ⟨header', jump⟩, further⟩
    · obtain ⟨header', jump, long⟩ := overflows
      rw [only jump] at long
      omega
    · have next := jump.next
      rw [only jump, u64_of_lt (by omega)] at next
      refine ih ?_ p _ further overflows
      rw [next, SequenceHeader.endAt, ← exact, Nat.add_assoc, Nat.add_assoc, ← List.drop_drop, here,
        ← List.drop_drop, List.drop_left, ← List.drop_drop, List.drop_left]
      rfl

/-- Without an overflow, what is accepted is a sequence of the strings that
have been appended. -/
theorem NoOverflow.sequence (plain : NoOverflow raw pos) (small : raw.length < 2 ^ 64) {rounds : Nat}
    {out : List Bytes} (ran : parseBulkStringSequenceFrom raw rounds pos = some (out, true)) :
    BulkSequence (raw.drop pos) out := by
  induction rounds generalizing pos out with
  | zero => cases ran
  | succ rounds ih =>
    rw [parseBulkStringSequenceFrom] at ran
    rcases sequenceRound_meaning small pos with ⟨stray, ended⟩ | ⟨next, jumps⟩ | ⟨stuck, out', refused⟩
    · rw [ended] at ran
      cases ran
      exact .ending stray
    · obtain ⟨header, jump⟩ := jumps
      obtain ⟨text, here⟩ := jump.read
      have behind := jump.next
      have closed := jump.closed
      rw [jump.round small here.symm] at ran
      obtain ⟨⟨later, verdict⟩, first, same⟩ := Option.map_eq_some_iff.mp ran
      cases same
      have sequence := ih (plain.behind ⟨header, jump⟩) first
      -- The end of the payload is where its length says.
      have room := jump.inside
      rw [u64_of_lt (plain.endAt_lt jump)] at behind closed
      obtain ⟨rest, split⟩ := closed
      have rest_eq : raw.drop next = rest := by
        rw [behind, ← List.drop_drop, ← split]
        rfl
      have text_eq : raw.drop (pos + header.bytes.length) = text := by
        rw [← List.drop_drop, ← here, List.drop_left]
      have tail : text.drop header.length = 13 :: 10 :: rest := by
        rw [← text_eq, List.drop_drop, ← SequenceHeader.endAt, ← split]
        rfl
      have size := congrArg List.length here
      simp only [List.length_drop, List.length_append] at size
      have short : header.length < 2 ^ 64 := by
        have bound := plain.endAt_lt jump
        rw [SequenceHeader.endAt] at bound
        omega
      have exact : (text.take header.length).length = header.length := by
        rw [SequenceHeader.endAt] at behind
        rw [List.length_take]
        omega
      have shape : raw.drop pos = header.bytes ++ (text.take header.length ++ 13 :: 10 :: rest) := by
        rw [← tail, List.take_append_drop, here]
      rw [rest_eq] at sequence
      rw [shape, u64_of_lt short]
      exact .item header exact sequence
    · rw [refused] at ran
      cases ran

/-- Without an overflow the position only moves on, so the loop stops. -/
theorem NoOverflow.stops (plain : NoOverflow raw pos) :
    ∃ final, ReflTransGen (Jumps raw) pos final ∧ ∀ next, ¬ Jumps raw final next := by
  induction left : raw.length - pos using Nat.strong_induction_on generalizing pos with
  | _ left ih =>
    by_cases more : ∃ next, Jumps raw pos next
    · obtain ⟨next, header, jump⟩ := more
      have behind := jump.next
      have inside := jump.inside
      rw [u64_of_lt (plain.endAt_lt jump), SequenceHeader.endAt] at behind
      obtain ⟨final, reached, stop⟩ :=
        ih (raw.length - next) (by omega) (plain.behind ⟨header, jump⟩) rfl
      exact ⟨final, .head ⟨header, jump⟩ reached, stop⟩
    · exact ⟨pos, .refl, fun next jumps => more ⟨next, jumps⟩⟩

/-! ## The verdict -/

/-- The loop returns, and what it accepts is a sequence of bulk strings with
the payloads that it has appended. -/
def SequenceSound (raw : Bytes) : Prop :=
  ∃ rounds out ok, parseBulkStringSequenceFrom raw rounds 0 = some (out, ok) ∧
    (ok = true → BulkSequence raw out)

/-- Wherever a length leads past 2^64 and back into the text, reading on from
there comes to a position with neither a bulk string nor the end of the text. -/
def OverflowsStick (raw : Bytes) : Prop :=
  ∀ pos next, ReflTransGen (Jumps raw) 0 pos → Overflows raw pos next →
    ∃ final, ReflTransGen (Jumps raw) next final ∧ Stuck raw final

theorem Overflows.jumps (overflows : Overflows raw pos next) : Jumps raw pos next := by
  obtain ⟨header, jump, -⟩ := overflows
  exact ⟨header, jump⟩

theorem SequenceSound.overflowsStick (sound : SequenceSound raw) (small : raw.length < 2 ^ 64) :
    OverflowsStick raw := by
  obtain ⟨rounds, out, ok, ran, meaning⟩ := sound
  intro pos next reached overflows
  obtain ⟨final, stopped, ⟨rfl, -⟩ | ⟨-, stuck⟩⟩ := parse_final small ran
  · exact absurd overflows ((meaning rfl).noOverflow small rfl pos next reached)
  · have passed : ReflTransGen (Jumps raw) 0 next := reached.tail overflows.jumps
    exact ⟨final, final_unique small stopped stuck.2 passed, stuck⟩

theorem OverflowsStick.sequenceSound (stick : OverflowsStick raw) (small : raw.length < 2 ^ 64) :
    SequenceSound raw := by
  by_cases plain : NoOverflow raw 0
  · obtain ⟨final, reached, stop⟩ := plain.stops
    obtain ⟨rounds, out, ok, ran⟩ := parse_returns small reached stop
    refine ⟨rounds, out, ok, ran, ?_⟩
    rintro rfl
    exact plain.sequence small ran
  · simp only [NoOverflow, not_forall, not_not] at plain
    obtain ⟨pos, next, before, overflows⟩ := plain
    obtain ⟨final, after, stuck⟩ := stick pos next before overflows
    have reached : ReflTransGen (Jumps raw) 0 final := before.trans (.head overflows.jumps after)
    obtain ⟨rounds, out, ok, ran⟩ := parse_returns small reached stuck.2
    refine ⟨rounds, out, ok, ran, ?_⟩
    rintro rfl
    obtain ⟨other, reached', ⟨-, stray⟩ | ⟨wrong, -⟩⟩ := parse_final small ran
    · have same := final_unique small reached stuck.2 reached'
      rcases same.cases_head with rfl | ⟨after, jumps, -⟩
      · exact absurd stray stuck.1
      · exact absurd jumps (stray.not_jumps small)
    · cases wrong

/-- The loop returns, and accepts sequences of bulk strings only, exactly when
every overflow of a position is followed by a refusal. -/
theorem sequenceSound_iff (small : raw.length < 2 ^ 64) : SequenceSound raw ↔ OverflowsStick raw :=
  ⟨fun sound => sound.overflowsStick small, fun stick => stick.sequenceSound small⟩

/-- Lengths that are nowhere near 2^64 do no harm. -/
theorem sequenceSound_of_short (small : raw.length < 2 ^ 64)
    (short : ∀ (header : SequenceHeader) (pos : Nat), header.bytes <+: raw.drop pos →
      header.endAt pos < 2 ^ 64) : SequenceSound raw := by
  refine OverflowsStick.sequenceSound (fun pos next _ overflows => ?_) small
  obtain ⟨header, jump, long⟩ := overflows
  exact absurd (short header pos jump.read) (Nat.not_lt.mpr long)

/-- What the encoder writes is a sequence. -/
theorem bulkSequence_encoded (items : List Bytes) :
    BulkSequence (items.flatMap encodeBulkString) items := by
  induction items with
  | nil => exact .ending (List.forall_mem_nil _)
  | cons item items ih =>
    have sequence := BulkSequence.item (.ofLength item.length) (SequenceHeader.length_ofLength _).symm ih
    rwa [← encodeBulkString_header] at sequence

theorem sequenceSound_stored : OverflowsStick ([ascii "f", ascii "v"].flatMap encodeBulkString) :=
  (sequenceSound_iff (by decide)).mp
    ⟨3, [ascii "f", ascii "v"], true, by decide, fun _ => bulkSequence_encoded _⟩

/-- A length of 2^64 - 25 at the end of 25 bytes. -/
def circling : Bytes := ascii "\r\n$18446744073709551591\r\n"

/-- A length of 2^64 - 2: the line end behind it closes the payload as well. -/
def closing : Bytes := ascii "$18446744073709551614\r\n"

theorem circling_returns (rounds : Nat) : parseBulkStringSequenceFrom circling rounds 0 = none := by
  have around : ∀ pos ∈ ({0, 2} : Set Nat), ∃ next ∈ ({0, 2} : Set Nat),
      Leads (nextPosition circling) pos next := by
    rintro pos (rfl | rfl)
    · exact ⟨2, .inr rfl, (by decide : nextPosition circling 0 = some 2)⟩
    · exact ⟨2, .inr rfl, (by decide : nextPosition circling 2 = some 2)⟩
  have start : 0 ∈ ({0, 2} : Set Nat) := .inl rfl
  have never := never_returns around start rounds
  rw [← parseBulkStringSequenceFrom_isSome, Option.isSome_eq_false_iff, Option.isNone_iff_eq_none]
    at never
  exact never

theorem closing_overflows : Overflows closing 0 23 :=
  ⟨⟨[], ascii "18446744073709551614", List.forall_mem_nil _, by decide, List.all_eq_true.mp rfl⟩,
    ⟨by decide, by decide, by decide⟩, by decide +kernel⟩

/-- One text is gone around for ever, the other taken for an empty string. -/
theorem sequenceSound_fails :
    (∀ rounds, parseBulkStringSequenceFrom circling rounds 0 = none) ∧ ¬ SequenceSound circling ∧
    parseBulkStringSequence closing = ([[]], true) ∧ ¬ SequenceSound closing := by
  refine ⟨circling_returns, ?_, by decide, fun sound => ?_⟩
  · rintro ⟨rounds, out, ok, ran, -⟩
    rw [circling_returns] at ran
    cases ran
  · obtain ⟨final, reached, stuck⟩ :=
      sound.overflowsStick (by decide) 0 23 .refl closing_overflows
    have ended : Stray (closing.drop 23) := List.forall_mem_nil _
    rcases reached.cases_head with rfl | ⟨next, jumps, -⟩
    · exact stuck.1 ended
    · exact ended.not_jumps (by decide) jumps

end CarrotDb.Resp
