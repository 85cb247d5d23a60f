import CarrotDb.Resp
import Mathlib

/-! Parsing what the encoders wrote. The parser takes the declared length and
the span of a payload from separate scans: the length from the digits, the
span from the next carriage return. The two agree exactly when the payload
contains none. -/
namespace CarrotDb.Resp
open CarrotDb.Decimal

/-- A length is read modulo 2^64. -/
theorem foldl_u64 (text : Bytes) :
    text.foldl (fun number x => u64 (number * 10 + digitValue x)) 0 = u64 (ofDecimal text) := by
  have wrapped := foldl_mod (2 ^ 64) text 0
  rw [Nat.zero_mod, ← ofDecimal] at wrapped
  exact wrapped

/-- A numeral below 2^64 never wraps. -/
theorem foldl_u64_ofDecimal {text : Bytes} (small : ofDecimal text < 2 ^ 64) :
    text.foldl (fun number x => u64 (number * 10 + digitValue x)) 0 = ofDecimal text := by
  rw [foldl_u64, u64_of_lt small]

theorem foldl_u64_toDecimal {n : Nat} (small : n < 2 ^ 64) :
    (toDecimal n).foldl (fun number x => u64 (number * 10 + digitValue x)) 0 = n := by
  have value := ofDecimal_toDecimal n
  rw [foldl_u64_ofDecimal (value.symm ▸ small), value]

theorem convertPositiveFrom_digits {digits : Bytes} (all : ∀ x ∈ digits, isDigit x = true)
    (number : Nat) : convertPositiveFrom digits number =
      (true, digits.foldl (fun number x => u64 (number * 10 + digitValue x)) number) := by
  induction digits generalizing number with
  | nil => rfl
  | cons x rest ih =>
    rw [convertPositiveFrom, if_pos (all x (by simp)),
      ih (fun y member => all y (List.mem_cons_of_mem _ member)), List.foldl_cons]

theorem convertPositiveStringToNumber_toDecimal {n : Nat} (small : n < 2 ^ 64) :
    convertPositiveStringToNumber (toDecimal n) = (true, n) := by
  rw [convertPositiveStringToNumber, convertPositiveFrom_digits (toDecimal_digits n),
    foldl_u64_toDecimal small]

private theorem calculateLengthFrom_digits {digits : Bytes}
    (all : ∀ x ∈ digits, isDigit x = true) (rest : Bytes) (position length : Nat) :
    calculateLengthFrom (digits ++ 13 :: rest) position length =
      (true, digits.foldl (fun number x => u64 (number * 10 + digitValue x)) length,
        position + digits.length + 2) := by
  induction digits generalizing position length with
  | nil => simp [calculateLengthFrom]
  | cons x tail ih =>
    have digit := all x (by simp)
    have other : x ≠ 13 := by
      rintro rfl
      exact absurd digit (by decide)
    rw [List.cons_append, calculateLengthFrom, if_neg other, if_pos digit,
      ih (fun y member => all y (List.mem_cons_of_mem _ member)), List.foldl_cons,
      List.length_cons]
    congr 2
    omega

/-- A declared length is read back, and the position left behind its line. -/
theorem calculateLength_toDecimal {n : Nat} (held : Holds buffer position (toDecimal n ++ crlf))
    (small : n < 2 ^ 64) : calculateLength buffer position =
      (true, n, position + (toDecimal n).length + 2) := by
  obtain ⟨tail, split⟩ := held
  rw [calculateLength, ← split, crlf, List.append_assoc]
  exact (calculateLengthFrom_digits (toDecimal_digits n) _ _ _).trans
    (by rw [foldl_u64_toDecimal small])

/-- The part of a payload in front of its first carriage return. -/
def visible (arg : Bytes) : Bytes := arg.takeWhile (· ≠ 13)

theorem visible_clean {arg : Bytes} (clean : 13 ∉ arg) : visible arg = arg := by
  refine List.takeWhile_eq_self_iff.mpr fun x member => ?_
  refine decide_eq_true ?_
  rintro rfl
  exact clean member

theorem clean_of_visible {arg : Bytes} (whole : (visible arg).length = arg.length) : 13 ∉ arg := by
  have same : visible arg = arg := (List.takeWhile_prefix _).eq_of_length whole
  intro member
  have kept := List.takeWhile_eq_self_iff.mp same 13 member
  simp at kept

private theorem scanFrom_visible (arg rest : Bytes) (position : Nat) :
    scanFrom (arg ++ 13 :: rest) position = position + (visible arg).length := by
  induction arg generalizing position with
  | nil => simp [scanFrom, visible]
  | cons x tail ih =>
    by_cases stop : x = 13
    · subst stop
      simp [scanFrom, visible]
    · rw [List.cons_append, scanFrom, if_neg stop, ih]
      simp [visible, stop]
      omega

/-- Where the payload of a bulk string starts. -/
def payloadStart (position : Nat) (arg : Bytes) : Nat :=
  position + (toDecimal arg.length).length + 3

theorem encodeBulkString_length (arg : Bytes) :
    (encodeBulkString arg).length = (toDecimal arg.length).length + arg.length + 5 := by
  simp only [encodeBulkString, crlf, List.length_cons, List.length_append, List.length_nil]
  omega

private theorem takeWhile_toDecimal (n : Nat) (rest : Bytes) :
    (toDecimal n ++ 13 :: rest).takeWhile isDigit = toDecimal n := by
  rw [List.takeWhile_append_of_pos (toDecimal_digits n), List.takeWhile_cons_of_neg (by decide),
    List.append_nil]

/-- A bulk string is told by its encoding. -/
theorem encodeBulkString_injective : Function.Injective encodeBulkString := by
  intro a b same
  have shape : ∀ x : Bytes, encodeBulkString x =
      36 :: (toDecimal x.length ++ 13 :: (10 :: (x ++ crlf))) := by
    intro x
    simp [encodeBulkString, crlf]
  rw [shape, shape, List.cons.injEq] at same
  have digits := congrArg (List.takeWhile isDigit) same.2
  rw [takeWhile_toDecimal, takeWhile_toDecimal] at digits
  have tails := same.2
  rw [digits, List.append_cancel_left_eq, List.cons.injEq, List.cons.injEq] at tails
  exact List.append_cancel_right tails.2.2

/-- A count is told by its encoding. -/
theorem encodeInteger_injective {m n : Nat}
    (same : encodeInteger (m : Int) = encodeInteger (n : Int)) : m = n := by
  have texts := List.append_cancel_right (List.cons.inj same).2
  have numeral (k : Nat) : intToDecimal (k : Int) = toDecimal k := by simp [intToDecimal]
  rw [numeral, numeral] at texts
  exact toDecimal_injective texts

private theorem encodeBulkString_split (arg : Bytes) :
    encodeBulkString arg = (36 :: (toDecimal arg.length ++ crlf)) ++ (arg ++ crlf) := by
  simp [encodeBulkString]

private theorem readByte_some {position : Nat} (read : readByte buffer position = .ok byte) :
    buffer[position]? = some byte := by
  unfold readByte at read
  cases found : buffer[position]? with
  | none =>
    rw [found] at read
    cases read
  | some other =>
    rw [found] at read
    cases read
    rfl

/-- An array header yields its token. -/
theorem parse_arrayHeader {count : Nat} (held : Holds buffer position (encodeArrayHeader count))
    (small : count < 2 ^ 64) : parse buffer position =
      (⟨.array, 0, 0, count⟩, position + (encodeArrayHeader count).length) := by
  obtain ⟨star, line⟩ := holds_cons.mp held
  rw [parse, if_pos (readByte_some star), calculateLength_toDecimal line small]
  simp only [encodeArrayHeader, crlf, List.length_cons, List.length_append, List.length_nil]
  congr 1
  omega

/-- A bulk string yields the declared length, and the span up to the first
carriage return of the payload. -/
theorem parse_bulkString (held : Holds buffer position (encodeBulkString arg))
    (small : arg.length < 2 ^ 64) : parse buffer position =
      (⟨.bulkString, payloadStart position arg,
        payloadStart position arg + (visible arg).length - 1, arg.length⟩,
        payloadStart position arg + (visible arg).length + 2) := by
  rw [encodeBulkString_split] at held
  obtain ⟨front, payload⟩ := holds_append.mp held
  obtain ⟨dollar, line⟩ := holds_cons.mp front
  have noStar : buffer[position]? ≠ some 42 := by
    rw [readByte_some dollar]
    decide
  have start : position + 1 + (toDecimal arg.length).length + 2 = payloadStart position arg := by
    unfold payloadStart
    omega
  have same : position + (36 :: (toDecimal arg.length ++ crlf)).length =
      payloadStart position arg := by
    simp only [payloadStart, crlf, List.length_cons, List.length_append, List.length_nil]
    omega
  rw [same] at payload
  obtain ⟨tail, split⟩ := payload
  rw [parse, if_neg noStar, if_pos (readByte_some dollar), calculateLength_toDecimal line small]
  dsimp only
  rw [start, ← split, List.append_assoc, crlf, List.cons_append, scanFrom_visible]

/-- The text of that span. -/
theorem tokenText_bulkString (held : Holds buffer position (encodeBulkString arg)) (length : Nat) :
    tokenText buffer ⟨.bulkString, payloadStart position arg,
      payloadStart position arg + (visible arg).length - 1, length⟩ = visible arg := by
  rw [encodeBulkString_split] at held
  have payload := (holds_append.mp held).2
  have same : position + (36 :: (toDecimal arg.length ++ crlf)).length =
      payloadStart position arg := by
    simp only [payloadStart, crlf, List.length_cons, List.length_append, List.length_nil]
    omega
  rw [same] at payload
  obtain ⟨tail, split⟩ := payload
  obtain ⟨hidden, shape⟩ : visible arg <+: arg := List.takeWhile_prefix _
  have span : payloadStart position arg + (visible arg).length - 1 + 1 -
      payloadStart position arg = (visible arg).length := by
    unfold payloadStart
    omega
  rw [tokenText]
  dsimp only
  rw [span, ← split]
  have whole : arg ++ crlf ++ tail = visible arg ++ (hidden ++ (crlf ++ tail)) := by
    conv_lhs => rw [← shape]
    simp only [List.append_assoc]
  rw [whole, List.take_left]

/-- A payload without a carriage return is read back whole, and the next
token starts behind it. -/
theorem parse_clean (held : Holds buffer position (encodeBulkString arg))
    (small : arg.length < 2 ^ 64) (clean : 13 ∉ arg) :
    ∃ token, parse buffer position = (token, position + (encodeBulkString arg).length) ∧
      token.type = .bulkString ∧ tokenText buffer token = arg := by
  have text := tokenText_bulkString held arg.length
  have parsed := parse_bulkString held small
  rw [visible_clean clean] at text parsed
  refine ⟨_, ?_, rfl, text⟩
  rw [parsed, encodeBulkString_length]
  congr 1
  unfold payloadStart
  omega

/-! ## Whole arrays -/

/-- A number of successive `Parse` calls: their tokens, and the position
behind the last. -/
def parseTokens (buffer : Bytes) : Nat → Nat → List ParsedToken × Nat
  | 0, position => ([], position)
  | count + 1, position =>
    let (token, position) := parse buffer position
    let (tokens, position) := parseTokens buffer count position
    (token :: tokens, position)

/-- A token that stands for an argument: its length is the argument's, its
span has that length, and the span's text is the argument. -/
structure Spans (buffer : Bytes) (token : ParsedToken) (arg : Bytes) : Prop where
  bulk : token.type = .bulkString
  declared : token.length = arg.length
  exactly : token.endPos + 1 = token.startPos + token.length
  text : tokenText buffer token = arg

/-- Parsing from the front gives the array token and one token for each
argument, and ends at the end of the buffer. -/
def ParsesTo (buffer : Bytes) (args : List Bytes) : Prop :=
  ∃ position tokens, parse buffer 0 = (⟨.array, 0, 0, args.length⟩, position) ∧
    parseTokens buffer args.length position = (tokens, buffer.length) ∧
    List.Forall₂ (Spans buffer) tokens args

private theorem parseTokens_clean {args : List Bytes}
    (held : Holds buffer position (args.flatMap encodeBulkString))
    (small : ∀ arg ∈ args, arg.length < 2 ^ 64) (clean : ∀ arg ∈ args, 13 ∉ arg) :
    ∃ tokens, parseTokens buffer args.length position =
        (tokens, position + (args.flatMap encodeBulkString).length) ∧
      List.Forall₂ (Spans buffer) tokens args := by
  induction args generalizing position with
  | nil => exact ⟨[], rfl, .nil⟩
  | cons arg rest ih =>
    rw [List.flatMap_cons] at held ⊢
    obtain ⟨first, others⟩ := holds_append.mp held
    obtain ⟨tokens, ran, spans⟩ := ih others
      (fun x member => small x (List.mem_cons_of_mem _ member))
      (fun x member => clean x (List.mem_cons_of_mem _ member))
    have whole := visible_clean (clean arg (by simp))
    have parsed := parse_bulkString first (small arg (by simp))
    have text := tokenText_bulkString first arg.length
    rw [whole] at parsed text
    have behind : payloadStart position arg + arg.length + 2 =
        position + (encodeBulkString arg).length := by
      rw [encodeBulkString_length]
      unfold payloadStart
      omega
    have spans' : Spans buffer ⟨.bulkString, payloadStart position arg,
        payloadStart position arg + arg.length - 1, arg.length⟩ arg := by
      refine ⟨rfl, rfl, ?_, text⟩
      dsimp only
      unfold payloadStart
      omega
    refine ⟨_ :: tokens, ?_, .cons spans' spans⟩
    rw [List.length_cons, parseTokens, parsed]
    dsimp only
    rw [behind, ran, List.length_append, Nat.add_assoc]

private theorem clean_of_parseTokens {args : List Bytes}
    (held : Holds buffer position (args.flatMap encodeBulkString))
    (small : ∀ arg ∈ args, arg.length < 2 ^ 64)
    (spans : List.Forall₂ (Spans buffer) (parseTokens buffer args.length position).1 args) :
    ∀ arg ∈ args, 13 ∉ arg := by
  induction args generalizing position with
  | nil => simp
  | cons arg rest ih =>
    rw [List.flatMap_cons] at held
    obtain ⟨first, others⟩ := holds_append.mp held
    have parsed := parse_bulkString first (small arg (by simp))
    rw [List.length_cons, parseTokens, parsed] at spans
    dsimp only at spans
    cases spans with
    | cons head tail =>
      have exactly := head.exactly
      dsimp only at exactly
      have whole : (visible arg).length = arg.length := by
        unfold payloadStart at exactly
        omega
      have behind : payloadStart position arg + (visible arg).length + 2 =
          position + (encodeBulkString arg).length := by
        rw [whole, encodeBulkString_length]
        unfold payloadStart
        omega
      rw [behind] at tail
      intro x member
      rcases List.mem_cons.mp member with rfl | later
      · exact clean_of_visible whole
      · exact ih others (fun y inside => small y (List.mem_cons_of_mem _ inside)) tail x later

private theorem holds_self (bytes : Bytes) : Holds bytes 0 bytes := List.prefix_rfl

theorem small_of_fits {args : List Bytes}
    (fits : (encodeBulkStringArray args).length < 2 ^ 64) :
    args.length < 2 ^ 64 ∧ ∀ arg ∈ args, arg.length < 2 ^ 64 := by
  have bound : args.length ≤ (args.flatMap encodeBulkString).length ∧
      ∀ arg ∈ args, arg.length ≤ (args.flatMap encodeBulkString).length := by
    clear fits
    induction args with
    | nil => simp
    | cons x rest ih =>
      rw [List.flatMap_cons, List.length_append, encodeBulkString_length, List.length_cons]
      refine ⟨by omega, fun arg member => ?_⟩
      rcases List.mem_cons.mp member with rfl | later
      · omega
      · have := ih.2 arg later
        omega
  rw [encodeBulkStringArray, List.length_append] at fits
  exact ⟨by omega, fun arg member => by have := bound.2 arg member; omega⟩

theorem clean_of_parsesTo {args : List Bytes}
    (fits : (encodeBulkStringArray args).length < 2 ^ 64)
    (parses : ParsesTo (encodeBulkStringArray args) args) : ∀ arg ∈ args, 13 ∉ arg := by
  obtain ⟨count, small⟩ := small_of_fits fits
  obtain ⟨header, others⟩ := holds_append.mp (holds_self (encodeBulkStringArray args))
  obtain ⟨position, tokens, first, rest, spans⟩ := parses
  rw [parse_arrayHeader header count] at first
  cases first
  have same := congrArg Prod.fst rest
  dsimp only at same
  rw [← same] at spans
  exact clean_of_parseTokens others small spans

theorem parsesTo_of_clean {args : List Bytes}
    (fits : (encodeBulkStringArray args).length < 2 ^ 64) (clean : ∀ arg ∈ args, 13 ∉ arg) :
    ParsesTo (encodeBulkStringArray args) args := by
  obtain ⟨count, small⟩ := small_of_fits fits
  obtain ⟨header, others⟩ := holds_append.mp (holds_self (encodeBulkStringArray args))
  obtain ⟨tokens, ran, spans⟩ := parseTokens_clean others small clean
  refine ⟨_, tokens, parse_arrayHeader header count, ?_, spans⟩
  rw [ran, encodeBulkStringArray, List.length_append, Nat.zero_add]

/-- An encoded argument list that fits a string parses back exactly when no
argument contains a carriage return. -/
theorem parsesTo_encoded_iff {args : List Bytes}
    (fits : (encodeBulkStringArray args).length < 2 ^ 64) :
    ParsesTo (encodeBulkStringArray args) args ↔ ∀ arg ∈ args, 13 ∉ arg :=
  ⟨clean_of_parsesTo fits, parsesTo_of_clean fits⟩

theorem parsesTo_encoded_iff_set : ParsesTo (encodeBulkStringArray [ascii "SET", ascii "$1\n*", []])
    [ascii "SET", ascii "$1\n*", []] ↔ ∀ arg ∈ [ascii "SET", ascii "$1\n*", []], 13 ∉ arg :=
  parsesTo_encoded_iff (by decide)

/-- A payload with a carriage return is cut there. -/
theorem parsesTo_fails_on_carriageReturn : ¬ ∀ args : List Bytes,
    (encodeBulkStringArray args).length < 2 ^ 64 → ParsesTo (encodeBulkStringArray args) args := by
  intro all
  have fits : (encodeBulkStringArray [ascii "a\rb"]).length < 2 ^ 64 := by decide
  exact clean_of_parsesTo fits (all _ fits) (ascii "a\rb") (by simp) (by decide)

end CarrotDb.Resp
