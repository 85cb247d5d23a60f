import CarrotDb.Machine
import CarrotDb.Lib.Decimal

/-! `utils/utils.h` and `parser/parser.cpp`: the wire format. The encoders
append to a buffer; the parser reads one token at a position of the read
buffer and leaves the position behind it. A token is a span of positions, so
whatever lies at the span is its text. -/
namespace CarrotDb.Resp
open CarrotDb.Decimal

/-- `"\r\n"`. -/
def crlf : Bytes := [13, 10]

def encodeSimpleString (str : Bytes) : Bytes := 43 :: (str ++ crlf)

def encodeBulkString (str : Bytes) : Bytes :=
  36 :: (toDecimal str.length ++ crlf ++ str ++ crlf)

def encodeNullBulkString : Bytes := ascii "$-1\r\n"

def encodeEmptyArray : Bytes := ascii "*0\r\n"

def encodeNullArray : Bytes := ascii "*-1\r\n"

def encodeInteger (value : Int) : Bytes := 58 :: (intToDecimal value ++ crlf)

/-- `encode_error` with its default error type. -/
def encodeError (message : Bytes) (errorType : Bytes := ascii "ERR") : Bytes :=
  45 :: (errorType ++ 32 :: (message ++ crlf))

def encodeArrayHeader (count : Nat) : Bytes := 42 :: (toDecimal count ++ crlf)

def encodeBulkStringArray (items : List Bytes) : Bytes :=
  encodeArrayHeader items.length ++ items.flatMap encodeBulkString

/-- The loop of `convert_positive_string_to_number`. -/
def convertPositiveFrom : Bytes → Nat → Bool × Nat
  | [], number => (true, number)
  | x :: rest, number =>
    if isDigit x then convertPositiveFrom rest (u64 (number * 10 + digitValue x))
    else (false, number)

/-- `convert_positive_string_to_number`: the verdict, and the number left in
the reference parameter, modulo 2^64. The empty string counts as zero. -/
def convertPositiveStringToNumber (s : Bytes) : Bool × Nat := convertPositiveFrom s 0

/-- The digit loop of `convert_string_to_number`. -/
def convertDigits : Bytes → Nat → Option Nat
  | [], number => some number
  | byte :: rest, number =>
    if isDigit byte then
      if number > (2 ^ 64 - 1) / 10 then none
      else if number * 10 > 2 ^ 64 - 1 - digitValue byte then none
      else convertDigits rest (number * 10 + digitValue byte)
    else none

/-- `convert_string_to_number`: an optional sign and at least one digit. -/
def convertStringToNumber (s : Bytes) : Option Int :=
  let (isNegative, digits) :=
    match s with
    | 45 :: rest => if rest = [] then (false, s) else (true, rest)
    | _ => (false, s)
  match digits with
  | [] => none
  | byte :: rest =>
    if isDigit byte then
      match convertDigits rest (digitValue byte) with
      | none => none
      | some number =>
        if isNegative then if number > 2 ^ 63 then none else some (i64 (-(number : Int)))
        else if number > 2 ^ 63 - 1 then none else some number
    else none

/-- `tolower` of a byte, in the C locale. -/
def toLower (byte : UInt8) : UInt8 := if 65 ≤ byte ∧ byte ≤ 90 then byte + 32 else byte

/-- `is_equal`. -/
def isEqual (s1 s2 : Bytes) : Bool := s1.map toLower == s2.map toLower

inductive TokenType where
  | array
  | bulkString
  | unknown
  deriving DecidableEq, Repr

/-- `ParsedToken`; both ends of the span are inclusive, so an empty span ends
in front of its start. -/
structure ParsedToken where
  type : TokenType
  startPos : Nat
  endPos : Nat
  length : Nat
  deriving DecidableEq, Repr

/-- The loop of `calculate_length` over the bytes from the position on: the
verdict, the length and the position left behind. -/
def calculateLengthFrom : Bytes → Nat → Nat → Bool × Nat × Nat
  | [], position, length => (true, length, position + 2)
  | x :: rest, position, length =>
    if x = 13 then (true, length, position + 2)
    else if isDigit x then
      calculateLengthFrom rest (position + 1) (u64 (length * 10 + digitValue x))
    else (false, length, position)

/-- `calculate_length`. -/
def calculateLength (buffer : Bytes) (position : Nat) : Bool × Nat × Nat :=
  calculateLengthFrom (buffer.drop position) position 0

/-- The scan for the end of a payload: the position of the next carriage
return, or the end of the buffer. -/
def scanFrom : Bytes → Nat → Nat
  | [], position => position
  | x :: rest, position => if x = 13 then position else scanFrom rest (position + 1)

/-- The token of an error. -/
def unknownToken : ParsedToken := ⟨.unknown, 0, 0, 0⟩

/-- `Parser::Parse`: the token and the position behind it. -/
def parse (buffer : Bytes) (position : Nat) : ParsedToken × Nat :=
  if buffer[position]? = some 42 then
    match calculateLength buffer (position + 1) with
    | (true, length, position) => (⟨.array, 0, 0, length⟩, position)
    | (false, _, position) => (unknownToken, position)
  else if buffer[position]? = some 36 then
    match calculateLength buffer (position + 1) with
    | (true, length, startPos) =>
      let behind := scanFrom (buffer.drop startPos) startPos
      (⟨.bulkString, startPos, behind - 1, length⟩, behind + 2)
    | (false, _, position) => (unknownToken, position)
  else (unknownToken, position)

/-- The text of a token's span. An empty span may lie behind the buffer. -/
def tokenText (buffer : Bytes) (token : ParsedToken) : Bytes :=
  (buffer.drop token.startPos).take (token.endPos + 1 - token.startPos)

/-! ## Reading back stored payloads -/

/-- Skips stray carriage returns and line feeds. -/
def skipCrlf : Bytes → Bytes
  | 13 :: rest => skipCrlf rest
  | 10 :: rest => skipCrlf rest
  | raw => raw

/-- The length loop of `parse_bulk_string_sequence`: the length and what
follows the digits, or `none` at a byte that is no digit. -/
def sequenceLength : Bytes → Nat → Option (Nat × Bytes)
  | [], len => some (len, [])
  | x :: rest, len =>
    if x = 13 then some (len, x :: rest)
    else if isDigit x then sequenceLength rest (u64 (len * 10 + digitValue x))
    else none

/-- `pos + len` on `size_t`, which wraps; a sum that is still inside the text
has not wrapped. -/
def positionBehind (raw : Bytes) (pos len : Nat) : Nat :=
  if pos + len ≤ raw.length then pos + len else u64 (pos + len)

/-- What a round of `parse_bulk_string_sequence` comes to: the end of the
text, a refusal behind the strings it has appended, or a string and the
position behind it. -/
inductive SequenceRound where
  | ended
  | refused (out : List Bytes)
  | item (payload : Bytes) (pos : Nat)
  deriving DecidableEq, Repr

/-- The part of a round behind the header: `text` is what follows the header
and `len` the length in it. `substr` stops at the end of the text. -/
def sequenceItem (raw text : Bytes) (len : Nat) : SequenceRound :=
  let behind := positionBehind raw (raw.length - text.length) len
  if behind > raw.length then .refused []
  else
    match raw.drop behind with
    | 13 :: 10 :: rest => .item (text.take len) (raw.length - rest.length)
    | _ => .refused [text.take len]

/-- One round of `parse_bulk_string_sequence` from a position on. -/
def sequenceRound (raw : Bytes) (pos : Nat) : SequenceRound :=
  match skipCrlf (raw.drop pos) with
  | [] => .ended
  | 36 :: first :: text =>
    if !isDigit first then .refused []
    else
      match sequenceLength (first :: text) 0 with
      | some (len, 13 :: 10 :: text) => sequenceItem raw text len
      | _ => .refused []
  | _ => .refused []

/-- The rounds of `parse_bulk_string_sequence` from a position on: the strings
read, and whether the whole sequence was well formed. `none` stands for a run
that needs more rounds. -/
def parseBulkStringSequenceFrom (raw : Bytes) : (rounds pos : Nat) → Option (List Bytes × Bool)
  | 0, _ => none
  | rounds + 1, pos =>
    match sequenceRound raw pos with
    | .ended => some ([], true)
    | .refused out => some (out, false)
    | .item payload pos =>
      (parseBulkStringSequenceFrom raw rounds pos).map fun (out, ok) => (payload :: out, ok)

/-- `parse_bulk_string_sequence`. A run that returns visits no position twice,
so it needs no more rounds than these. -/
def parseBulkStringSequence (raw : Bytes) : List Bytes × Bool :=
  (parseBulkStringSequenceFrom raw (raw.length + 1) 0).getD ([], false)

end CarrotDb.Resp
