import CarrotDb.Resp
import CarrotDb.RadixTree

/-! `stream.h` and `stream.cpp`: a stream keeps its entries in a radix tree,
under keys that are the big-endian bytes of their identifiers. -/
namespace CarrotDb
open Decimal Resp RadixTree

/-- `StreamErrorType`. -/
inductive StreamErrorType where
  | ok
  | invalidIdFormat
  | idNotGreaterThanLast
  | notGreaterThanZero
  deriving DecidableEq, Repr

/-- `StreamStatus`. -/
structure StreamStatus where
  error : StreamErrorType
  streamid : Bytes
  deriving DecidableEq, Repr

/-- `StreamID`; both numbers are below 2^64. -/
structure StreamID where
  ms : Nat
  seq : Nat
  deriving DecidableEq, Repr

/-- Eight bytes of a 64-bit number, most significant first. -/
def bigEndian (n : Nat) : Bytes :=
  [n / 2 ^ 56, n / 2 ^ 48, n / 2 ^ 40, n / 2 ^ 32, n / 2 ^ 24, n / 2 ^ 16, n / 2 ^ 8, n].map
    fun shifted => UInt8.ofNat (shifted % 256)

/-- The number of a run of bytes, most significant first. -/
def ofBigEndian (bytes : Bytes) : Nat := bytes.foldl (fun n byte => n * 256 + byte.toNat) 0

/-- `StreamID::toBinary`. -/
def StreamID.toBinary (id : StreamID) : Bytes := bigEndian id.ms ++ bigEndian id.seq

/-- `StreamID::fromBinary`; shorter strings are read out of bounds. -/
def StreamID.fromBinary (string : Bytes) : Exec StreamID :=
  if 16 ≤ string.length then
    .ok ⟨ofBigEndian (string.take 8), ofBigEndian ((string.drop 8).take 8)⟩
  else .error .undefinedBehaviour

/-- `StreamID::isGreater`. -/
def StreamID.isGreater (id other : StreamID) : Bool :=
  if id.ms > other.ms then true
  else if id.ms < other.ms then false
  else id.seq > other.seq

/-- `StreamID::toString`. -/
def StreamID.toString (id : StreamID) : Bytes := toDecimal id.ms ++ 45 :: toDecimal id.seq

/-- `Stream`. -/
structure Stream where
  radixTreePtr : Option RadixTreeNode
  lastInsertStreamID : StreamID

/-- `Stream` as its constructor leaves it. -/
def Stream.new : Stream := ⟨none, ⟨0, 0⟩⟩

/-- `str.find('-')` and the texts in front of it and behind it. -/
def splitDash : Bytes → Option (Bytes × Bytes)
  | [] => none
  | 45 :: rest => some ([], rest)
  | byte :: rest => (splitDash rest).map fun (ms, seq) => (byte :: ms, seq)

/-- `Stream::fromString` at a reading of the system clock, in milliseconds. -/
def Stream.fromString (stream : Stream) (systemMs : Nat) (str : Bytes) : Option StreamID :=
  if str = ascii "*" then
    some ⟨u64 systemMs, if stream.lastInsertStreamID.ms = u64 systemMs then 1 else 0⟩
  else
    match splitDash str with
    | none => none
    | some (msStr, seqStr) =>
      match convertPositiveStringToNumber msStr with
      | (false, _) => none
      | (true, msVal) =>
        if seqStr = ascii "*" then
          if stream.lastInsertStreamID.ms = msVal then
            some ⟨msVal, u64 (stream.lastInsertStreamID.seq + 1)⟩
          else some ⟨msVal, 0⟩
        else
          match convertPositiveStringToNumber seqStr with
          | (false, _) => none
          | (true, seqVal) => some ⟨msVal, seqVal⟩

/-- `Stream::insert`. -/
def Stream.insert (stream : Stream) (systemMs : Nat) (streamId value : Bytes) :
    Stream × StreamStatus :=
  match stream.fromString systemMs streamId with
  | none => (stream, ⟨.invalidIdFormat, []⟩)
  | some sid =>
    if sid.ms = 0 ∧ sid.seq = 0 then (stream, ⟨.notGreaterThanZero, []⟩)
    else if (stream.lastInsertStreamID.ms ≠ 0 ∨ stream.lastInsertStreamID.seq ≠ 0) ∧
        sid.isGreater stream.lastInsertStreamID = false then
      (stream, ⟨.idNotGreaterThanLast, []⟩)
    else
      (⟨some (RadixTree.insert stream.radixTreePtr sid.toBinary value), sid⟩,
        ⟨.ok, sid.toString⟩)

/-- `Stream::fromStringForSearch`. -/
def fromStringForSearch (str : Bytes) (isEndKey : Bool) : Option StreamID :=
  if str = ascii "-" then some ⟨0, 0⟩
  else if str = ascii "+" then some ⟨2 ^ 64 - 1, 2 ^ 64 - 1⟩
  else
    let (msStr, seqStr) := (splitDash str).getD
      (str, if isEndKey then toDecimal (2 ^ 64 - 1) else ascii "0")
    match convertPositiveStringToNumber msStr with
    | (false, _) => none
    | (true, msVal) =>
      match convertPositiveStringToNumber seqStr with
      | (false, _) => none
      | (true, seqVal) => some ⟨msVal, seqVal⟩

/-- `Stream::xrangeData`: the entries of the range, or `none` where it
returns `false`. -/
def Stream.xrangeData (stream : Stream) (startStreamId endStreamId : Bytes) (isExclusive : Bool) :
    Option (List (Bytes × Bytes)) :=
  match fromStringForSearch startStreamId false with
  | none => none
  | some startID =>
    match fromStringForSearch endStreamId true with
    | none => none
    | some endID =>
      match stream.radixTreePtr with
      | none => none
      | some root => some (rangeSearch (some root) startID.toBinary endID.toBinary isExclusive)

end CarrotDb
