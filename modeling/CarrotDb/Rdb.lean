import CarrotDb.DbStrings
import CarrotDb.Lib.InputStream

/-! The snapshot loader of `rdb.cpp`, over the reads of `io.cpp`. Every index
into what a read has returned is checked, and a loop runs in a number of
rounds that it is given. -/
namespace CarrotDb.Rdb
open Decimal

/-- How `Rdb::parse` stops without returning: by an index outside the bytes
that were read, by the exception of a vector that cannot be so long, or
because the rounds it was given do not suffice. -/
inductive Stop where
  | undefinedBehaviour
  | lengthError
  | outOfFuel
  deriving DecidableEq, Repr

/-- `RIO` with an open file; a file that does not open gives nothing. -/
abbrev RIO := InputStream UInt8

/-- `std::vector<unsigned char>().max_size()`. -/
def maxSize : Nat := 2 ^ 63 - 1

/-- `RIO::read`. -/
def read (io : RIO) (bytes : Nat) : Except Stop (Bytes × RIO) :=
  if maxSize < bytes then throw .lengthError else pure (io.get bytes)

/-- `RIO::seekBackRead`. -/
def seekBackRead (io : RIO) (bytes : Nat) : RIO := io.back bytes

/-- `data[i]` of a vector that a read has returned. -/
def index (data : Bytes) (i : Nat) : Except Stop UInt8 :=
  match data[i]? with
  | some byte => pure byte
  | none => throw .undefinedBehaviour

def rdbEncInt8 : UInt8 := 0xC0
def rdbEncInt16 : UInt8 := 0xC1
def rdbEncInt32 : UInt8 := 0xC2

def rdbOpcodeAux : UInt8 := 0xFA
def rdbOpcodeResizeDb : UInt8 := 0xFB
def rdbOpcodeExpireTimeMs : UInt8 := 0xFC
def rdbOpcodeExpireTime : UInt8 := 0xFD
def rdbOpcodeSelectDb : UInt8 := 0xFE
def rdbOpcodeEof : UInt8 := 0xFF
def rdbTypeString : UInt8 := 0x00

def rdb6BitLen : UInt8 := 0
def rdb14BitLen : UInt8 := 1
def rdb32BitLen : UInt8 := 2
def rdbEncVal : UInt8 := 3
def rdbLenErr : Nat := 2 ^ 64 - 1

/-- `Rdb::getLength`: the length, whether the byte names an encoded object,
and the stream behind it. -/
def getLength (io : RIO) (byte : UInt8) : Except Stop (Nat × Bool × RIO) := do
  let lengthType := byte >>> 6 &&& 0x03
  if lengthType = rdb6BitLen then
    return ((byte &&& 0x3f).toNat, false, io)
  else if lengthType = rdb14BitLen then
    let (nextByte, io) ← read io 1
    if nextByte.length = 0 then
      return (rdbLenErr, false, io)
    return ((byte &&& 0x3f).toNat <<< 8 ||| (← index nextByte 0).toNat, false, io)
  else if lengthType = rdb32BitLen then
    let (nextBytes, io) ← read io 4
    if nextBytes.length < 4 then
      return (rdbLenErr, false, io)
    return ((← index nextBytes 0).toNat <<< 24 ||| (← index nextBytes 1).toNat <<< 16 |||
      (← index nextBytes 2).toNat <<< 8 ||| (← index nextBytes 3).toNat, false, io)
  else if lengthType = rdbEncVal then
    return (rdbLenErr, true, io)
  else
    return (rdbLenErr, false, io)

/-- `Rdb::getSpecialString`. -/
def getSpecialString (io : RIO) (byte : UInt8) : Except Stop (Bytes × RIO) := do
  if byte = rdbEncInt8 then
    let (data, io) ← read io 1
    if data.length < 1 then
      return ([], io)
    let value := ((← index data 0).toNat : Int).bmod (2 ^ 8)
    return (intToDecimal value, io)
  else if byte = rdbEncInt16 then
    let (data, io) ← read io 2
    if data.length < 2 then
      return ([], io)
    let value := (((← index data 0).toNat ||| (← index data 1).toNat <<< 8 : Nat) : Int).bmod (2 ^ 16)
    return (intToDecimal value, io)
  else if byte = rdbEncInt32 then
    let (data, io) ← read io 4
    if data.length < 4 then
      return ([], io)
    let value := i32 ((← index data 0).toNat ||| (← index data 1).toNat <<< 8 |||
      (← index data 2).toNat <<< 16 ||| (← index data 3).toNat <<< 24 : Nat)
    return (intToDecimal value, io)
  else
    -- `RDB_ENC_LZF` and everything else.
    return ([], io)

/-- `Rdb::parseNormalString`. -/
def parseNormalString (io : RIO) (length : Nat) : Except Stop (Bytes × RIO) := do
  if length = 0 then
    return ([], io)
  let (data, io) ← read io length
  if data.length ≠ length then
    return ([], io)
  return (data, io)

/-- `Rdb::parseString`. -/
def parseString (io : RIO) : Except Stop (Bytes × RIO) := do
  let (lengthBytes, io) ← read io 1
  if lengthBytes.isEmpty then
    return ([], io)
  let (length, isEncType, io) ← getLength io (← index lengthBytes 0)
  if isEncType then
    getSpecialString io (← index lengthBytes 0)
  else
    parseNormalString io length

/-- `Rdb::parseHeader`. -/
def parseHeader (io : RIO) : Except Stop (Bool × RIO) := do
  let (magicBytes, io) ← read io 5
  if magicBytes.length ≠ 5 then
    return (false, io)
  if magicBytes ≠ ascii "REDIS" then
    return (false, io)
  let (versionBytes, io) ← read io 4
  if versionBytes.length ≠ 4 then
    return (false, io)
  return (true, io)

/-- `Rdb::parseMetadata`. -/
def parseMetadata : Nat → RIO → Except Stop RIO
  | 0, _ => throw .outOfFuel
  | rounds + 1, io => do
    let (opcodeBytes, io) ← read io 1
    if opcodeBytes.isEmpty then
      return io
    let opcode ← index opcodeBytes 0
    if opcode = rdbOpcodeAux then
      let (_, io) ← parseString io
      let (_, io) ← parseString io
      parseMetadata rounds io
    else
      return seekBackRead io 1

/-- The loop of `Rdb::parseExpiry` over the bytes of a time, least significant
first. -/
def littleEndian (expiryBytes : Bytes) (size : Nat) : Except Stop Nat :=
  (List.range size).foldlM (fun expiry i => do
    return expiry ||| (← index expiryBytes i).toNat <<< (i * 8)) 0

/-- `Rdb::parseExpiry`. -/
def parseExpiry (io : RIO) (opcode : UInt8) : Except Stop (Nat × RIO) := do
  if opcode = rdbOpcodeExpireTimeMs then
    let (expiryBytes, io) ← read io 8
    if expiryBytes.length < 8 then
      return (0, io)
    return (← littleEndian expiryBytes 8, io)
  else if opcode = rdbOpcodeExpireTime then
    let (expiryBytes, io) ← read io 4
    if expiryBytes.length < 4 then
      return (0, io)
    return ((← littleEndian expiryBytes 4) * 1000, io)
  else
    return (0, io)

/-- A call of `dbPtr->set`, or of `dbPtr->setWithExpiry`. -/
structure Call where
  key : Bytes
  value : Bytes
  expiry : Option Nat := none
  deriving DecidableEq, Repr

/-- What a round of the loop over entries comes to. -/
inductive Round where
  | returns (more : Bool)
  | stores (call : Call)
  deriving DecidableEq, Repr

/-- A round behind the type of its entry. -/
def parseTyped (io : RIO) (keyOpcode : UInt8) (expiry : Option Nat) :
    Except Stop (Round × RIO) := do
  if keyOpcode = rdbTypeString then
    let (key, io) ← parseString io
    let (value, io) ← parseString io
    return (.stores { key, value, expiry }, io)
  else
    return (.returns false, io)

/-- One round of the loop over entries in `Rdb::parseDatabase`. -/
def parseRound (io : RIO) : Except Stop (Round × RIO) := do
  let (keyOpcodeBytes, io) ← read io 1
  if keyOpcodeBytes.isEmpty then
    return (.returns false, io)
  let keyOpcode ← index keyOpcodeBytes 0
  if keyOpcode = rdbOpcodeSelectDb ∨ keyOpcode = rdbOpcodeEof then
    return (.returns true, seekBackRead io 1)
  if keyOpcode = rdbOpcodeExpireTimeMs ∨ keyOpcode = rdbOpcodeExpireTime then
    let (expiry, io) ← parseExpiry io keyOpcode
    let (typeBytes, io) ← read io 1
    if typeBytes.isEmpty then
      return (.returns false, io)
    parseTyped io (← index typeBytes 0) (some expiry)
  else
    parseTyped io keyOpcode none

/-- The calls that were made, in order, and how it ended. -/
structure Parsed (α : Type) where
  calls : List Call
  ending : Except Stop α
  deriving DecidableEq

/-- The loop over entries. -/
def parseEntries : Nat → RIO → Parsed (Bool × RIO)
  | 0, _ => ⟨[], throw .outOfFuel⟩
  | rounds + 1, io =>
    match parseRound io with
    | .error stop => ⟨[], throw stop⟩
    | .ok (.returns more, io) => ⟨[], pure (more, io)⟩
    | .ok (.stores call, io) =>
      let later := parseEntries rounds io
      ⟨call :: later.calls, later.ending⟩

/-- `Rdb::parseDatabase` up to its loop: `false` where it returns at once. -/
def parseOpening (io : RIO) : Except Stop (Bool × RIO) := do
  let (opcodeBytes, io) ← read io 1
  if opcodeBytes.isEmpty then
    return (false, io)
  let opcode ← index opcodeBytes 0
  if opcode = rdbOpcodeEof then
    return (false, io)
  if opcode = rdbOpcodeSelectDb then
    let (numberBytes, io) ← read io 1
    let (_, _, io) ← getLength io (← index numberBytes 0)
    -- The byte behind the number is read, and only looked at for `RESIZEDB`.
    let (nextOpcode, io) ← read io 1
    let resized ← if nextOpcode.isEmpty then pure false else do
      pure ((← index nextOpcode 0) == rdbOpcodeResizeDb)
    if resized then
      let (hashTableBytes, io) ← read io 1
      let (_, _, io) ← getLength io (← index hashTableBytes 0)
      let (expireTableBytes, io) ← read io 1
      let (_, _, io) ← getLength io (← index expireTableBytes 0)
      return (true, io)
    return (true, io)
  return (true, io)

/-- `Rdb::parseDatabase`. -/
def parseDatabase (rounds : Nat) (io : RIO) : Parsed (Bool × RIO) :=
  match parseOpening io with
  | .error stop => ⟨[], throw stop⟩
  | .ok (false, io) => ⟨[], pure (false, io)⟩
  | .ok (true, io) => parseEntries rounds io

/-- The loop of `Rdb::parse` over databases. -/
def parseDatabases (rounds : Nat) : Nat → RIO → Parsed Unit
  | 0, _ => ⟨[], throw .outOfFuel⟩
  | databases + 1, io =>
    match parseDatabase rounds io with
    | ⟨calls, .error stop⟩ => ⟨calls, throw stop⟩
    | ⟨calls, .ok (false, _)⟩ => ⟨calls, pure ()⟩
    | ⟨calls, .ok (true, io)⟩ =>
      let later := parseDatabases rounds databases io
      ⟨calls ++ later.calls, later.ending⟩

/-- `Rdb::parse` of a file, with a bound on the rounds of each loop. -/
def parse (rounds : Nat) (file : Bytes) : Parsed Unit :=
  match parseHeader { content := file } with
  | .error stop => ⟨[], throw stop⟩
  | .ok (false, _) => ⟨[], pure ()⟩
  | .ok (true, io) =>
    match parseMetadata rounds io with
    | .error stop => ⟨[], throw stop⟩
    | .ok io => parseDatabases rounds rounds io

/-! ## The database behind it -/

/-- One reading of `system_clock` and one of `steady_clock`, in nanoseconds. -/
structure Readings where
  system : Int
  steady : Int

/-- The call, at the readings it takes. -/
def Call.apply (db : DB) (now : Readings) (call : Call) : DB :=
  match call.expiry with
  | some expiry => db.setWithExpiry now.system now.steady call.key call.value expiry
  | none => db.set call.key call.value

/-- The calls one after another; the clocks are read once for each. -/
def applyCalls (clocks : Nat → Readings) : Nat → DB → List Call → DB
  | _, db, [] => db
  | count, db, call :: calls => applyCalls clocks (count + 1) (call.apply db (clocks count)) calls

/-- The database that loading a file leaves. -/
def load (clocks : Nat → Readings) (rounds : Nat) (file : Bytes) : DB :=
  applyCalls clocks 0 {} (parse rounds file).calls

end CarrotDb.Rdb
