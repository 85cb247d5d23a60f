import CarrotDb.DbSortedSets

/-! `parser/command-parser.cpp`: from the read buffer to a command. The parser
of each command takes tokens off the buffer one after another, and how many it
takes is up to it: the length that the array header announces is only handed
to it as a number. -/
namespace CarrotDb
open Decimal Resp FloatText

/-- What a parser sees of a token: whether it is a bulk string, and the text
of its span. -/
structure Token where
  isBulkString : Bool
  text : Bytes

/-- A parser that takes one token after another and then has its result. -/
inductive Tokens (α : Type) where
  | done (result : Exec α)
  | read (next : Token → Tokens α)

namespace Tokens

protected def bind : Tokens α → (α → Tokens β) → Tokens β
  | .done (.ok value), next => next value
  | .done (.error fault), _ => .done (.error fault)
  | .read more, next => .read fun token => (more token).bind next

instance : Monad Tokens where
  pure value := .done (.ok value)
  bind := Tokens.bind

/-- The parser on a read buffer, from a position on. -/
def run (buffer : Bytes) : Tokens α → Nat → Exec (α × Nat)
  | .done result, position => do pure (← result, position)
  | .read next, position =>
    let (token, position) := parse buffer position
    (next ⟨token.type == .bulkString, tokenText buffer token⟩).run buffer position

end Tokens

/-- `Parser::Parse`. -/
def parseToken : Tokens Token := .read fun token => .done (.ok token)

/-- A token that has to be a bulk string; any other makes the command unknown. -/
def expectBulkString (next : Bytes → Tokens Command) : Tokens Command := do
  let token ← parseToken
  if token.isBulkString then next token.text else pure .unknow

/-- `total_commands -= count` on an `int`. -/
def decrement (total : Int) (count : Nat) : Tokens Int :=
  .done (if total - count < -2 ^ 31 then .error .undefinedBehaviour else .ok (total - count))

/-- The loop over a number of arguments; tokens other than bulk strings are
skipped. -/
def parseStrings : Nat → Tokens (List Bytes)
  | 0 => pure []
  | count + 1 => do
    let token ← parseToken
    let rest ← parseStrings count
    pure (if token.isBulkString then token.text :: rest else rest)

/-! ## The parsers of the commands

`total` is `total_commands`, the number of arguments the header announces
behind the name, as an `int`. -/

def parseEchoCommand : Tokens Command := expectBulkString fun message => pure (.echo message)

/-- The loop of `parseSetCommand` over the flags. -/
def parseSetFlags : Nat → (ex px : Option Nat) → Tokens (Option Nat × Option Nat)
  | 0, ex, px => pure (ex, px)
  | 1, ex, px => do
    let _ ← parseToken
    pure (ex, px)
  | total + 2, ex, px => do
    let flag ← parseToken
    if !flag.isBulkString then pure (ex, px)
    else if isEqual flag.text (ascii "EX") then do
      let value ← parseToken
      let (isNumber, number) := convertPositiveStringToNumber value.text
      parseSetFlags total (if value.isBulkString && isNumber then some number else ex) px
    else if isEqual flag.text (ascii "PX") then do
      let value ← parseToken
      let (isNumber, number) := convertPositiveStringToNumber value.text
      parseSetFlags total ex (if value.isBulkString && isNumber then some number else px)
    else parseSetFlags (total + 1) ex px

def parseSetCommand (total : Int) : Tokens Command :=
  expectBulkString fun key => expectBulkString fun value => do
    let total ← decrement total 2
    let (ex, px) ← parseSetFlags total.toNat none none
    pure (.set key value ex px)

def parseGetCommand : Tokens Command := expectBulkString fun key => pure (.get key)

def parseTypeCommand : Tokens Command := expectBulkString fun key => pure (.type key)

def parseIncrCommand : Tokens Command := expectBulkString fun key => pure (.incr key)

def parseRpushCommand (total : Int) : Tokens Command :=
  expectBulkString fun key => do
    let total ← decrement total 1
    pure (.rpush key (← parseStrings total.toNat))

def parseLpushCommand (total : Int) : Tokens Command :=
  expectBulkString fun key => do
    let total ← decrement total 1
    pure (.lpush key (← parseStrings total.toNat))

/-- A key and two numbers, as LRANGE and ZRANGE take them. -/
def parseIndexRange (make : Bytes → Int → Int → Command) : Tokens Command :=
  expectBulkString fun key => expectBulkString fun start => expectBulkString fun stop =>
    match convertStringToNumber start, convertStringToNumber stop with
    | some start, some stop => pure (make key start stop)
    | _, _ => pure .unknow

def parseLrangeCommand : Tokens Command := parseIndexRange .lrange

def parseLlenCommand : Tokens Command := expectBulkString fun key => pure (.llen key)

def parseLpopCommand (total : Int) : Tokens Command :=
  expectBulkString fun key => do
    let total ← decrement total 1
    if total > 0 then
      let count ← parseToken
      let (isNumber, number) := convertPositiveStringToNumber count.text
      pure (.lpop key (if count.isBulkString && isNumber then some (u32 number) else none))
    else pure (.lpop key none)

def parseBlpopCommand (total : Int) : Tokens Command := do
  let keys ← parseStrings (total - 1).toNat
  if total > 0 then
    let timeout ← parseToken
    pure (.blpop keys (if timeout.isBulkString then (stod timeout.text).getD 0 else 0))
  else pure (.blpop keys 0)

/-- The loop of `parseXaddCommand` over the pairs. -/
def parseFieldValues : Nat → Tokens (List (Bytes × Bytes))
  | total + 2 => do
    let field ← parseToken
    let value ← parseToken
    let rest ← parseFieldValues total
    pure (if field.isBulkString && value.isBulkString then (field.text, value.text) :: rest
      else rest)
  | _ => pure []

def parseXaddCommand (total : Int) : Tokens Command :=
  expectBulkString fun key => expectBulkString fun streamId => do
    let total ← decrement total 2
    pure (.xadd key streamId (← parseFieldValues total.toNat))

def parseXrangeCommand : Tokens Command :=
  expectBulkString fun key => expectBulkString fun start => expectBulkString fun stop =>
    pure (.xrange key start stop)

/-- The keys and the ids of XREAD, split evenly; an odd number is told by any
rounding of the remainder. -/
def parseStreams (blockTimeout : Option Float) (total : Int) : Tokens Command := do
  if total % 2 ≠ 0 then pure .unknow
  else
    let numStreams := (total / 2).toNat
    let keys ← parseStrings numStreams
    let ids ← parseStrings numStreams
    pure (.xread blockTimeout keys ids)

def parseXreadCommand (total : Int) : Tokens Command :=
  expectBulkString fun first => do
    if isEqual first (ascii "BLOCK") then
      let timeout ← parseToken
      let total ← decrement total 2
      let _ ← parseToken
      let total ← decrement total 1
      parseStreams (if timeout.isBulkString then some ((stod timeout.text).getD 0) else none) total
    else if isEqual first (ascii "STREAMS") then do
      let total ← decrement total 1
      parseStreams none total
    else pure .unknow

def parseInfoCommand : Tokens Command :=
  expectBulkString fun infoSection => pure (.info (isEqual infoSection (ascii "replication")))

/-- `parseReplConfCommand`. The port is assigned to a string as one character. -/
def parseReplConfCommand : Tokens Command :=
  expectBulkString fun confType => do
    if isEqual confType (ascii "listening-port") then
      let port ← parseToken
      let (isSuccess, portInNumber) := convertPositiveStringToNumber port.text
      pure (.replConf .listeningPort (if isSuccess then [UInt8.ofNat portInNumber] else []) [] 0)
    else if isEqual confType (ascii "capa") then
      let capa ← parseToken
      pure (.replConf .capa [] capa.text 0)
    else if isEqual confType (ascii "GETACK") then
      let _ ← parseToken
      pure (.replConf .getAck [] [] 0)
    else if isEqual confType (ascii "ACK") then
      let offset ← parseToken
      let (isNumber, number) := convertPositiveStringToNumber offset.text
      pure (.replConf .ack [] [] (if isNumber then i64 number else 0))
    else pure (.replConf .listeningPort [] [] 0)

def parsePsyncCommand (total : Int) : Tokens Command :=
  expectBulkString fun replId =>
    if total > 1 then
      expectBulkString fun offset =>
        let (isNumber, number) := convertPositiveStringToNumber offset
        pure (.psync replId
          (if offset = ascii "-1" then -1 else if isNumber then i64 number else -1))
    else pure (.psync replId 0)

def parseWaitCommand : Tokens Command :=
  expectBulkString fun numReplica => do
    let timeout ← parseToken
    pure (.wait (convertPositiveStringToNumber numReplica).2
      (convertPositiveStringToNumber timeout.text).2)

/-- The loop of `parseGetConfigCommand`. -/
def parseParameters : Nat → (parameters : List Bytes) → Tokens Command
  | 0, parameters => pure (.getConfig parameters)
  | total + 1, parameters =>
    expectBulkString fun parameter => parseParameters total (parameters ++ [parameter])

def parseGetConfigCommand (total : Int) : Tokens Command :=
  expectBulkString fun commandType => do
    if isEqual commandType (ascii "GET") then
      let total ← decrement total 1
      parseParameters total.toNat []
    else pure .unknow

def parseKeysCommand : Tokens Command := expectBulkString fun pattern => pure (.keys pattern)

def parseSubScribeCommand : Tokens Command :=
  expectBulkString fun channelName => pure (.subscribe channelName)

def parsePublishCommand : Tokens Command :=
  expectBulkString fun channelName => expectBulkString fun message =>
    pure (.publish channelName message)

def parseUnsubscribeCommand : Tokens Command :=
  expectBulkString fun channelName => pure (.unSubscribe channelName)

/-- The loop of `parseZaddCommand` over the pairs; it ends at anything but a
pair of bulk strings. -/
def parseScoreMembers : Nat → Tokens (List (Float × Bytes))
  | total + 2 => do
    let score ← parseToken
    let member ← parseToken
    if !score.isBulkString || !member.isBulkString then pure []
    else do
      let rest ← parseScoreMembers total
      pure (((stod score.text).getD 0, member.text) :: rest)
  | _ => pure []

def parseZaddCommand (total : Int) : Tokens Command :=
  expectBulkString fun key => do
    let total ← decrement total 1
    pure (.zadd key (← parseScoreMembers total.toNat))

def parseZrankCommand : Tokens Command :=
  expectBulkString fun key => expectBulkString fun member => pure (.zrank key member)

def parseZrangeCommand : Tokens Command := parseIndexRange .zrange

def parseZcardCommand : Tokens Command := expectBulkString fun key => pure (.zcard key)

def parseZscoreCommand : Tokens Command :=
  expectBulkString fun key => expectBulkString fun member => pure (.zscore key member)

def parseZremCommand (total : Int) : Tokens Command :=
  expectBulkString fun key => do
    let total ← decrement total 1
    pure (.zrem key (← parseStrings total.toNat))

/-- The fields of `GeoAddCommand` behind its key. -/
structure GeoPoint where
  longitude : Float := 0
  latitude : Float := 0
  score : Float := 0
  member : Bytes := []
  invalidLatLon : Bool := false

/-- The comparison with the bounds of GEOADD; it never holds for not-a-number. -/
def outsideAllowed (longitude latitude : Float) : Bool :=
  longitude < minAllowedLon || longitude > maxAllowedLon ||
    latitude < minAllowedLat || latitude > maxAllowedLat

/-- What one round of the loop of `parseGeoAddCommand` does with its three
texts. A point that is refused once stays refused. -/
def readGeoPoint (point : GeoPoint) (lonStr latStr member : Bytes) : Exec GeoPoint := do
  let lon := stod lonStr
  let lat := stod latStr
  let longitude := lon.getD point.longitude
  let latitude := lat.getD point.latitude
  let unread := point.invalidLatLon || lon.isNone || lat.isNone
  let invalidLatLon := unread || outsideAllowed longitude latitude
  let score ←
    if invalidLatLon then pure point.score
    else do
      let (_, hashBits) ← allowedGeoHash.geoHashEncode longitude latitude 26 ⟨0, 0⟩
      pure hashBits.bits.toFloat
  pure { longitude, latitude, score, member, invalidLatLon }

/-- The loop of `parseGeoAddCommand`. -/
def parseGeoPoints : Nat → GeoPoint → Tokens GeoPoint
  | total + 3, point => do
    let lon ← parseToken
    let lat ← parseToken
    let member ← parseToken
    if !lon.isBulkString || !lat.isBulkString || !member.isBulkString then pure point
    else do
      let point ← Tokens.done (readGeoPoint point lon.text lat.text member.text)
      parseGeoPoints total point
  | _, point => pure point

def parseGeoAddCommand (total : Int) : Tokens Command :=
  expectBulkString fun key => do
    let total ← decrement total 1
    let point ← parseGeoPoints total.toNat {}
    pure (.geoAdd key point.longitude point.latitude point.score point.member point.invalidLatLon)

def parseGeoPosCommand (total : Int) : Tokens Command :=
  expectBulkString fun key => do
    let total ← decrement total 1
    pure (.geoPos key (← parseStrings total.toNat))

def parseGeoDistCommand : Tokens Command :=
  expectBulkString fun key => expectBulkString fun member1 => expectBulkString fun member2 =>
    pure (.geoDist key member1 member2)

/-- `parseGeoSearchCommand`; the two option words and the unit are not looked
at. -/
def parseGeoSearchCommand : Tokens Command :=
  expectBulkString fun key => expectBulkString fun _ => expectBulkString fun lon =>
    expectBulkString fun lat => expectBulkString fun _ => expectBulkString fun radius => do
      let _ ← parseToken
      match stod lon, stod lat, stod radius with
      | some longitude, some latitude, some radius =>
        pure (.geoSearch key longitude latitude radius)
      | _, _, _ => pure .unknow

/-- The loop of `parseACLCommand` over the rules of SETUSER. -/
def parseRules : Nat → (password : Option Bytes) → (flags : List Bytes) →
    Tokens (Option Bytes × List Bytes)
  | 0, password, flags => pure (password, flags)
  | total + 1, password, flags => do
    let token ← parseToken
    if !token.isBulkString then pure (password, flags)
    else
      match token.text with
      | 62 :: rest | 43 :: rest | 126 :: rest => parseRules total (some rest) flags
      | arg => parseRules total password (flags ++ [arg])

def parseACLCommand (total : Int) : Tokens Command :=
  if total < 1 then pure .unknow
  else
    expectBulkString fun cmdName =>
      if isEqual cmdName (ascii "WHOAMI") then pure .aclWhoami
      else if isEqual cmdName (ascii "GETUSER") then
        if total - 1 > 1 then pure .unknow
        else if total - 1 = 1 then expectBulkString fun username => pure (.aclGetUser username)
        else pure (.aclGetUser [])
      else if isEqual cmdName (ascii "SETUSER") then
        if total - 1 < 1 then pure .unknow
        else
          expectBulkString fun username => do
            let (password, flags) ← parseRules (total - 2).toNat none []
            pure (.aclSetUser username password flags)
      else pure .unknow

def parseAuthCommand : Tokens Command :=
  expectBulkString fun username => expectBulkString fun password =>
    pure (.auth username password)

/-! ## Dispatch -/

/-- The names `parseCommand` compares with, in its order, and their parsers. -/
def commandParsers (total : Int) : List (Bytes × Tokens Command) :=
  [(ascii "PING", pure .ping),
    (ascii "ECHO", parseEchoCommand),
    (ascii "SET", parseSetCommand total),
    (ascii "GET", parseGetCommand),
    (ascii "TYPE", parseTypeCommand),
    (ascii "INCR", parseIncrCommand),
    (ascii "RPUSH", parseRpushCommand total),
    (ascii "LPUSH", parseLpushCommand total),
    (ascii "LRANGE", parseLrangeCommand),
    (ascii "LLEN", parseLlenCommand),
    (ascii "LPOP", parseLpopCommand total),
    (ascii "BLPOP", parseBlpopCommand total),
    (ascii "XADD", parseXaddCommand total),
    (ascii "XRANGE", parseXrangeCommand),
    (ascii "XREAD", parseXreadCommand total),
    (ascii "MULTI", pure .multi),
    (ascii "EXEC", pure .exec),
    (ascii "DISCARD", pure .discard),
    (ascii "INFO", parseInfoCommand),
    (ascii "REPLCONF", parseReplConfCommand),
    (ascii "PSYNC", parsePsyncCommand total),
    (ascii "WAIT", parseWaitCommand),
    (ascii "CONFIG", parseGetConfigCommand total),
    (ascii "KEYS", parseKeysCommand),
    (ascii "SUBSCRIBE", parseSubScribeCommand),
    (ascii "PUBLISH", parsePublishCommand),
    (ascii "UNSUBSCRIBE", parseUnsubscribeCommand),
    (ascii "ZADD", parseZaddCommand total),
    (ascii "ZRANK", parseZrankCommand),
    (ascii "ZRANGE", parseZrangeCommand),
    (ascii "ZCARD", parseZcardCommand),
    (ascii "ZSCORE", parseZscoreCommand),
    (ascii "ZREM", parseZremCommand total),
    (ascii "GEOADD", parseGeoAddCommand total),
    (ascii "GEOPOS", parseGeoPosCommand total),
    (ascii "GEODIST", parseGeoDistCommand),
    (ascii "GEOSEARCH", parseGeoSearchCommand),
    (ascii "ACL", parseACLCommand total),
    (ascii "AUTH", parseAuthCommand)]

/-- The parser of a name, in any letter case. -/
def commandParser (name : Bytes) (total : Int) : Option (Tokens Command) :=
  ((commandParsers total).find? fun entry => isEqual name entry.1).map Prod.snd

/-- What `parseCommand` leaves behind: the command, its `bytes_processed`, and
the read buffer. -/
structure Parsed where
  command : Command
  bytesProcessed : Nat
  readBuffer : Bytes

/-- `parseCommand` behind the array header, with the length it announced and
the position it left. The token of the name may be of any type. -/
def parseArray (buffer : Bytes) (length position : Nat) : Exec Parsed :=
  let (token, position) := parse buffer position
  match commandParser (tokenText buffer token) (i32 ((length : Int) - 1)) with
  | none => pure ⟨.unknow, position, []⟩
  | some parser => do
    let (command, position) ← parser.run buffer position
    pure ⟨command, position, buffer.drop position⟩

/-- `parseCommand` with a bound on its recursion: each round takes bytes off
the buffer. A bulk string in front is taken for RDB data and skipped. -/
def parseCommandFrom : (rounds : Nat) → (buffer : Bytes) → Exec Parsed
  | 0, buffer => pure ⟨.unknow, 0, buffer⟩
  | rounds + 1, buffer =>
    let (token, position) := parse buffer 0
    match token.type with
    | .unknown => pure ⟨.unknow, 0, buffer⟩
    | .bulkString => parseCommandFrom rounds (buffer.drop (token.endPos + 1))
    | .array => parseArray buffer token.length position

/-- `parseCommand` on a fresh context. -/
def parseCommand (buffer : Bytes) : Exec Parsed := parseCommandFrom (buffer.length + 1) buffer

end CarrotDb
