import CarrotDb.Resp
import CarrotDb.FloatText

/-! `parser/command.h`: the commands, what each carries, which of them are
written on to replicas, and the text they are written as. -/
namespace CarrotDb
open Decimal Resp FloatText

/-- `CommandType`. -/
inductive CommandType where
  | echo | ping | set | get | type | rpush | lpush | lrange | llen | lpop | blpop
  | xadd | xrange | xread | incr | unknown | multi | exec | discard | info | replConf
  | psync | wait | getConfig | keys | subscribe | publish | unsubscribe | zadd | zrank
  | zrange | zcard | zscore | zrem | geoAdd | geoPos | geoDist | geoSearch | aclWhoami
  | aclGetUser | aclSetUser | auth
  deriving DecidableEq, Repr

/-- `ReplConfType`. -/
inductive ReplConfType where
  | listeningPort
  | capa
  | getAck
  | ack
  deriving DecidableEq, Repr

/-- The structures derived from `Command`, each with the fields it adds and,
where the parser fills it in, the key. -/
inductive Command where
  | unSubscribe (channelName : Bytes)
  | geoAdd (key : Bytes) (longitude latitude score : Float) (member : Bytes) (invalidLatLon : Bool)
  | geoPos (key : Bytes) (members : List Bytes)
  | geoDist (key member1 member2 : Bytes)
  | geoSearch (key : Bytes) (longitude latitude radius : Float)
  | zadd (key : Bytes) (scoreMembers : List (Float × Bytes))
  | subscribe (channelName : Bytes)
  | publish (channelName message : Bytes)
  | unknow
  | ping
  | echo (message : Bytes)
  | aclWhoami
  | aclGetUser (username : Bytes)
  | aclSetUser (username : Bytes) (password : Option Bytes) (flags : List Bytes)
  | auth (username password : Bytes)
  | set (key value : Bytes) (ex px : Option Nat)
  | get (key : Bytes)
  | type (key : Bytes)
  | incr (key : Bytes)
  | rpush (key : Bytes) (values : List Bytes)
  | lpush (key : Bytes) (values : List Bytes)
  | lrange (key : Bytes) (start stop : Int)
  | llen (key : Bytes)
  | lpop (key : Bytes) (count : Option Nat)
  | blpop (keys : List Bytes) (timeout : Float)
  | xadd (key streamId : Bytes) (fieldValues : List (Bytes × Bytes))
  | xrange (key start stop : Bytes)
  | xread (blockTimeout : Option Float) (keys ids : List Bytes)
  | multi
  | exec
  | discard
  | info (isReplicationArgument : Bool)
  | replConf (subcommand : ReplConfType) (listeningPort capability : Bytes) (ackOffset : Int)
  | psync (replId : Bytes) (offset : Int)
  | wait (numReplica timeout : Nat)
  | getConfig (parameters : List Bytes)
  | keys (pattern : Bytes)
  | zrank (key member : Bytes)
  | zrange (key : Bytes) (start stop : Int)
  | zcard (key : Bytes)
  | zscore (key member : Bytes)
  | zrem (key : Bytes) (members : List Bytes)

namespace Command

/-- `type`. -/
def commandType : Command → CommandType
  | unSubscribe .. => .unsubscribe
  | geoAdd .. => .geoAdd
  | geoPos .. => .geoPos
  | geoDist .. => .geoDist
  | geoSearch .. => .geoSearch
  | zadd .. => .zadd
  | subscribe .. => .subscribe
  | publish .. => .publish
  | unknow => .unknown
  | ping => .ping
  | echo .. => .echo
  | aclWhoami => .aclWhoami
  | aclGetUser .. => .aclGetUser
  | aclSetUser .. => .aclSetUser
  | auth .. => .auth
  | set .. => .set
  | get .. => .get
  | type .. => .type
  | incr .. => .incr
  | rpush .. => .rpush
  | lpush .. => .lpush
  | lrange .. => .lrange
  | llen .. => .llen
  | lpop .. => .lpop
  | blpop .. => .blpop
  | xadd .. => .xadd
  | xrange .. => .xrange
  | xread .. => .xread
  | multi => .multi
  | exec => .exec
  | discard => .discard
  | info .. => .info
  | replConf .. => .replConf
  | psync .. => .psync
  | wait .. => .wait
  | getConfig .. => .getConfig
  | keys .. => .keys
  | zrank .. => .zrank
  | zrange .. => .zrange
  | zcard .. => .zcard
  | zscore .. => .zscore
  | zrem .. => .zrem

/-- `key`, empty where the parser leaves it so. -/
def key : Command → Bytes
  | geoAdd key .. | geoPos key .. | geoDist key .. | geoSearch key .. | zadd key ..
  | set key .. | get key | type key | incr key | rpush key .. | lpush key .. | lrange key ..
  | llen key | lpop key .. | xadd key .. | xrange key .. | zrank key .. | zrange key ..
  | zcard key | zscore key .. | zrem key .. => key
  | _ => []

/-- `is_write_command`. -/
def isWriteCommand : Command → Bool
  | geoAdd .. | zadd .. | aclSetUser .. | set .. | incr .. | rpush .. | lpush .. | lpop ..
  | xadd .. | zrem .. => true
  | _ => false

/-! ## The text of a command -/

/-- An array header and the bulk strings written behind it. -/
def respText (count : Nat) (items : List Bytes) : Bytes :=
  encodeArrayHeader count ++ items.flatMap encodeBulkString

/-- A number cast to `int64_t` and printed. -/
def castInt64 (value : Float) : Exec Bytes := do
  pure (intToDecimal (← toInteger (-2 ^ 63) (2 ^ 63 - 1) value))

/-- `to_resp`. -/
def toResp : Command → Exec Bytes
  | unSubscribe _ => pure []
  | geoAdd key longitude latitude _ member _ =>
    pure (respText 5 [ascii "GEOADD", key, doubleToString longitude, doubleToString latitude, member])
  | geoPos key members => pure (respText 2 (ascii "GEOPOS" :: key :: members))
  | geoDist key member1 member2 => pure (respText 4 [ascii "GEODIST", key, member1, member2])
  | geoSearch .. => pure []
  | zadd key scoreMembers =>
    pure (respText (2 + scoreMembers.length * 2)
      (ascii "ZADD" :: key :: scoreMembers.flatMap fun sm => [doubleToString sm.1, sm.2]))
  | subscribe _ => pure []
  | publish .. => pure []
  | unknow => pure []
  | ping => pure (respText 1 [ascii "PING"])
  | echo message => pure (respText 2 [ascii "ECHO", message])
  | aclWhoami => pure (respText 2 [ascii "ACL", ascii "WHOAMI"])
  | aclGetUser _ => pure (respText 2 [ascii "ACL", ascii "GETUSER"])
  | aclSetUser .. => pure (respText 2 [ascii "ACL", ascii "SETUSER"])
  | auth .. => pure (respText 3 [ascii "AUTH"])
  | set key value ex px =>
    pure (respText (3 + (if ex.isSome then 2 else 0) + (if px.isSome then 2 else 0))
      ([ascii "SET", key, value] ++
        (match ex with | some seconds => [ascii "EX", toDecimal seconds] | none => []) ++
        (match px with | some millis => [ascii "PX", toDecimal millis] | none => [])))
  | get key => pure (respText 2 [ascii "GET", key])
  | type key => pure (respText 2 [ascii "TYPE", key])
  | incr key => pure (respText 2 [ascii "INCR", key])
  | rpush key values => pure (respText (2 + values.length) (ascii "RPUSH" :: key :: values))
  | lpush key values => pure (respText (2 + values.length) (ascii "LPUSH" :: key :: values))
  | lrange key start stop =>
    pure (respText 4 [ascii "LRANGE", key, intToDecimal start, intToDecimal stop])
  | llen key => pure (respText 2 [ascii "LLEN", key])
  | lpop key count =>
    pure (respText (if count.isSome then 3 else 2) ([ascii "LPOP", key] ++
      (match count with | some count => [toDecimal count] | none => [])))
  | blpop names timeout => do
    let timeoutStr ← castInt64 timeout
    pure (respText (1 + names.length + 1) (ascii "BLPOP" :: names ++ [timeoutStr]))
  | xadd key streamId fieldValues =>
    pure (respText (3 + fieldValues.length * 2)
      (ascii "XADD" :: key :: streamId :: fieldValues.flatMap fun fv => [fv.1, fv.2]))
  | xrange key start stop => pure (respText 4 [ascii "XRANGE", key, start, stop])
  | xread blockTimeout names ids => do
    let block ←
      match blockTimeout with
      | some timeout => do pure [ascii "BLOCK", ← castInt64 timeout]
      | none => pure []
    pure (respText (2 + names.length + ids.length + block.length)
      (ascii "XREAD" :: block ++ ascii "STREAMS" :: names ++ ids))
  | multi => pure (respText 1 [ascii "MULTI"])
  | exec => pure (respText 1 [ascii "EXEC"])
  | discard => pure (respText 1 [ascii "DISCARD"])
  | info isReplicationArgument =>
    pure (if isReplicationArgument then respText 2 [ascii "INFO", ascii "replication"]
      else respText 1 [ascii "INFO"])
  | replConf subcommand listeningPort capability ackOffset =>
    pure (match subcommand with
      | .ack => respText 3 [ascii "REPLCONF", ascii "ACK", intToDecimal ackOffset]
      | .getAck => respText 3 [ascii "REPLCONF", ascii "GETACK", ascii "*"]
      | _ =>
        respText 3 (ascii "REPLCONF" ::
          if listeningPort ≠ [] then [ascii "listening-port", listeningPort]
          else if capability ≠ [] then [ascii "capa", capability]
          else []))
  | psync replId offset => pure (respText 3 [ascii "PSYNC", replId, intToDecimal offset])
  | wait numReplica timeout =>
    pure (respText 3 [ascii "WAIT", toDecimal numReplica, toDecimal timeout])
  | getConfig _ => pure []
  | keys _ => pure []
  | zrank key member => pure (respText 3 [ascii "ZRANK", key, member])
  | zrange key start stop =>
    pure (respText 4 [ascii "ZRANGE", key, intToDecimal start, intToDecimal stop])
  | zcard key => pure (respText 2 [ascii "ZCARD", key])
  | zscore key member => pure (respText 3 [ascii "ZSCORE", key, member])
  | zrem key members => pure (respText (2 + members.length) (ascii "ZREM" :: key :: members))

end Command

/-- `commandTypeToString`. -/
def commandTypeToString : CommandType → Bytes
  | .echo => ascii "echo"
  | .ping => ascii "ping"
  | .set => ascii "set"
  | .get => ascii "get"
  | .type => ascii "type"
  | .rpush => ascii "rpush"
  | .lpush => ascii "lpush"
  | .lrange => ascii "lrange"
  | .llen => ascii "llen"
  | .lpop => ascii "lpop"
  | .blpop => ascii "blpop"
  | .xadd => ascii "xadd"
  | .xrange => ascii "xrange"
  | .xread => ascii "xread"
  | .incr => ascii "incr"
  | .multi => ascii "multi"
  | .exec => ascii "exec"
  | .discard => ascii "discard"
  | .info => ascii "info"
  | .replConf => ascii "replconf"
  | .psync => ascii "psync"
  | .wait => ascii "wait"
  | .getConfig => ascii "getconfig"
  | .keys => ascii "keys"
  | .subscribe => ascii "subscribe"
  | .unsubscribe => ascii "unsubscribe"
  | .zadd => ascii "zadd"
  | .zrank => ascii "zrank"
  | .zrange => ascii "zrange"
  | .zcard => ascii "zcard"
  | .zscore => ascii "zscore"
  | .zrem => ascii "zrem"
  | .geoPos => ascii "geopos"
  | .geoDist => ascii "geodist"
  | .geoSearch => ascii "geosearch"
  | .aclWhoami => ascii "acl_whoami"
  | .aclGetUser => ascii "acl_getuser"
  | .aclSetUser => ascii "acl_setuser"
  | .unknown | .publish | .geoAdd | .auth => ascii "unknown"

end CarrotDb
