import CarrotDb.KeyShards
import CarrotDb.PushLengths
import CarrotDb.SetDeadlines
import CarrotDb.SortedSetCommands
import CarrotDb.SortedSetRanges
import CarrotDb.XreadWaits

/-! The database as its clients are to think of it: keys bound to texts, lists,
logs and scores, most of them for good. The commands are told on these, without
listpacks, trees, hash maps or pointers. What the server makes a mess of is
declined here, and nothing is said of it. -/
namespace CarrotDb
open Decimal Resp Listpack

/-- What a key can be bound to. -/
inductive Value where
  | text (bytes : Bytes)
  | list (xs : List Bytes)
  /-- The entries of a stream, in order, with their fields. -/
  | stream (entries : List (StreamID × List (Bytes × Bytes)))
  /-- The members of a sorted set with their scores; coordinates among them. -/
  | scores (isGeo : Bool) (scores : Map Bytes Float)

/-- A value, and the time from which on nobody is to see it. -/
structure Binding where
  value : Value
  deadline : Option Int := none

/-- Why a request is declined. -/
inductive Declined where
  /-- A list that a listpack has no room for, or cannot count. -/
  | full
  /-- A number, or a text, beyond what the machine holds. -/
  | overflow
  /-- A score that is not a number. -/
  | notANumber
  /-- The client would have to wait. -/
  | waits
  /-- The server would not survive it. -/
  | crashes
  /-- Nothing that one client asks of the keyspace. -/
  | foreign
  deriving DecidableEq, Repr

/-- The keys that are bound. -/
abbrev Keyspace := Map Bytes Binding

/-- A reply, and what the key is bound to behind it. -/
abbrev Reaction := Except Declined (Bytes × Option Binding)

namespace Keyspace

variable (bound : Option Binding)

/-- Another value for the one a key is bound to, which keeps its deadline. -/
def rebound (value : Value) : Option Binding := some ⟨value, bound.bind Binding.deadline⟩

/-- SET. Without an expiry the deadline of the old value stays. -/
def set (now : Int) (value : Bytes) (ex px : Option Nat) : Reaction :=
  match timeToLive ex px with
  | none => .ok (encodeSimpleString (ascii "OK"), rebound bound (.text value))
  | some ttl =>
    if -2 ^ 63 ≤ now + ttl ∧ now + ttl < 2 ^ 63 then
      .ok (encodeSimpleString (ascii "OK"), some ⟨.text value, some (now + ttl)⟩)
    else .error .overflow

/-- What is still to be seen of a key. -/
def current (now : Int) : Option Binding :=
  bound.filter fun binding => binding.deadline.all fun deadline => now < deadline

/-- GET and TYPE. Lists and sorted sets are not answered for. -/
def getOrType (now : Int) (isTypeCommand : Bool) : Reaction :=
  match current bound now with
  | none => .ok (if isTypeCommand then encodeSimpleString (ascii "none") else encodeNullBulkString, none)
  | some binding =>
    .ok (match binding.value with
      | .text bytes =>
        if isTypeCommand then encodeSimpleString (ascii "string") else encodeBulkString bytes
      | .stream _ => if isTypeCommand then encodeSimpleString (ascii "stream") else []
      | .list _ | .scores .. => [], some binding)

/-- The reply of INCR to what is no number. -/
def noInteger : Bytes := encodeError (ascii "value is not an integer or out of range")

/-- INCR. A text is read up to its first zero byte. -/
def incr : Reaction :=
  match bound with
  | none => .ok (encodeInteger 1, some { value := .text (ascii "1") })
  | some ⟨.text bytes, _⟩ =>
    match convertStringToNumber (bytes.takeWhile (· ≠ 0)) with
    | some number =>
      if number < 2 ^ 63 - 1 then
        .ok (encodeInteger (number + 1), rebound bound (.text (intToDecimal (number + 1))))
      else .error .overflow
    | none => .ok (noInteger, bound)
  | some _ => .ok (noInteger, bound)

/-- RPUSH and LPUSH. -/
def push (isPrepend : Bool) (values : List Bytes) : Reaction :=
  let grow (xs : List Bytes) : Reaction :=
    if values ≠ [] ∧ xs.length + values.length < lpHdrNumeleUnknown ∧
        used (xs ++ values) ≤ 2 ^ 32 - 1 then
      .ok (encodeInteger (xs.length + values.length : Nat),
        rebound bound (.list (pushAll isPrepend xs values)))
    else .error .full
  match bound with
  | none => grow []
  | some ⟨.list xs, _⟩ => grow xs
  | some _ => .error .crashes

/-- LPOP. A list that is popped empty stays. -/
def lpop (count : Nat) : Reaction :=
  match bound with
  | some ⟨.list xs, _⟩ => .ok (popReply (xs.take count), rebound bound (.list (xs.drop count)))
  | _ => .ok (encodeNullBulkString, bound)

/-- BLPOP of one key that has something to pop. -/
def blpop (key : Bytes) : Reaction :=
  match bound with
  | none | some ⟨.list [], _⟩ => .error .waits
  | some ⟨.list (x :: xs), _⟩ => .ok (encodeBulkStringArray [key, x], rebound bound (.list xs))
  | some _ => .ok (encodeNullBulkString, bound)

/-- The elements a key holds, none where it holds no list. -/
def elements : List Bytes :=
  match bound with
  | some ⟨.list xs, _⟩ => xs
  | _ => []

/-- LLEN. -/
def llen : Reaction := .ok (encodeInteger (elements bound).length, bound)

/-- LRANGE. -/
def lrange (start stop : Int) : Reaction :=
  if (-2 ^ 63 ≤ start ∧ start < 2 ^ 63) ∧ (-2 ^ 63 ≤ stop ∧ stop < 2 ^ 63) then
    .ok (encodeBulkStringArray (rangeOf (elements bound) start stop), bound)
  else .error .overflow

/-- The last identifier of a stream, 0-0 while it has none. -/
def lastId (entries : List (StreamID × List (Bytes × Bytes))) : StreamID :=
  (entries.getLast?.map Prod.fst).getD ⟨0, 0⟩

/-- The identifier a text stands for behind another one: it must be greater. -/
def nextId (last : StreamID) (systemMs : Nat) (text : Bytes) : Except StreamErrorType StreamID :=
  match Stream.fromString ⟨none, last⟩ systemMs text with
  | none => .error .invalidIdFormat
  | some id =>
    if id = ⟨0, 0⟩ then .error .notGreaterThanZero
    else if id.isGreater last then .ok id
    else .error .idNotGreaterThanLast

instance (fieldValues : List (Bytes × Bytes)) : Decidable (Sized fieldValues) :=
  inferInstanceAs (Decidable (∀ fv ∈ fieldValues, fv.1.length < 2 ^ 64 ∧ fv.2.length < 2 ^ 64))

/-- XADD. A key that was missing is a stream behind it, be it an empty one. -/
def xadd (systemMs : Nat) (streamId : Bytes) (fieldValues : List (Bytes × Bytes)) : Reaction :=
  let add (entries : List (StreamID × List (Bytes × Bytes))) : Reaction :=
    if Sized fieldValues then
      match nextId (lastId entries) systemMs streamId with
      | .error error => .ok (xaddError error, rebound bound (.stream entries))
      | .ok id => .ok (encodeBulkString id.toString,
          rebound bound (.stream (entries ++ [(id, fieldValues)])))
    else .error .overflow
  match bound with
  | none => add []
  | some ⟨.stream entries, _⟩ => add entries
  | some _ => .ok (encodeError (ascii "Key exists with different data type"), bound)

/-- The entries a key holds, none where it holds no stream. -/
def entries : List (StreamID × List (Bytes × Bytes)) :=
  match bound with
  | some ⟨.stream entries, _⟩ => entries
  | _ => []

/-- The entries between two texts. -/
def entriesWithin (start stop : Bytes) (entries : List (StreamID × List (Bytes × Bytes))) :
    List (StreamID × List (Bytes × Bytes)) :=
  match fromStringForSearch start false, fromStringForSearch stop true with
  | some low, some high => entriesBetween low high entries
  | _, _ => []

/-- XRANGE. -/
def xrange (start stop : Bytes) : Reaction :=
  .ok (encodeRange (entriesWithin start stop (entries bound)), bound)

/-- The entries behind a text. -/
def entriesBehind (text : Bytes) (entries : List (StreamID × List (Bytes × Bytes))) :
    List (StreamID × List (Bytes × Bytes)) :=
  match fromStringForSearch text false with
  | none => []
  | some low => entries.filter fun entry => entry.1.isGreater low

/-- The scores of a key, none where it holds no sorted set; another value is
refused. -/
def scoresOf : Except Bytes (Bool × Map Bytes Float) :=
  match bound with
  | none => .ok (false, ∅)
  | some ⟨.scores isGeo scores, _⟩ => .ok (isGeo, scores)
  | some _ => .error wrongType

/-- The members in order, by score and then by member. -/
def ranked (scores : Map Bytes Float) : List (Float × Bytes) :=
  ((scores.keys.sort (· ≥ ·)).map fun member => ((scores.lookup member).getD 0, member)).insertionSort
    fun a b => entryRank a ≤ entryRank b

/-- What is replied from the scores of a key. -/
def fromScores (missing : Bytes) (reply : Bool → Map Bytes Float → Except Declined Bytes) : Reaction :=
  match bound with
  | none => .ok (missing, none)
  | some ⟨.scores isGeo scores, _⟩ => do .ok (← reply isGeo scores, bound)
  | some _ => .ok (wrongType, bound)

/-- ZADD. -/
def zadd (scoreMembers : List (Float × Bytes)) : Reaction :=
  match scoresOf bound with
  | .error refusal => .ok (refusal, bound)
  | .ok (isGeo, scores) =>
    if scoreMembers.all fun entry => !entry.1.isNaN then
      let grown := scoreMembers.foldl (fun scores entry => scores.insert entry.2 entry.1) scores
      .ok (encodeInteger (grown.keys.card - scores.keys.card : Nat),
        rebound bound (.scores isGeo grown))
    else .error .notANumber

/-- GEOADD. -/
def geoadd (longitude latitude score : Float) (member : Bytes) (invalidLatLon : Bool) : Reaction :=
  if invalidLatLon then
    let buf := ascii "invalid longitude,latitude pair " ++
      FloatText.formatFixed 6 longitude ++ 44 :: FloatText.formatFixed 6 latitude
    .ok (encodeError (buf.take 127), bound)
  else
    match scoresOf bound with
    | .error refusal => .ok (refusal, bound)
    | .ok (_, scores) =>
      if score.isNaN then .error .notANumber
      else .ok (encodeInteger (if member ∈ scores then 0 else 1),
        rebound bound (.scores true (scores.insert member score)))

/-- ZREM. -/
def zrem (members : List Bytes) : Reaction :=
  match bound with
  | none => .ok (encodeInteger 0, none)
  | some ⟨.scores isGeo scores, _⟩ =>
    let shrunk := members.foldl (fun scores member => scores.erase member) scores
    .ok (encodeInteger (scores.keys.card - shrunk.keys.card : Nat),
      rebound bound (.scores isGeo shrunk))
  | some _ => .ok (wrongType, bound)

/-- ZCARD. The number is a `size_t`. -/
def zcard : Reaction :=
  fromScores bound (encodeInteger 0) fun _ scores => .ok (encodeInteger (u64 scores.keys.card))

/-- ZSCORE. Coordinates are shown as the number they are kept as. -/
def zscore (member : Bytes) : Reaction :=
  fromScores bound encodeNullBulkString fun isGeo scores =>
    match scores.lookup member with
    | none => .ok encodeNullBulkString
    | some score =>
      if isGeo then
        match scoreBits score with
        | .ok bits => .ok (encodeBulkString (toDecimal bits))
        | .error _ => .error .overflow
      else .ok (encodeBulkString (FloatText.formatFixed 14 score))

/-- ZRANK. -/
def zrank (member : Bytes) : Reaction :=
  fromScores bound encodeNullBulkString fun _ scores =>
    .ok (match ((ranked scores).map Prod.snd).idxOf? member with
      | some rank => encodeInteger rank
      | none => encodeNullBulkString)

/-- ZRANGE. -/
def zrange (start stop : Int) : Reaction :=
  fromScores bound encodeEmptyArray fun _ scores =>
    .ok (encodeBulkStringArray (rangeOf ((ranked scores).map Prod.snd) start stop))

/-- The elements of a list, old and new, that a command looks at in a build
with assertions. Wide numbers among them make these fail. -/
def examined : Command → List Bytes
  | .lpush _ values => (elements bound).take 1 ++ values.dropLast
  | .lpop _ count => (elements bound).take (count.getD 1)
  | .blpop .. => (elements bound).take 1
  | .lrange .. => elements bound
  | _ => []

instance (x : Bytes) : Decidable (Wide x) :=
  decidable_of_iff ((lpStringToInt64 x).any (fun v => v < -2 ^ 31 ∨ 2 ^ 31 ≤ v) = true)
    (by simp [Wide, Option.any_eq_true])

instance (ndebug : Bool) (x : Bytes) : Decidable (Checked ndebug x) :=
  inferInstanceAs (Decidable (ndebug = true ∨ ¬ Wide x))

/-- A command about one key, where no assertion fails. -/
def respond (clock : Clock) : Command → Reaction
  | .set _ value ex px => set bound clock.steady value ex px
  | .get _ => getOrType bound clock.steady false
  | .type _ => getOrType bound clock.steady true
  | .incr _ => incr bound
  | .rpush _ values => push bound false values
  | .lpush _ values => push bound true values
  | .lpop _ count => lpop bound (count.getD 1)
  | .blpop keys _ => blpop bound (keys.headD [])
  | .llen _ => llen bound
  | .lrange _ start stop => lrange bound start stop
  | .xadd _ streamId fieldValues => xadd bound clock.system streamId fieldValues
  | .xrange _ start stop => xrange bound start stop
  | .zadd _ scoreMembers => zadd bound scoreMembers
  | .geoAdd _ longitude latitude score member invalidLatLon =>
    geoadd bound longitude latitude score member invalidLatLon
  | .zrem _ members => zrem bound members
  | .zcard _ => zcard bound
  | .zscore _ member => zscore bound member
  | .zrank _ member => zrank bound member
  | .zrange _ start stop => zrange bound start stop
  | _ => .error .foreign

/-- A command about one key. -/
def react (ndebug : Bool) (clock : Clock) (command : Command) : Reaction :=
  if ∀ x ∈ examined bound command, Checked ndebug x then respond bound clock command
  else .error .crashes

/-- The entries a reading of several keys finds, key by key. -/
def readBehind (keyspace : Keyspace) : List (Bytes × Bytes) →
    Except Declined (List (Bytes × List (StreamID × List (Bytes × Bytes))))
  | [] => .ok []
  | (key, text) :: rest =>
    match keyspace.lookup key with
    | none => .error .crashes
    | some binding => do
      let behind := entriesBehind text (entries (some binding))
      let later ← readBehind keyspace rest
      .ok (if behind = [] then later else (key, behind) :: later)

/-- The reply to such a reading. -/
def encodeRead (replies : List (Bytes × List (StreamID × List (Bytes × Bytes)))) : Bytes :=
  encodeArrayHeader replies.length ++
    replies.flatMap fun (key, entries) =>
      encodeArrayHeader 2 ++ encodeBulkString key ++ encodeRange entries

/-- XREAD without BLOCK. -/
def xread (keyspace : Keyspace) (keys ids : List Bytes) : Except Declined Bytes :=
  if keys.length ≠ ids.length then .ok encodeEmptyArray
  else do .ok (encodeRead (← readBehind keyspace (keys.zip ids)))

/-- A command, at a reading of the clocks. -/
def step (ndebug : Bool) (keyspace : Keyspace) (clock : Clock) (command : Command) :
    Except Declined (Bytes × Keyspace) :=
  match command with
  | .ping => .ok (encodeSimpleString (ascii "PONG"), keyspace)
  | .echo message => .ok (encodeBulkString message, keyspace)
  | .xread none keys ids => do .ok (← xread keyspace keys ids, keyspace)
  | command =>
    match command.part with
    | some (.key key) => do
      let (answer, bound) ← react (keyspace.lookup key) ndebug clock command
      .ok (answer, place keyspace key bound)
    | _ => .error .foreign

/-- The commands of sorted sets. Their handlers look at the command of the
request, which is EXEC behind a transaction. -/
def ofRequest : Command → Bool
  | .zadd .. | .zrank .. | .zrange .. | .zcard _ | .zscore .. | .zrem .. | .geoAdd .. | .geoPos ..
  | .geoDist .. | .geoSearch .. => true
  | _ => false

/-- A command of a transaction. -/
def carryOut (ndebug : Bool) (keyspace : Keyspace) (clock : Clock) (command : Command) :
    Except Declined (Bytes × Keyspace) :=
  if ofRequest command then .ok (invalidCommandType, keyspace) else step ndebug keyspace clock command

/-- The commands of a transaction, one after another. -/
def exec (ndebug : Bool) (keyspace : Keyspace) : List Command → List Clock →
    Except Declined (Bytes × Keyspace)
  | [], _ => .ok ([], keyspace)
  | _ :: _, [] => .error .foreign
  | command :: commands, clock :: clocks => do
    let (first, keyspace) ← carryOut ndebug keyspace clock command
    let (rest, keyspace) ← exec ndebug keyspace commands clocks
    .ok (first ++ rest, keyspace)

end Keyspace

/-! ## Clients -/

/-- A client: what it has been sent, and what it has queued in a transaction. -/
structure Party where
  inbox : Bytes
  queued : Option (List Command) := none

/-- The keyspace and its clients. -/
structure World where
  keyspace : Keyspace
  parties : Map Fd Party

namespace World

/-- What a client asks: its command, and the readings of the clocks. -/
structure Asked where
  fd : Fd
  command : Command
  clock : Clock
  clocks : List Clock

/-- A command of a client outside of a transaction: the reply, the keyspace,
and the transaction it opens. -/
def plain (ndebug : Bool) (keyspace : Keyspace) (asked : Asked) :
    Except Declined (Bytes × Keyspace × Option (List Command)) :=
  match asked.command with
  | .multi => .ok (encodeSimpleString (ascii "OK"), keyspace, some [])
  | .exec => .ok (encodeError (ascii "EXEC without MULTI"), keyspace, none)
  | .discard => .ok (encodeError (ascii "DISCARD without MULTI"), keyspace, none)
  | command => do
    let (answer, keyspace) ← Keyspace.step ndebug keyspace asked.clock command
    .ok (answer, keyspace, none)

/-- A command of a client in a transaction. Nothing happens to the keyspace
before EXEC, and then everything at once. -/
def queued (ndebug : Bool) (keyspace : Keyspace) (commands : List Command) (asked : Asked) :
    Except Declined (Bytes × Keyspace × Option (List Command)) :=
  match asked.command with
  | .exec => do
    let (answers, keyspace) ← Keyspace.exec ndebug keyspace commands asked.clocks
    .ok (encodeArrayHeader commands.length ++ answers, keyspace, none)
  | .discard => .ok (encodeSimpleString (ascii "OK"), keyspace, none)
  | .aclWhoami => .error .foreign
  | command => .ok (encodeSimpleString (ascii "QUEUED"), keyspace, some (commands ++ [command]))

/-- A request. Whoever is not connected has not asked. -/
def step (ndebug : Bool) (world : World) (asked : Asked) : Except Declined (Bytes × World) :=
  match world.parties.lookup asked.fd with
  | none => .ok ([], world)
  | some party => do
    let (answer, keyspace, transaction) ←
      match party.queued with
      | none => plain ndebug world.keyspace asked
      | some commands => queued ndebug world.keyspace commands asked
    .ok (answer, ⟨keyspace, world.parties.insert asked.fd ⟨party.inbox ++ answer, transaction⟩⟩)

end World

end CarrotDb
