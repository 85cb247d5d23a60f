import CarrotDb.Db
import CarrotDb.GeoHash

/-! The handlers of sorted sets and of the coordinates kept in them. They
take their arguments from the command of the context, and refuse to run when
that is another one. -/
namespace CarrotDb
open Decimal Resp FloatText

/-- `"Invalid command type"`. -/
def invalidCommandType : Bytes := encodeError (ascii "Invalid command type")

/-- The reply to an operation on a key that holds another type. -/
def wrongType : Bytes :=
  encodeError (ascii "WRONGTYPE Operation against a key holding the wrong kind of value")

/-- What the reading handlers do: a reply for a missing key, a refusal of
another type, and otherwise a reply made from the sorted set. -/
def withSortedSet (db : DB) (key missing : Bytes) (reply : SortedSet → Exec Bytes) : Outcome := do
  match db.store.lookup key with
  | none => replying db missing
  | some redisObject =>
    if redisObject.type ≠ .sortedSet then replying db wrongType
    else do replying db (← reply (← deref redisObject.sortedSetPtr))

/-- The object that ZADD and GEOADD write to: the one bound to the key, or a
new sorted set that is stored before anything is inserted. -/
def openSortedSet (db : DB) (key : Bytes) : DB × RedisObject :=
  match db.store.lookup key with
  | some redisObject => (db, redisObject)
  | none =>
    let redisObject : RedisObject := { type := .sortedSet, sortedSetPtr := some SortedSet.new }
    ({ db with store := db.store.insert key redisObject }, redisObject)

/-- The loop of `handle_zadd`: the set and the number of new members. -/
def zaddMembers (set : SortedSet) : List (Float × Bytes) → Nat → Exec (SortedSet × Nat)
  | [], added => pure (set, added)
  | (score, member) :: rest, added => do
    let (set, wasKeyExisted) ← set.insert member score
    zaddMembers set rest (if wasKeyExisted then added else added + 1)

/-- Storing a sorted set back into its object. -/
def storeSortedSet (db : DB) (key : Bytes) (redisObject : RedisObject) (set : SortedSet) : DB :=
  { db with store := db.store.insert key { redisObject with sortedSetPtr := some set } }

/-- `handle_zadd`. -/
def handleZadd (db : DB) (c : Context) : Outcome :=
  match c.command with
  | .zadd key scoreMembers => do
    let (db, redisObject) := openSortedSet db key
    if redisObject.type ≠ .sortedSet then replying db wrongType
    else do
      let (set, added) ← zaddMembers (← deref redisObject.sortedSetPtr) scoreMembers 0
      replying (storeSortedSet db key redisObject set) (encodeInteger added)
  | _ => replying db invalidCommandType

/-- `handle_zrank`. -/
def handleZrank (db : DB) (c : Context) : Outcome :=
  match c.command with
  | .zrank key member => withSortedSet db key encodeNullBulkString fun set => do
    match ← set.rank member with
    | some rank => pure (encodeInteger rank)
    | none => pure encodeNullBulkString
  | _ => replying db invalidCommandType

/-- `handle_zrange`. -/
def handleZrange (db : DB) (c : Context) : Outcome :=
  match c.command with
  | .zrange key start stop => withSortedSet db key encodeEmptyArray fun set =>
    pure (encodeBulkStringArray (set.range start stop))
  | _ => replying db invalidCommandType

/-- `handle_zcard`. -/
def handleZcard (db : DB) (c : Context) : Outcome :=
  match c.command with
  | .zcard key => withSortedSet db key (encodeInteger 0) fun set => pure (encodeInteger set.size)
  | _ => replying db invalidCommandType

/-- A score cast to `uint64_t`. -/
def scoreBits (score : Float) : Exec Nat := do
  pure (← toInteger 0 (2 ^ 64 - 1) score).toNat

/-- `handle_zscore`. -/
def handleZscore (db : DB) (c : Context) : Outcome :=
  match c.command with
  | .zscore key member => withSortedSet db key encodeNullBulkString fun set =>
    match set.score member with
    | some score =>
      if set.isGeo then do pure (encodeBulkString (toDecimal (← scoreBits score)))
      else pure (encodeBulkString (formatFixed 14 score))
    | none => pure encodeNullBulkString
  | _ => replying db invalidCommandType

/-- The loop of `handle_zrem`. -/
def zremMembers (set : SortedSet) : List Bytes → Nat → Exec (SortedSet × Nat)
  | [], removed => pure (set, removed)
  | member :: rest, removed => do
    let (set, found) ← set.remove member
    zremMembers set rest (if found then removed + 1 else removed)

/-- `handle_zrem`. -/
def handleZrem (db : DB) (c : Context) : Outcome :=
  match c.command with
  | .zrem key members => do
    match db.store.lookup key with
    | none => replying db (encodeInteger 0)
    | some redisObject =>
      if redisObject.type ≠ .sortedSet then replying db wrongType
      else do
        let (set, removed) ← zremMembers (← deref redisObject.sortedSetPtr) members 0
        replying (storeSortedSet db key redisObject set) (encodeInteger removed)
  | _ => replying db invalidCommandType

/-! ## Coordinates -/

/-- The bounds of GEOADD. -/
def minAllowedLat : Float := -85.05112878
def maxAllowedLat : Float := 85.05112878
def minAllowedLon : Float := -180.0
def maxAllowedLon : Float := 180.0

/-- The geohash over the allowed ranges. -/
def allowedGeoHash : GeoHash := ⟨⟨minAllowedLat, maxAllowedLat⟩, ⟨minAllowedLon, maxAllowedLon⟩⟩

/-- The decoded area of a score. -/
def areaOfScore (score : Float) : Exec GeoHashArea := do
  pure (allowedGeoHash.geoHashDecode ⟨UInt64.ofNat (← scoreBits score), 26⟩)

/-- `handle_geoadd`. -/
def handleGeoadd (db : DB) (c : Context) : Outcome :=
  match c.command with
  | .geoAdd key longitude latitude score member invalidLatLon => do
    if invalidLatLon then
      let buf := ascii "invalid longitude,latitude pair " ++
        formatFixed 6 longitude ++ 44 :: formatFixed 6 latitude
      replying db (encodeError (buf.take 127))
    else do
      let (db, redisObject) := openSortedSet db key
      if redisObject.type ≠ .sortedSet then replying db wrongType
      else do
        let set ← deref redisObject.sortedSetPtr
        let (set, wasKeyExisted) ← { set with isGeo := true }.insert member score
        replying (storeSortedSet db key redisObject set)
          (encodeInteger (if wasKeyExisted then 0 else 1))
  | _ => replying db invalidCommandType

/-- The loop of `handle_geopos` over the members. -/
def geoPositions (set : SortedSet) : List Bytes → Exec Bytes
  | [] => pure []
  | member :: rest => do
    let position ←
      match set.score member with
      | none => pure encodeNullArray
      | some score => do
        let area ← areaOfScore score
        let longitude := (area.longitude.min + area.longitude.max) / 2.0
        let latitude := (area.latitude.min + area.latitude.max) / 2.0
        pure (encodeArrayHeader 2 ++ encodeBulkString (formatFixed 14 longitude) ++
          encodeBulkString (formatFixed 14 latitude))
    pure (position ++ (← geoPositions set rest))

/-- `handle_geopos`. -/
def handleGeopos (db : DB) (c : Context) : Outcome :=
  match c.command with
  | .geoPos key members =>
    let header := encodeArrayHeader members.length
    withSortedSet db key (header ++ members.flatMap fun _ => encodeNullArray) fun set => do
      pure (header ++ (← geoPositions set members))
  | _ => replying db invalidCommandType

/-- `handle_geodist`. -/
def handleGeodist (db : DB) (c : Context) : Outcome :=
  match c.command with
  | .geoDist key member1 member2 => withSortedSet db key encodeNullBulkString fun set =>
    match set.score member1, set.score member2 with
    | some score1, some score2 => do
      let distance := GeoHash.calculateDistance (← areaOfScore score1) (← areaOfScore score2)
      pure (encodeBulkString (formatFixed 4 distance))
    | _, _ => pure encodeNullBulkString
  | _ => replying db invalidCommandType

/-- The loop of `handle_geosearch` over the members, in the order the hash
map is walked. -/
def geoMatches (set : SortedSet) (center : GeoHashArea) (radius : Float) :
    List Bytes → Exec (List Bytes)
  | [] => pure []
  | member :: rest => do
    let inside ←
      match set.score member with
      | none => pure false
      | some score => do
        pure (decide (GeoHash.calculateDistance center (← areaOfScore score) ≤ radius))
    let results ← geoMatches set center radius rest
    pure (if inside then member :: results else results)

/-- `handle_geosearch`. -/
def handleGeosearch (db : DB) (c : Context) : Outcome :=
  match c.command with
  | .geoSearch key longitude latitude radius => withSortedSet db key encodeEmptyArray fun set => do
    let (_, bits) ← allowedGeoHash.geoHashEncode longitude latitude 26 ⟨0, 26⟩
    let center := allowedGeoHash.geoHashDecode bits
    let members := c.env.walk set.hashMap.keys
    pure (encodeBulkStringArray (← geoMatches set center radius members))
  | _ => replying db invalidCommandType

end CarrotDb
