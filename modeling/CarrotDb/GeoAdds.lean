import CarrotDb.DbObjects
import CarrotDb.CommandFrames
import CarrotDb.SortedSetCommands
import CarrotDb.Lib.FloatBounds
import CarrotDb.Lib.FloatOrder

/-! GEOADD with any number of points. The loop of its parser reads all of them
into the fields of one command, and the handler inserts what is left there: the
last point. -/
namespace CarrotDb
open Decimal Resp FloatText FloatBounds FloatOrder
open Float.Model UnpackedFloat

/-- One triple of a frame, as its texts. -/
structure GeoTriple where
  longitude : Bytes
  latitude : Bytes
  member : Bytes

namespace GeoTriple

/-- The arguments of a frame that make up the triple. -/
def args (triple : GeoTriple) : List Bytes := [triple.longitude, triple.latitude, triple.member]

/-- The coordinates are numbers inside the ranges of GEOADD. -/
def Allowed (triple : GeoTriple) : Prop :=
  (∃ longitude ∈ stod triple.longitude, minAllowedLon ≤ longitude ∧ longitude ≤ maxAllowedLon) ∧
    ∃ latitude ∈ stod triple.latitude, minAllowedLat ≤ latitude ∧ latitude ≤ maxAllowedLat

instance (triple : GeoTriple) : Decidable triple.Allowed := inferInstanceAs (Decidable (_ ∧ _))

/-- The geohash of the coordinates, as a score. -/
def geohash (triple : GeoTriple) : Option Float := do
  let longitude ← stod triple.longitude
  let latitude ← stod triple.latitude
  match allowedGeoHash.geoHashEncode longitude latitude 26 ⟨0, 0⟩ with
  | .ok (true, hash) => some hash.bits.toFloat
  | _ => none

end GeoTriple

theorem offsetBits_below {offset : Float} (below : Below 31 .positive offset.toModel.unpack) :
    ∃ bits, GeoHash.offsetBits offset = .ok bits := by
  have integer : ∃ value, toInteger 0 (2 ^ 32 - 1) offset = .ok value := by
    unfold toInteger finiteParts
    generalize offset.toModel.unpack = unpacked at below
    cases below with
    | zero sign => cases sign <;> exact ⟨0, rfl⟩
    | @finite mantissa exponent positive small bits =>
      have less := @whole_lt 31 mantissa exponent small
      have sign : (Sign.positive == Sign.negative) = false := rfl
      simp only [fractionPower, sign, Bool.false_eq_true, if_false]
      exact ⟨_, if_pos ⟨Int.natCast_nonneg _, by omega⟩⟩
  obtain ⟨value, read⟩ := integer
  exact ⟨_, by rw [GeoHash.offsetBits, read]; rfl⟩

/-- A range around zero, with a width of twice the size of its bounds. -/
def AroundZero (low high : Float) : Prop :=
  ∃ (e : Int) (m m' n : Nat) (positive : 0 < m) (positive' : 0 < m') (wide : 0 < n),
    low.toModel.unpack = .finite .negative m e positive ∧
    high.toModel.unpack = .finite .positive m' e positive' ∧
    (high - low).toModel.unpack = .finite .positive n (e + 1) wide ∧
    m.log2 = 52 ∧ n.log2 = 52 ∧ -100 ≤ e ∧ e ≤ 100

theorem aroundZero_longitude : AroundZero minAllowedLon maxAllowedLon :=
  ⟨-45, _, _, _, by decide, by decide, by decide, rfl, rfl, rfl, by decide, by decide, by decide,
    by decide⟩

theorem aroundZero_latitude : AroundZero minAllowedLat maxAllowedLat :=
  ⟨-46, _, _, _, by decide, by decide, by decide, rfl, rfl, rfl, by decide, by decide, by decide,
    by decide⟩

/-- An offset as a share of its range, scaled to 26 bits. -/
theorem offset_below {low high value : Float} (range : AroundZero low high) (above : low ≤ value)
    (under : value ≤ high) :
    Below 31 .positive
      ((value - low) / (high - low) * Float.ofNat (2 ^ 26)).toModel.unpack := by
  obtain ⟨e, m, m', n, positive, positive', wide, least, greatest, width, full, broad, small,
    large⟩ := range
  have scale : (Float.ofNat (2 ^ 26)).toModel.unpack =
      .finite .positive (2 ^ 52) (-26) (by decide) := rfl
  obtain ⟨sign, inside⟩ := double_between least greatest above under
  have size : totalExponent m e ≤ e + 53 := by
    rw [totalExponent]
    omega
  have broad' : e + 54 ≤ totalExponent n (e + 1) := by
    rw [totalExponent]
    omega
  have offset := sub_double_below (by omega) (by omega) inside least size full above
  have share := div_double_below (show -1023 ≤ e + 53 + 2 - (e + 54) by omega) (by omega) offset
    width broad'
  rw [show e + 53 + 2 - (e + 54) + 2 = 3 by ring] at share
  exact mul_double_below (show (-1022 : Int) ≤ 3 + 27 by decide) (by decide) share scale (by decide)

/-- Inside its ranges a geohash is made of the bits of both offsets. -/
theorem geoHashEncode_inside {geo : GeoHash} {longitude latitude : Float} {lat long : UInt32}
    (west : geo.longRange.min ≤ longitude) (east : longitude ≤ geo.longRange.max)
    (south : geo.latRange.min ≤ latitude) (north : latitude ≤ geo.latRange.max) {step : UInt8}
    (first : GeoHash.offsetBits ((latitude - geo.latRange.min) /
      (geo.latRange.max - geo.latRange.min) * Float.ofNat (2 ^ step.toNat)) = .ok lat)
    (second : GeoHash.offsetBits ((longitude - geo.longRange.min) /
      (geo.longRange.max - geo.longRange.min) * Float.ofNat (2 ^ step.toNat)) = .ok long)
    (hash : GeoHashBits) : geo.geoHashEncode longitude latitude step hash =
      .ok (true, ⟨GeoHash.interleave64 lat long, step⟩) := by
  have inside : ¬ (longitude > geo.longRange.max ∨ longitude < geo.longRange.min ∨
      latitude > geo.latRange.max ∨ latitude < geo.latRange.min) := by
    rintro (beyond | beyond | beyond | beyond)
    · exact not_lt_of_le east beyond
    · exact not_lt_of_le west beyond
    · exact not_lt_of_le north beyond
    · exact not_lt_of_le south beyond
  rw [GeoHash.geoHashEncode, if_neg inside]
  simp only [first, second, exec_ok_bind]
  rfl

/-- A score made from the bits of a hash is a number. -/
theorem isNaN_toFloat (bits : UInt64) : bits.toFloat.isNaN = false := by
  have converted : bits.toFloat.toModel =
      Float.Model.pack (UnpackedFloat.ofNat Format.binary64 bits.toNat) := rfl
  have below : Below 65 .positive (UnpackedFloat.ofNat Format.binary64 bits.toNat) := by
    apply normalize_below (show (-1074 : Int) ≤ 64 by decide) (Int.natCast_nonneg _)
    have bound := bits.toNat_lt
    show (bits.toNat : Int) < 2 ^ 64
    omega
  apply @isNaN_of_below _ 65 Sign.positive
  rw [converted]
  exact unpack_pack_below (by decide) (by decide) below

/-- The geohash of an allowed point is defined, and a number; the parser reads
it whatever point it has read before. -/
theorem GeoTriple.Allowed.geohash {triple : GeoTriple} (allowed : triple.Allowed) :
    ∃ longitude latitude score, triple.geohash = some score ∧ score.isNaN = false ∧
      ∀ point : GeoPoint, point.invalidLatLon = false →
        readGeoPoint point triple.longitude triple.latitude triple.member =
          .ok ⟨longitude, latitude, score, triple.member, false⟩ := by
  obtain ⟨⟨longitude, held, west, east⟩, latitude, held', south, north⟩ := allowed
  have read := Option.mem_def.mp held
  have read' := Option.mem_def.mp held'
  obtain ⟨lat, first⟩ := offsetBits_below (offset_below aroundZero_latitude south north)
  obtain ⟨long, second⟩ := offsetBits_below (offset_below aroundZero_longitude west east)
  have encoded := @geoHashEncode_inside allowedGeoHash _ _ _ _ west east south north 26 first second
    ⟨0, 0⟩
  have inside : outsideAllowed longitude latitude = false := by
    simp [outsideAllowed, not_lt_of_le west, not_lt_of_le east, not_lt_of_le south,
      not_lt_of_le north]
  have accepted : acceptedPoint triple.longitude triple.latitude = some (longitude, latitude) := by
    simp [acceptedPoint, read, read', inside]
  refine ⟨longitude, latitude, (GeoHash.interleave64 lat long).toFloat, ?_, isNaN_toFloat _,
    fun point open_ => ?_⟩
  · simp [GeoTriple.geohash, read, read', encoded]
  · rw [Tokens.readGeoPoint_accepted open_ accepted, encoded]
    rfl

/-- Calls of `Parser::Parse` from a position on yield bulk strings, with these
texts. -/
def ReadsTexts (buffer : Bytes) : Nat → List Bytes → Prop
  | _, [] => True
  | position, text :: rest =>
    (parse buffer position).1.type = .bulkString ∧
      tokenText buffer (parse buffer position).1 = text ∧
      ReadsTexts buffer (parse buffer position).2 rest

/-- The read buffer starts with an array of bulk strings with these texts, as
the parser reads it. -/
def ReadsFrame (buffer : Bytes) (texts : List Bytes) : Prop :=
  ∃ position, parse buffer 0 = (⟨.array, 0, 0, texts.length⟩, position) ∧
    ReadsTexts buffer position texts

/-- The texts of a GEOADD. -/
def geoAddTexts (name key : Bytes) (triples : List GeoTriple) : List Bytes :=
  name :: key :: triples.flatMap GeoTriple.args

theorem readsTexts_held {buffer : Bytes} {position : Nat} {texts : List Bytes}
    (written : Tokens.Written buffer position texts) : ReadsTexts buffer position texts := by
  induction texts generalizing position with
  | nil => trivial
  | cons text rest ih =>
    obtain ⟨token, parsed, bulk, same⟩ := parse_clean (holds_append.mp written.held).1
      (written.small text List.mem_cons_self) (written.clean text List.mem_cons_self)
    rw [ReadsTexts, parsed]
    exact ⟨bulk, same, ih written.tail⟩

/-- What the encoder writes is read as it was, where no text has a carriage
return. -/
theorem readsFrame_encoded {texts : List Bytes} (clean : ∀ text ∈ texts, 13 ∉ text)
    (small : (encodeBulkStringArray texts).length < 2 ^ 64) (rest : Bytes) :
    ReadsFrame (encodeBulkStringArray texts ++ rest) texts := by
  obtain ⟨count, each⟩ := small_of_fits small
  obtain ⟨header, others⟩ := holds_append.mp
    (show Holds (encodeBulkStringArray texts ++ rest) 0 (encodeBulkStringArray texts) from
      ⟨rest, rfl⟩)
  exact ⟨_, parse_arrayHeader header count, readsTexts_held ⟨others, each, clean⟩⟩

theorem run_token {next : Token → Tokens α} {buffer text : Bytes} {position : Nat}
    {rest : List Bytes} (reads : ReadsTexts buffer position (text :: rest)) :
    (Tokens.read next).run buffer position =
      (next ⟨true, text⟩).run buffer (parse buffer position).2 := by
  obtain ⟨bulk, same, -⟩ := reads
  rw [Tokens.run]
  dsimp only
  rw [bulk, same]
  rfl

theorem parseGeoPoints_few {total : Nat} (few : total < 3) (point : GeoPoint) :
    parseGeoPoints total point = pure point := by
  rcases total with _ | _ | _ | total
  · simp [parseGeoPoints]
  · simp [parseGeoPoints]
  · simp [parseGeoPoints]
  · omega

/-- The member and the score that are left where triples have been written over
each other. -/
def fieldsAfter (fields : Bytes × Option Float) (triples : List GeoTriple) :
    Bytes × Option Float :=
  triples.foldl (fun _ triple => (triple.member, triple.geohash)) fields

/-- The loop writes the point it reads over the one before. -/
theorem run_geoPoints {buffer : Bytes} {position total : Nat} {triples : List GeoTriple}
    (reads : ReadsTexts buffer position (triples.flatMap GeoTriple.args))
    (allowed : ∀ triple ∈ triples, triple.Allowed) (within : total / 3 ≤ triples.length)
    {point : GeoPoint} (open_ : point.invalidLatLon = false) (number : point.score.isNaN = false) :
    ∃ next behind, next.invalidLatLon = false ∧ next.score.isNaN = false ∧
      (next.member, some next.score) =
        fieldsAfter (point.member, some point.score) (triples.take (total / 3)) ∧
      ∀ finish : GeoPoint → Tokens Command,
        (parseGeoPoints total point >>= finish).run buffer position =
          (finish next).run buffer behind := by
  induction triples generalizing position total point with
  | nil =>
    have few : total < 3 := by simpa using within
    exact ⟨point, position, open_, number, by simp [fieldsAfter],
      fun finish => by rw [parseGeoPoints_few few]; rfl⟩
  | cons triple rest ih =>
    by_cases few : total < 3
    · have none_ : total / 3 = 0 := by omega
      exact ⟨point, position, open_, number, by simp [fieldsAfter, none_],
        fun finish => by rw [parseGeoPoints_few few]; rfl⟩
    · obtain ⟨total, rfl⟩ : ∃ left, total = left + 3 := ⟨total - 3, by omega⟩
      obtain ⟨longitude, latitude, score, hash, number', read⟩ :=
        (allowed triple List.mem_cons_self).geohash
      have second := reads.2.2
      have third := second.2.2
      have fewer : total / 3 ≤ rest.length := by
        rw [List.length_cons] at within
        omega
      have open₁ : (⟨longitude, latitude, score, triple.member, false⟩ : GeoPoint).invalidLatLon =
        false := rfl
      obtain ⟨next, behind, open', number'', fields, ran⟩ := ih third.2.2
        (fun other held => allowed other (List.mem_cons_of_mem _ held)) fewer open₁ number'
      refine ⟨next, behind, open', number'', ?_, fun finish => ?_⟩
      · rw [fields, show (total + 3) / 3 = total / 3 + 1 by omega, List.take_succ_cons, fieldsAfter,
          fieldsAfter, List.foldl_cons, hash]
      · simp only [parseGeoPoints, Tokens.parseToken_bind, Tokens.read_bind]
        rw [run_token reads, run_token second, run_token third]
        simp only [Bool.not_true, Bool.or_self, Bool.false_eq_true, if_false, read _ open_]
        exact ran finish

/-- What the loop of the parser counts down from: `total_commands` is an `int`. -/
def geoTotal (triples : List GeoTriple) : Int := i32 ((1 + 3 * triples.length : Nat) : Int)

/-- The member and the score that the command has when its frame is read. -/
def insertedPair (triples : List GeoTriple) : Bytes × Option Float :=
  fieldsAfter ([], some 0) (triples.take ((geoTotal triples - 1).toNat / 3))

section Reading
variable {buffer name key : Bytes} {triples : List GeoTriple}

theorem args_length (triples : List GeoTriple) :
    (triples.flatMap GeoTriple.args).length = 3 * triples.length := by
  induction triples with
  | nil => rfl
  | cons triple rest ih =>
    rw [List.flatMap_cons, List.length_append, ih, List.length_cons]
    simp only [GeoTriple.args, List.length_cons, List.length_nil]
    omega

/-- The name and the key are read before the triples. -/
theorem parseCommand_geoAdd (reads : ReadsFrame buffer (geoAddTexts name key triples))
    (named : isEqual name (ascii "GEOADD") = true) :
    ∃ position, ReadsTexts buffer position (triples.flatMap GeoTriple.args) ∧
      parseCommand buffer =
        (decrement (geoTotal triples) 1 >>= fun total =>
          parseGeoPoints total.toNat {} >>= fun point =>
            pure (.geoAdd key point.longitude point.latitude point.score point.member
              point.invalidLatLon)).run buffer position >>= fun result =>
          .ok ⟨result.1, result.2, buffer.drop result.2⟩ := by
  obtain ⟨position, header, bulk, same, behind⟩ := reads
  have total : i32 (((geoAddTexts name key triples).length : Int) - 1) = geoTotal triples := by
    rw [geoTotal, geoAddTexts, List.length_cons, List.length_cons, args_length]
    congr 1
    push_cast
    ring
  have found := find_geoAdd named (geoTotal triples)
  refine ⟨_, behind.2.2, ?_⟩
  rw [parseCommand, parseCommandFrom, header]
  dsimp only
  rw [parseArray]
  dsimp only
  rw [same, total, commandParser, found]
  show (parseGeoAddCommand (geoTotal triples)).run _ _ >>= _ = _
  rw [parseGeoAddCommand, expectBulkString, Tokens.parseToken_bind, run_token behind]
  rfl

theorem parseCommand_overflows (reads : ReadsFrame buffer (geoAddTexts name key triples))
    (named : isEqual name (ascii "GEOADD") = true) (least : geoTotal triples = -2 ^ 31) :
    parseCommand buffer = .error .undefinedBehaviour := by
  obtain ⟨position, -, parsing⟩ := parseCommand_geoAdd reads named
  rw [parsing, least]
  rfl

/-- Allowed points that the loop reads end in the command of a pair. -/
theorem parseCommand_inserts (reads : ReadsFrame buffer (geoAddTexts name key triples))
    (named : isEqual name (ascii "GEOADD") = true) (allowed : ∀ triple ∈ triples, triple.Allowed)
    (counted : geoTotal triples ≠ -2 ^ 31) :
    ∃ parsed longitude latitude score member, parseCommand buffer = .ok parsed ∧
      parsed.command = .geoAdd key longitude latitude score member false ∧
      score.isNaN = false ∧ insertedPair triples = (member, some score) := by
  obtain ⟨position, texts, parsing⟩ := parseCommand_geoAdd reads named
  have range := i32_range ((1 + 3 * triples.length : Nat) : Int)
  have fewer := i32_le (1 + 3 * triples.length)
  rw [← geoTotal] at range fewer
  have within : (geoTotal triples - 1).toNat / 3 ≤ triples.length := by omega
  obtain ⟨next, behind, open_, number, fields, ran⟩ :=
    @run_geoPoints buffer position _ triples texts allowed within {} rfl rfl
  refine ⟨⟨.geoAdd key next.longitude next.latitude next.score next.member false, behind,
    buffer.drop behind⟩, next.longitude, next.latitude, next.score, next.member, ?_, rfl, number,
    fields.symm⟩
  have started : -2 ^ 31 ≤ geoTotal triples - (1 : Nat) := by omega
  rw [parsing, Tokens.decrement_above started, Nat.cast_one, ran, open_]
  rfl

end Reading

variable {db : DB} {c : Context} {key : Bytes} {set : SortedSet} {triples : List GeoTriple}
  {longitude latitude score : Float} {member : Bytes}

/-- GEOADD takes what is under the key, and stores it with the pair in it. -/
theorem callSimple_geoAdd (holds : db.HasSortedSet key set)
    (asked : c.command = .geoAdd key longitude latitude score member false) :
    ∃ fresh redisObject, redisObject.type = .sortedSet ∧ callSimple db c c.command =
      { set with isGeo := true }.insert member score >>= fun result =>
        replying (storeSortedSet fresh key redisObject result.1)
          (encodeInteger (if result.2 then 0 else 1)) := by
  obtain ⟨fresh, redisObject, opened, type, pointer⟩ := holds.opened
  refine ⟨fresh, redisObject, type, ?_⟩
  rw [asked]
  show handleGeoadd db c = _
  simp [handleGeoadd, asked, opened, type, pointer, deref]

/-- It binds one member, and tells whether that is new. -/
theorem geoAdd_inserts (holds : db.HasSortedSet key set) (stands : set.Stands)
    (finds : set.Finds member) (number : score.isNaN = false)
    (asked : c.command = .geoAdd key longitude latitude score member false) :
    ∃ db', callSimple db c c.command =
        .ok (db', [.reply (encodeInteger (if (set.score member).isSome then 0 else 1 : Nat))]) ∧
      db'.HasSortedSet key { set.placed member score with isGeo := true } := by
  obtain ⟨fresh, redisObject, type, ran⟩ := callSimple_geoAdd holds asked
  refine ⟨_, ?_, storeSortedSet_holds fresh key type _⟩
  rw [ran, (stands.flagged true).insert_eq,
    if_pos ((SortedSet.takes_flagged true).mpr ⟨finds, .inl number⟩), exec_ok_bind,
    SortedSet.placed_flagged]
  show replying _ (encodeInteger (if (set.score member).isSome then 0 else 1)) = _
  rw [apply_ite (Nat.cast : Nat → Int)]
  rfl

/-- Or it has to look a not-a-number up among several entries. -/
theorem geoAdd_lost (holds : db.HasSortedSet key set) (stands : set.Stands)
    (lost : ¬ set.Finds member)
    (asked : c.command = .geoAdd key longitude latitude score member false) :
    callSimple db c c.command = .error .undefinedBehaviour := by
  obtain ⟨fresh, redisObject, type, ran⟩ := callSimple_geoAdd holds asked
  rw [ran, (stands.flagged true).insert_eq,
    if_neg fun takes => lost ((SortedSet.takes_flagged true).mp takes).1, exec_error_bind]

/-! ## The members of a frame -/

/-- The geohash of the last listed coordinates of a member. -/
def listedScore (triples : List GeoTriple) (member : Bytes) : Option Float :=
  (triples.reverse.find? fun triple => triple.member == member).bind GeoTriple.geohash

/-- How many members of a frame are not in a set. -/
def newMembers (set : SortedSet) (triples : List GeoTriple) : Nat :=
  (triples.map GeoTriple.member).dedup.countP fun member => (set.score member).isNone

/-- A member is in a set with a score, in both of its indexes. -/
def SortedSet.Contains (set : SortedSet) (member : Bytes) (score : Float) : Prop :=
  set.score member = some score ∧ (score, member) ∈ set.sets

/-- The frame in the read buffer puts every member in it into the set with the
geohash of the last listed coordinates, and is answered with the number of new
members. -/
def AddsAll (db : DB) (c : Context) (key : Bytes) (set : SortedSet) (triples : List GeoTriple)
    (buffer : Bytes) : Prop :=
  ∃ parsed db' set', parseCommand buffer = .ok parsed ∧
    callSimple db { c with command := parsed.command } parsed.command =
      .ok (db', [.reply (encodeInteger (newMembers set triples))]) ∧
    db'.HasSortedSet key set' ∧
    ∀ triple ∈ triples, ∃ score ∈ listedScore triples triple.member,
      set'.Contains triple.member score

/-- To insert one pair is enough. The score that its member has can be looked
up; the other members are in the set with the right score already, and still
are without that member; and the pair is about a member of the frame and does
not meet a not-a-number in the order, or it is about one that is in the set. -/
structure OneSuffices (set : SortedSet) (triples : List GeoTriple) : Prop where
  counted : geoTotal triples ≠ -2 ^ 31
  finds : set.Finds (insertedPair triples).1
  others : ∀ triple ∈ triples, triple.member ≠ (insertedPair triples).1 →
    ∃ score ∈ listedScore triples triple.member,
      (set.taken (insertedPair triples).1).Contains triple.member score
  own : ∀ triple ∈ triples, triple.member = (insertedPair triples).1 →
    listedScore triples triple.member = (insertedPair triples).2 ∧
      Numbers (set.taken (insertedPair triples).1).sets
  listed : (∀ triple ∈ triples, triple.member ≠ (insertedPair triples).1) →
    (set.score (insertedPair triples).1).isSome = true

/-- Where all members but one are in the set, that one is new. -/
theorem newMembers_one (present : ∀ triple ∈ triples, triple.member ≠ member →
      (set.score triple.member).isSome = true) (absent : set.score member = none)
    (listed : member ∈ triples.map GeoTriple.member) : newMembers set triples = 1 := by
  have only : ∀ other ∈ (triples.map GeoTriple.member).dedup,
      (set.score other).isNone = true ↔ (other == member) = true := by
    intro other held
    rw [beq_iff_eq]
    obtain ⟨triple, inside, rfl⟩ := List.mem_map.mp (List.mem_dedup.mp held)
    constructor
    · intro missing
      by_contra different
      have there := present triple inside different
      rw [Option.isNone_iff_eq_none.mp missing] at there
      cases there
    · intro same
      rw [same, absent]
      rfl
  rw [newMembers, List.countP_congr only]
  exact List.count_eq_one_of_mem (List.nodup_dedup _) (List.mem_dedup.mpr listed)

theorem newMembers_none (present : ∀ triple ∈ triples, (set.score triple.member).isSome = true) :
    newMembers set triples = 0 := by
  apply List.countP_eq_zero.mpr
  intro other held
  obtain ⟨triple, inside, rfl⟩ := List.mem_map.mp (List.mem_dedup.mp held)
  rw [Option.isNone_iff_eq_none, ← ne_eq, Option.ne_none_iff_isSome]
  exact present triple inside

variable {buffer name : Bytes}

/-- An entry gets its place in an order of numbers only. -/
theorem mem_insertEntry_iff {sets : List (Float × Bytes)}
    (ordered : sets.Pairwise fun a b => scoreLess a b = true)
    (absent : ∀ entry ∈ sets, entry.2 ≠ member) (number : score.isNaN = false) :
    (score, member) ∈ SortedSet.insertEntry (score, member) sets ↔ Numbers sets := by
  constructor
  · intro placed
    by_contra disordered
    have few : ¬ 1 < sets.length := fun several =>
      disordered (SortedSet.numbers_of_ordered ordered several)
    cases sets with
    | nil => exact disordered fun _ absent => absurd absent List.not_mem_nil
    | cons entry rest =>
      obtain rfl : rest = [] := List.eq_nil_of_length_eq_zero (by simpa using few)
      have nan : entry.1.isNaN = true := by
        by_contra other
        exact disordered (List.forall_mem_singleton.mpr (Bool.not_eq_true _ ▸ other))
      have tied : scoreTied entry (score, member) = true := (scoreTied_nan nan).1
      obtain ⟨before, behind⟩ := scoreTied_iff.mp tied
      rw [SortedSet.insertEntry, if_neg (Bool.eq_false_iff.mp behind),
        if_neg (Bool.eq_false_iff.mp before)] at placed
      rw [← List.mem_singleton.mp placed] at nan
      exact absurd (number.symm.trans nan) Bool.false_ne_true
  · intro numbers
    have ranked : sets.Pairwise fun a b => entryRank a < entryRank b :=
      ordered.imp_of_mem fun {a b} left right less =>
        (scoreLess_iff (numbers a left) (numbers b right)).mp less
    obtain ⟨front, back, -, placed, -⟩ := @SortedSet.insertEntry_place (score, member) sets number
      numbers ranked fun other held same =>
        absent other held (congrArg (fun place => (ofLex place).2) same)
    rw [placed]
    exact List.mem_append_right _ List.mem_cons_self

/-- What a set contains behind an insertion. -/
theorem placed_contains (stands : set.Stands) (number : score.isNaN = false) {other : Bytes}
    {found : Float} :
    SortedSet.Contains { set.placed member score with isGeo := true } other found ↔
      if other = member then found = score ∧ Numbers (set.taken member).sets
      else (set.taken member).Contains other found := by
  have between := stands.taken member
  have absent : ∀ entry ∈ (set.taken member).sets, entry.2 ≠ member := by
    intro entry held same
    have bound := between.bound entry held
    rw [SortedSet.taken_score, if_pos same] at bound
    cases bound
  have scored := @SortedSet.placed_score set member score other
  have order : (set.placed member score).sets =
      SortedSet.insertEntry (score, member) (set.taken member).sets := rfl
  unfold SortedSet.Contains
  show (set.placed member score).score other = some found ∧ (found, other) ∈ _ ↔ _
  rw [scored, order]
  split
  · rename_i same
    subst same
    rw [Option.some_inj]
    constructor
    · rintro ⟨rfl, placed⟩
      exact ⟨rfl, (mem_insertEntry_iff between.ordered absent number).mp placed⟩
    · rintro ⟨rfl, numbers⟩
      exact ⟨rfl, (mem_insertEntry_iff between.ordered absent number).mpr numbers⟩
  · rename_i different
    rw [SortedSet.taken_score, if_neg different]
    refine and_congr_right fun _ => ⟨fun held => ?_, fun held => SortedSet.subset_insertEntry held⟩
    exact (SortedSet.mem_insertEntry held).resolve_left fun same =>
      different (congrArg Prod.snd same)

/-- What a set contains without a member, it knew before. -/
theorem SortedSet.Contains.before {other : Bytes} {found : Float}
    (contains : (set.taken member).Contains other found) : (set.score other).isSome = true := by
  have scored := contains.1
  rw [SortedSet.taken_score] at scored
  split at scored
  · cases scored
  · rw [scored]
    rfl

/-- A frame that binds all its members had to insert one of them at most. -/
theorem AddsAll.oneSuffices (all : AddsAll db c key set triples buffer)
    (reached : db.Reachable) (holds : db.HasSortedSet key set)
    (reads : ReadsFrame buffer (geoAddTexts name key triples))
    (named : isEqual name (ascii "GEOADD") = true) (allowed : ∀ triple ∈ triples, triple.Allowed) :
    OneSuffices set triples := by
  obtain ⟨parsed, db', set', read, called, holds', contained⟩ := all
  have stands := holds.stands reached
  have counted : geoTotal triples ≠ -2 ^ 31 := by
    intro least
    rw [parseCommand_overflows reads named least] at read
    cases read
  obtain ⟨parsed', longitude, latitude, score, member, read', asked, number, pair⟩ :=
    parseCommand_inserts reads named allowed counted
  rw [read] at read'
  cases read'
  have finds : set.Finds member := by
    by_contra lost
    rw [@geoAdd_lost db { c with command := parsed.command } key set longitude latitude score member
      holds stands lost asked] at called
    cases called
  obtain ⟨db'', ran, held⟩ := @geoAdd_inserts db { c with command := parsed.command } key set
    longitude latitude score member holds stands finds number asked
  have both := called.symm.trans ran
  simp only [Except.ok.injEq, Prod.mk.injEq, List.cons.injEq, Effect.reply.injEq, and_true] at both
  obtain ⟨rfl, replied⟩ := both
  obtain rfl := held.unique holds'
  have count := encodeInteger_injective replied
  have others : ∀ triple ∈ triples, triple.member ≠ member →
      ∃ score ∈ listedScore triples triple.member,
        (set.taken member).Contains triple.member score := by
    intro triple inside different
    obtain ⟨found, listed, contains⟩ := contained triple inside
    rw [placed_contains stands number, if_neg different] at contains
    exact ⟨found, listed, contains⟩
  have own : ∀ triple ∈ triples, triple.member = member →
      listedScore triples triple.member = some score ∧ Numbers (set.taken member).sets := by
    intro triple inside same
    obtain ⟨found, listed, contains⟩ := contained triple inside
    rw [placed_contains stands number, if_pos same] at contains
    obtain ⟨rfl, numbers⟩ := contains
    exact ⟨listed, numbers⟩
  refine ⟨counted, ?_, ?_, ?_, ?_⟩
  · rwa [pair]
  · rwa [pair]
  · rwa [pair]
  · rw [pair]
    intro unlisted
    dsimp only at unlisted ⊢
    by_contra absent
    have zero : newMembers set triples = 0 := newMembers_none fun triple inside =>
      let ⟨_, _, contains⟩ := others triple inside (unlisted triple inside)
      contains.before
    rw [zero, if_neg absent] at count
    cases count

/-- Where one insertion is enough, the frame binds all its members. -/
theorem OneSuffices.addsAll (one : OneSuffices set triples) (reached : db.Reachable)
    (holds : db.HasSortedSet key set)
    (reads : ReadsFrame buffer (geoAddTexts name key triples))
    (named : isEqual name (ascii "GEOADD") = true) (allowed : ∀ triple ∈ triples, triple.Allowed) :
    AddsAll db c key set triples buffer := by
  have stands := holds.stands reached
  obtain ⟨parsed, longitude, latitude, score, member, read, asked, number, pair⟩ :=
    parseCommand_inserts reads named allowed one.counted
  obtain ⟨counted, finds, others, own, listed⟩ := one
  rw [pair] at finds others own listed
  dsimp only at finds others own listed
  obtain ⟨db', ran, held⟩ := @geoAdd_inserts db { c with command := parsed.command } key set
    longitude latitude score member holds stands finds number asked
  have present : ∀ triple ∈ triples, triple.member ≠ member →
      (set.score triple.member).isSome = true := fun triple inside different =>
    let ⟨_, _, contains⟩ := others triple inside different
    contains.before
  have count : newMembers set triples = if (set.score member).isSome then 0 else 1 := by
    split
    · rename_i known
      exact newMembers_none fun triple inside => by
        by_cases same : triple.member = member
        · rw [same]
          exact known
        · exact present triple inside same
    · rename_i absent
      apply newMembers_one present (Option.not_isSome_iff_eq_none.mp absent)
      by_contra unlisted
      exact absent (listed fun triple inside same =>
        unlisted (List.mem_map.mpr ⟨triple, inside, same⟩))
  refine ⟨parsed, db', _, read, by rw [count]; exact ran, held, fun triple inside => ?_⟩
  by_cases same : triple.member = member
  · obtain ⟨last, numbers⟩ := own triple inside same
    refine ⟨score, last, ?_⟩
    rw [placed_contains stands number, if_pos same]
    exact ⟨rfl, numbers⟩
  · obtain ⟨found, last, contains⟩ := others triple inside same
    refine ⟨found, last, ?_⟩
    rw [placed_contains stands number, if_neg same]
    exact contains

/-! ## Frames whose count fits an int -/

theorem insertedPair_last {front : List GeoTriple} {last : GeoTriple}
    (few : 1 + 3 * (front ++ [last]).length < 2 ^ 31) :
    geoTotal (front ++ [last]) ≠ -2 ^ 31 ∧
      insertedPair (front ++ [last]) = (last.member, last.geohash) := by
  have total : geoTotal (front ++ [last]) = ((1 + 3 * (front ++ [last]).length : Nat) : Int) :=
    i32_of_range (by omega) (by omega)
  have rounds : (geoTotal (front ++ [last]) - 1).toNat / 3 = (front ++ [last]).length := by
    rw [total]
    omega
  constructor
  · rw [total]
    omega
  · rw [insertedPair, rounds, List.take_length, fieldsAfter, List.foldl_append]
    rfl

theorem listedScore_last (front : List GeoTriple) (last : GeoTriple) :
    listedScore (front ++ [last]) last.member = last.geohash := by
  have found : (front ++ [last]).reverse.find? (fun triple => triple.member == last.member) =
      some last := by
    rw [List.reverse_append, List.reverse_singleton, List.singleton_append]
    exact List.find?_cons_of_pos BEq.rfl
  rw [listedScore, found, Option.bind_some]

/-- The other members of such a frame are in the set, with the geohash of their
last listed coordinates, and no entry of the order is in the way. -/
theorem oneSuffices_iff {front : List GeoTriple} {last : GeoTriple}
    (few : 1 + 3 * (front ++ [last]).length < 2 ^ 31) :
    OneSuffices set (front ++ [last]) ↔
      set.Finds last.member ∧ Numbers (set.taken last.member).sets ∧
        ∀ triple ∈ front, triple.member ≠ last.member →
          ∃ score ∈ listedScore (front ++ [last]) triple.member,
            (set.taken last.member).Contains triple.member score := by
  obtain ⟨counted, pair⟩ := insertedPair_last few
  have inside : last ∈ front ++ [last] := List.mem_append_right _ (List.mem_singleton_self last)
  constructor
  · rintro ⟨-, finds, others, own, -⟩
    rw [pair] at finds others own
    exact ⟨finds, (own last inside rfl).2, fun triple held different =>
      others triple (List.mem_append_left _ held) different⟩
  · rintro ⟨finds, numbers, others⟩
    refine ⟨counted, ?_, ?_, ?_, ?_⟩
    · rwa [pair]
    · rw [pair]
      intro triple held different
      rcases List.mem_append.mp held with held | held
      · exact others triple held different
      · rw [List.mem_singleton.mp held] at different
        exact absurd rfl different
    · rw [pair]
      intro triple held same
      dsimp only at same ⊢
      rw [same]
      exact ⟨listedScore_last front last, numbers⟩
    · rw [pair]
      intro unlisted
      exact absurd rfl (unlisted last inside)

/-- In a set whose scores are numbers that is all there is to it. -/
theorem oneSuffices_consistent {front : List GeoTriple} {last : GeoTriple}
    (few : 1 + 3 * (front ++ [last]).length < 2 ^ 31) (consistent : set.Consistent) :
    OneSuffices set (front ++ [last]) ↔
      ∀ triple ∈ front, triple.member ≠ last.member →
        ∃ score ∈ listedScore (front ++ [last]) triple.member, set.score triple.member = some score := by
  have left := consistent.taken last.member
  rw [oneSuffices_iff few, and_iff_right (consistent.finds last.member), and_iff_right left.numbers]
  refine forall_congr' fun triple => forall_congr' fun held => forall_congr' fun different =>
    exists_congr fun score => and_congr_right fun _ => ?_
  have scored := @SortedSet.taken_score set last.member triple.member
  rw [if_neg different] at scored
  rw [← scored]
  exact ⟨And.left, fun bound => ⟨bound, (left.agree score triple.member).mpr bound⟩⟩

namespace GeoTriple

def palermo : GeoTriple := ⟨ascii "13.361389", ascii "38.115556", ascii "Palermo"⟩

def catania : GeoTriple := ⟨ascii "15.087269", ascii "37.502669", ascii "Catania"⟩

theorem sample_allowed : ∀ triple ∈ [palermo, catania], triple.Allowed := by decide +kernel

end GeoTriple

/-- A frame of allowed points binds all its members just where it is enough to
insert the pair that its parser is left with. -/
theorem addsAll_iff (reached : db.Reachable) (holds : db.HasSortedSet key set)
    (reads : ReadsFrame buffer (geoAddTexts name key triples))
    (named : isEqual name (ascii "GEOADD") = true) (allowed : ∀ triple ∈ triples, triple.Allowed) :
    AddsAll db c key set triples buffer ↔ OneSuffices set triples :=
  ⟨fun all => all.oneSuffices reached holds reads named allowed,
    fun one => one.addsAll reached holds reads named allowed⟩

theorem execute_geoAdd (asked : c.command = .geoAdd key longitude latitude score member false)
    (open_ : c.client.multi = false) (listening : c.client.pubSub = false) {db' : DB}
    {effects : List Effect} (ran : callSimple db c c.command = .ok (db', effects))
    (rdbFilePath : Bytes) (envs : List Env) :
    execute db c rdbFilePath envs = .ok ⟨db', c.acl, effects, some c.command⟩ := by
  rw [asked] at ran
  have called : call db c envs (.geoAdd key longitude latitude score member false) = _ := ran
  rw [execute, open_, listening, asked, if_neg, if_neg, if_neg Bool.false_ne_true]
  · simp only [called]
    rfl
  · rintro ⟨multi, -⟩
    cases multi
  · rintro ⟨whoami, -⟩
    cases whoami

/-- A reachable database with the first of the points in a set. -/
theorem palermo_added : ∃ db : DB, db.Reachable ∧ ∃ score : Float, score.isNaN = false ∧
    GeoTriple.palermo.geohash = some score ∧
    db.HasSortedSet (ascii "k") { SortedSet.new.placed (ascii "Palermo") score with isGeo := true } := by
  have allowed : ∀ triple ∈ [GeoTriple.palermo], triple.Allowed := fun triple held =>
    GeoTriple.sample_allowed triple (List.mem_cons.mpr (.inl (List.mem_singleton.mp held)))
  obtain ⟨parsed, longitude, latitude, score, member, -, asked, number, pair⟩ :=
    parseCommand_inserts (@readsFrame_encoded (geoAddTexts (ascii "geoadd") (ascii "k") [.palermo])
      (by decide) (by decide) []) (by decide) allowed (by decide)
  have inserted := (@insertedPair_last [] .palermo (by decide)).2
  rw [List.nil_append, pair] at inserted
  obtain ⟨rfl, hash⟩ := Prod.mk.inj inserted
  obtain ⟨db, ran, holds⟩ := @geoAdd_inserts {} { Context.sample with command := parsed.command }
    (ascii "k") .new longitude latitude score _ (.inl ⟨rfl, rfl⟩) SortedSet.new_stands
    (SortedSet.new_consistent false |>.finds _) number asked
  have executed := @execute_geoAdd {} { Context.sample with command := parsed.command } (ascii "k")
    longitude latitude score _ asked rfl rfl db _ ran [] []
  exact ⟨db, .executed .empty executed, score, number, hash.symm, holds⟩

/-- GEOADD of two points, of which the first is in the set already. -/
theorem addsAll_catania : ∃ db set, db.HasSortedSet (ascii "k") set ∧
    set.score (ascii "Palermo") = GeoTriple.palermo.geohash ∧
    AddsAll db Context.sample (ascii "k") set [.palermo, .catania]
      (encodeBulkStringArray (geoAddTexts (ascii "geoadd") (ascii "k") [.palermo, .catania]) ++ []) := by
  obtain ⟨db, reached, score, number, hash, holds⟩ := palermo_added
  have consistent := ((SortedSet.new_consistent false).placed (ascii "Palermo") number).flagged true
  have known := @SortedSet.placed_score .new (ascii "Palermo") score (ascii "Palermo")
  rw [if_pos rfl] at known
  have one := (@oneSuffices_consistent _ [.palermo] .catania (by decide) consistent).mpr fun triple held _ => by
    rw [List.mem_singleton.mp held]
    refine ⟨score, ?_, known⟩
    have found : ([GeoTriple.palermo] ++ [GeoTriple.catania]).reverse.find?
        (fun triple => triple.member == GeoTriple.palermo.member) = some .palermo := rfl
    rw [Option.mem_def, listedScore, found, Option.bind_some, hash]
  have reads := @readsFrame_encoded (geoAddTexts (ascii "geoadd") (ascii "k") [.palermo, .catania])
    (by decide) (by decide) []
  refine ⟨db, _, holds, ?_, (addsAll_iff reached holds reads (by decide)
    GeoTriple.sample_allowed).mpr one⟩
  rw [hash, ← known]
  rfl

/-- Of two points only the second is added. -/
theorem addsAll_fails :
    ¬ AddsAll {} Context.sample (ascii "k") .new [.palermo, .catania]
      (encodeBulkStringArray (geoAddTexts (ascii "geoadd") (ascii "k") [.palermo, .catania]) ++ []) := by
  intro all
  have reads := @readsFrame_encoded (geoAddTexts (ascii "geoadd") (ascii "k") [.palermo, .catania])
    (by decide) (by decide) []
  have one := all.oneSuffices .empty (.inl ⟨rfl, rfl⟩) reads (by decide) GeoTriple.sample_allowed
  obtain ⟨score, -, early⟩ := (@oneSuffices_consistent .new [.palermo] .catania (by decide)
    (SortedSet.new_consistent false)).mp one .palermo List.mem_cons_self (by decide)
  cases early

end CarrotDb
