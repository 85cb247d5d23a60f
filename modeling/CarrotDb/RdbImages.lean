import CarrotDb.RdbSafety
import CarrotDb.Server

/-! Snapshot images as Redis writes them, and what loading one leaves. An image
whose databases all announce their sizes loads as it is listed; without
`RESIZEDB` the byte behind the number is lost, and with it the entries. -/
namespace CarrotDb.Rdb
open Decimal Bits

/-- The three forms of a length. -/
inductive LengthForm where
  | sixBit
  | fourteenBit
  | thirtyTwoBit
  deriving DecidableEq, Repr

def LengthForm.bound : LengthForm → Nat
  | .sixBit => 2 ^ 6
  | .fourteenBit => 2 ^ 14
  | .thirtyTwoBit => 2 ^ 32

def LengthForm.encode (form : LengthForm) (n : Nat) : Bytes :=
  match form with
  | .sixBit => [UInt8.ofNat n]
  | .fourteenBit => [UInt8.ofNat (0x40 + n / 2 ^ 8), UInt8.ofNat n]
  | .thirtyTwoBit => [0x80, UInt8.ofNat (n / 2 ^ 24), UInt8.ofNat (n / 2 ^ 16),
    UInt8.ofNat (n / 2 ^ 8), UInt8.ofNat n]

structure Length where
  form : LengthForm
  value : Nat
  fits : value < form.bound

def Length.encode (length : Length) : Bytes := length.form.encode length.value

def toLittleEndian : Nat → Nat → Bytes
  | 0, _ => []
  | size + 1, n => UInt8.ofNat n :: toLittleEndian size (n / 256)

/-- A string: as text behind its length, or as a number. -/
inductive RdbString where
  | text (form : LengthForm) (bytes : Bytes) (fits : bytes.length < form.bound)
  | int8 (number : Int8)
  | int16 (number : Int16)
  | int32 (number : Int32)

def RdbString.value : RdbString → Bytes
  | .text _ bytes _ => bytes
  | .int8 number => intToDecimal number.toInt
  | .int16 number => intToDecimal number.toInt
  | .int32 number => intToDecimal number.toInt

def RdbString.encode : RdbString → Bytes
  | .text form bytes _ => form.encode bytes.length ++ bytes
  | .int8 number => rdbEncInt8 :: toLittleEndian 1 number.toUInt8.toNat
  | .int16 number => rdbEncInt16 :: toLittleEndian 2 number.toUInt16.toNat
  | .int32 number => rdbEncInt32 :: toLittleEndian 4 number.toUInt32.toNat

/-- The time an entry ends, in either unit. -/
inductive Expiry where
  | seconds (time : UInt32)
  | milliseconds (time : UInt64)

/-- The time in milliseconds. -/
def Expiry.value : Expiry → Nat
  | .seconds time => time.toNat * 1000
  | .milliseconds time => time.toNat

def Expiry.encode : Expiry → Bytes
  | .seconds time => rdbOpcodeExpireTime :: toLittleEndian 4 time.toNat
  | .milliseconds time => rdbOpcodeExpireTimeMs :: toLittleEndian 8 time.toNat

structure Entry where
  expiry : Option Expiry := none
  key : RdbString
  value : RdbString

def Entry.encode (entry : Entry) : Bytes :=
  (match entry.expiry with
  | some expiry => expiry.encode
  | none => []) ++ rdbTypeString :: (entry.key.encode ++ entry.value.encode)

structure Database where
  number : Length
  sizes : Option (Length × Length) := none
  entries : List Entry := []

def Database.encode (database : Database) : Bytes :=
  rdbOpcodeSelectDb :: (database.number.encode ++
    ((match database.sizes with
    | some (hashTable, expireTable) =>
      rdbOpcodeResizeDb :: (hashTable.encode ++ expireTable.encode)
    | none => []) ++ database.entries.flatMap Entry.encode))

structure Image where
  version : Bytes
  versionSize : version.length = 4
  pairs : List (RdbString × RdbString)
  databases : List Database
  checksum : Bytes
  checksumSize : checksum.length = 8

/-- What stands behind some of the databases. -/
def encodeEnd (databases : List Database) (checksum : Bytes) : Bytes :=
  databases.flatMap Database.encode ++ rdbOpcodeEof :: checksum

def Image.encode (image : Image) : Bytes :=
  ascii "REDIS" ++ image.version ++
    image.pairs.flatMap (fun pair => rdbOpcodeAux :: (pair.1.encode ++ pair.2.encode)) ++
    encodeEnd image.databases image.checksum

def Image.entries (image : Image) : List Entry := image.databases.flatMap Database.entries

/-- The last entry for a key, with its place. -/
def lastEntry (key : Bytes) : Nat → List Entry → Option (Nat × Entry)
  | _, [] => none
  | place, entry :: entries =>
    (lastEntry key (place + 1) entries).or
      (if entry.key.value = key then some (place, entry) else none)

/-- The time on the steady clock at which a key ends, as it is read off when
the entry is loaded. -/
def deadline (now : Readings) (expiry : Expiry) : Int :=
  now.steady + (expiry.value * 10 ^ 6 - now.system)

/-- The database holds the entries, and nothing else: each key with the value
and the time of its last one. -/
structure Lists (clocks : Nat → Readings) (entries : List Entry) (db : DB) : Prop where
  value : ∀ key, db.store.lookup key = (lastEntry key 0 entries).map fun last =>
    { type := .string, stringPtr := some last.2.value.value }
  expiry : ∀ key, db.expiration.lookup key = (lastEntry key 0 entries).bind fun last =>
    last.2.expiry.map (deadline (clocks last.1))

/-- The loader returns, and leaves what the image lists. -/
def Image.LoadsListed (image : Image) (clocks : Nat → Readings) : Prop :=
  ∀ rounds, image.encode.length < rounds →
    (parse rounds image.encode).ending = .ok () ∧
    Lists clocks image.entries (load clocks rounds image.encode)

/-- The times of last entries are times of a 64-bit clock. -/
def Image.DeadlinesFit (image : Image) (clocks : Nat → Readings) : Prop :=
  ∀ key place entry expiry, lastEntry key 0 image.entries = some (place, entry) →
    entry.expiry = some expiry →
    -2 ^ 63 ≤ deadline (clocks place) expiry ∧ deadline (clocks place) expiry < 2 ^ 63

/-- Whether each database announces its sizes. -/
def Image.layout (image : Image) : List Bool := image.databases.map (·.sizes.isSome)

/-- An opcode at which the loop over entries gives up. -/
def Unsupported (opcode : UInt8) : Prop :=
  opcode ≠ rdbTypeString ∧ opcode ≠ rdbOpcodeExpireTimeMs ∧ opcode ≠ rdbOpcodeExpireTime ∧
    opcode ≠ rdbOpcodeSelectDb ∧ opcode ≠ rdbOpcodeEof

/-- The first database without sizes stands behind these, and the second byte
behind its number is no opcode of the loop over entries. -/
def Image.StraysBehind (image : Image) (earlier : List Database) : Prop :=
  ∃ database later lost stray rest, image.databases = earlier ++ database :: later ∧
    (∀ database ∈ earlier, database.sizes.isSome = true) ∧ database.sizes = none ∧
    database.entries.flatMap Entry.encode ++ encodeEnd later image.checksum =
      lost :: stray :: rest ∧ Unsupported stray

theorem ofLittleEndian_toLittleEndian {size n : Nat} (small : n < 256 ^ size) :
    ofLittleEndian (toLittleEndian size n) = n := by
  induction size generalizing n with
  | zero =>
    obtain rfl : n = 0 := by simpa using small
    rfl
  | succ size ih =>
    have less : n / 256 < 256 ^ size := by
      apply (Nat.div_lt_iff_lt_mul (by decide)).mpr
      simpa only [Nat.pow_succ] using small
    rw [toLittleEndian, ofLittleEndian, ih less, toNat_ofNat]
    omega

@[simp] theorem toLittleEndian_length (size n : Nat) : (toLittleEndian size n).length = size := by
  induction size generalizing n with
  | zero => rfl
  | succ size ih => simp [toLittleEndian, ih]

theorem lengthForm_code {form : LengthForm} {n : Nat} (fits : n < form.bound) :
    LengthCode (form.encode n) n := by
  cases form with
  | sixBit =>
    have small : n < 64 := fits
    have value : (UInt8.ofNat n).toNat % 64 = n := by
      rw [toNat_ofNat]
      omega
    have code : LengthCode [UInt8.ofNat n] ((UInt8.ofNat n).toNat % 64) :=
      .sixBit (by rw [toNat_ofNat]; omega)
    rwa [value] at code
  | fourteenBit =>
    have small : n < 16384 := fits
    have value : (UInt8.ofNat (0x40 + n / 2 ^ 8)).toNat % 64 * 256 + (UInt8.ofNat n).toNat = n := by
      rw [toNat_ofNat, toNat_ofNat]
      omega
    have code : LengthCode [UInt8.ofNat (0x40 + n / 2 ^ 8), UInt8.ofNat n]
        ((UInt8.ofNat (0x40 + n / 2 ^ 8)).toNat % 64 * 256 + (UInt8.ofNat n).toNat) :=
      .fourteenBit (by rw [toNat_ofNat]; omega)
    rwa [value] at code
  | thirtyTwoBit =>
    have small : n < 2 ^ 32 := fits
    have code : LengthCode (LengthForm.thirtyTwoBit.encode n) _ := .thirtyTwoBit (by decide)
    have value : (UInt8.ofNat (n / 2 ^ 24)).toNat * 2 ^ 24 +
        (UInt8.ofNat (n / 2 ^ 16)).toNat * 2 ^ 16 + (UInt8.ofNat (n / 2 ^ 8)).toNat * 2 ^ 8 +
        (UInt8.ofNat n).toNat = n := by
      simp only [toNat_ofNat]
      omega
    rwa [value] at code

theorem rdbString_code (string : RdbString) : StringCode string.encode string.value := by
  cases string with
  | text form bytes fits => exact .text (lengthForm_code fits)
  | int8 number =>
    have small := number.toUInt8.toNat_lt
    have code := StringCode.int8 (UInt8.ofNat number.toUInt8.toNat)
    have value : (UInt8.ofNat number.toUInt8.toNat).toNat = number.toUInt8.toNat := by
      rw [toNat_ofNat]
      omega
    have signed : number.toInt = (number.toUInt8.toNat : Int).bmod (2 ^ 8) :=
      BitVec.toInt_eq_toNat_bmod number.toBitVec
    rwa [value, ← signed] at code
  | int16 number =>
    have small := number.toUInt16.toNat_lt
    have code := StringCode.int16 (UInt8.ofNat number.toUInt16.toNat)
      (UInt8.ofNat (number.toUInt16.toNat / 256))
    have value : (UInt8.ofNat number.toUInt16.toNat).toNat +
        (UInt8.ofNat (number.toUInt16.toNat / 256)).toNat * 256 = number.toUInt16.toNat := by
      rw [toNat_ofNat, toNat_ofNat]
      omega
    have signed : number.toInt = (number.toUInt16.toNat : Int).bmod (2 ^ 16) :=
      BitVec.toInt_eq_toNat_bmod number.toBitVec
    rwa [value, ← signed] at code
  | int32 number =>
    have small := number.toUInt32.toNat_lt
    have code := StringCode.int32 (UInt8.ofNat number.toUInt32.toNat)
      (UInt8.ofNat (number.toUInt32.toNat / 256)) (UInt8.ofNat (number.toUInt32.toNat / 256 / 256))
      (UInt8.ofNat (number.toUInt32.toNat / 256 / 256 / 256))
    have value : (UInt8.ofNat number.toUInt32.toNat).toNat +
        (UInt8.ofNat (number.toUInt32.toNat / 256)).toNat * 256 +
        (UInt8.ofNat (number.toUInt32.toNat / 256 / 256)).toNat * 65536 +
        (UInt8.ofNat (number.toUInt32.toNat / 256 / 256 / 256)).toNat * 16777216 =
        number.toUInt32.toNat := by
      simp only [toNat_ofNat]
      omega
    have signed : number.toInt = i32 (number.toUInt32.toNat : Int) :=
      BitVec.toInt_eq_toNat_bmod number.toBitVec
    rwa [value, ← signed] at code

/-- A string is read back from any place of a file, and the position is left
right behind it. -/
theorem parseString_encode (before after : Bytes) (string : RdbString) :
    parseString ⟨before ++ string.encode ++ after, before.length, false⟩ =
      .ok (string.value,
        ⟨before ++ string.encode ++ after, before.length + string.encode.length, false⟩) := by
  have here : InputStream.rest ⟨before ++ string.encode ++ after, before.length, false⟩ =
      string.encode ++ after := by
    simp [InputStream.rest]
  exact parseString_advance (rdbString_code string) here

theorem expiry_code (expiry : Expiry) : ExpiryCode expiry.encode expiry.value := by
  cases expiry with
  | seconds time =>
    have code := ExpiryCode.seconds (toLittleEndian_length 4 time.toNat)
    rwa [ofLittleEndian_toLittleEndian time.toNat_lt] at code
  | milliseconds time =>
    have code := ExpiryCode.milliseconds (toLittleEndian_length 8 time.toNat)
    rwa [ofLittleEndian_toLittleEndian time.toNat_lt] at code

/-- The call that an entry stands for. -/
def Entry.call (entry : Entry) : Call where
  key := entry.key.value
  value := entry.value.value
  expiry := entry.expiry.map Expiry.value

theorem entry_code (entry : Entry) : EntryCode entry.encode entry.call := by
  obtain ⟨expiry, key, value⟩ := entry
  cases expiry with
  | none => exact .plain (rdbString_code key) (rdbString_code value)
  | some expiry => exact .expiring (expiry_code expiry) (rdbString_code key) (rdbString_code value)

theorem entries_codes (entries : List Entry) :
    EntryCodes (entries.flatMap Entry.encode) (entries.map Entry.call) := by
  induction entries with
  | nil => exact .nil
  | cons entry entries ih => exact .cons (entry_code entry) ih

theorem pairs_codes (pairs : List (RdbString × RdbString)) :
    PairCodes (pairs.flatMap fun pair => rdbOpcodeAux :: (pair.1.encode ++ pair.2.encode)) := by
  induction pairs with
  | nil => exact .nil
  | cons pair pairs ih =>
    have code := PairCodes.cons (rdbString_code pair.1) (rdbString_code pair.2) ih
    simpa using code

theorem length_number (length : Length) : NumberCode length.encode :=
  .length (lengthForm_code length.fits)

variable {io : RIO} {byte : UInt8} {rest : Bytes} {rounds : Nat}
  {databases earlier later : List Database} {database : Database} {image : Image} {clocks : Nat → Readings}

/-- What announces a database and its sizes. -/
def Database.opening (database : Database) (hashTable expireTable : Length) : Bytes :=
  rdbOpcodeSelectDb ::
    (database.number.encode ++ rdbOpcodeResizeDb :: (hashTable.encode ++ expireTable.encode))

theorem Database.encode_resized {hashTable expireTable : Length}
    (sizes : database.sizes = some (hashTable, expireTable)) :
    database.encode =
      database.opening hashTable expireTable ++ database.entries.flatMap Entry.encode := by
  simp [Database.encode, Database.opening, sizes]

/-- Behind a database stands another one, or what ends them. -/
theorem databases_head (databases : List Database) (rest : Bytes)
    (ends : byte = rdbOpcodeSelectDb ∨ byte = rdbOpcodeEof) : ∃ first behind,
    databases.flatMap Database.encode ++ byte :: rest = first :: behind ∧
      (first = rdbOpcodeSelectDb ∨ first = rdbOpcodeEof) := by
  cases databases with
  | nil => exact ⟨byte, rest, rfl, ends⟩
  | cons database databases => exact ⟨rdbOpcodeSelectDb, _, rfl, .inl rfl⟩

/-- Databases that announce their sizes are taken as they are listed, and the
loop goes on behind them. -/
theorem parseDatabases_resized (all : ∀ database ∈ databases, database.sizes.isSome = true)
    (here : io.rest = databases.flatMap Database.encode ++ byte :: rest)
    (ends : byte = rdbOpcodeSelectDb ∨ byte = rdbOpcodeEof)
    (enough : io.rest.length < rounds) (more : Nat) {bound : Nat}
    (room : bound = databases.length + more) :
    ∃ io', io'.rest = byte :: rest ∧ parseDatabases rounds bound io =
      ⟨(databases.flatMap Database.entries).map Entry.call ++ (parseDatabases rounds more io').calls,
        (parseDatabases rounds more io').ending⟩ := by
  subst room
  induction databases generalizing io with
  | nil => exact ⟨io, here, by simp⟩
  | cons database databases ih =>
    obtain ⟨⟨hashTable, expireTable⟩, sizes⟩ := Option.isSome_iff_exists.mp (all database (by simp))
    have openingIs : OpeningCode (database.opening hashTable expireTable) :=
      .resized (length_number _) (length_number _) (length_number _)
    obtain ⟨first, behind, split, kind⟩ := databases_head databases rest ends
    rw [List.flatMap_cons, Database.encode_resized sizes, List.append_assoc, List.append_assoc,
      split] at here
    obtain ⟨middle, ran, left⟩ :=
      parseDatabase_code openingIs (entries_codes database.entries) kind here enough
    have shorter : middle.rest.length < rounds := by
      simp only [here, left, List.length_append] at enough ⊢
      omega
    obtain ⟨io', final, later⟩ :=
      ih (fun database member => all database (List.mem_cons_of_mem _ member))
        (left.trans split.symm) shorter
    refine ⟨io', final, ?_⟩
    rw [List.length_cons, Nat.add_right_comm, parseDatabases, ran]
    simp [later]

theorem parseDatabases_eof (here : io.rest = rdbOpcodeEof :: rest) (more : Nat) :
    parseDatabases rounds (more + 1) io = ⟨[], .ok ()⟩ := by
  have returned : parseOpening io = .ok (false, (io.get 1).2) := by simp [parseOpening, here]
  simp [parseDatabases, parseDatabase, returned]

/-- Behind the header and the metadata, the databases are left. -/
theorem parse_image (image : Image) (enough : image.encode.length < rounds) :
    ∃ io', io'.rest = encodeEnd image.databases image.checksum ∧ io'.rest.length < rounds ∧
      parse rounds image.encode = parseDatabases rounds rounds io' := by
  obtain ⟨middle, ran, left⟩ :=
    parseHeader_code image.versionSize ((InputStream.rest_start image.encode).trans
      (List.append_assoc ..))
  obtain ⟨first, behind, split, kind⟩ :=
    databases_head image.databases image.checksum (.inr rfl : rdbOpcodeEof = _ ∨ _)
  have next : (encodeEnd image.databases image.checksum).head? ≠ some rdbOpcodeAux := by
    rw [encodeEnd, split]
    obtain rfl | rfl := kind <;> simp [rdbOpcodeSelectDb, rdbOpcodeEof, rdbOpcodeAux]
  have fewer : (image.pairs.flatMap fun pair =>
      rdbOpcodeAux :: (pair.1.encode ++ pair.2.encode)).length < rounds := by
    simp only [Image.encode, List.length_append] at enough
    omega
  obtain ⟨io', ran', final⟩ := parseMetadata_codes (pairs_codes image.pairs) left next fewer
  refine ⟨io', final, ?_, by simp [parse, ran, ran']⟩
  simp only [Image.encode, List.length_append] at enough
  rw [final]
  omega

theorem databases_length_le (databases : List Database) :
    databases.length ≤ (databases.flatMap Database.encode).length := by
  induction databases with
  | nil => exact le_refl _
  | cons database databases ih =>
    simp only [List.flatMap_cons, List.length_append, List.length_cons, Database.encode] at ih ⊢
    omega

/-- The first byte of an entry is its type, or the opcode of its time. -/
theorem Entry.encode_head (entry : Entry) : ∃ opcode more, entry.encode = opcode :: more ∧
    opcode ≠ rdbOpcodeResizeDb := by
  obtain ⟨expiry, key, value⟩ := entry
  cases expiry with
  | none => exact ⟨_, _, rfl, by decide⟩
  | some expiry => cases expiry <;> exact ⟨_, _, rfl, by decide⟩

/-- Behind a lost byte, the loop over entries gives up at once. -/
theorem parseDatabases_strays {lost stray : UInt8} (sizes : database.sizes = none)
    (split : database.entries.flatMap Entry.encode ++ encodeEnd later image.checksum =
      lost :: stray :: rest) (unsupported : Unsupported stray)
    (here : io.rest = database.encode ++ encodeEnd later image.checksum) (some_ : 0 < rounds)
    (more : Nat) : parseDatabases rounds (more + 1) io = ⟨[], .ok ()⟩ := by
  have other : lost ≠ rdbOpcodeResizeDb := by
    cases entries : database.entries with
    | nil =>
      obtain ⟨first, behind, whole, kind⟩ :=
        databases_head later image.checksum (.inr rfl : rdbOpcodeEof = _ ∨ _)
      rw [entries, List.flatMap_nil, List.nil_append, encodeEnd, whole] at split
      obtain ⟨rfl, -⟩ := List.cons.inj split
      obtain rfl | rfl := kind <;> decide
    | cons entry entries =>
      obtain ⟨opcode, behind, whole, kind⟩ := entry.encode_head
      simp only [entries, List.flatMap_cons, whole, List.cons_append, List.cons.injEq] at split
      exact split.1 ▸ kind
  have front : io.rest =
      rdbOpcodeSelectDb :: (database.number.encode ++ [lost]) ++ stray :: rest := by
    rw [here, Database.encode, sizes]
    simp [← split]
  obtain ⟨middle, opened, left⟩ :=
    parseOpening_code (.selected (length_number database.number) other) front
  obtain ⟨rounds, rfl⟩ := Nat.exists_eq_succ_of_ne_zero (Nat.ne_of_gt some_)
  have round : parseRound middle = .ok (.returns false, (middle.get 1).2) := by
    obtain ⟨text, milliseconds, seconds, selects, ends⟩ := unsupported
    simp [parseRound, parseTyped, left, text, milliseconds, seconds, selects, ends]
  have returned : parseDatabase (rounds + 1) io = ⟨[], .ok (false, (middle.get 1).2)⟩ := by
    simp [parseDatabase, opened, parseEntries, round]
  simp [parseDatabases, returned]

/-! ## What the calls leave -/

/-- All the conversions come to one, of the time itself. -/
theorem setWithExpiry_deadline (now : Readings) (expiry : Expiry) :
    i64 (now.steady + i64 (i64 (i64 expiry.value * 10 ^ 6) - now.system)) =
      i64 (deadline now expiry) := by
  simp [i64, deadline]

theorem apply_same (db : DB) (now : Readings) (entry : Entry) :
    (entry.call.apply db now).store.lookup entry.key.value =
      some { type := .string, stringPtr := some entry.value.value } ∧
    (entry.call.apply db now).expiration.lookup entry.key.value =
      entry.expiry.map fun expiry => i64 (deadline now expiry) := by
  obtain ⟨expiry, key, value⟩ := entry
  cases expiry with
  | none => simp [Entry.call, Call.apply, DB.set]
  | some expiry =>
    simpa [Entry.call, Call.apply, DB.setWithExpiry, DB.set] using setWithExpiry_deadline now expiry

theorem apply_other (db : DB) (now : Readings) (entry : Entry) {key : Bytes}
    (other : key ≠ entry.key.value) :
    (entry.call.apply db now).store.lookup key = db.store.lookup key ∧
    (entry.call.apply db now).expiration.lookup key = db.expiration.lookup key := by
  obtain ⟨expiry, own, value⟩ := entry
  cases expiry with
  | none =>
    simp [Entry.call, Call.apply, DB.set, Finmap.lookup_insert_of_ne _ other,
      Finmap.lookup_erase_ne other]
  | some expiry =>
    simp [Entry.call, Call.apply, DB.setWithExpiry, DB.set, Finmap.lookup_insert_of_ne _ other,
      Finmap.lookup_erase_ne other]

/-- A key that entries list is as the last of them has it, at the deadline a
64-bit clock makes of its time; any other key is as it was. -/
theorem applyCalls_lookup (key : Bytes) (place : Nat) (db : DB) (entries : List Entry) :
    let last := lastEntry key place entries
    let loaded := applyCalls clocks place db (entries.map Entry.call)
    loaded.store.lookup key = (last.map fun last =>
      { type := .string, stringPtr := some last.2.value.value }).or (db.store.lookup key) ∧
    loaded.expiration.lookup key = (last.map fun last =>
      last.2.expiry.map fun expiry => i64 (deadline (clocks last.1) expiry)).getD
        (db.expiration.lookup key) := by
  induction entries generalizing place db with
  | nil => simp [lastEntry, applyCalls]
  | cons entry entries ih =>
    obtain ⟨value, expiry⟩ := ih (place + 1) (entry.call.apply db (clocks place))
    simp only [List.map_cons, applyCalls, lastEntry, value, expiry]
    cases lastEntry key (place + 1) entries with
    | some last => simp
    | none =>
      by_cases same : entry.key.value = key
      · subst same
        simp [apply_same]
      · have unmoved := apply_other db (clocks place) entry (Ne.symm same)
        simp [same, unmoved]

private theorem i64_eq_self_iff (z : Int) : i64 z = z ↔ -2 ^ 63 ≤ z ∧ z < 2 ^ 63 := by
  constructor
  · intro same
    have low := @Int.le_bmod z (2 ^ 64) (by decide)
    have high := @Int.bmod_lt z (2 ^ 64) (by decide)
    change -_ ≤ i64 z at low
    change i64 z < _ at high
    rw [same] at low high
    omega
  · intro range
    exact i64_of_range range.1 range.2

/-- What the calls leave is what the entries list, where times fit the clock. -/
theorem lists_iff (clocks : Nat → Readings) (entries : List Entry) :
    Lists clocks entries (applyCalls clocks 0 {} (entries.map Entry.call)) ↔
      ∀ key place entry expiry, lastEntry key 0 entries = some (place, entry) →
        entry.expiry = some expiry →
        -2 ^ 63 ≤ deadline (clocks place) expiry ∧ deadline (clocks place) expiry < 2 ^ 63 := by
  constructor
  · intro lists key place entry expiry last timed
    have loaded := (@applyCalls_lookup clocks key 0 {} entries).2
    rw [lists.expiry key] at loaded
    simp only [last, timed, Option.bind_some, Option.map_some, Option.getD_some,
      Option.some.injEq] at loaded
    exact (i64_eq_self_iff _).mp loaded.symm
  · intro fits
    constructor
    · intro key
      rw [(applyCalls_lookup key 0 {} entries).1]
      simp
    · intro key
      rw [(applyCalls_lookup key 0 {} entries).2]
      cases last : lastEntry key 0 entries with
      | none => simp
      | some found =>
        obtain ⟨place, entry⟩ := found
        cases timed : entry.expiry with
        | none => simp [timed]
        | some expiry =>
          have same := (i64_eq_self_iff _).mpr (fits key place entry expiry last timed)
          simp [timed, same]

/-- A server that has loaded a file is one that can start. -/
theorem load_loaded (clocks : Nat → Readings) (rounds : Nat) (file : Bytes) :
    DB.Loaded (load clocks rounds file) := by
  have calls_loaded (calls : List Call) : ∀ place db, DB.Loaded db →
      DB.Loaded (applyCalls clocks place db calls) := by
    induction calls with
    | nil => exact fun _ _ loaded => loaded
    | cons call calls ih =>
      intro place db loaded
      apply ih
      obtain ⟨key, value, expiry⟩ := call
      cases expiry with
      | none => exact .set key value loaded
      | some expiry => exact .setWithExpiry _ _ key value expiry loaded
  exact calls_loaded _ 0 {} .empty

/-! ## Loading an image -/

/-- An image whose databases all announce their sizes makes the calls of its
entries, and then the loader returns. -/
theorem parse_resized (resized : ∀ database ∈ image.databases, database.sizes.isSome = true)
    (enough : image.encode.length < rounds) :
    parse rounds image.encode = ⟨image.entries.map Entry.call, .ok ()⟩ := by
  obtain ⟨io, here, shorter, ran⟩ := parse_image image enough
  obtain ⟨spare, room⟩ : ∃ spare, rounds = image.databases.length + (spare + 1) := by
    have count := databases_length_le image.databases
    simp only [here, encodeEnd, List.length_append] at shorter
    exact ⟨rounds - image.databases.length - 1, by omega⟩
  obtain ⟨io', left, all⟩ := parseDatabases_resized resized here (.inr rfl) shorter _ room
  rw [ran, all, parseDatabases_eof left]
  simp [Image.entries]

/-- Where the byte behind a lost one is no opcode, loading ends there. -/
theorem parse_strays (strays : image.StraysBehind earlier) (enough : image.encode.length < rounds) :
    parse rounds image.encode = ⟨(earlier.flatMap Database.entries).map Entry.call, .ok ()⟩ := by
  obtain ⟨database, later, lost, stray, rest, split, resized, sizes, behind, unsupported⟩ := strays
  obtain ⟨io, here, shorter, ran⟩ := parse_image image enough
  rw [split, encodeEnd, List.flatMap_append, List.append_assoc, List.flatMap_cons,
    List.append_assoc] at here
  obtain ⟨spare, room⟩ : ∃ spare, rounds = earlier.length + (spare + 1) := by
    have count := databases_length_le earlier
    simp only [here, List.length_append] at shorter
    exact ⟨rounds - earlier.length - 1, by omega⟩
  obtain ⟨io', left, all⟩ := parseDatabases_resized resized here (.inl rfl) shorter _ room
  rw [ran, all, parseDatabases_strays sizes behind unsupported left (by omega)]
  simp

theorem loadsListed_iff_of_calls {entries : List Entry}
    (calls : ∀ rounds, image.encode.length < rounds →
      parse rounds image.encode = ⟨entries.map Entry.call, .ok ()⟩) :
    image.LoadsListed clocks ↔
      Lists clocks image.entries (applyCalls clocks 0 {} (entries.map Entry.call)) := by
  constructor
  · intro loads
    have lists := (loads _ (Nat.lt_succ_self _)).2
    rwa [load, calls _ (Nat.lt_succ_self _)] at lists
  · intro lists rounds enough
    rw [load, calls rounds enough]
    exact ⟨rfl, lists⟩

theorem lastEntry_isSome {entry : Entry} {entries : List Entry} (place : Nat)
    (listed : entry ∈ entries) : (lastEntry entry.key.value place entries).isSome = true := by
  induction entries generalizing place with
  | nil => cases listed
  | cons first entries ih =>
    rw [lastEntry, Option.isSome_or]
    cases listed with
    | head => simp
    | tail _ listed => simp [ih (place + 1) listed]

theorem lastEntry_mem {key : Bytes} {place found : Nat} {entry : Entry} {entries : List Entry}
    (last : lastEntry key place entries = some (found, entry)) : entry ∈ entries := by
  induction entries generalizing place with
  | nil => cases last
  | cons first entries ih =>
    rw [lastEntry, Option.or_eq_some_iff] at last
    obtain later | ⟨-, own⟩ := last
    · exact List.mem_cons_of_mem _ (ih later)
    · split at own
      · cases own
        exact List.mem_cons_self
      · cases own

def zeroLength : Length := ⟨.sixBit, 0, by decide⟩

/-- An entry without a time. -/
def plainEntry : Entry where
  key := .text .sixBit (ascii "k") (by decide)
  value := .text .sixBit (ascii "v") (by decide)

/-- A database that lists the entry if it does not announce its sizes. -/
def sampleDatabase (resized : Bool) : Database where
  number := zeroLength
  sizes := if resized then some (zeroLength, zeroLength) else none
  entries := if resized then [] else [plainEntry]

def sampleImage (layout : List Bool) : Image where
  version := ascii "0011"
  versionSize := rfl
  pairs := []
  databases := layout.map sampleDatabase
  checksum := [0, 0, 0, 0, 0, 0, 0, 0]
  checksumSize := rfl

private theorem sampleImage_layout (layout : List Bool) : (sampleImage layout).layout = layout := by
  have shown (resized : Bool) : (sampleDatabase resized).sizes.isSome = resized := by
    cases resized <;> rfl
  rw [Image.layout, sampleImage, List.map_map]
  exact (List.map_congr_left fun resized _ => shown resized).trans (List.map_id layout)

private theorem sampleImage_entries {layout : List Bool} {entry : Entry}
    (listed : entry ∈ (sampleImage layout).entries) : entry = plainEntry := by
  obtain ⟨database, member, listed⟩ := List.mem_flatMap.mp listed
  obtain ⟨resized, -, rfl⟩ := List.mem_map.mp member
  cases resized with
  | true => cases listed
  | false => exact List.mem_singleton.mp listed

/-- A layout with a database that does not announce its sizes has an image that
loads without its entries. -/
private theorem sampleImage_lost {layout : List Bool} (missing : false ∈ layout) :
    ¬ (sampleImage layout).LoadsListed clocks := by
  obtain ⟨front, back, rfl, first⟩ := List.eq_append_cons_of_mem missing
  have strays : (sampleImage (front ++ false :: back)).StraysBehind (front.map sampleDatabase) := by
    refine ⟨sampleDatabase false, back.map sampleDatabase, _, _, _, List.map_append, ?_, rfl, rfl,
      by unfold Unsupported; decide⟩
    intro database member
    obtain ⟨resized, shown, rfl⟩ := List.mem_map.mp member
    cases resized with
    | true => rfl
    | false => exact absurd shown first
  have nothing : (front.map sampleDatabase).flatMap Database.entries = [] := by
    apply List.flatMap_eq_nil_iff.mpr
    intro database member
    obtain ⟨resized, shown, rfl⟩ := List.mem_map.mp member
    cases resized with
    | true => rfl
    | false => exact absurd shown first
  intro loads
  have lists := (loadsListed_iff_of_calls fun rounds => parse_strays strays).mp loads
  have listed : plainEntry ∈ (sampleImage (front ++ false :: back)).entries :=
    List.mem_flatMap.mpr ⟨sampleDatabase false, List.mem_map.mpr ⟨false, by simp, rfl⟩,
      List.mem_singleton.mpr rfl⟩
  have absent := lists.value plainEntry.key.value
  rw [nothing] at absent
  obtain ⟨last, found⟩ := Option.isSome_iff_exists.mp (lastEntry_isSome 0 listed)
  simp [found, applyCalls] at absent

/-- Images whose databases all announce their sizes load as listed, up to times
beyond the clock, and these are the only layouts of which that holds. Where the
byte behind a lost one is no opcode, the database and all behind it are lost. -/
theorem loadsListed_iff (clocks : Nat → Readings) :
    (∀ image : Image, (∀ resized ∈ image.layout, resized = true) →
      (image.LoadsListed clocks ↔ image.DeadlinesFit clocks)) ∧
    (∀ layout, (∀ image : Image, image.layout = layout → image.DeadlinesFit clocks →
      image.LoadsListed clocks) ↔ ∀ resized ∈ layout, resized = true) ∧
    (∀ (image : Image) (earlier : List Database), image.StraysBehind earlier →
      (image.LoadsListed clocks ↔ Lists clocks image.entries
        (applyCalls clocks 0 {} ((earlier.flatMap Database.entries).map Entry.call)))) := by
  have whole (image : Image) (resized : ∀ resized ∈ image.layout, resized = true) :
      image.LoadsListed clocks ↔ image.DeadlinesFit clocks := by
    have all : ∀ database ∈ image.databases, database.sizes.isSome = true := fun database member =>
      resized _ (List.mem_map_of_mem member)
    rw [loadsListed_iff_of_calls fun rounds => parse_resized all]
    exact lists_iff clocks image.entries
  refine ⟨whole, fun layout => ⟨fun loads => ?_, fun resized image shape fits => ?_⟩,
    fun image earlier strays => loadsListed_iff_of_calls fun rounds => parse_strays strays⟩
  · intro resized member
    cases resized with
    | true => rfl
    | false =>
      -- One image of the layout is enough, whatever else it has.
      have fits : (sampleImage layout).DeadlinesFit clocks := by
        intro key place entry expiry last timed
        rw [sampleImage_entries (lastEntry_mem last)] at timed
        cases timed
      exact absurd (loads _ (sampleImage_layout layout) fits) (sampleImage_lost member)
  · exact (whole image (shape ▸ resized)).mpr fits

/-- One database, one entry and no sizes. -/
theorem sampleImage_not_loaded : ¬ (sampleImage [false]).LoadsListed fun _ => ⟨0, 0⟩ :=
  sampleImage_lost (List.mem_singleton_self false)

end CarrotDb.Rdb
