import CarrotDb.CommandStreams
import Mathlib

/-! Write commands on the wire. `to_resp` writes a command as a frame, and the
parser reads the frame back: as the command it was, except that scores and
coordinates are read from their printed text, and that a user is lost. -/
namespace CarrotDb
open Decimal Resp FloatText

namespace Command

/-- The name and the arguments that `to_resp` writes for a write command. -/
def frame : Command → Frame
  | geoAdd key longitude latitude _ member _ =>
    ⟨ascii "GEOADD", [key, doubleToString longitude, doubleToString latitude, member]⟩
  | zadd key scoreMembers =>
    ⟨ascii "ZADD", key :: scoreMembers.flatMap fun sm => [doubleToString sm.1, sm.2]⟩
  | aclSetUser .. => ⟨ascii "ACL", [ascii "SETUSER"]⟩
  | set key value ex px =>
    ⟨ascii "SET", [key, value] ++
      (match ex with | some seconds => [ascii "EX", toDecimal seconds] | none => []) ++
      (match px with | some millis => [ascii "PX", toDecimal millis] | none => [])⟩
  | incr key => ⟨ascii "INCR", [key]⟩
  | rpush key values => ⟨ascii "RPUSH", key :: values⟩
  | lpush key values => ⟨ascii "LPUSH", key :: values⟩
  | lpop key count =>
    ⟨ascii "LPOP", [key] ++ (match count with | some count => [toDecimal count] | none => [])⟩
  | xadd key streamId fieldValues =>
    ⟨ascii "XADD", key :: streamId :: fieldValues.flatMap fun fv => [fv.1, fv.2]⟩
  | zrem key members => ⟨ascii "ZREM", key :: members⟩
  | _ => ⟨[], []⟩

/-- The strings a write command carries. -/
def texts : Command → List Bytes
  | geoAdd key _ _ _ member _ => [key, member]
  | zadd key scoreMembers => key :: scoreMembers.map Prod.snd
  | set key value .. => [key, value]
  | incr key | lpop key .. => [key]
  | rpush key values | lpush key values | zrem key values => key :: values
  | xadd key streamId fieldValues =>
    key :: streamId :: fieldValues.flatMap fun fv => [fv.1, fv.2]
  | _ => []

end Command

theorem flatMap_pair_length {β : Type} (list : List β) (first second : β → Bytes) :
    (list.flatMap fun entry => [first entry, second entry]).length = list.length * 2 := by
  induction list with
  | nil => rfl
  | cons entry rest ih =>
    rw [List.flatMap_cons, List.length_append, ih]
    simp only [List.length_cons, List.length_nil]
    omega

variable {command : Command}

/-- The element count of every `to_resp` of a write command is right. -/
theorem toResp_frame (write : command.isWriteCommand = true) :
    command.toResp = .ok command.frame.bytes := by
  cases command with
  | zadd key scoreMembers =>
    have count : (ascii "ZADD" :: key :: scoreMembers.flatMap
        fun sm => [doubleToString sm.1, sm.2]).length = 2 + scoreMembers.length * 2 := by
      rw [List.length_cons, List.length_cons, flatMap_pair_length]
      omega
    rw [Frame.bytes, Command.frame, encodeBulkStringArray, count]
    rfl
  | xadd key streamId fieldValues =>
    have count : (ascii "XADD" :: key :: streamId :: fieldValues.flatMap
        fun fv => [fv.1, fv.2]).length = 3 + fieldValues.length * 2 := by
      rw [List.length_cons, List.length_cons, List.length_cons, flatMap_pair_length]
      omega
    rw [Frame.bytes, Command.frame, encodeBulkStringArray, count]
    rfl
  | rpush key values | lpush key values | zrem key values =>
    rw [Frame.bytes, Command.frame, encodeBulkStringArray, List.length_cons, List.length_cons,
      Nat.add_comm, Nat.add_comm values.length, ← Nat.add_assoc]
    rfl
  | set key value ex px => cases ex <;> cases px <;> rfl
  | lpop key count => cases count <;> rfl
  | geoAdd | aclSetUser | incr => rfl
  | _ => cases write

/-- The name of the frame is the name of a supported command. -/
theorem frame_named (write : command.isWriteCommand = true) :
    command.frame.name ∈ commandNames := by
  cases command <;> first | (simp only [Command.frame]; decide) | cases write

private theorem option_clean (word : Bytes) (number : Option Nat) (plain : 13 ∉ word) :
    ∀ arg ∈ (match number with | some n => [word, toDecimal n] | none => [] : List Bytes),
      13 ∉ arg := by
  intro arg inside
  cases number with
  | none => exact absurd inside List.not_mem_nil
  | some n =>
    rcases List.mem_cons.mp inside with rfl | inside
    · exact plain
    · rw [List.mem_singleton.mp inside]
      exact not_mem_toDecimal (by decide) n

private theorem args_clean (write : command.isWriteCommand = true)
    (clean : ∀ text ∈ command.texts, 13 ∉ text) : ∀ arg ∈ command.frame.args, 13 ∉ arg := by
  intro arg inside
  cases command with
  | geoAdd key longitude latitude score member invalid =>
    simp only [Command.frame, List.mem_cons, List.not_mem_nil, or_false] at inside
    rcases inside with rfl | rfl | rfl | rfl
    · exact clean _ (by simp [Command.texts])
    · exact formatFixed_clean 6 longitude
    · exact formatFixed_clean 6 latitude
    · exact clean _ (by simp [Command.texts])
  | zadd key scoreMembers =>
    simp only [Command.frame, List.mem_cons, List.mem_flatMap, List.not_mem_nil, or_false] at inside
    rcases inside with rfl | ⟨sm, held, rfl | rfl⟩
    · exact clean _ (by simp [Command.texts])
    · exact formatFixed_clean 6 sm.1
    · exact clean _ (List.mem_cons_of_mem _ (List.mem_map_of_mem held))
  | aclSetUser username password flags =>
    rw [List.mem_singleton.mp inside]
    decide
  | set key value ex px =>
    rcases List.mem_append.mp inside with front | millis
    · rcases List.mem_append.mp front with text | seconds
      · exact clean arg text
      · exact option_clean (ascii "EX") ex (by decide) arg seconds
    · exact option_clean (ascii "PX") px (by decide) arg millis
  | lpop key count =>
    rcases List.mem_append.mp inside with text | number
    · exact clean arg text
    · cases count with
      | none => exact absurd number List.not_mem_nil
      | some n =>
        rw [List.mem_singleton.mp number]
        exact not_mem_toDecimal (by decide) n
  | incr | rpush | lpush | xadd | zrem => exact clean arg inside
  | _ => cases write

/-- Where the strings of a write command have no carriage return, its frame
has none. -/
theorem frame_clean (write : command.isWriteCommand = true)
    (clean : ∀ text ∈ command.texts, 13 ∉ text) :
    ∀ arg ∈ command.frame.name :: command.frame.args, 13 ∉ arg := by
  intro arg inside
  rcases List.mem_cons.mp inside with rfl | inside
  · have names : ∀ name ∈ commandNames, 13 ∉ name := by decide
    exact names _ (frame_named write)
  · exact args_clean write clean arg inside

/-- The frame of a write command has as many arguments as its parser takes. -/
theorem frame_wanted (write : command.isWriteCommand = true) :
    argumentsWanted command.frame.name command.frame.args = some command.frame.args.length := by
  have known {name : Bytes} {args : List Bytes} {wanted : Nat}
      (listed : argumentsWanted name args = some wanted) (same : wanted = args.length) :
      argumentsWanted name args = some args.length := same ▸ listed
  cases command with
  | zadd key scoreMembers =>
    refine known rfl ?_
    dsimp only [Command.frame]
    rw [List.length_cons, flatMap_pair_length]
    omega
  | xadd key streamId fieldValues =>
    refine known rfl ?_
    dsimp only [Command.frame]
    rw [List.length_cons, List.length_cons, flatMap_pair_length]
    omega
  | rpush key values | lpush key values | zrem key values =>
    refine known rfl ?_
    dsimp only [Command.frame]
    rw [List.length_cons]
    omega
  | set key value ex px => cases ex <;> cases px <;> rfl
  | lpop key count => cases count <;> rfl
  | geoAdd =>
    refine known rfl ?_
    simp only [Command.frame, List.length_cons, List.length_nil]
  | aclSetUser | incr => rfl
  | _ => cases write

/-! ## Reading a frame back -/

namespace Command

/-- Numbers that fit the fields the parser fills. -/
def NumbersFit : Command → Prop
  | set _ _ ex px => (∀ n ∈ ex, n < 2 ^ 64) ∧ ∀ n ∈ px, n < 2 ^ 64
  | lpop _ count => ∀ n ∈ count, n < 2 ^ 32
  | _ => True

/-- A score, read from its printed text. -/
def rereadScore (score : Float) : Float := (stod (doubleToString score)).getD 0

/-- The write command that is read from the frame of one. -/
def reread : Command → Exec Command
  | zadd key scoreMembers =>
    pure (zadd key (scoreMembers.map fun sm => (rereadScore sm.1, sm.2)))
  | geoAdd key longitude latitude _ member _ => do
    let point ← readGeoPoint {} (doubleToString longitude) (doubleToString latitude) member
    pure (geoAdd key point.longitude point.latitude point.score point.member point.invalidLatLon)
  | aclSetUser .. => pure unknow
  | command => pure command

end Command

namespace Tokens

@[simp] theorem valueOn_read (next : Token → Tokens α) (arg : Bytes) (args : List Bytes) :
    (Tokens.read next).valueOn (arg :: args) = (next ⟨true, arg⟩).valueOn args := rfl

@[simp] theorem valueOn_expect (next : Bytes → Tokens Command) (arg : Bytes) (args : List Bytes) :
    (expectBulkString next).valueOn (arg :: args) = (next arg).valueOn args := rfl

@[simp] theorem valueOn_pure (value : α) (args : List Bytes) :
    (pure value : Tokens α).valueOn args = .ok value := rfl

theorem valueOn_strings (args : List Bytes) (finish : List Bytes → Tokens α) :
    (parseStrings args.length >>= finish).valueOn args = (finish args).valueOn [] := by
  induction args generalizing finish with
  | nil => rfl
  | cons arg rest ih =>
    show ((parseStrings rest.length >>= _) >>= finish).valueOn rest = _
    rw [bind_assoc]
    exact ih fun values => finish (arg :: values)

theorem valueOn_fieldValues (pairs : List (Bytes × Bytes))
    (finish : List (Bytes × Bytes) → Tokens α) :
    (parseFieldValues (pairs.length * 2) >>= finish).valueOn
      (pairs.flatMap fun fv => [fv.1, fv.2]) = (finish pairs).valueOn [] := by
  induction pairs generalizing finish with
  | nil => rfl
  | cons pair rest ih =>
    have twice : (pair :: rest).length * 2 = rest.length * 2 + 2 := Nat.succ_mul _ _
    rw [twice]
    show ((parseFieldValues (rest.length * 2) >>= _) >>= finish).valueOn _ = _
    rw [bind_assoc]
    exact ih fun values => finish (pair :: values)

theorem valueOn_scoreMembers (pairs : List (Float × Bytes))
    (finish : List (Float × Bytes) → Tokens α) :
    (parseScoreMembers (pairs.length * 2) >>= finish).valueOn
      (pairs.flatMap fun sm => [doubleToString sm.1, sm.2]) =
        (finish (pairs.map fun sm => (Command.rereadScore sm.1, sm.2))).valueOn [] := by
  induction pairs generalizing finish with
  | nil => rfl
  | cons pair rest ih =>
    have twice : (pair :: rest).length * 2 = rest.length * 2 + 2 := Nat.succ_mul _ _
    rw [twice]
    show ((parseScoreMembers (rest.length * 2) >>= _) >>= finish).valueOn _ = _
    rw [bind_assoc]
    exact ih fun values => finish ((Command.rereadScore pair.1, pair.2) :: values)

end Tokens

section Parsers
open Tokens

private theorem keyed_valueOn (key : Bytes) (values : List Bytes)
    (make : List Bytes → Tokens Command) :
    (expectBulkString fun _ => decrement ((key :: values).length : Int) 1 >>= fun total =>
      parseStrings total.toNat >>= make).valueOn (key :: values) = (make values).valueOn [] := by
  rw [valueOn_expect]
  show (decrement ((key :: values).length : Nat) (1 : Nat) >>= _).valueOn values = _
  rw [decrement_bind _ 1 (by decide), Int.toNat_sub, List.length_cons, Nat.add_sub_cancel,
    valueOn_strings]

private theorem xadd_valueOn (key streamId : Bytes) (fieldValues : List (Bytes × Bytes)) :
    (parseXaddCommand ((Command.xadd key streamId fieldValues).frame.args.length : Nat)).valueOn
      (Command.xadd key streamId fieldValues).frame.args =
        .ok (.xadd key streamId fieldValues) := by
  rw [parseXaddCommand]
  show (decrement _ 2 >>= _).valueOn _ = _
  rw [decrement_bind _ 2 (by decide), Int.toNat_sub]
  dsimp only [Command.frame]
  rw [List.length_cons, List.length_cons, flatMap_pair_length, Nat.add_assoc, Nat.add_sub_cancel,
    valueOn_fieldValues]
  rfl

private theorem zadd_valueOn (key : Bytes) (scoreMembers : List (Float × Bytes)) :
    (parseZaddCommand ((Command.zadd key scoreMembers).frame.args.length : Nat)).valueOn
      (Command.zadd key scoreMembers).frame.args =
        .ok (.zadd key (scoreMembers.map fun sm => (Command.rereadScore sm.1, sm.2))) := by
  rw [parseZaddCommand]
  show (decrement _ 1 >>= _).valueOn _ = _
  rw [decrement_bind _ 1 (by decide), Int.toNat_sub]
  dsimp only [Command.frame]
  rw [List.length_cons, flatMap_pair_length, Nat.add_sub_cancel, valueOn_scoreMembers]
  rfl

private theorem lpop_valueOn (key : Bytes) {count : Option Nat} (fit : ∀ n ∈ count, n < 2 ^ 32) :
    (parseLpopCommand ((Command.lpop key count).frame.args.length : Nat)).valueOn
      (Command.lpop key count).frame.args = .ok (.lpop key count) := by
  cases count with
  | none => rfl
  | some n =>
    have small : n < 2 ^ 32 := fit n rfl
    have number := convertPositiveStringToNumber_toDecimal (show n < 2 ^ 64 by omega)
    show Except.ok (Command.lpop key (if true && (convertPositiveStringToNumber (toDecimal n)).1
      then some (u32 (convertPositiveStringToNumber (toDecimal n)).2) else none)) = _
    rw [number, u32_of_lt small]
    rfl

private theorem set_valueOn (key value : Bytes) {ex px : Option Nat}
    (seconds : ∀ n ∈ ex, n < 2 ^ 64) (millis : ∀ n ∈ px, n < 2 ^ 64) :
    (parseSetCommand ((Command.set key value ex px).frame.args.length : Nat)).valueOn
      (Command.set key value ex px).frame.args = .ok (.set key value ex px) := by
  cases ex with
  | none =>
    cases px with
    | none => rfl
    | some m =>
      have second := convertPositiveStringToNumber_toDecimal (millis m rfl)
      show Except.ok (Command.set key value none
        (if true && (convertPositiveStringToNumber (toDecimal m)).1
          then some (convertPositiveStringToNumber (toDecimal m)).2 else none)) = _
      rw [second]
      rfl
  | some n =>
    have first := convertPositiveStringToNumber_toDecimal (seconds n rfl)
    cases px with
    | none =>
      show Except.ok (Command.set key value
        (if true && (convertPositiveStringToNumber (toDecimal n)).1
          then some (convertPositiveStringToNumber (toDecimal n)).2 else none) none) = _
      rw [first]
      rfl
    | some m =>
      have second := convertPositiveStringToNumber_toDecimal (millis m rfl)
      show Except.ok (Command.set key value
        (if true && (convertPositiveStringToNumber (toDecimal n)).1
          then some (convertPositiveStringToNumber (toDecimal n)).2 else none)
        (if true && (convertPositiveStringToNumber (toDecimal m)).1
          then some (convertPositiveStringToNumber (toDecimal m)).2 else none)) = _
      rw [first, second]
      rfl

end Parsers

/-- A write command is read back from its frame as `reread` has it. -/
theorem frame_command (write : command.isWriteCommand = true) (fit : command.NumbersFit) :
    command.frame.command = command.reread := by
  cases command with
  | incr key => rfl
  | aclSetUser username password flags => rfl
  | rpush key values => exact keyed_valueOn key values fun values => pure (.rpush key values)
  | lpush key values => exact keyed_valueOn key values fun values => pure (.lpush key values)
  | zrem key members => exact keyed_valueOn key members fun values => pure (.zrem key values)
  | xadd key streamId fieldValues => exact xadd_valueOn key streamId fieldValues
  | zadd key scoreMembers => exact zadd_valueOn key scoreMembers
  | lpop key count => exact lpop_valueOn key fit
  | set key value ex px => exact set_valueOn key value fit.1 fit.2
  | geoAdd key longitude latitude score member invalid =>
    have one : (parseGeoAddCommand (4 : Nat)).valueOn
        [key, doubleToString longitude, doubleToString latitude, member] =
          ((Tokens.done (readGeoPoint {} (doubleToString longitude) (doubleToString latitude)
            member) >>= parseGeoPoints 0) >>= fun point => pure (.geoAdd key point.longitude
              point.latitude point.score point.member point.invalidLatLon)).valueOn [] := rfl
    refine Eq.trans one ?_
    rw [Command.reread]
    cases readGeoPoint {} (doubleToString longitude) (doubleToString latitude) member <;> rfl
  | _ => cases write

end CarrotDb
