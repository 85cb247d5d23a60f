import CarrotDb.CommandReplay
import Mathlib

/-! What the parser makes of a read buffer. The payload of a bulk string ends
at its first carriage return, so no command that is read carries one; and a
command carries no more than an `int` has counted. -/
namespace CarrotDb
open Decimal Resp FloatText

private theorem scan_clean (text : Bytes) (position : Nat) :
    13 ∉ text.take (scanFrom text position - position) := by
  induction text generalizing position with
  | nil =>
    rw [List.take_nil]
    exact List.not_mem_nil
  | cons x rest ih =>
    rw [scanFrom]
    split
    · rw [Nat.sub_self]
      exact List.not_mem_nil
    · rename_i other
      have later := ih (position + 1)
      intro inside
      cases gap : scanFrom rest (position + 1) - position with
      | zero =>
        rw [gap] at inside
        exact absurd inside List.not_mem_nil
      | succ n =>
        rw [gap, List.take_succ_cons] at inside
        rcases List.mem_cons.mp inside with rfl | inside
        · exact other rfl
        · refine later ?_
          rw [show scanFrom rest (position + 1) - (position + 1) = n by omega]
          exact inside

/-- The text of a bulk string has no carriage return. -/
theorem bulkString_clean {buffer : Bytes} {position : Nat}
    (bulk : (parse buffer position).1.type = .bulkString) :
    13 ∉ tokenText buffer (parse buffer position).1 := by
  rw [parse] at bulk ⊢
  split
  · rw [if_pos ‹_›] at bulk
    split at bulk <;> cases bulk
  · rw [if_neg ‹_›] at bulk
    split
    · rw [if_pos ‹_›] at bulk
      have moved := le_calculateLengthFrom (buffer.drop (position + 1)) (position + 1) 0
      rw [← calculateLength] at moved
      rcases computed : calculateLength buffer (position + 1) with ⟨verdict, length, start⟩
      rw [computed] at bulk moved
      cases verdict with
      | false => cases bulk
      | true =>
        have scanned := le_scanFrom (buffer.drop start) start
        have span : scanFrom (buffer.drop start) start - 1 + 1 - start =
            scanFrom (buffer.drop start) start - start := by
          dsimp only at moved
          omega
        rw [tokenText]
        dsimp only
        rw [span]
        exact scan_clean _ _
    · rw [if_neg ‹_›] at bulk
      cases bulk

namespace Tokens

/-- Whatever tokens a parser is given, as long as the text of a bulk string
has no carriage return, its result has a property. -/
def Yields (property : α → Prop) : Tokens α → Prop
  | .done result => ∀ value, result = .ok value → property value
  | .read next =>
    ∀ token : Token, (token.isBulkString = true → 13 ∉ token.text) → (next token).Yields property

theorem yields_of_run {property : α → Prop} {parser : Tokens α} (yields : parser.Yields property)
    (ran : parser.run buffer position = .ok (value, stop)) : property value := by
  induction parser generalizing position with
  | done result =>
    obtain ⟨_, has, same⟩ := exec_bind_ok.mp ran
    cases same
    exact yields _ has
  | read next ih =>
    refine ih _ (yields _ fun bulk => ?_) ran
    exact bulkString_clean (beq_iff_eq.mp bulk)

theorem yields_of_valueOn {property : α → Prop} {parser : Tokens α} {args : List Bytes}
    (yields : parser.Yields property) (clean : ∀ arg ∈ args, 13 ∉ arg)
    (has : parser.valueOn args = .ok value) : property value := by
  induction parser generalizing args with
  | done result => exact yields value has
  | read next ih =>
    cases args with
    | nil => exact ih _ (yields _ fun absent => absurd absent (by decide)) clean has
    | cons arg args =>
      exact ih _ (yields _ fun _ => clean arg List.mem_cons_self)
        (fun other member => clean other (List.mem_cons_of_mem _ member)) has

theorem yields_pure {property : α → Prop} {value : α} (has : property value) :
    (pure value : Tokens α).Yields property := by
  intro other same
  cases same
  exact has

theorem Yields.bind {middle : α → Prop} {property : β → Prop} {parser : Tokens α}
    {next : α → Tokens β} (first : parser.Yields middle)
    (second : ∀ value, middle value → (next value).Yields property) :
    (parser >>= next).Yields property := by
  induction parser with
  | done result =>
    cases result with
    | error fault =>
      intro value impossible
      cases impossible
    | ok value => exact second value (first value rfl)
  | read more ih => exact fun token clean => ih token (first token clean)

theorem yields_read {property : β → Prop} {next : Token → Tokens β}
    (yields : ∀ token : Token, (token.isBulkString = true → 13 ∉ token.text) →
      (next token).Yields property) : (parseToken >>= next).Yields property := yields

theorem yields_decrement {property : β → Prop} {total : Int} {count : Nat} {next : Int → Tokens β}
    (yields : (next (total - count)).Yields property) :
    (decrement total count >>= next).Yields property := by
  unfold decrement
  split
  · intro value impossible
    cases impossible
  · exact yields

theorem yields_expect {property : Command → Prop} {next : Bytes → Tokens Command}
    (unknown : property .unknow) (yields : ∀ text, 13 ∉ text → (next text).Yields property) :
    (expectBulkString next).Yields property := by
  rw [expectBulkString]
  refine yields_read fun token clean => ?_
  split
  · exact yields _ (clean ‹_›)
  · exact yields_pure unknown

/-! ## The loops -/

theorem yields_strings (rounds : Nat) :
    (parseStrings rounds).Yields fun values => values.length ≤ rounds ∧ ∀ text ∈ values, 13 ∉ text := by
  induction rounds with
  | zero => exact yields_pure ⟨le_rfl, fun text absent => absurd absent List.not_mem_nil⟩
  | succ rounds ih =>
    rw [parseStrings]
    refine yields_read fun token clean => ih.bind fun values held => yields_pure ?_
    split
    · refine ⟨Nat.succ_le_succ held.1, fun text inside => ?_⟩
      rcases List.mem_cons.mp inside with rfl | inside
      · exact clean ‹_›
      · exact held.2 text inside
    · exact ⟨held.1.trans (Nat.le_succ _), held.2⟩

theorem yields_fieldValues (rounds : Nat) :
    (parseFieldValues rounds).Yields fun pairs =>
      pairs.length * 2 ≤ rounds ∧ ∀ fv ∈ pairs, 13 ∉ fv.1 ∧ 13 ∉ fv.2 := by
  fun_induction parseFieldValues rounds with
  | case1 total ih =>
    refine yields_read fun field cleanField => yields_read fun value cleanValue =>
      ih.bind fun pairs held => yields_pure ?_
    split
    · rename_i both
      obtain ⟨first, second⟩ := Bool.and_eq_true_iff.mp both
      refine ⟨by rw [List.length_cons]; omega, fun fv inside => ?_⟩
      rcases List.mem_cons.mp inside with rfl | inside
      · exact ⟨cleanField first, cleanValue second⟩
      · exact held.2 fv inside
    · exact ⟨by omega, held.2⟩
  | case2 => exact yields_pure ⟨Nat.zero_le _, fun fv absent => absurd absent List.not_mem_nil⟩

theorem yields_scoreMembers (rounds : Nat) :
    (parseScoreMembers rounds).Yields fun pairs =>
      pairs.length * 2 ≤ rounds ∧ ∀ sm ∈ pairs, 13 ∉ sm.2 := by
  have none_ (rounds : Nat) : ([] : List (Float × Bytes)).length * 2 ≤ rounds ∧
      ∀ sm ∈ ([] : List (Float × Bytes)), 13 ∉ sm.2 :=
    ⟨Nat.zero_le _, fun sm absent => absurd absent List.not_mem_nil⟩
  fun_induction parseScoreMembers rounds with
  | case1 total ih =>
    refine yields_read fun score _ => yields_read fun member clean => ?_
    split
    · exact yields_pure (none_ _)
    · rename_i bulk
      rw [Bool.or_eq_true, not_or] at bulk
      refine ih.bind fun pairs held => yields_pure ⟨by rw [List.length_cons]; omega, fun sm inside => ?_⟩
      rcases List.mem_cons.mp inside with rfl | inside
      · exact clean (by simpa using bulk.2)
      · exact held.2 sm inside
  | case2 => exact yields_pure (none_ _)

theorem convertPositiveFrom_lt (text : Bytes) {number : Nat} (small : number < 2 ^ 64) :
    (convertPositiveFrom text number).2 < 2 ^ 64 := by
  induction text generalizing number with
  | nil => exact small
  | cons x rest ih =>
    rw [convertPositiveFrom]
    split
    · exact ih (Nat.mod_lt _ (by decide))
    · exact small

private theorem flag_lt {flag : Bool} {text : Bytes} {number : Option Nat}
    (small : ∀ n ∈ number, n < 2 ^ 64) :
    ∀ n ∈ (if flag then some (convertPositiveStringToNumber text).2 else number), n < 2 ^ 64 := by
  intro n held
  split at held
  · cases held
    exact convertPositiveFrom_lt text (by decide)
  · exact small n held

theorem yields_setFlags (rounds : Nat) {ex px : Option Nat} (seconds : ∀ n ∈ ex, n < 2 ^ 64)
    (millis : ∀ n ∈ px, n < 2 ^ 64) :
    (parseSetFlags rounds ex px).Yields fun flags =>
      (∀ n ∈ flags.1, n < 2 ^ 64) ∧ ∀ n ∈ flags.2, n < 2 ^ 64 := by
  fun_induction parseSetFlags rounds ex px with
  | case1 ex px => exact yields_pure ⟨seconds, millis⟩
  | case2 ex px => exact yields_read fun _ _ => yields_pure ⟨seconds, millis⟩
  | case3 total ex px ihValue ihPx ihOther =>
    refine yields_read fun flag _ => ?_
    split
    · exact yields_pure ⟨seconds, millis⟩
    · split
      · exact yields_read fun value _ => ihValue value _ _ (flag_lt seconds) millis
      · split
        · exact yields_read fun value _ => ihPx value _ _ seconds (flag_lt millis)
        · exact ihOther seconds millis

theorem yields_geoPoints (rounds : Nat) {point : GeoPoint} (clean : 13 ∉ point.member) :
    (parseGeoPoints rounds point).Yields fun point => 13 ∉ point.member := by
  fun_induction parseGeoPoints rounds point with
  | case1 total point ih =>
    refine yields_read fun lon _ => yields_read fun lat _ => yields_read fun member plain => ?_
    split
    · exact yields_pure clean
    · rename_i bulk
      rw [Bool.or_eq_true, not_or] at bulk
      have one : (Tokens.done (readGeoPoint point lon.text lat.text member.text)).Yields
          fun point => 13 ∉ point.member := by
        intro next read
        have kept : next.member = member.text := by
          rw [readGeoPoint] at read
          dsimp only at read
          split at read
          · cases read
            rfl
          · obtain ⟨_, -, read⟩ := exec_bind_ok.mp read
            cases read
            rfl
        rw [kept]
        exact plain (by simpa using bulk.2)
      exact one.bind fun next held => ih next held
  | case2 => exact yields_pure clean

end Tokens

/-! ## The commands -/

/-- A command of which the frame can be read back. -/
structure Command.Sendable (command : Command) : Prop where
  clean : ∀ text ∈ command.texts, 13 ∉ text
  fit : command.NumbersFit
  few : command.frame.args.length < 2 ^ 31

/-- A write command of which the frame can be read back, or no write command. -/
def Sent (command : Command) : Prop := command.isWriteCommand = true → command.Sendable

private theorem sent_other {command : Command} (other : command.isWriteCommand = false) :
    Sent command := by
  intro write
  rw [other] at write
  cases write

namespace Tokens

private theorem one (make : Bytes → Command) (other : ∀ text, (make text).isWriteCommand = false) :
    (expectBulkString fun text => pure (make text)).Yields Sent :=
  yields_expect (sent_other rfl) fun text _ => yields_pure (sent_other (other text))

private theorem two (make : Bytes → Bytes → Command)
    (other : ∀ first second, (make first second).isWriteCommand = false) :
    (expectBulkString fun first => expectBulkString fun second => pure (make first second)).Yields
      Sent :=
  yields_expect (sent_other rfl) fun first _ => one (make first) (other first)

private theorem three (make : Bytes → Bytes → Bytes → Command)
    (other : ∀ first second third, (make first second third).isWriteCommand = false) :
    (expectBulkString fun first => expectBulkString fun second => expectBulkString fun third =>
      pure (make first second third)).Yields Sent :=
  yields_expect (sent_other rfl) fun first _ => two (make first) (other first)

private theorem indexRange (make : Bytes → Int → Int → Command)
    (other : ∀ key start stop, (make key start stop).isWriteCommand = false) :
    (parseIndexRange make).Yields Sent := by
  refine yields_expect (sent_other rfl) fun key _ => yields_expect (sent_other rfl) fun start _ =>
    yields_expect (sent_other rfl) fun stop _ => ?_
  split
  · exact yields_pure (sent_other (other ..))
  · exact yields_pure (sent_other rfl)

/-- A key and the strings behind it. -/
private theorem keyed {total : Int} (int : total < 2 ^ 31) (make : Bytes → List Bytes → Command)
    (sent : ∀ key values, 13 ∉ key → (∀ text ∈ values, 13 ∉ text) → values.length + 1 < 2 ^ 31 →
      Sent (make key values)) :
    (expectBulkString fun key => decrement total 1 >>= fun total =>
      parseStrings total.toNat >>= fun values => pure (make key values)).Yields Sent :=
  yields_expect (sent_other rfl) fun key clean => yields_decrement <|
    (yields_strings _).bind fun values held =>
      yields_pure (sent key values clean held.2 (by omega))

private theorem sent_keyed {key : Bytes} {values : List Bytes} {command : Command}
    (clean : 13 ∉ key) (cleanValues : ∀ text ∈ values, 13 ∉ text) (few : values.length + 1 < 2 ^ 31)
    (texts : command.texts = key :: values) (args : command.frame.args = key :: values)
    (fit : command.NumbersFit) : Sent command := by
  refine fun _ => ⟨?_, fit, by rw [args]; exact few⟩
  rw [texts]
  exact List.forall_mem_cons.mpr ⟨clean, cleanValues⟩

theorem yields_set {total : Int} : (parseSetCommand total).Yields Sent := by
  refine yields_expect (sent_other rfl) fun key cleanKey => yields_expect (sent_other rfl) fun value
    cleanValue => yields_decrement ((yields_setFlags _ (by simp) (by simp)).bind fun flags held =>
      yields_pure fun _ => ⟨?_, held, ?_⟩)
  · exact List.forall_mem_cons.mpr ⟨cleanKey, List.forall_mem_singleton.mpr cleanValue⟩
  · dsimp only [Command.frame]
    split <;> split <;> simp

theorem yields_lpop {total : Int} : (parseLpopCommand total).Yields Sent := by
  refine yields_expect (sent_other rfl) fun key clean => yields_decrement ?_
  split
  · refine yields_read fun count _ => yields_pure fun _ => ⟨?_, ?_, ?_⟩
    · exact List.forall_mem_singleton.mpr clean
    · intro n held
      split at held
      · cases held
        exact Nat.mod_lt _ (by decide)
      · cases held
    · dsimp only [Command.frame]
      split <;> simp
  · exact yields_pure fun _ =>
      ⟨List.forall_mem_singleton.mpr clean, by simp [Command.NumbersFit], by simp [Command.frame]⟩

theorem yields_xadd {total : Int} (int : total < 2 ^ 31) : (parseXaddCommand total).Yields Sent := by
  refine yields_expect (sent_other rfl) fun key cleanKey => yields_expect (sent_other rfl) fun id
    cleanId => yields_decrement ((yields_fieldValues _).bind fun pairs held =>
      yields_pure fun _ => ⟨?_, trivial, ?_⟩)
  · refine List.forall_mem_cons.mpr ⟨cleanKey, List.forall_mem_cons.mpr ⟨cleanId, fun text inside => ?_⟩⟩
    obtain ⟨fv, member, here⟩ := List.mem_flatMap.mp inside
    simp only [List.mem_cons, List.not_mem_nil, or_false] at here
    rcases here with rfl | rfl
    · exact (held.2 fv member).1
    · exact (held.2 fv member).2
  · dsimp only [Command.frame]
    rw [List.length_cons, List.length_cons, flatMap_pair_length]
    omega

theorem yields_zadd {total : Int} (int : total < 2 ^ 31) : (parseZaddCommand total).Yields Sent := by
  refine yields_expect (sent_other rfl) fun key cleanKey => yields_decrement
    ((yields_scoreMembers _).bind fun pairs held => yields_pure fun _ => ⟨?_, trivial, ?_⟩)
  · refine List.forall_mem_cons.mpr ⟨cleanKey, fun text inside => ?_⟩
    obtain ⟨sm, member, rfl⟩ := List.mem_map.mp inside
    exact held.2 sm member
  · dsimp only [Command.frame]
    rw [List.length_cons, flatMap_pair_length]
    omega

theorem yields_geoAdd {total : Int} : (parseGeoAddCommand total).Yields Sent := by
  refine yields_expect (sent_other rfl) fun key cleanKey => yields_decrement
    ((yields_geoPoints _ (by simp)).bind fun point held => yields_pure fun _ => ⟨?_, trivial, ?_⟩)
  · exact List.forall_mem_cons.mpr ⟨cleanKey, List.forall_mem_singleton.mpr held⟩
  · exact (by decide : 4 < 2 ^ 31)

theorem yields_blpop {total : Int} : (parseBlpopCommand total).Yields Sent := by
  refine (yields_strings _).bind fun keys _ => ?_
  split
  · exact yields_read fun timeout _ => yields_pure (sent_other rfl)
  · exact yields_pure (sent_other rfl)

theorem yields_streams {blockTimeout : Option Float} {total : Int} :
    (parseStreams blockTimeout total).Yields Sent := by
  rw [parseStreams]
  split
  · exact yields_pure (sent_other rfl)
  · exact (yields_strings _).bind fun keys _ => (yields_strings _).bind fun ids _ =>
      yields_pure (sent_other rfl)

theorem yields_xread {total : Int} : (parseXreadCommand total).Yields Sent := by
  refine yields_expect (sent_other rfl) fun first _ => ?_
  split
  · exact yields_read fun timeout _ => yields_decrement (yields_read fun _ _ =>
      yields_decrement yields_streams)
  · split
    · exact yields_decrement yields_streams
    · exact yields_pure (sent_other rfl)

theorem yields_replConf : parseReplConfCommand.Yields Sent := by
  refine yields_expect (sent_other rfl) fun confType _ => ?_
  split
  · exact yields_read fun _ _ => yields_pure (sent_other rfl)
  · split
    · exact yields_read fun _ _ => yields_pure (sent_other rfl)
    · split
      · exact yields_read fun _ _ => yields_pure (sent_other rfl)
      · split
        · exact yields_read fun _ _ => yields_pure (sent_other rfl)
        · exact yields_pure (sent_other rfl)

theorem yields_psync {total : Int} : (parsePsyncCommand total).Yields Sent := by
  refine yields_expect (sent_other rfl) fun replId _ => ?_
  split
  · exact yields_expect (sent_other rfl) fun offset _ => yields_pure (sent_other rfl)
  · exact yields_pure (sent_other rfl)

theorem yields_wait : parseWaitCommand.Yields Sent :=
  yields_expect (sent_other rfl) fun _ _ => yields_read fun _ _ => yields_pure (sent_other rfl)

theorem yields_parameters (total : Nat) (parameters : List Bytes) :
    (parseParameters total parameters).Yields Sent := by
  induction total generalizing parameters with
  | zero => exact yields_pure (sent_other rfl)
  | succ total ih => exact yields_expect (sent_other rfl) fun parameter _ => ih _

theorem yields_getConfig {total : Int} : (parseGetConfigCommand total).Yields Sent := by
  refine yields_expect (sent_other rfl) fun commandType _ => ?_
  split
  · exact yields_decrement (yields_parameters _ _)
  · exact yields_pure (sent_other rfl)

theorem yields_geoSearch : parseGeoSearchCommand.Yields Sent := by
  refine yields_expect (sent_other rfl) fun key _ => yields_expect (sent_other rfl) fun _ _ =>
    yields_expect (sent_other rfl) fun lon _ => yields_expect (sent_other rfl) fun lat _ =>
    yields_expect (sent_other rfl) fun _ _ => yields_expect (sent_other rfl) fun radius _ =>
    yields_read fun _ _ => ?_
  split
  · exact yields_pure (sent_other rfl)
  · exact yields_pure (sent_other rfl)

theorem yields_rules (total : Nat) (password : Option Bytes) (flags : List Bytes) :
    (parseRules total password flags).Yields fun _ => True := by
  induction total generalizing password flags with
  | zero => exact yields_pure trivial
  | succ total ih =>
    rw [parseRules]
    refine yields_read fun token _ => ?_
    split
    · exact yields_pure trivial
    · split <;> exact ih _ _

theorem yields_acl {total : Int} : (parseACLCommand total).Yields Sent := by
  rw [parseACLCommand]
  split
  · exact yields_pure (sent_other rfl)
  · refine yields_expect (sent_other rfl) fun cmdName _ => ?_
    split
    · exact yields_pure (sent_other rfl)
    · split
      · split
        · exact yields_pure (sent_other rfl)
        · split
          · exact yields_expect (sent_other rfl) fun username _ => yields_pure (sent_other rfl)
          · exact yields_pure (sent_other rfl)
      · split
        · split
          · exact yields_pure (sent_other rfl)
          · refine yields_expect (sent_other rfl) fun username _ => (yields_rules _ _ _).bind
              fun rules _ => yields_pure fun _ => ⟨?_, trivial, by simp [Command.frame]⟩
            exact fun text absent => absurd absent List.not_mem_nil
        · exact yields_pure (sent_other rfl)

/-- Every write command that the parser makes can be sent. -/
theorem parsers_yield {total : Int} (int : total < 2 ^ 31) :
    ∀ parser ∈ commandParsers total, parser.2.Yields Sent := by
  simp only [commandParsers, List.forall_mem_cons, List.not_mem_nil]
  have incr : parseIncrCommand.Yields Sent :=
    yields_expect (sent_other rfl) fun key clean => yields_pure fun _ =>
      ⟨List.forall_mem_singleton.mpr clean, trivial, by simp [Command.frame]⟩
  have rpush := keyed int .rpush fun key values clean cleanValues few =>
    sent_keyed clean cleanValues few rfl rfl trivial
  have lpush := keyed int .lpush fun key values clean cleanValues few =>
    sent_keyed clean cleanValues few rfl rfl trivial
  have zrem := keyed int .zrem fun key values clean cleanValues few =>
    sent_keyed clean cleanValues few rfl rfl trivial
  have geoPos := keyed int .geoPos fun _ _ _ _ _ => sent_other rfl
  have info : parseInfoCommand.Yields Sent := one _ fun _ => rfl
  refine ⟨yields_pure (sent_other rfl), one _ fun _ => rfl, yields_set, one _ fun _ => rfl,
    one _ fun _ => rfl, incr, rpush, lpush, indexRange _ fun _ _ _ => rfl, one _ fun _ => rfl,
    yields_lpop, yields_blpop, yields_xadd int, three _ fun _ _ _ => rfl, yields_xread,
    yields_pure (sent_other rfl), yields_pure (sent_other rfl), yields_pure (sent_other rfl), info,
    yields_replConf, yields_psync, yields_wait, yields_getConfig, one _ fun _ => rfl,
    one _ fun _ => rfl, two _ fun _ _ => rfl, one _ fun _ => rfl, yields_zadd int,
    two _ fun _ _ => rfl, indexRange _ fun _ _ _ => rfl, one _ fun _ => rfl, two _ fun _ _ => rfl,
    zrem, yields_geoAdd, geoPos, three _ fun _ _ _ => rfl, yields_geoSearch, yields_acl,
    two _ fun _ _ => rfl, ?_⟩
  intro parser absent
  cases absent

end Tokens

/-- A command that the parser has made of some read buffer. -/
def Parsable (command : Command) : Prop :=
  ∃ buffer parsed, parseCommand buffer = .ok parsed ∧ parsed.command = command

theorem sent_of_parseCommandFrom {rounds : Nat} {buffer : Bytes} {parsed : Parsed}
    (read : parseCommandFrom rounds buffer = .ok parsed) : Sent parsed.command := by
  induction rounds generalizing buffer with
  | zero =>
    cases read
    exact sent_other rfl
  | succ rounds ih =>
    rw [parseCommandFrom] at read
    dsimp only at read
    split at read
    · cases read
      exact sent_other rfl
    · exact ih read
    · rw [parseArray] at read
      dsimp only at read
      split at read
      · cases read
        exact sent_other rfl
      · rename_i parser found
        obtain ⟨result, ran, read⟩ := exec_bind_ok.mp read
        cases read
        rw [commandParser, Option.map_eq_some_iff] at found
        obtain ⟨entry, listed, rfl⟩ := found
        exact Tokens.yields_of_run
          (Tokens.parsers_yield (i32_range _).2 entry (List.mem_of_find?_eq_some listed)) ran

/-- A write command that the parser has made can be sent. -/
theorem sendable_of_parsable {command : Command} (parsable : Parsable command)
    (write : command.isWriteCommand = true) : command.Sendable := by
  obtain ⟨buffer, parsed, read, rfl⟩ := parsable
  exact sent_of_parseCommandFrom read write

end CarrotDb
