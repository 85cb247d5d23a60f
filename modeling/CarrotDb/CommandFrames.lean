import CarrotDb.CommandArity

/-! How much of the read buffer a call of `parseCommand` takes. A frame is an
array of bulk strings; the parser of its command takes as many of them as it
wants, and what it leaves stays in front of the next frame. -/
namespace CarrotDb
open Decimal Resp

/-- The names of the supported commands. -/
def commandNames : List Bytes := (commandParsers 0).map Prod.fst

/-- A name that is supported, in any letter case. -/
def Supported (name : Bytes) : Prop := ∃ command ∈ commandNames, isEqual name command = true

/-- The number of arguments that the table gives for a name. -/
def argumentsWanted (name : Bytes) (args : List Bytes) : Option Nat :=
  ((wantedArguments args).find? fun entry => isEqual name entry.1).map Prod.snd

/-- One call of `parseCommand` takes the frame and nothing behind it. -/
def ConsumesFrame (name : Bytes) (args : List Bytes) (rest : Bytes) : Prop :=
  ∃ parsed, parseCommand (encodeBulkStringArray (name :: args) ++ rest) = .ok parsed ∧
    parsed.readBuffer = rest

/-- The number of arguments is one that the parser of the command takes whole,
or one short of what it wants with nothing behind it that it could read on;
and the points of GEOADD have a geohash. -/
structure FrameFits (name : Bytes) (args : List Bytes) (rest : Bytes) : Prop where
  counted : args.length < 2 ^ 31
  encodes : isEqual name (ascii "GEOADD") = true → encodable args.tail = true
  taken : ∃ wanted, argumentsWanted name args = some wanted ∧
    (wanted = args.length ∨ args.length < wanted ∧ startsToken rest.head? = false)

private theorem find_aligned {parsers : List (Bytes × α)} {numbers : List (Bytes × β)}
    {relation : Bytes × α → Bytes × β → Prop} (aligned : List.Forall₂ relation parsers numbers)
    (named : ∀ parser number, relation parser number → parser.1 = number.1) (name : Bytes)
    (known : ∃ parser ∈ parsers, isEqual name parser.1 = true) :
    ∃ parser number, parsers.find? (fun entry => isEqual name entry.1) = some parser ∧
      numbers.find? (fun entry => isEqual name entry.1) = some number ∧ parser ∈ parsers ∧
      relation parser number ∧ isEqual name parser.1 = true := by
  induction aligned with
  | nil =>
    obtain ⟨_, absent, _⟩ := known
    exact (List.not_mem_nil absent).elim
  | @cons parser number parsers numbers related aligned ih =>
    have same := named _ _ related
    by_cases here : isEqual name parser.1 = true
    · refine ⟨parser, number, List.find?_cons_of_pos here, ?_, List.mem_cons_self .., related, here⟩
      exact List.find?_cons_of_pos (same ▸ here)
    · obtain ⟨found, member, equal⟩ := known
      have later : found ∈ parsers := by
        rcases List.mem_cons.mp member with rfl | later
        · exact absurd equal here
        · exact later
      obtain ⟨parser', number', first, second, inside, rest⟩ := ih ⟨found, later, equal⟩
      refine ⟨parser', number', ?_, ?_, List.mem_cons_of_mem _ inside, rest⟩
      · exact (List.find?_cons_of_neg (p := fun entry : Bytes × α => isEqual name entry.1)
          here).trans first
      · exact (List.find?_cons_of_neg (p := fun entry : Bytes × β => isEqual name entry.1)
          (same ▸ here)).trans second

private theorem commandNames_any (total : Int) :
    (commandParsers total).map Prod.fst = commandNames := rfl

/-- An announced number beyond an `int` is never taken for that number. -/
theorem i32_large {n : Nat} (large : 2 ^ 31 ≤ n) : 7 + (i32 n).toNat < n := by
  unfold i32
  rw [Int.bmod_def]
  split <;> omega

/-- What `parseCommand` makes of a frame: the parser of the name, run behind
the name. -/
theorem parseCommand_frame {name : Bytes} {args : List Bytes} {rest buffer : Bytes}
    (shape : buffer = encodeBulkStringArray (name :: args) ++ rest)
    (fits : (encodeBulkStringArray (name :: args)).length < 2 ^ 64)
    (clean : ∀ arg ∈ name :: args, 13 ∉ arg) :
    ∃ position, Tokens.Written buffer position args ∧
      Tokens.behind position args = (encodeBulkStringArray (name :: args)).length ∧
      parseCommand buffer =
        match commandParser name (i32 args.length) with
        | none => .ok ⟨.unknow, position, []⟩
        | some parser => parser.run buffer position >>= fun result =>
          .ok ⟨result.1, result.2, buffer.drop result.2⟩ := by
  obtain ⟨count, small⟩ := small_of_fits fits
  have held : Holds buffer 0 (encodeBulkStringArray (name :: args)) := ⟨rest, by simp [shape]⟩
  obtain ⟨header, others⟩ := holds_append.mp held
  have written : Tokens.Written buffer (0 + (encodeArrayHeader (name :: args).length).length)
      (name :: args) := ⟨others, small, clean⟩
  obtain ⟨token, parsed, -, text⟩ := parse_clean (holds_append.mp others).1
    (small name (List.mem_cons_self ..)) (clean name (List.mem_cons_self ..))
  refine ⟨_, written.tail, ?_, ?_⟩
  · rw [← Tokens.behind_cons, Tokens.behind, encodeBulkStringArray, List.length_append, Nat.zero_add]
  · rw [parseCommand, parseCommandFrom, parse_arrayHeader header count]
    dsimp only
    rw [parseArray, parsed]
    dsimp only
    rw [text, List.length_cons, Nat.cast_add, Nat.cast_one, Int.add_sub_cancel]
    rfl

private theorem behind_take_lt {position : Nat} {args : List Bytes} (few : n < args.length) :
    Tokens.behind position (args.take n) < Tokens.behind position args := by
  unfold Tokens.behind
  conv_rhs => rw [← List.take_append_drop n args]
  rw [List.flatMap_append, List.length_append, List.drop_eq_getElem_cons few, List.flatMap_cons,
    List.length_append, encodeBulkString_length]
  omega

private theorem isEqual_congr {name other : Bytes} (equal : isEqual name other = true)
    (word : Bytes) : isEqual name word = isEqual other word := by
  unfold isEqual at equal ⊢
  rw [beq_iff_eq.mp equal]

theorem find_geoAdd {name : Bytes} (geoAdd : isEqual name (ascii "GEOADD") = true)
    (total : Int) : (commandParsers total).find? (fun entry => isEqual name entry.1) =
      some (ascii "GEOADD", parseGeoAddCommand total) := by
  have same : (fun entry : Bytes × Tokens Command => isEqual name entry.1) =
      fun entry => isEqual (ascii "GEOADD") entry.1 := funext fun _ => isEqual_congr geoAdd _
  rw [same]
  rfl

/-- The parser of GEOADD has no result where a geohash is not defined. -/
private theorem encodable_of_run {args : List Bytes} (written : Tokens.Written buffer position args)
    (running : (parseGeoAddCommand args.length).run buffer position = .ok result) :
    encodable args.tail = true := by
  cases args with
  | nil => rfl
  | cons key points =>
    obtain ⟨n, -, counts⟩ := Tokens.run_atMost (Tokens.atMost_geoAdd _) written
      (by rw [List.length_cons]; omega) running
    rw [parseGeoAddCommand, Tokens.count_expect_cons] at counts
    obtain ⟨m, counts, -⟩ := exec_bind_ok.mp counts
    rw [Tokens.decrement_bind _ _ (by decide), Int.toNat_sub, List.length_cons,
      Nat.add_sub_cancel] at counts
    exact Tokens.encodable_of_count rfl counts

/-- The command that a name and its arguments stand for. -/
def commandOf (name : Bytes) (args : List Bytes) : Exec Command :=
  match commandParser name args.length with
  | none => pure .unknow
  | some parser => parser.valueOn args

/-- Where a frame fits, the parser of its command takes all arguments, or
wants more where nothing is a token. -/
private theorem parser_of_fits {name : Bytes} {args : List Bytes} {rest : Bytes}
    (supported : Supported name) (fits : FrameFits name args rest) :
    ∃ parser n, commandParser name (i32 args.length) = some parser ∧
      commandParser name args.length = some parser ∧ parser.count args = .ok n ∧
      (n = args.length ∨ args.length < n ∧ startsToken rest.head? = false) := by
  obtain ⟨counted, encodes, wanted, listed, taken⟩ := fits
  have known : ∃ parser ∈ commandParsers args.length, isEqual name parser.1 = true := by
    obtain ⟨command, member, equal⟩ := supported
    rw [← commandNames_any args.length, List.mem_map] at member
    obtain ⟨parser, inside, rfl⟩ := member
    exact ⟨parser, inside, equal⟩
  obtain ⟨parser, number, found, number_found, -, ⟨same, agrees⟩, equal⟩ :=
    find_aligned (Tokens.parsers_want args) (fun _ _ related => related.1) name known
  rw [argumentsWanted, number_found] at listed
  cases listed
  obtain ⟨n, counts, close⟩ := agrees fun geoAdd => encodes (geoAdd ▸ equal)
  have parsing : commandParser name args.length = some parser.2 := by
    rw [commandParser, found]
    rfl
  refine ⟨parser.2, n, by rw [i32_of_range (by omega) (by omega), parsing], parsing, counts, ?_⟩
  rcases taken with exactly | ⟨more, nothing⟩
  · exact .inl (by omega)
  · exact .inr ⟨by omega, nothing⟩

/-- A frame that fits its command is taken whole, and read as what it stands
for. -/
theorem parse_fits {name : Bytes} {args : List Bytes} {rest : Bytes} (supported : Supported name)
    (small : (encodeBulkStringArray (name :: args)).length < 2 ^ 64)
    (clean : ∀ arg ∈ name :: args, 13 ∉ arg) (fits : FrameFits name args rest) :
    ∃ command, commandOf name args = .ok command ∧
      parseCommand (encodeBulkStringArray (name :: args) ++ rest) =
        .ok ⟨command, (encodeBulkStringArray (name :: args)).length, rest⟩ := by
  obtain ⟨buffer, shape⟩ : ∃ buffer, buffer = encodeBulkStringArray (name :: args) ++ rest :=
    ⟨_, rfl⟩
  obtain ⟨position, written, whole, parsing⟩ := parseCommand_frame shape small clean
  obtain ⟨parser, n, announced, named, counted, taken⟩ := parser_of_fits supported fits
  have behind_rest : buffer.drop (Tokens.behind position args) = rest := by
    rw [whole, shape, List.drop_left]
  have front : buffer[Tokens.behind position args]? = rest.head? := by
    rw [← List.head?_drop, behind_rest]
  have star : tokenText buffer unknownToken = [42] := by
    rw [shape]
    rfl
  obtain ⟨command, has⟩ := Tokens.valueOn_of_count counted
  refine ⟨command, by rw [commandOf, named]; exact has, ?_⟩
  rw [← shape, parsing, announced]
  dsimp only
  rw [Tokens.run_valueOn star written counted (front ▸ taken), has, exec_ok_bind, exec_ok_bind,
    behind_rest, whole]

/-- Where a frame of GEOADD has been read, the geohashes of its points are
defined. -/
theorem encodable_of_parse {name : Bytes} {args : List Bytes} {rest : Bytes} {parsed : Parsed}
    (small : (encodeBulkStringArray (name :: args)).length < 2 ^ 64)
    (clean : ∀ arg ∈ name :: args, 13 ∉ arg) (counted : args.length < 2 ^ 31)
    (read : parseCommand (encodeBulkStringArray (name :: args) ++ rest) = .ok parsed)
    (geoAdd : isEqual name (ascii "GEOADD") = true) : encodable args.tail = true := by
  obtain ⟨position, written, -, parsing⟩ := parseCommand_frame rfl small clean
  rw [parsing, commandParser, find_geoAdd geoAdd, i32_of_range (by omega) (by omega)] at read
  obtain ⟨result, running, -⟩ := exec_bind_ok.mp read
  exact encodable_of_run written running

/-- A frame of a supported command is taken whole and alone just when its
number of arguments fits the parser of the command. -/
theorem consumesFrame_iff {name : Bytes} {args : List Bytes} {rest : Bytes}
    (supported : Supported name) (clean : ∀ arg ∈ name :: args, 13 ∉ arg)
    (fits : (encodeBulkStringArray (name :: args) ++ rest).length < 2 ^ 64) :
    ConsumesFrame name args rest ↔ FrameFits name args rest := by
  obtain ⟨buffer, shape⟩ : ∃ buffer, buffer = encodeBulkStringArray (name :: args) ++ rest :=
    ⟨_, rfl⟩
  have size : buffer.length = (encodeBulkStringArray (name :: args)).length + rest.length := by
    rw [shape, List.length_append]
  obtain ⟨position, written, whole, parsing⟩ := parseCommand_frame shape (by
    rw [List.length_append] at fits
    omega) clean
  have behind_rest : buffer.drop (Tokens.behind position args) = rest := by
    rw [whole, shape, List.drop_left]
  have front : buffer[Tokens.behind position args]? = rest.head? := by
    rw [← List.head?_drop, behind_rest]
  have star : tokenText buffer unknownToken = [42] := by
    rw [shape]
    rfl
  have known : ∀ total, ∃ parser ∈ commandParsers total, isEqual name parser.1 = true := by
    intro total
    obtain ⟨command, member, equal⟩ := supported
    rw [← commandNames_any total, List.mem_map] at member
    obtain ⟨parser, inside, rfl⟩ := member
    exact ⟨parser, inside, equal⟩
  rw [ConsumesFrame, ← shape, parsing]
  constructor
  · rintro ⟨parsed, ran, left⟩
    obtain ⟨parser, found⟩ := Option.isSome_iff_exists.mp (List.find?_isSome.mpr (known (i32 args.length)))
    have inside := List.mem_of_find?_eq_some found
    rw [commandParser, found, Option.map_some] at ran
    obtain ⟨⟨value, stop⟩, running, same⟩ := exec_bind_ok.mp ran
    cases same
    have lengths := congrArg List.length left
    rw [List.length_drop, size] at lengths
    have taken_all : ∀ n, parser.2.count args = .ok n → n ≤ args.length → n = args.length := by
      intro n counts within
      obtain ⟨value', ran'⟩ := Tokens.run_within written counts within
      rw [running] at ran'
      cases ran'
      by_contra other
      have short := @behind_take_lt n position args (by omega)
      omega
    have bounded := Tokens.parsers_atMost _ parser inside
    have counted : args.length < 2 ^ 31 := by
      by_contra large
      have few := i32_large (not_lt.mp large)
      obtain ⟨n, le, counts⟩ := Tokens.run_atMost bounded written few.le running
      have all := taken_all n counts (by omega)
      omega
    rw [i32_of_range (by omega) (by omega)] at found
    have encodes : isEqual name (ascii "GEOADD") = true → encodable args.tail = true := by
      intro geoAdd
      rw [find_geoAdd geoAdd] at found
      cases found
      exact encodable_of_run written running
    obtain ⟨parser', number, found', listed, -, ⟨named, agrees⟩, equal⟩ :=
      find_aligned (Tokens.parsers_want args) (fun _ _ related => related.1) name (known _)
    rw [found] at found'
    cases found'
    obtain ⟨n, counts, close⟩ := agrees fun geoAdd => encodes (geoAdd ▸ equal)
    refine ⟨counted, encodes, number.2, by rw [argumentsWanted, listed]; rfl, ?_⟩
    by_cases within : n ≤ args.length
    · have all := taken_all n counts within
      exact .inl (by omega)
    · refine .inr ⟨by omega, ?_⟩
      obtain ⟨next, m, ran', -⟩ := Tokens.run_beyond written counts (by omega)
      rw [running] at ran'
      by_contra starts
      rw [Bool.not_eq_false] at starts
      have on := ran'.symm
      rw [Tokens.run] at on
      have further := (lt_parse (front ▸ starts)).trans_le (Tokens.le_of_run on)
      have some_ : rest ≠ [] := by
        rintro rfl
        cases starts
      have positive := List.length_pos_iff.mpr some_
      omega
  · intro framed
    obtain ⟨command, -, read⟩ := parse_fits supported (by
      rw [List.length_append] at fits
      omega) clean framed
    rw [← shape, parsing] at read
    exact ⟨_, read, rfl⟩

theorem consumesFrame_iff_get :
    ConsumesFrame (ascii "get") [ascii "k"] (ascii "*1") ↔ FrameFits (ascii "get") [ascii "k"] (ascii "*1") :=
  consumesFrame_iff ⟨ascii "GET", by decide, by decide⟩ (by decide) (by decide)

/-- An argument that the command does not want stays in the buffer. -/
theorem consumesFrame_fails_on_extra : ¬ ∀ (name : Bytes) (args : List Bytes) (rest : Bytes),
    Supported name → (∀ arg ∈ name :: args, 13 ∉ arg) → ConsumesFrame name args rest := by
  intro all
  obtain ⟨parsed, ran, left⟩ :=
    all (ascii "PING") [ascii "x"] [] ⟨ascii "PING", by decide, by decide⟩ (by decide)
  have leaves : (parseCommand (encodeBulkStringArray [ascii "PING", ascii "x"] ++ [])).map
      Parsed.readBuffer = .ok (ascii "$1\r\nx\r\n") := by rfl
  rw [ran] at leaves
  have same := Except.ok.inj leaves
  rw [left] at same
  exact absurd same (by decide)

end CarrotDb
