import CarrotDb.CommandFrames

/-! Frames in a stream. What a frame stands for is told by its name and its
arguments; the parser finds the same where the frame stands whole in front of
the read buffer and its number of arguments fits the command. -/
namespace CarrotDb
open Decimal Resp

/-! ## Frames -/

/-- A command array: the name of a command and its arguments. -/
structure Frame where
  name : Bytes
  args : List Bytes

namespace Frame

/-- The bytes of a frame. -/
def bytes (frame : Frame) : Bytes := encodeBulkStringArray (frame.name :: frame.args)

/-- The command that a frame stands for. -/
def command (frame : Frame) : Exec Command := commandOf frame.name frame.args

/-- A frame that is read whole from in front of other bytes: its texts have no
carriage return, and its arguments fit its command. -/
structure Fits (frame : Frame) (rest : Bytes) : Prop where
  small : frame.bytes.length < 2 ^ 64
  clean : ∀ arg ∈ frame.name :: frame.args, 13 ∉ arg
  taken : FrameFits frame.name frame.args rest

/-- A frame that is answered as what it is: it is read whole, or its name is
not supported and nothing stands behind it. -/
def Readable (frame : Frame) (rest : Bytes) : Prop :=
  frame.Fits rest ∨ frame.bytes.length < 2 ^ 64 ∧
    (∀ arg ∈ frame.name :: frame.args, 13 ∉ arg) ∧ ¬ Supported frame.name ∧ rest = []

theorem bytes_ne_nil (frame : Frame) : frame.bytes ≠ [] := List.cons_ne_nil _ _

end Frame

/-- Frames one behind the other. -/
def bytesOf (frames : List Frame) : Bytes := frames.flatMap Frame.bytes

/-- The commands that frames stand for. -/
def commandsOf (frames : List Frame) : Exec (List Command) := frames.mapM Frame.command

theorem commandsOf_cons {frame : Frame} {frames : List Frame} {command : Command}
    {commands : List Command} (first : frame.command = .ok command)
    (rest : commandsOf frames = .ok commands) :
    commandsOf (frame :: frames) = .ok (command :: commands) := by
  rw [commandsOf, List.mapM_cons, first, exec_ok_bind, ← commandsOf, rest, exec_ok_bind]
  rfl

theorem commandsOf_append {frames frames' : List Frame} {commands commands' : List Command}
    (first : commandsOf frames = .ok commands) (rest : commandsOf frames' = .ok commands') :
    commandsOf (frames ++ frames') = .ok (commands ++ commands') := by
  rw [commandsOf, List.mapM_append, ← commandsOf, first, exec_ok_bind, ← commandsOf, rest,
    exec_ok_bind]
  rfl

theorem commandsOf_length {frames : List Frame} {commands : List Command}
    (stands : commandsOf frames = .ok commands) : commands.length = frames.length := by
  induction frames generalizing commands with
  | nil =>
    cases stands
    rfl
  | cons frame frames ih =>
    rw [commandsOf, List.mapM_cons] at stands
    obtain ⟨command, -, stands⟩ := exec_bind_ok.mp stands
    obtain ⟨rest, others, same⟩ := exec_bind_ok.mp stands
    cases same
    rw [List.length_cons, List.length_cons, ih others]

theorem supported_of_fits (fits : FrameFits name args rest) : Supported name := by
  obtain ⟨wanted, listed, -⟩ := fits.taken
  rw [argumentsWanted, Option.map_eq_some_iff] at listed
  obtain ⟨entry, found, -⟩ := listed
  have named : isEqual name entry.1 = true := by simpa using List.find?_some found
  have inside : entry.1 ∈ (wantedArguments args).map Prod.fst :=
    List.mem_map_of_mem (List.mem_of_find?_eq_some found)
  exact ⟨entry.1, inside, named⟩

private theorem commandParser_of_unsupported (unknown : ¬ Supported name) (total : Int) :
    commandParser name total = none := by
  rw [commandParser, Option.map_eq_none_iff, List.find?_eq_none]
  intro entry member named
  have inside : entry.1 ∈ (commandParsers total).map Prod.fst := List.mem_map_of_mem member
  exact unknown ⟨entry.1, inside, named⟩

namespace Frame

theorem parse_fits {frame : Frame} {rest : Bytes} (fits : frame.Fits rest) :
    ∃ command, frame.command = .ok command ∧
      parseCommand (frame.bytes ++ rest) = .ok ⟨command, frame.bytes.length, rest⟩ :=
  CarrotDb.parse_fits (supported_of_fits fits.taken) fits.small fits.clean fits.taken

/-- A readable frame is read as what it stands for. -/
theorem parse_readable {frame : Frame} {rest : Bytes} (readable : frame.Readable rest) :
    ∃ command bytesProcessed, frame.command = .ok command ∧
      parseCommand (frame.bytes ++ rest) = .ok ⟨command, bytesProcessed, rest⟩ := by
  rcases readable with fits | ⟨small, clean, unknown, rfl⟩
  · obtain ⟨command, stands, read⟩ := parse_fits fits
    exact ⟨command, _, stands, read⟩
  · obtain ⟨position, -, -, parsing⟩ := parseCommand_frame rfl small clean
    rw [commandParser_of_unsupported unknown] at parsing
    refine ⟨.unknow, position, ?_, parsing⟩
    rw [command, commandOf, commandParser_of_unsupported unknown]
    rfl

end Frame

end CarrotDb
