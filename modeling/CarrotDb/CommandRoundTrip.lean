import CarrotDb.ParsedCommands

/-! Commands that come back from their own encoding. What the parser made of a
read buffer is written by `to_resp` and read again, in front of any bytes: the
same command, and not a byte more or less than was written. -/
namespace CarrotDb
open Resp

/-- The write commands without numbers that are printed: their fields are on
the wire as they are. -/
def Command.writesItsFields : Command → Bool
  | .set .. | .incr .. | .rpush .. | .lpush .. | .lpop .. | .xadd .. | .zrem .. => true
  | _ => false

variable {command : Command}

private theorem writes_command (plain : command.writesItsFields = true) :
    command.isWriteCommand = true := by
  cases command <;> first | rfl | cases plain

/-- The command that is read from such a frame is the command it is of. -/
theorem reread_plain (plain : command.writesItsFields = true) : command.reread = .ok command := by
  cases command <;> first | rfl | cases plain

private theorem not_geoAdd (plain : command.writesItsFields = true) :
    isEqual command.frame.name (ascii "GEOADD") = false := by
  cases command <;> first | (simp only [Command.frame]; decide) | cases plain

/-- The frame of a command that was read fits in front of any bytes. -/
theorem Command.Sendable.fits (sendable : command.Sendable)
    (plain : command.writesItsFields = true) (small : command.frame.bytes.length < 2 ^ 64)
    (rest : Bytes) : command.frame.Fits rest where
  small := small
  clean := frame_clean (writes_command plain) sendable.clean
  taken :=
    { counted := sendable.few
      encodes := fun geoAdd => by simp [not_geoAdd plain] at geoAdd
      taken := ⟨_, frame_wanted (writes_command plain), .inl rfl⟩ }

/-- A command that can be sent is read back from in front of any bytes. -/
theorem Command.Sendable.parse (sendable : command.Sendable)
    (plain : command.writesItsFields = true) (small : command.frame.bytes.length < 2 ^ 64)
    (rest : Bytes) :
    parseCommand (command.frame.bytes ++ rest) =
      .ok ⟨command, command.frame.bytes.length, rest⟩ := by
  obtain ⟨found, stands, read⟩ := Frame.parse_fits (sendable.fits plain small rest)
  rw [frame_command (writes_command plain) sendable.fit, reread_plain plain] at stands
  cases stands
  exact read

/-- SET, INCR, RPUSH, LPUSH, LPOP, XADD and ZREM come back from `to_resp`,
whatever stands behind them. -/
theorem parseCommand_toResp {buffer : Bytes} {parsed : Parsed}
    (read : parseCommand buffer = .ok parsed) (plain : parsed.command.writesItsFields = true) :
    ∃ resp, parsed.command.toResp = .ok resp ∧
      (resp.length < 2 ^ 64 → ∀ rest,
        parseCommand (resp ++ rest) = .ok ⟨parsed.command, resp.length, rest⟩) := by
  have sendable := sendable_of_parsable ⟨buffer, parsed, read, rfl⟩ (writes_command plain)
  exact ⟨_, toResp_frame (writes_command plain), fun small => sendable.parse plain small⟩

theorem parseCommand_toResp_lpop :
    ∃ resp, (Command.lpop (ascii "k") (some 2)).toResp = .ok resp ∧ resp.length < 2 ^ 64 ∧
      ∀ rest, parseCommand (resp ++ rest) = .ok ⟨.lpop (ascii "k") (some 2), resp.length, rest⟩ := by
  obtain ⟨resp, sent, back⟩ :=
    @parseCommand_toResp (encodeBulkStringArray [ascii "lpop", ascii "k", ascii "002"])
      ⟨.lpop (ascii "k") (some 2), 30, []⟩ rfl rfl
  have small : resp.length < 2 ^ 64 := by
    cases sent
    decide
  exact ⟨resp, sent, small, back small⟩

end CarrotDb
