import RomKit.Files.Disk
import RomKit.Text.ControlSequence

/-!
# How a command ends

A command that is stopped says why and ends with an exit code: 1 if a source is
rejected, 2 if an argument or a path is at fault, 3 for anything else.
-/

namespace RomKit

/-- The exit codes. -/
inductive ExitCode where
  | success
  | buildError
  | invalidArgs
  | internalError
deriving DecidableEq, Repr

/-- The number given to the system. -/
def ExitCode.number : ExitCode → Nat
  | .success => 0
  | .buildError => 1
  | .invalidArgs => 2
  | .internalError => 3

/-- What stops a command. -/
inductive Trouble where
  /-- The source is rejected. -/
  | rejected (message : RawText)
  /-- An argument is of no use. -/
  | badParameter (message : RawText)
  | system (fault : SystemFault)
  /-- Text to be written has no bytes. -/
  | unencodable (fault : Utf8.EncodeFault)
  /-- Anything that should not happen. -/
  | unforeseen (message : RawText)
deriving DecidableEq, Repr

namespace Trouble

/-- What the command says about it. -/
def message : Trouble → RawText
  | .rejected m | .badParameter m | .unforeseen m => m
  | .system fault => fault.message
  | .unencodable fault => fault.message

/-- The exit code. Paths that lead nowhere, to a directory or to a closed door are at fault. -/
def exitCode : Trouble → ExitCode
  | .rejected _ => .buildError
  | .badParameter _ => .invalidArgs
  | .system fault =>
    match fault.kind with
    | .missing | .permission | .isDirectory => .invalidArgs
    | .notDirectory | .nameTooLong | .zeroCharacter | .notEncodable | .other => .internalError
  | .unencodable _ | .unforeseen _ => .internalError

/-- What is said about it. A rejected source needs no more words; otherwise it is said what was
being done, if that has a name. -/
def statement (t : Trouble) (task : Option String) : RawText :=
  match t.exitCode with
  | .success | .buildError => t.message
  | .invalidArgs =>
    let opening := match task with
      | some word => if word.isEmpty then "Error" else word ++ " error"
      | none => "Error"
    opening ++ ": " ++ t.message
  | .internalError => "Internal error: " ++ t.message

/-- The lines that report it. In full, an internal error is followed by its trace: what the system
says of the steps that led to it. -/
def report (t : Trouble) (full : Bool) (task : Option String) (trace : RawText) : RawText :=
  Text.plain (t.statement task) ++ "\n"
    ++ if full && t.exitCode == .internalError then trace else []

end Trouble

end RomKit
