import RomKit.Label.Table
import RomKit.Text.Hex

/-!
# Events

What the assembler tells about its work while it works. Most events are for the
curious; an unused label is worth a warning.
-/

namespace RomKit

/-- How much attention an event asks for. -/
inductive Severity where
  | debug
  | warning
deriving DecidableEq, Repr

/-- A step of assembling. -/
inductive Event where
  | labelDefined (name : String) (offset : Int)
  | labelUnused (definition : Definition)
  | labelResolved (name : String) (address : Int) (sites : Nat)
  | scanned (file : RawText) (size labels : Nat)
  | opening (path : RawText)
  | assembled (size warnings : Nat)
deriving DecidableEq, Repr

/-- The warning about a label without reference. -/
def Definition.unusedWarning (d : Definition) : RawText :=
  Location.textOf d.location ++ ": warning: label " ++ inQuotes d.name ++ " is unused"

namespace Event

/-- Only unused labels are warned about. -/
def severity : Event → Severity
  | .labelUnused _ => .warning
  | _ => .debug

/-- The part of the assembler that speaks. -/
def channel : Event → String
  | .labelDefined _ _ | .labelUnused _ | .labelResolved _ _ _ => "neoasm.assembler.labels"
  | .scanned _ _ _ => "neoasm.assembler.codegen"
  | .opening _ | .assembled _ _ => "neoasm.assembler.assembler"

/-- What is told. -/
def message : Event → RawText
  | .labelDefined name offset =>
    "Label " ++ inQuotes name ++ " defined at offset " ++ toString offset
  | .labelUnused d => d.unusedWarning
  | .labelResolved name address sites =>
    "Label " ++ inQuotes name ++ " resolved to $" ++ Hex.address address ++ " at "
      ++ toString sites ++ " site(s)"
  | .scanned file size labels =>
    file ++ ": generated " ++ toString size ++ " bytes, " ++ toString labels ++ " labels"
  | .opening path => "Assembling " ++ path
  | .assembled size warnings =>
    "Generated " ++ toString size ++ " bytes with " ++ toString warnings ++ " warning(s)"

/-- The event as a line of a full log. -/
def logLine (e : Event) : RawText :=
  let level := match e.severity with
    | .debug => "DEBUG"
    | .warning => "WARNING"
  level ++ " " ++ e.channel ++ ": " ++ e.message

end Event

end RomKit
