import RomKit.Assembly.Workspace
import RomKit.Command.Exit

/-!
# Tools

A tool is run on a disk with the words of its command line. It writes to its two
output channels, may change the disk, and ends with an exit code. What it wrote and
changed before it was stopped stays.

The words are read by a parser, which is not a part of the tool: any `Parser` will
do. It hands over the values that the tool works with, or it ends the run itself.

The channels are no terminals: what a tool says on them is plain text. Its log
is kept as it is.
-/

namespace RomKit

/-- What an output channel does with surrogates. -/
inductive Channel where
  /-- It takes none. -/
  | strict
  /-- It takes those that stand for bytes. -/
  | escaping
deriving DecidableEq, Repr

/-- What is wrong with a text for a channel. -/
def Channel.refusal? (c : Channel) (text : RawText) : Option Utf8.EncodeFault :=
  let encoded := match c with
    | .strict => Utf8.encodeText text
    | .escaping => Utf8.encodeName text
  match encoded with
  | .ok _ => none
  | .error fault => some fault

/-- The disk that a tool works on, its output channel, and what it has written to that and to the
error channel. -/
structure World where
  disk : Disk
  channel : Channel
  out : RawText
  err : RawText
deriving DecidableEq, Repr

/-- A step of a tool. -/
abbrev Work := EStateM Trouble World

/-- How a run of a tool ends. -/
inductive Ending where
  | exit (code : ExitCode)
  /-- Stopped by an output path without a name. -/
  | uncaught (error : PathError)
  /-- By the parser, with a status. -/
  | parsed (status : Nat)
deriving DecidableEq, Repr

/-- The number given to the system. -/
def Ending.status : Ending → Nat
  | .exit code => code.number
  | .uncaught _ => 1
  | .parsed status => status

/-- A run of a tool: how it ends, and the world it leaves. -/
structure Run where
  ending : Ending
  world : World
deriving DecidableEq, Repr

/-- The version of the tools. -/
def version : String := "1.0.0"

namespace Work

/-- Writes text to the output channel, if that takes it. -/
def print (text : RawText) : Work Unit := fun w =>
  match w.channel.refusal? (Text.plain text) with
  | some fault => .error (.unencodable fault) w
  | none => .ok () { w with out := w.out ++ Text.plain text }

/-- Writes a line to the output channel. -/
def say (line : RawText) : Work Unit :=
  print (line ++ "\n")

/-- Writes a line to the error channel. -/
def warn (line : RawText) : Work Unit :=
  modify fun w => { w with err := w.err ++ Text.plain (line ++ "\n") }

/-- The line of an event on the error channel: in a full log every event has one, else warnings
only. -/
def eventLine? (full : Bool) (e : Event) : Option RawText :=
  if full then some e.logLine
  else match e.severity with
    | .warning => some e.message
    | .debug => none

/-- Logs events on the error channel. -/
def log (full : Bool) (events : List Event) : Work Unit :=
  let lines := (events.filterMap (eventLine? full)).map fun line => line ++ ("\n" : RawText)
  modify fun w => { w with err := w.err ++ lines.flatten }

/-- What stops work on files, as a tool sees it. -/
def troubleOf : FileTrouble → Trouble
  | .failure (.diagnostic d) => .rejected d.message
  | .failure (.patch e) => .unforeseen e.message
  | .system fault => .system fault
  | .encoding fault => .unencodable fault

/-- Reads a file to its end. -/
def readFile (path : Path) : Work (List UInt8) := fun w =>
  match w.disk.read path with
  | .error fault | .ok ⟨_, some fault⟩ => .error (.system fault) w
  | .ok ⟨bytes, none⟩ => .ok bytes w

/-- Works on the disk. -/
def onDisk (x : FileWork Unit) : Work Unit := fun w =>
  match x w.disk with
  | .ok _ disk => .ok () { w with disk := disk }
  | .error e disk => .error (troubleOf e) { w with disk := disk }

/-- Runs a step and reports what stops it, with its trace. -/
def run (x : Work ExitCode) (full : Bool) (task : String) (trace : Trouble → RawText)
    (w : World) : Run :=
  match x w with
  | .ok code w' => ⟨.exit code, w'⟩
  | .error t w' =>
    ⟨.exit t.exitCode, { w' with err := w'.err ++ t.report full (some task) (trace t) }⟩

end Work

/-! ## The command line of a tool -/

/-- What a parser makes of a command line. -/
inductive Parse (α : Type) where
  /-- The values to work with. -/
  | accepted (values : α)
  /-- The command line asks for text, such as the version, and not for work. -/
  | answered (status : Nat) (out : RawText)
  /-- The command line is of no use. -/
  | refused (status : Nat) (err : RawText)
deriving DecidableEq, Repr

/-- Reads the words of a command line; it may look at the disk. -/
abbrev Parser (α : Type) := Disk → List RawText → Parse α

/-- What a tool finds when it starts, beside the disk and its words. -/
structure Host where
  channel : Channel
  /-- What the system says of the steps that led to trouble. -/
  trace : Trouble → RawText

/-- Runs a tool: its work with the values of its command line, unless there are none. -/
def Parser.run {α : Type} (parse : Parser α) (host : Host) (disk : Disk) (words : List RawText)
    (work : α → World → Run) : Run :=
  match parse disk words with
  | .accepted values => work values ⟨disk, host.channel, [], []⟩
  | .answered status out => ⟨.parsed status, ⟨disk, host.channel, out, []⟩⟩
  | .refused status err => ⟨.parsed status, ⟨disk, host.channel, [], err⟩⟩

end RomKit
