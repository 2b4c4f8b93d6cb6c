import RomKit.Assembly.Assembler
import RomKit.Files.Disk
import RomKit.SymbolFile

/-!
# Assembling files

An assembler reads sources from files and writes its result to files. A source
that cannot be opened leaves the assembler as it is, and nothing is written
without a result. Text that has no bytes stops the writing of a text file in the
middle.
-/

namespace RomKit

/-- What stops work on files. -/
inductive FileTrouble where
  | failure (failure : Failure)
  | system (fault : SystemFault)
  | encoding (fault : Utf8.EncodeFault)
deriving DecidableEq, Repr

/-- The text of the error. -/
def FileTrouble.message : FileTrouble → RawText
  | .failure f => f.message
  | .system fault => fault.message
  | .encoding fault => fault.message

/-- A step of work on files. -/
abbrev FileWork := EStateM FileTrouble Disk

namespace FileWork

/-- Changes the disk, or fails and leaves it as it is. -/
def change (f : Disk → Except SystemFault Disk) : FileWork Unit := fun d =>
  match f d with
  | .error fault => .error (.system fault) d
  | .ok d' => .ok () d'

/-- Writes texts one after another to a file that is opened first. What comes before a text without
bytes is written. -/
def writeTexts (write : List UInt8 → Disk → Except SystemFault Disk) (texts : List RawText) :
    FileWork Unit := do
  let (bytes, fault) := Utf8.encodeTexts texts
  change (write bytes)
  match fault with
  | none => pure ()
  | some fault => throw (.encoding fault)

theorem writeTexts_apply (write : List UInt8 → Disk → Except SystemFault Disk)
    (texts : List RawText) (d : Disk) :
    writeTexts write texts d
      = match write (Utf8.encodeTexts texts).1 d with
        | .error fault => .error (.system fault) d
        | .ok d' =>
          match (Utf8.encodeTexts texts).2 with
          | none => .ok () d'
          | some fault => .error (.encoding fault) d' := by
  show EStateM.bind _ _ d = _
  unfold EStateM.bind change
  cases write (Utf8.encodeTexts texts).1 d with
  | error fault => rfl
  | ok d' => cases (Utf8.encodeTexts texts).2 <;> rfl

end FileWork

/-- The reads of an open file. -/
def Disk.Contents.stream (c : Disk.Contents) : Stream :=
  ⟨c.bytes.map .byte, c.fault.map SystemFault.message⟩

namespace Assembler

/-- A pass as a step of work on files. -/
def onFiles (r : Except Failure Image × Assembler × List Event) :
    Except FileTrouble Image × Assembler × List Event :=
  (r.1.mapError .failure, r.2)

/-- Assembles text, which is taken as its bytes in UTF-8. Text without bytes starts no pass. -/
def runText (a : Assembler) (file text : RawText) :
    Except FileTrouble Image × Assembler × List Event :=
  match Utf8.encodeText text with
  | .error fault => (.error (.encoding fault), a, [])
  | .ok bytes => onFiles (a.run file (.ofBytes bytes))

/-- Assembles a file and keeps the result. -/
def runFile (a : Assembler) (disk : Disk) (path : Path) :
    Except FileTrouble Image × Assembler × List Event :=
  let told := .opening path.text
  match disk.read path with
  | .error fault => (.error (.system fault), a, [told])
  | .ok contents =>
    let (result, a', log) := onFiles (a.run path.text contents.stream)
    (result, a', told :: log)

/-- Works with the image of the last pass, or fails without one. -/
def withResult (a : Assembler) (f : Image → FileWork Unit) : FileWork Unit :=
  match a.result with
  | .error d => throw (.failure (.diagnostic d))
  | .ok image => f image

/-- Writes the image to a file. -/
def writeImage (a : Assembler) (path : Path) : FileWork Unit :=
  a.withResult fun image => FileWork.change fun d => d.write path image.toList

/-- The lines of the symbol file. -/
def symbolLines (a : Assembler) : List RawText :=
  SymbolFile.render a.sourceName a.symbols

/-- Writes the labels to a symbol file. -/
def writeSymbols (a : Assembler) (path : Path) : FileWork Unit :=
  a.withResult fun _ => FileWork.writeTexts (fun bytes d => d.write path bytes) a.symbolLines

/-- Writes the labels to a symbol file whose path is as typed. -/
def writeSymbolsTyped (a : Assembler) (typed : RawText) : FileWork Unit :=
  a.withResult fun _ => FileWork.writeTexts (fun bytes d => d.writeTyped typed bytes) a.symbolLines

end Assembler

/-- Why a symbol file is not loaded. -/
inductive LoadError where
  | system (fault : SystemFault)
  | encoding (fault : Utf8.Fault)
  | content (error : SymbolFileError)
deriving DecidableEq, Repr

/-- The text of the error. -/
def LoadError.message : LoadError → String
  | .system fault => fault.message
  | .encoding fault => fault.message
  | .content e => e.message

/-- Loads a symbol file. -/
def SymbolFile.load (disk : Disk) (path : Path) : Except LoadError (List (String × Int)) :=
  match disk.read path with
  | .error fault | .ok ⟨_, some fault⟩ => .error (.system fault)
  | .ok ⟨bytes, none⟩ =>
    match Utf8.decode bytes with
    | .error fault => .error (.encoding fault)
    | .ok text =>
      match SymbolFile.parse (String.ofList (Text.unifyNewlines text.toList)) with
      | .error e => .error (.content e)
      | .ok symbols => .ok symbols

end RomKit
