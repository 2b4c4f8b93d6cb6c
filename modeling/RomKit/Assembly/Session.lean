import RomKit.Assembly.Workspace

/-!
# Sessions

One assembler is used again and again, among files. It assembles sources, is
switched between its modes, and gives out or writes its last result. A step that
fails does not end the session.
-/

namespace RomKit

/-- A step of a session. -/
inductive Operation where
  | assembleText (text file : RawText)
  | assembleBytes (bytes : List UInt8) (file : RawText)
  | assembleStream (stream : Stream) (file : RawText)
  | assembleFile (path : Path)
  | setStrict (strict : Bool)
  | getImage
  | getSymbols
  | writeImage (path : Path)
  | writeSymbols (path : Path)
  /-- Writes the labels to a symbol file whose path is as typed. -/
  | writeSymbolsTyped (typed : RawText)
deriving DecidableEq, Repr

/-- What a step gives. -/
inductive Answer where
  | nothing
  | image (image : Image)
  | symbols (symbols : List (String × Int))
deriving DecidableEq, Repr

/-- An assembler and the disk it works on. -/
structure Session where
  assembler : Assembler
  disk : Disk
deriving DecidableEq, Repr

namespace Session

/-- A session with an assembler that has not assembled anything. -/
def fresh (strict : Bool) (disk : Disk) : Session :=
  ⟨.fresh strict, disk⟩

/-- Lets the assembler make a pass, or fail to. -/
def assemble (pass : Assembler → Disk → Except FileTrouble Image × Assembler × List Event) :
    EStateM FileTrouble Session Answer := fun s =>
  match pass s.assembler s.disk with
  | (.ok image, a, _) => .ok (.image image) { s with assembler := a }
  | (.error e, a, _) => .error e { s with assembler := a }

/-- Assembles a source from a stream. -/
def assembleStream (stream : Stream) (file : RawText) : EStateM FileTrouble Session Answer :=
  assemble fun a _ => Assembler.onFiles (a.run file stream)

/-- Gives out the image of the last result. -/
def giveImage : EStateM FileTrouble Session Answer := fun s =>
  match s.assembler.result with
  | .ok image => .ok (.image image) s
  | .error d => .error (.failure (.diagnostic d)) s

/-- Writes a file, or fails to. -/
def write (work : Assembler → FileWork Unit) : EStateM FileTrouble Session Answer := fun s =>
  match work s.assembler s.disk with
  | .ok _ disk => .ok .nothing { s with disk := disk }
  | .error e disk => .error e { s with disk := disk }

/-- Takes a step. -/
def perform : Operation → EStateM FileTrouble Session Answer
  | .assembleText text file => assemble fun a _ => a.runText file text
  | .assembleBytes bytes file => assembleStream (.ofBytes bytes) file
  | .assembleStream stream file => assembleStream stream file
  | .assembleFile path => assemble fun a disk => a.runFile disk path
  | .setStrict strict => fun s =>
    .ok .nothing { s with assembler := { s.assembler with strict := strict } }
  | .getImage => giveImage
  | .getSymbols => fun s => .ok (.symbols s.assembler.symbols) s
  | .writeImage path => write fun a => a.writeImage path
  | .writeSymbols path => write fun a => a.writeSymbols path
  | .writeSymbolsTyped typed => write fun a => a.writeSymbolsTyped typed

end Session

end RomKit
