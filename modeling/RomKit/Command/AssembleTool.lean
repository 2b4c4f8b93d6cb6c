import RomKit.Command.Tool

/-!
# The assembler as a tool

Reads a source file and writes its image and, if asked to, a symbol file. The
name of the image ends in `.rom`.
-/

namespace RomKit

/-- The suffix of image files. -/
def imageSuffix : String := ".rom"

/-- The path of an image file: the suffix is added unless it is there. -/
def imagePath (output : Path) : Except PathError Path :=
  if output.suffix = imageSuffix then .ok output else output.addToName imageSuffix

namespace AssembleTool

/-- What is asked for on the command line. -/
structure Values where
  input : Path
  /-- The image file, to which the suffix may have to be added. -/
  output : Path
  symbols : Option Path
  strict : Bool
  verbose : Bool
deriving DecidableEq, Repr

/-- What the tool is to do. -/
structure Job where
  input : Path
  image : Path
  symbols : Option Path
  strict : Bool
  verbose : Bool
deriving DecidableEq, Repr

/-- What is to be done for some values, with the image at a path. -/
def Values.job (v : Values) (image : Path) : Job where
  input := v.input
  image := image
  symbols := v.symbols
  strict := v.strict
  verbose := v.verbose

/-- Assembles a file. -/
def assembleFile (job : Job) : Work (Assembler × Image) := do
  let w ← get
  let (result, assembler, events) := (Assembler.fresh job.strict).runFile w.disk job.input
  Work.log job.verbose events
  match result with
  | .error e => throw (Work.troubleOf e)
  | .ok image => return (assembler, image)

/-- Writes the symbol file, if one is asked for. -/
def writeSymbols (job : Job) (assembler : Assembler) : Work Unit :=
  match job.symbols with
  | none => pure ()
  | some path => do
    Work.onDisk (assembler.writeSymbols path)
    if job.verbose then Work.say ("Wrote symbols to " ++ path.text)

/-- The work of the tool. -/
def work (job : Job) : Work ExitCode := do
  if job.verbose then Work.say ("Assembling " ++ job.input.text ++ "...")
  let (assembler, image) ← assembleFile job
  Work.onDisk (assembler.writeImage job.image)
  writeSymbols job assembler
  Work.say ("Assembled as '" ++ job.image.text ++ "' in " ++ toString image.size ++ " bytes")
  if job.verbose then
    Work.say ("Defined " ++ toString assembler.symbols.length ++ " labels")
  return .success

/-- Works with the values of a command line. An output path without a name stops the tool before it
starts. -/
def main (trace : Trouble → RawText) (v : Values) (w : World) : Run :=
  match imagePath v.output with
  | .error e => ⟨.uncaught e, w⟩
  | .ok image => (work (v.job image)).run v.verbose "Assembly" trace w

/-- Runs the tool. -/
def run (parse : Parser Values) (host : Host) (disk : Disk) (words : List RawText) : Run :=
  parse.run host disk words (main host.trace)

end AssembleTool

end RomKit
