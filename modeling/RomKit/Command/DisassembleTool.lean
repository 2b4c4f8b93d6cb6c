import RomKit.Command.BaseAddress
import RomKit.Command.Tool
import RomKit.Listing.Report

/-!
# The disassembler as a tool

Reads an image and lists it, on its output channel or to a file. A symbol file
gives names to addresses.
-/

namespace RomKit.DisassembleTool

/-- What is asked for on the command line. -/
structure Values where
  input : Path
  output : Option Path
  address : Option RawText
  count : Option Int
  symbols : Option Path
  noBytes : Bool
  json : Bool
  verbose : Bool
deriving DecidableEq, Repr

/-- Loads the names for addresses. A symbol file that cannot be understood is a bad argument, and so
is a path that is no path for the system. -/
def loadSymbols : Option Path → Work SymbolMap
  | none => return .empty
  | some path => do
    let w ← get
    match SymbolFile.load w.disk path with
    | .ok symbols => return SymbolMap.empty.insertSymbols symbols
    | .error (.system fault) =>
      if fault.kind = .zeroCharacter ∨ fault.kind = .notEncodable then
        throw (.badParameter (path.text ++ ": " ++ fault.message))
      else throw (.system fault)
    | .error e => throw (.badParameter (path.text ++ ": " ++ e.message))

/-- The address of the first byte. -/
def chooseBase (size : Nat) (address : Option RawText) : Work Int :=
  match BaseAddress.choose size address with
  | .ok base => return base
  | .error e => throw (.badParameter e.message)

/-- Puts the listing where it is wanted. -/
def deliver (v : Values) (text : RawText) (entries : Nat) : Work Unit :=
  match v.output with
  | none => Work.print text
  | some path => do
    Work.onDisk (FileWork.writeTexts (fun bytes d => d.write path bytes) [text])
    if v.verbose then
      Work.warn ("Wrote " ++ toString entries ++ " entries to " ++ path.text)

/-- Lists an image that is not empty. -/
def list (v : Values) (data : List UInt8) : Work ExitCode := do
  let base ← chooseBase data.length v.address
  let symbols ← loadSymbols v.symbols
  if v.verbose then
    Work.warn ("Disassembling " ++ v.input.text ++ " (" ++ toString data.length
      ++ " bytes) at $" ++ Hex.address base)
  let entries := disassemble symbols data (some base) v.count
  let report : Report := ⟨v.input.name, data.length, base, entries⟩
  deliver v (if v.json then report.json else report.text !v.noBytes) entries.length
  return .success

/-- The work of the tool. -/
def work (v : Values) : Work ExitCode := do
  let data ← Work.readFile v.input
  if data.isEmpty then
    Work.warn ("Error: " ++ v.input.text ++ " is empty")
    return .buildError
  else list v data

/-- Runs the tool. -/
def run (parse : Parser Values) (host : Host) (disk : Disk) (words : List RawText) : Run :=
  parse.run host disk words fun v w => (work v).run v.verbose "Disassembly" host.trace w

end RomKit.DisassembleTool
