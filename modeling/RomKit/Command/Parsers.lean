import RomKit.Command.AssembleTool
import RomKit.Command.DisassembleTool
import RomKit.Command.Options

/-!
# The parsers of the tools

A tool takes one argument, a file to read, and options. Files to be read must be
there, and no file may be a directory; these checks are made on the paths as
typed. Asking for the version or for help goes before all checks.
-/

namespace RomKit

/-- What a tool expects on its command line beside its one argument, a file to read. -/
structure ToolSpec (κ : Type) where
  tool : String
  /-- What `--version` prints. -/
  versionLine : String
  options : List (OptionSpec κ)
  version : κ
  help : κ
  /-- What is wrong with the value of an option, given or not. -/
  problem? : Disk → κ → Option RawText → Option UsageError

namespace ToolSpec

variable {κ : Type} [BEq κ]

/-- The words of a command line, checked. -/
structure Request (κ : Type) where
  line : CommandLine κ
  input : RawText

/-- What a command line asks for. -/
inductive Demand (κ : Type) where
  | version
  | help
  | work (request : Request κ)

/-- The label of a parameter in messages: the names of an option. -/
def label (s : OptionSpec κ) : String :=
  match s.letter with
  | some c => "'-" ++ String.ofList [c] ++ "' / '" ++ s.name ++ "'"
  | none => "'" ++ s.name ++ "'"

/-- The argument of a tool in messages. -/
def argumentName : String := "INPUT_FILE"

/-- Checks the input file. -/
def inputProblem? (disk : Disk) : List RawText → Option UsageError
  | [] => some (.missingArgument argumentName)
  | typed :: _ =>
    (pathProblem? disk true typed).map (.badValue ("'" ++ argumentName ++ "'"))

/-- The first fault of a command line: of the options as given, of the input file, of the options
left out, and of the number of arguments. -/
def fault? (s : ToolSpec κ) (disk : Disk) (line : CommandLine κ) : Option UsageError :=
  let given := line.keys.findSome? fun k => s.problem? disk k (line.value? k)
  let input := inputProblem? disk line.arguments
  let absent := (s.options.filter fun o => !line.has o.key).findSome? fun o =>
    s.problem? disk o.key none
  let extra := line.arguments.drop 1
  given <|> input <|> absent <|> if extra.isEmpty then none else some (.extraArguments extra)

/-- Reads a command line. -/
def demand (s : ToolSpec κ) (disk : Disk) (words : List RawText) :
    Except UsageError (Demand κ) :=
  match CommandLine.read s.options words with
  | .error e => .error e
  | .ok line =>
    match line.keys.find? fun k => k == s.version || k == s.help with
    | some k => .ok (if k == s.version then .version else .help)
    | none =>
      match s.fault? disk line, line.arguments with
      | some e, _ => .error e
      | none, [] => .error (.missingArgument argumentName)
      | none, input :: _ => .ok (.work ⟨line, input⟩)

/-- The parser of a tool. -/
def parser {α : Type} (s : ToolSpec κ) (values : Request κ → α) : Parser α := fun disk words =>
  match s.demand disk words with
  | .error e => .refused ExitCode.invalidArgs.number (e.report s.tool)
  | .ok .version => .answered ExitCode.success.number (s.versionLine ++ "\n")
  | .ok .help =>
    .answered ExitCode.success.number ("Usage: " ++ s.tool ++ " [OPTIONS] INPUT_FILE\n")
  | .ok (.work request) => .accepted (values request)

/-- The paths on a command line: the argument and the values of some options. -/
def paths (s : ToolSpec κ) (isPath : κ → Bool) (words : List RawText) : List RawText :=
  match CommandLine.read s.options words with
  | .error _ => []
  | .ok line => line.arguments ++ (line.options.filter fun o => isPath o.1).map fun o => o.2

end ToolSpec

namespace AssembleTool

/-- The options of the tool. -/
inductive Key where
  | output | symbols | strict | verbose | version | help
deriving DecidableEq, Repr

/-- The image file, unless another is asked for. -/
def defaultOutput : String := "out"

/-- The option that names the image file. -/
def outputOption : OptionSpec Key := ⟨.output, some 'o', "--output", true⟩
/-- The option that asks for a symbol file. -/
def symbolsOption : OptionSpec Key := ⟨.symbols, some 's', "--symbols", true⟩

/-- Files to be written may be missing, but not be directories. -/
def problem? (disk : Disk) : Key → Option RawText → Option UsageError
  | .output, typed =>
    (pathProblem? disk false (typed.getD defaultOutput)).map
      (.badValue (ToolSpec.label outputOption))
  | .symbols, some typed =>
    (pathProblem? disk false typed).map (.badValue (ToolSpec.label symbolsOption))
  | _, _ => none

/-- The command line of the tool. -/
def toolSpec : ToolSpec Key where
  tool := "neoasm"
  versionLine := "Neoasm " ++ version
  options := [
    outputOption,
    symbolsOption,
    ⟨.strict, none, "--strict", false⟩,
    ⟨.verbose, some 'v', "--verbose", false⟩,
    ⟨.version, some 'V', "--version", false⟩,
    ⟨.help, none, "--help", false⟩]
  version := .version
  help := .help
  problem? := problem?

/-- The values of a checked command line. -/
def valuesOf (request : ToolSpec.Request Key) : Values where
  input := .ofText request.input
  output := .ofText ((request.line.value? .output).getD defaultOutput)
  symbols := (request.line.value? .symbols).map .ofText
  strict := request.line.has .strict
  verbose := request.line.has .verbose

/-- The parser of the tool. -/
def parser : Parser Values :=
  toolSpec.parser valuesOf

/-- The paths that the tool looks at, for a command line. -/
def paths (words : List RawText) : List RawText :=
  let typed := RawText.ofString defaultOutput
    :: toolSpec.paths (fun k => k == .output || k == .symbols) words
  typed ++ typed.filterMap fun t => (imagePath (.ofText t)).toOption.map Path.text

end AssembleTool

namespace DisassembleTool

/-- The options of the tool. -/
inductive Key where
  | output | address | count | symbols | noBytes | json | verbose | version | help
deriving DecidableEq, Repr

/-- The option that names the file for the listing. -/
def outputOption : OptionSpec Key := ⟨.output, some 'o', "--output", true⟩
/-- The option that limits the number of entries. -/
def countOption : OptionSpec Key := ⟨.count, some 'c', "--count", true⟩
/-- The option that names the symbol file. -/
def symbolsOption : OptionSpec Key := ⟨.symbols, some 's', "--symbols", true⟩

/-- The symbol file is there, the listing does not replace a directory, and the count is a
number. -/
def problem? (disk : Disk) : Key → Option RawText → Option UsageError
  | .output, some typed =>
    (pathProblem? disk false typed).map (.badValue (ToolSpec.label outputOption))
  | .count, some typed =>
    (integerProblem? typed).map (.badValue (ToolSpec.label countOption))
  | .symbols, some typed =>
    (pathProblem? disk true typed).map (.badValue (ToolSpec.label symbolsOption))
  | _, _ => none

/-- The command line of the tool. -/
def toolSpec : ToolSpec Key where
  tool := "neodisasm"
  versionLine := "neodisasm, version " ++ version
  options := [
    outputOption,
    ⟨.address, some 'a', "--address", true⟩,
    countOption,
    symbolsOption,
    ⟨.noBytes, none, "--no-bytes", false⟩,
    ⟨.json, none, "--json", false⟩,
    ⟨.verbose, some 'v', "--verbose", false⟩,
    ⟨.version, some 'V', "--version", false⟩,
    ⟨.help, none, "--help", false⟩]
  version := .version
  help := .help
  problem? := problem?

/-- The values of a checked command line. -/
def valuesOf (request : ToolSpec.Request Key) : Values where
  input := .ofText request.input
  output := (request.line.value? .output).map .ofText
  address := request.line.value? .address
  count := (request.line.value? .count).bind integer?
  symbols := (request.line.value? .symbols).map .ofText
  noBytes := request.line.has .noBytes
  json := request.line.has .json
  verbose := request.line.has .verbose

/-- The parser of the tool. -/
def parser : Parser Values :=
  toolSpec.parser valuesOf

/-- The paths that the tool looks at, for a command line. -/
def paths (words : List RawText) : List RawText :=
  toolSpec.paths (fun k => k == .output || k == .symbols) words

end DisassembleTool

end RomKit
