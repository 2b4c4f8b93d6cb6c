import RomKit.Files.Disk
import RomKit.Text.ControlSequence
import RomKit.Text.Numeral

/-!
# Command lines

The words of a command line are options and plain arguments, in any order. An
option has a long name (`--output`) and often a short one (`-o`). Its value is
the next word, whatever that looks like, or stands after `=` (long) or directly
after the letter (short). Letters of options without value may be joined
(`-vs X`). After `--` all words are arguments.

Options of a command are told apart by a key type `κ`.
-/

namespace RomKit

/-- An option of a command. -/
structure OptionSpec (κ : Type) where
  key : κ
  letter : Option Char
  name : String
  takesValue : Bool

/-- What is wrong with a command line. -/
inductive UsageError where
  | noSuchOption (name : RawText)
  | needsValue (name : RawText)
  | takesNoValue (name : RawText)
  | missingArgument (name : String)
  /-- A value of a parameter that is no use. -/
  | badValue (parameter problem : String)
  | extraArguments (words : List RawText)
deriving DecidableEq, Repr

namespace UsageError

/-- What is wrong. -/
def message : UsageError → RawText
  | .noSuchOption name => "No such option " ++ Text.quoted name ++ "."
  | .needsValue name => "Option " ++ Text.quoted name ++ " requires an argument."
  | .takesNoValue name => "Option " ++ Text.quoted name ++ " does not take a value."
  | .missingArgument name => "Missing argument '" ++ name ++ "'."
  | .badValue parameter problem => "Invalid value for " ++ parameter ++ ": " ++ problem
  | .extraArguments words =>
    "Got unexpected extra argument" ++ (if words.length = 1 then "" else "s")
      ++ " (" ++ List.intercalate (" " : RawText) words ++ ")"

/-- The usage of the command is shown with it. -/
def showsUsage : UsageError → Bool
  | .needsValue _ | .takesNoValue _ => false
  | _ => true

/-- The lines that report it for a tool. -/
def report (e : UsageError) (tool : String) : RawText :=
  (if e.showsUsage then
    "Usage: " ++ tool ++ " [OPTIONS] INPUT_FILE\nTry '" ++ tool ++ " --help' for help.\n\n"
  else "") ++ Text.plain ("Error: " ++ e.message) ++ "\n"

end UsageError

/-- A command line, sorted: the options with their values, and the arguments, each in order. -/
structure CommandLine (κ : Type) where
  options : List (κ × RawText)
  arguments : List RawText

namespace CommandLine

variable {κ : Type}

/-- How a word of joined letters ends. -/
inductive JoinedEnd (κ : Type) where
  /-- With an option that takes no value. -/
  | plain
  /-- With the value of its last option. -/
  | value (key : κ) (text : RawText)
  /-- With an option whose value is still to come. -/
  | open_ (key : κ) (name : RawText)

/-- Starts an option. -/
def dash : CodePoint := .char '-'

/-- Stands between a long option and its value. -/
def equals : CodePoint := .char '='

/-- Reads joined letters: the options without value, and how the word ends. -/
def readLetters (specs : List (OptionSpec κ)) :
    RawText → Except UsageError (List κ × JoinedEnd κ)
  | [] => .ok ([], .plain)
  | c :: cs =>
    match specs.find? fun s => s.letter.map CodePoint.char == some c with
    | none => .error (.noSuchOption [dash, c])
    | some s =>
      if s.takesValue then
        if cs.isEmpty then .ok ([], .open_ s.key [dash, c])
        else .ok ([], .value s.key cs)
      else match readLetters specs cs with
        | .error e => .error e
        | .ok (keys, e) => .ok (s.key :: keys, e)

/-- Splits a long option from the value after `=`. -/
def splitValue (word : RawText) : RawText × Option RawText :=
  match word.dropWhile (· ≠ equals) with
  | [] => (word, none)
  | _ :: value => (word.takeWhile (· ≠ equals), some value)

/-- What a word of a command line is. -/
inductive Word (κ : Type) where
  | argument (text : RawText)
  /-- The mark after which all words are arguments. -/
  | separator
  /-- Options, with values if they have them. -/
  | options (given : List (κ × RawText))
  /-- Options, the last of which takes the next word. -/
  | needs (given : List (κ × RawText)) (key : κ) (name : RawText)

/-- Reads a word that starts with two dashes. -/
def readLong (specs : List (OptionSpec κ)) (word : RawText) : Except UsageError (Word κ) :=
  let (name, value) := splitValue word
  match specs.find? fun s => RawText.ofString s.name == name with
  | none => .error (.noSuchOption name)
  | some s =>
    match s.takesValue, value with
    | true, some v => .ok (.options [(s.key, v)])
    | true, none => .ok (.needs [] s.key name)
    | false, some _ => .error (.takesNoValue name)
    | false, none => .ok (.options [(s.key, [])])

/-- Reads a word. A lone dash is an argument. -/
def readWord (specs : List (OptionSpec κ)) (word : RawText) : Except UsageError (Word κ) :=
  match word with
  | [.char '-', .char '-'] => .ok .separator
  | .char '-' :: .char '-' :: _ => readLong specs word
  | [.char '-'] => .ok (.argument word)
  | .char '-' :: letters =>
    match readLetters specs letters with
    | .error e => .error e
    | .ok (keys, e) =>
      let given := keys.map fun k => (k, [])
      match e with
      | .plain => .ok (.options given)
      | .value key text => .ok (.options (given ++ [(key, text)]))
      | .open_ key name => .ok (.needs given key name)
  | _ => .ok (.argument word)

/-- Puts options in front of a command line. -/
def addOptions (line : CommandLine κ) (given : List (κ × RawText)) : CommandLine κ :=
  { line with options := given ++ line.options }

/-- Reads the words of a command line. -/
def read (specs : List (OptionSpec κ)) : List RawText → Except UsageError (CommandLine κ)
  | [] => .ok ⟨[], []⟩
  | word :: rest =>
    match readWord specs word with
    | .error e => .error e
    | .ok .separator => .ok ⟨[], rest⟩
    | .ok (.argument text) =>
      match read specs rest with
      | .error e => .error e
      | .ok line => .ok { line with arguments := text :: line.arguments }
    | .ok (.options given) =>
      match read specs rest with
      | .error e => .error e
      | .ok line => .ok (line.addOptions given)
    | .ok (.needs given key name) =>
      match rest with
      | [] => .error (.needsValue name)
      | value :: rest =>
        match read specs rest with
        | .error e => .error e
        | .ok line => .ok (line.addOptions (given ++ [(key, value)]))

/-- The value of an option: the last one given. -/
def value? [BEq κ] (line : CommandLine κ) (key : κ) : Option RawText :=
  line.options.reverse.lookup key

/-- An option is given. -/
def has [BEq κ] (line : CommandLine κ) (key : κ) : Bool :=
  (line.value? key).isSome

/-- The options that are given, each once, in the order of their first occurrence. -/
def keys [BEq κ] (line : CommandLine κ) : List κ :=
  (line.options.map (·.1)).eraseDups

end CommandLine

/-! ## Checks of values -/

/-- What is wrong with a path as typed that should name a file; `mustExist` if the file is to be
read. -/
def pathProblem? (disk : Disk) (mustExist : Bool) (typed : RawText) : Option String :=
  match disk.stat typed with
  | some .directory => some ("File " ++ Text.quoted typed ++ " is a directory.")
  | some .file | some .device => none
  | none => if mustExist then some ("File " ++ Text.quoted typed ++ " does not exist.") else none

/-- The integer that a text names. -/
def integer? (typed : RawText) : Option Int :=
  typed.string?.bind fun s => (Numeral.read 10 s).toOption

/-- What is wrong with a text that should be an integer. -/
def integerProblem? (typed : RawText) : Option String :=
  match integer? typed with
  | some _ => none
  | none => some (Text.quoted typed ++ " is not a valid integer.")

end RomKit
