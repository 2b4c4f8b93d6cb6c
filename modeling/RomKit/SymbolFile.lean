import RomKit.SymbolTable
import RomKit.Text.Hex
import RomKit.Text.Lines
import RomKit.Text.Numeral

/-!
# Symbol files

A symbol file lists labels, one on a line, with their addresses. Blank lines and
lines that start with `#` say nothing. Reading a name again changes its address
and keeps its place.
-/

namespace RomKit

/-- Why a text is no symbol file. -/
inductive SymbolFileError where
  /-- A line, counted from 1, that is not a name and an address. -/
  | badLine (number : Nat) (line : String)
  | badAddress (error : NumeralError)
deriving DecidableEq, Repr

/-- The text of the error. -/
def SymbolFileError.message : SymbolFileError → String
  | .badLine number line =>
    "line " ++ toString number ++ ": expected 'name $ADDRESS', got " ++ Text.quoted line
  | .badAddress e => e.message

namespace SymbolFile

/-- A line for a label. -/
def renderEntry (entry : String × Int) : String :=
  entry.1 ++ " $" ++ Hex.address entry.2 ++ "\n"

/-- The line that names the source. A source without a name is not mentioned. -/
def sourceLines : Option RawText → List RawText
  | none | some [] => []
  | some source => ["# Source: " ++ source ++ "\n"]

/-- The lines of the symbol file for the labels of a source, by increasing name. -/
def render (source : Option RawText) (symbols : List (String × Int)) : List RawText :=
  let header : List RawText := ["# Symbol table\n", "# Generated by neoasm\n"]
  let sorted := symbols.mergeSort fun a b => decide (a.1 ≤ b.1)
  header ++ sourceLines source ++ sorted.map fun entry => RawText.ofString (renderEntry entry)

/-- The label on a line with a given number; `none` if the line says nothing. -/
def readLine (number : Nat) (line : List Char) : Except SymbolFileError (Option (String × Int)) :=
  let body := Text.trim line
  if body.isEmpty || body.head? == some '#' then .ok none
  else match Text.fields body with
    | [name, '$' :: digits] =>
      match Numeral.read 16 (String.ofList digits) with
      | .ok address => .ok (some (String.ofList name, address))
      | .error e => .error (.badAddress e)
    | _ => .error (.badLine number (String.ofList body))

/-- Reads lines, the first of them with the given number, onto the labels so far. -/
def readLines (symbols : List (String × Int)) :
    (number : Nat) → List (List Char) → Except SymbolFileError (List (String × Int))
  | _, [] => .ok symbols
  | number, l :: ls =>
    match readLine number l with
    | .error e => .error e
    | .ok none => readLines symbols (number + 1) ls
    | .ok (some (name, address)) =>
      readLines (SymbolTable.put symbols name address) (number + 1) ls

/-- Reads a symbol file: the names in the order of their first lines. -/
def parse (text : String) : Except SymbolFileError (List (String × Int)) :=
  readLines [] 1 (Text.lines text.toList)

end SymbolFile

end RomKit
