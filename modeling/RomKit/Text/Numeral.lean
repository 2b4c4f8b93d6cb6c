import RomKit.Text.Blank
import RomKit.Text.DecimalDigit
import RomKit.Text.Quoted

/-!
# Reading integers

An integer is written with an optional sign and digits, with blanks around it
and single underscores between digits. In base 16 the digits may stand after
`0x`, which an underscore may follow. Decimal digits of any script count; digits
beyond nine are ASCII letters. Decimal numerals have at most 4300 digits.
-/

namespace RomKit

/-- Why a text is no integer. -/
inductive NumeralError where
  /-- The text breaks the form of a numeral in this base. -/
  | malformed (base : Nat) (text : String)
  /-- More decimal digits than are read. -/
  | tooLong (digits : Nat)
deriving DecidableEq, Repr

namespace Numeral

/-- The largest number of digits of a decimal numeral. -/
def maxDecimalDigits : Nat := 4300

/-- Messages show no more than this many characters of a malformed numeral. -/
def shownLength : Nat := 200

/-- The ASCII spelling of a character: the space for a blank and `0` to `9` for a digit beyond
ASCII. -/
def toAscii (c : Char) : Char :=
  if c.toNat < 0x7F then c
  else if Text.isBlank c then ' '
  else match Text.decimalValue? c with
    | some d => Nat.digitChar d
    | none => c

/-- The value of a digit or an ASCII letter, read as a digit beyond nine. -/
def digitValue? (c : Char) : Option Nat :=
  let n := c.toNat
  if 48 ≤ n && n ≤ 57 then some (n - 48)
  else if 97 ≤ n && n ≤ 122 then some (n - 87)
  else if 65 ≤ n && n ≤ 90 then some (n - 55)
  else none

/-- Is a digit of the base. -/
def isDigit (base : Nat) (c : Char) : Bool :=
  match digitValue? c with
  | some d => d < base
  | none => false

/-- The number written by digits, most significant first. -/
def valueOf (base : Nat) (digits : List Char) : Nat :=
  digits.foldl (fun n c => n * base + (digitValue? c).getD 0) 0

/-- Splits a sign from what follows: `true` for a minus. -/
def splitSign : List Char → Bool × List Char
  | '-' :: cs => (true, cs)
  | '+' :: cs => (false, cs)
  | cs => (false, cs)

/-- Drops `0x` and one underscore after it, in base 16. -/
def dropRadixMark (base : Nat) (cs : List Char) : List Char :=
  match cs with
  | '0' :: x :: rest =>
    if base = 16 && (x = 'x' || x = 'X') then
      match rest with
      | '_' :: more => more
      | _ => rest
    else cs
  | _ => cs

/-- Each underscore has a digit on both sides. -/
def wellGrouped : List Char → Bool
  | [] => true
  | '_' :: _ => false
  | [_] => true
  | _ :: '_' :: [] => false
  | _ :: '_' :: '_' :: _ => false
  | _ :: '_' :: cs => wellGrouped cs
  | _ :: cs => wellGrouped cs

/-- Reads an integer in base 10 or 16. -/
def read (base : Nat) (text : String) : Except NumeralError Int :=
  let malformed := .error (.malformed base text)
  let (negative, body) := splitSign ((text.toList.map toAscii).dropWhile Text.isAsciiBlank)
  let body := dropRadixMark base body
  let inRun := fun c => isDigit base c || c = '_'
  let run := body.takeWhile inRun
  let digits := run.filter (· ≠ '_')
  if !wellGrouped run then malformed
  else if base = 10 && digits.length > maxDecimalDigits then .error (.tooLong digits.length)
  else if digits.isEmpty || !(body.dropWhile inRun).all Text.isAsciiBlank then malformed
  else
    let value : Int := valueOf base digits
    .ok (if negative then -value else value)

end Numeral

/-- The text of the error. -/
def NumeralError.message : NumeralError → String
  | .malformed base text =>
    "invalid literal for int() with base " ++ toString base ++ ": "
      ++ String.ofList ((Text.quoted text).toList.take Numeral.shownLength)
  | .tooLong digits =>
    "Exceeds the limit (4300 digits) for integer string conversion: value has "
      ++ toString digits ++ " digits; use sys.set_int_max_str_digits() to increase the limit"

end RomKit
