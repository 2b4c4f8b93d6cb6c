import RomKit.Text.Numeral

/-!
# Operand widths

An instruction works on 1, 2, 3 or 4 bytes. One byte is what it does without a
size digit, so the digits in source text are `2`, `3` and `4`. The control byte
holds a width as its index 0 to 3.
-/

namespace RomKit

/-- The number of bytes an instruction works on. -/
inductive Width where
  | one | two | three | four
deriving DecidableEq, Repr, Inhabited

/-- Why no width is meant. -/
inductive WidthError where
  | noSuchIndex (index : Int)
  | badByteCount (count : Int)
  | badDigit (text : String)
  | badNumeral (error : NumeralError)
deriving DecidableEq, Repr

namespace Width

/-- The number stored in a control byte. -/
def index : Width → Nat
  | .one => 0 | .two => 1 | .three => 2 | .four => 3

/-- The number of bytes. -/
def byteCount (w : Width) : Nat :=
  w.index + 1

/-- The width with an index. -/
def ofIndex (index : Int) : Except WidthError Width :=
  match index with
  | 0 => .ok .one
  | 1 => .ok .two
  | 2 => .ok .three
  | 3 => .ok .four
  | n => .error (.noSuchIndex n)

/-- The width of a literal of `count` bytes. -/
def ofByteCount (count : Int) : Except WidthError Width :=
  match count with
  | 1 => .ok .one
  | 2 => .ok .two
  | 3 => .ok .three
  | 4 => .ok .four
  | n => .error (.badByteCount n)

/-- The width that holds a payload, which has one to four bytes; a longer one is cut to the widest. -/
def ofLength : Nat → Width
  | 0 | 1 => .one
  | 2 => .two
  | 3 => .three
  | _ => .four

/-- The texts that the digits `2`, `3`, `4` yield by dropping some at the ends. -/
def digitRuns : List String :=
  ["", "2", "3", "4", "23", "34", "234"]

/-- The width with a size digit. A text is looked up among the runs of the digits before it is read
as a number, so the longer runs are refused for their value and not for their form. -/
def ofDigit (text : String) : Except WidthError Width :=
  if digitRuns.contains text then
    match Numeral.read 10 text with
    | .ok n => ofIndex (n - 1)
    | .error e => .error (.badNumeral e)
  else .error (.badDigit text)

/-- The width with a size digit in source text. -/
def ofDigitByte? (b : UInt8) : Option Width :=
  if b = 0x32 then some .two
  else if b = 0x33 then some .three
  else if b = 0x34 then some .four
  else none

theorem ofIndex_index (w : Width) : ofIndex w.index = .ok w := by
  cases w <;> rfl

theorem ofLength_byteCount (w : Width) : ofLength w.byteCount = w := by
  cases w <;> rfl

theorem byteCount_ofLength {n : Nat} (h₁ : 1 ≤ n) (h₄ : n ≤ 4) : (ofLength n).byteCount = n := by
  match n, h₁, h₄ with
  | 1, _, _ | 2, _, _ | 3, _, _ | 4, _, _ => rfl

end Width

/-- The text of the error. -/
def WidthError.message : WidthError → String
  | .noSuchIndex n => toString n ++ " is not a valid SizeClass"
  | .badByteCount n => "literal size must be 1-4 bytes, got " ++ toString n
  | .badDigit text => "invalid size digit " ++ Text.quoted text
  | .badNumeral e => e.message

end RomKit
