import RomKit.Machine.Address
import RomKit.Text.Hex
import RomKit.Text.Numeral
import RomKit.Text.RawText

/-!
# Base addresses

The user may say where an image starts: in hexadecimal after `0x` or `$`, or in
decimal. The image has to fit into memory there.
-/

namespace RomKit.BaseAddress

/-- Reads an address. -/
def read (text : String) : Except NumeralError Int :=
  match Text.trim text.toList with
  | '0' :: 'x' :: cs | '0' :: 'X' :: cs => Numeral.read 16 (String.ofList cs)
  | '$' :: cs => Numeral.read 16 (String.ofList cs)
  | cs => Numeral.read 10 (String.ofList cs)

/-- The address that raw text names. -/
def read? (text : RawText) : Option Int :=
  text.string?.bind fun s => (read s).toOption

/-- Why an image does not start at an address. -/
inductive Error where
  | unreadable (text : RawText)
  | doesNotFit (size : Nat) (base : Int)
deriving DecidableEq, Repr

/-- The text of the error. -/
def Error.message : Error → RawText
  | .unreadable text => "Invalid address '" ++ text ++ "'"
  | .doesNotFit size base =>
    "a " ++ toString size ++ "-byte ROM at $" ++ Hex.address base
      ++ " does not fit the address space"

/-- The address of the first byte of an image. Without a choice the image ends at the top of
memory. -/
def choose (size : Nat) : Option RawText → Except Error Int
  | none => .ok (placedAddress 0 size)
  | some text =>
    match read? text with
    | none => .error (.unreadable text)
    | some base =>
      if 0 ≤ base ∧ base ≤ addressSpace - size then .ok base
      else .error (.doesNotFit size base)

end RomKit.BaseAddress
