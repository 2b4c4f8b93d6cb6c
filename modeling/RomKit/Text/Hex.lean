/-!
# Hexadecimal text

Bytes are written with two lower-case digits, addresses with at least six
upper-case digits. The sign of a negative address takes one of its six places.
-/

namespace RomKit.Hex

/-- The two lower-case digits of a byte, high digit first. -/
def pair (b : UInt8) : List Char :=
  [Nat.digitChar (b.toNat / 16), Nat.digitChar (b.toNat % 16)]

/-- A byte string as consecutive digit pairs. -/
def digits (bytes : List UInt8) : List Char :=
  bytes.flatMap pair

/-- A byte as two lower-case digits. -/
def byte (b : UInt8) : String :=
  String.ofList (pair b)

/-- A byte string as lower-case digits without separators. -/
def run (bytes : List UInt8) : String :=
  String.ofList (digits bytes)

/-- A natural number in upper-case digits, with no leading zero. -/
def upper (n : Nat) : List Char :=
  (Nat.toDigits 16 n).map Char.toUpper

/-- Fills up with zeros on the left to `width` characters. -/
def zeroFill (width : Nat) (cs : List Char) : List Char :=
  List.replicate (width - cs.length) '0' ++ cs

/-- A byte as two upper-case digits. -/
def upperByte (b : UInt8) : String :=
  String.ofList (zeroFill 2 (upper b.toNat))

/-- An address: at least six places, upper-case, the sign included in the count. -/
def address : Int → String
  | .ofNat n => String.ofList (zeroFill 6 (upper n))
  | .negSucc n => String.ofList ('-' :: zeroFill 5 (upper (n + 1)))

end RomKit.Hex
