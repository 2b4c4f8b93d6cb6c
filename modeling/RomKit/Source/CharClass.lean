/-!
# Classes of source bytes

Source text is a sequence of bytes. Blanks separate tokens, lower-case
hexadecimal digits spell numbers, and symbol bytes spell mnemonics and label
names: the visible ASCII characters other than the digits and `;@%!()`.
-/

namespace RomKit.Source

/-- A lower-case hexadecimal digit. -/
def isHexDigit (b : UInt8) : Bool :=
  (0x30 ≤ b && b ≤ 0x39) || (0x61 ≤ b && b ≤ 0x66)

/-- Space, tab, line feed, vertical tab, form feed or carriage return. -/
def isSpace (b : UInt8) : Bool :=
  b == 0x20 || (0x09 ≤ b && b ≤ 0x0D)

/-- The visible characters, beside the digits, that no name contains: `;@%!()`. -/
def isReserved (b : UInt8) : Bool :=
  b == 0x3B || b == 0x40 || b == 0x25 || b == 0x21 || b == 0x28 || b == 0x29

/-- A character of a mnemonic or a label name. -/
def isSymbol (b : UInt8) : Bool :=
  0x21 ≤ b && b ≤ 0x7E && !(0x30 ≤ b && b ≤ 0x39) && !isReserved b

/-- The value of a hexadecimal digit. -/
def hexValue (b : UInt8) : Nat :=
  if b ≤ 0x39 then b.toNat - 0x30 else b.toNat - 0x57

/-- The character with the number of the byte. -/
def charOf (b : UInt8) : Char :=
  Char.ofNat b.toNat

/-- The text of a run of bytes, one character for each. -/
def textOf (bytes : List UInt8) : String :=
  String.ofList (bytes.map charOf)

end RomKit.Source
