import RomKit.Machine.Opcode
import RomKit.Machine.Width
import RomKit.Text.Hex

/-!
# Instructions and their control bytes

An instruction is an opcode with its modifiers. It is stored in one control byte:
the opcode's ordinal in bits 0 to 4, the width in bits 5 and 6, the return
modifier in bit 7. Reading a control byte gives back the instruction it was made
from (`decode_control`).
-/

namespace RomKit

/-- An opcode with its two modifiers. -/
structure Instruction where
  opcode : Opcode
  ret : Bool
  width : Width
deriving DecidableEq, Repr, Inhabited

/-- Why a number is no control byte. -/
inductive ControlError where
  | outOfRange (value : Int)
  | noOpcode (byte : UInt8)
deriving DecidableEq, Repr

/-- The bits of a number or those of an integer in two's complement. -/
def orBits (n : Nat) : Int → Int
  | .ofNat m => ((n ||| m : Nat) : Int)
  | .negSucc m => .negSucc (m - (m &&& n))

/-- Puts the fields of a control byte together. The fields are not cut to their places, so a large
one spills over. -/
def packControl (ordinal : Nat) (ret : Bool) (size : Int) : Int :=
  orBits (ordinal ||| if ret then 0x80 else 0) (size * 32)

namespace Instruction

/-- The control byte of an instruction. -/
def control (i : Instruction) : UInt8 :=
  UInt8.ofNat (packControl i.opcode.ordinal i.ret i.width.index).toNat

/-- The width in bits 5 and 6. -/
def widthBits (b : UInt8) : Width :=
  Width.ofLength (b.toNat / 32 % 4 + 1)

/-- Reads a control byte, whether or not the opcode accepts the modifiers. -/
def decode (b : UInt8) : Except ControlError Instruction :=
  match Opcode.ofOrdinal? (b.toNat % 32) with
  | some op => .ok ⟨op, decide (128 ≤ b.toNat), widthBits b⟩
  | none => .error (.noOpcode b)

/-- Reads a control byte given as a number. -/
def decodeInt (n : Int) : Except ControlError Instruction :=
  if 0 ≤ n ∧ n ≤ 0xFF then decode (UInt8.ofNat n.toNat) else .error (.outOfRange n)

/-- The opcode accepts the modifiers. -/
def allowed (i : Instruction) : Bool :=
  (!i.ret || i.opcode.acceptsReturn) && (i.width == .one || i.opcode.acceptsSize)

/-- The instruction as source text, such as `ADDr2`. -/
def spelling (i : Instruction) : String :=
  i.opcode.mnemonic ++ (if i.ret then "r" else "")
    ++ (if i.width = .one then "" else toString i.width.byteCount)

theorem decode_control (i : Instruction) : decode i.control = .ok i := by
  obtain ⟨op, ret, w⟩ := i
  cases op <;> cases ret <;> cases w <;> rfl

end Instruction

/-- The text of the error. -/
def ControlError.message : ControlError → String
  | .outOfRange n => "control byte out of range: " ++ toString n
  | .noOpcode b =>
    "no opcode with ordinal " ++ toString (b.toNat % 32) ++ " (byte $" ++ Hex.upperByte b ++ ")"

end RomKit
