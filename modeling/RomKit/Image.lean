/-!
# Images

An image is the memory contents that the assembler produces. Bytes are appended
while scanning; afterwards four bytes at a time are overwritten with addresses.
-/

namespace RomKit

/-- A block of memory. -/
abbrev Image := Array UInt8

/-- Why an address is not written into an image. -/
inductive PatchError where
  /-- Counted from the end, fewer than four bytes follow. -/
  | noSpace (offset : Int)
  /-- Counted from the end, the offset lies before the start. -/
  | beforeStart (offset : Int) (size : Nat)
  /-- Fewer than four bytes follow. -/
  | pastEnd (offset : Int) (size : Nat)
  /-- The offset has more than 64 bits. -/
  | offsetTooWide
  /-- The address is negative or has more than 64 bits. -/
  | addressOutOfRange
  /-- The address has more than 32 bits. -/
  | addressTooWide
deriving DecidableEq, Repr

namespace Image

/-- The number of bytes of an address in an image. -/
def addressSize : Nat := 4

/-- The four bytes of a number, most significant first. -/
def bigEndian (n : Nat) : List UInt8 :=
  [UInt8.ofNat (n / 0x1000000), UInt8.ofNat (n / 0x10000), UInt8.ofNat (n / 0x100), UInt8.ofNat n]

/-- The number that bytes stand for, most significant first. -/
def ofBigEndian (bytes : List UInt8) : Nat :=
  bytes.foldl (fun n b => n * 256 + b.toNat) 0

/-- Replaces the bytes from a place on. -/
def overwrite (image : Image) (place : Nat) : List UInt8 → Image
  | [] => image
  | b :: bs => overwrite (image.setIfInBounds place b) (place + 1) bs

/-- Where four bytes at an offset start. A negative offset counts from the end. -/
def place (size : Nat) (offset : Int) : Except PatchError Nat :=
  if offset < -0x8000000000000000 ∨ 0x8000000000000000 ≤ offset then .error .offsetTooWide
  else if offset < 0 then
    if 0 < offset + addressSize then .error (.noSpace offset)
    else if offset + size < 0 then .error (.beforeStart offset size)
    else .ok (offset + size).toNat
  else if size - offset < addressSize then .error (.pastEnd offset size)
  else .ok offset.toNat

/-- The 32 bits of an address. -/
def addressBits (address : Int) : Except PatchError Nat :=
  if address < 0 ∨ 0x10000000000000000 ≤ address then .error .addressOutOfRange
  else if 0x100000000 ≤ address then .error .addressTooWide
  else .ok address.toNat

/-- Writes an address at an offset. The four bytes are cleared before the address is looked at, so
they stay zero if it does not fit. -/
def patch (offset address : Int) : EStateM PatchError Image Unit := fun image =>
  match place image.size offset with
  | .error e => .error e image
  | .ok n =>
    match addressBits address with
    | .error e => .error e (image.overwrite n (bigEndian 0))
    | .ok bits => .ok () (image.overwrite n (bigEndian bits))

theorem size_overwrite (image : Image) (place : Nat) (bytes : List UInt8) :
    (image.overwrite place bytes).size = image.size := by
  induction bytes generalizing image place with
  | nil => rfl
  | cons b bs ih => rw [overwrite, ih, Array.size_setIfInBounds]

end Image

/-- The text of the error. -/
def PatchError.message : PatchError → String
  | .noSpace offset => "no space to pack 4 bytes at offset " ++ toString offset
  | .beforeStart offset size =>
    "offset " ++ toString offset ++ " out of range for " ++ toString size ++ "-byte buffer"
  | .pastEnd offset size =>
    "pack_into requires a buffer of at least " ++ toString (offset + 4)
      ++ " bytes for packing 4 bytes at offset " ++ toString offset
      ++ " (actual buffer size is " ++ toString size ++ ")"
  | .offsetTooWide => "cannot fit 'int' into an index-sized integer"
  | .addressOutOfRange => "argument out of range"
  | .addressTooWide => "'I' format requires 0 <= number <= 4294967295"

end RomKit
