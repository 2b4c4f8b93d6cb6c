import RomKit.Listing.Entry
import RomKit.Machine.Address

/-!
# Disassembling images

An image is decoded from its first byte to its last. Each entry starts where the
one before ends, so the entries cut the image into pieces.
-/

namespace RomKit

namespace Entry

/-- An entry takes at least the control byte. -/
theorem bytes_decode_pos (symbols : SymbolMap) (address : Int) (control : UInt8)
    (rest : List UInt8) :
    0 < (decode symbols address control (windowOf control rest)).bytes.length := by
  unfold decode
  split
  · exact Nat.zero_lt_one
  · split
    · exact Nat.zero_lt_one
    · split
      · exact Nat.zero_lt_one
      · split
        · exact Nat.zero_lt_one
        · next bytes payload hw =>
          unfold windowOf at hw
          split at hw
          · cases hw
          · cases hw
            simp [ofCode]

end Entry

/-- The entries of a byte string at an address. -/
def entries (symbols : SymbolMap) (address : Int) (data : List UInt8) : List Entry :=
  match data with
  | [] => []
  | control :: rest =>
    let e := Entry.decode symbols address control (Entry.windowOf control rest)
    e :: entries symbols (address + e.bytes.length) ((control :: rest).drop e.bytes.length)
termination_by data.length
decreasing_by
  have := Entry.bytes_decode_pos symbols address control rest
  simp only [List.length_drop, List.length_cons] at *
  omega

/-- The entries of an image at an address, at most `count` of them. Without an address the image
ends at the top of memory. -/
def disassemble (symbols : SymbolMap) (data : List UInt8) (start : Option Int)
    (count : Option Int) : List Entry :=
  let all := entries symbols (start.getD (placedAddress 0 data.length)) data
  match count with
  | some n => all.take n.toNat
  | none => all

/-- A listing: one line for each entry, either in full or its source text alone. -/
def listing (entries : List Entry) (showBytes : Bool) : String :=
  "\n".intercalate (entries.map fun e => if showBytes then e.line else e.text)

end RomKit
