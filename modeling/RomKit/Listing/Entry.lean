import RomKit.Image
import RomKit.Listing.SymbolMap
import RomKit.Machine.Instruction

/-!
# Entries of a listing

An image does not tell code from data, so each byte is taken for a control byte.
A byte that no source would produce as an instruction is shown as data: its
ordinal names no opcode, its opcode refuses a modifier, or it pushes a payload
that the image is too short for.

The text of an entry is source text for its bytes; the comment shows names.
-/

namespace RomKit

/-- Why a byte is shown as data. -/
inductive DataReason where
  | noOpcode
  | refusedModifier
  | truncated
deriving DecidableEq, Repr

/-- What an entry shows. -/
inductive Shape where
  /-- An instruction and the payload that it pushes, which is empty for all but `LIT`. -/
  | code (instruction : Instruction) (payload : List UInt8)
  | data (byte : UInt8) (reason : DataReason)
deriving DecidableEq, Repr

/-- A piece of an image, decoded. -/
structure Entry where
  address : Int
  bytes : List UInt8
  shape : Shape
  comment : String
deriving DecidableEq, Repr

/-- The words for the reason. -/
def DataReason.message : DataReason → String
  | .noOpcode => "no such opcode"
  | .refusedModifier => "modifier not accepted"
  | .truncated => "truncated literal"

/-- The payload of an instruction as source text: `#` pushes on the working stack, and on the return
stack the instruction stands before its payload as data. -/
def Instruction.textWith (i : Instruction) (payload : List UInt8) : String :=
  if i.opcode = .lit then
    if i.ret then i.spelling ++ " " ++ Hex.run payload else "#" ++ Hex.run payload
  else i.spelling

/-- Source text for what is shown. -/
def Shape.text : Shape → String
  | .code i payload => i.textWith payload
  | .data b _ => Hex.byte b

namespace Entry

/-- Source text for the bytes. -/
def text (e : Entry) : String :=
  e.shape.text

/-- The opcode, unless the entry is data. -/
def opcode? (e : Entry) : Option Opcode :=
  match e.shape with
  | .code i _ => some i.opcode
  | .data _ _ => none

/-- The return modifier of the instruction. -/
def ret (e : Entry) : Bool :=
  match e.shape with
  | .code i _ => i.ret
  | .data _ _ => false

/-- The width of the instruction. -/
def width (e : Entry) : Width :=
  match e.shape with
  | .code i _ => i.width
  | .data _ _ => .one

/-- The bytes after the control byte. -/
def payload (e : Entry) : List UInt8 :=
  match e.shape with
  | .code _ _ => e.bytes.drop 1
  | .data _ _ => []

/-- Fills up with spaces on the right. -/
def padRight (width : Nat) (s : String) : String :=
  s ++ String.ofList (List.replicate (width - s.length) ' ')

/-- Columns are this wide: five bytes, and most texts. -/
def columnWidth : Nat := 14

/-- A line of a listing: address, bytes, text and comment. -/
def line (e : Entry) : String :=
  let head := "$" ++ Hex.address e.address ++ ": "
    ++ padRight columnWidth (" ".intercalate (e.bytes.map Hex.byte)) ++ "  "
  if e.comment.isEmpty then head ++ e.text
  else head ++ padRight columnWidth e.text ++ " ( " ++ e.comment ++ " )"

/-! ## Decoding -/

/-- The mark of an address with a name. -/
def labelMark (symbols : SymbolMap) (address : Int) : String :=
  match symbols.name? address with
  | some name => "@" ++ name
  | none => ""

/-- Joins two parts of a comment, either of which may be missing. -/
def joinComment (link left right : String) : String :=
  if left.isEmpty then right else if right.isEmpty then left else left ++ link ++ right

/-- The name of the address that four bytes of payload stand for. -/
def targetMark (symbols : SymbolMap) (i : Instruction) (payload : List UInt8) : String :=
  if i.opcode = .lit ∧ i.width = .four then
    (symbols.name? (Image.ofBigEndian payload)).getD ""
  else ""

/-- An entry for a byte of data. -/
def ofData (symbols : SymbolMap) (address : Int) (b : UInt8) (reason : DataReason) : Entry :=
  ⟨address, [b], .data b reason, joinComment " " (labelMark symbols address) reason.message⟩

/-- An entry for an instruction that is stored in some bytes. -/
def ofCode (symbols : SymbolMap) (address : Int) (bytes : List UInt8) (i : Instruction)
    (payload : List UInt8) : Entry :=
  ⟨address, bytes, .code i payload,
    joinComment " -> " (labelMark symbols address) (targetMark symbols i payload)⟩

/-- The bytes around a control byte: for a payload of a given length, the whole instruction and the
payload, or `none` if the image is too short. -/
abbrev Window := Nat → Option (List UInt8 × List UInt8)

/-- Decodes the instruction with a control byte, given what follows it. -/
def decode (symbols : SymbolMap) (address : Int) (control : UInt8) (window : Window) : Entry :=
  match Instruction.decode control with
  | .error _ => ofData symbols address control .noOpcode
  | .ok i =>
    if !i.allowed then ofData symbols address control .refusedModifier
    else if i.opcode ≠ .lit then ofCode symbols address [control] i []
    else match window i.width.byteCount with
      | none => ofData symbols address control .truncated
      | some (bytes, payload) => ofCode symbols address bytes i payload

/-- What follows a control byte at the start of a byte string. -/
def windowOf (control : UInt8) (rest : List UInt8) : Window := fun n =>
  if rest.length < n then none else some (control :: rest.take n, rest.take n)

/-! ## Single entries -/

/-- Why there is no byte at an offset. -/
inductive OffsetError where
  | outOfRange
  | tooWide
deriving DecidableEq, Repr

/-- The text of the error. -/
def OffsetError.message : OffsetError → String
  | .outOfRange => "index out of range"
  | .tooWide => "cannot fit 'int' into an index-sized integer"

/-- A bound of a range as a place in a byte string: counted from the end if negative, and cut to the
string. -/
def clip (length : Nat) (bound : Int) : Nat :=
  min length (if bound < 0 then bound + length else bound).toNat

/-- The bytes between two bounds. -/
def slice (data : List UInt8) (from_ to_ : Int) : List UInt8 :=
  (data.take (clip data.length to_)).drop (clip data.length from_)

/-- What follows an offset. The end of the payload is reckoned from the offset as it is given, also
if it counts from the end of the image. -/
def windowAt (data : List UInt8) (offset : Int) : Window := fun n =>
  let stop := offset + 1 + n
  if data.length < stop then none
  else some (slice data offset stop, slice data (offset + 1) stop)

/-- Decodes the instruction at an offset. A negative offset counts from the end. -/
def decodeAt (symbols : SymbolMap) (data : List UInt8) (offset address : Int) :
    Except OffsetError Entry :=
  if offset < -0x8000000000000000 ∨ 0x8000000000000000 ≤ offset then .error .tooWide
  else
    let place := if offset < 0 then offset + data.length else offset
    if place < 0 then .error .outOfRange
    else match data[place.toNat]? with
      | none => .error .outOfRange
      | some control => .ok (decode symbols address control (windowAt data offset))

end Entry

end RomKit
