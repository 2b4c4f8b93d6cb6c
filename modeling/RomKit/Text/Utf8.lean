import RomKit.Text.RawText

/-!
# UTF-8

Text is written as UTF-8. Surrogates have no form in it, so raw text may fail to
have bytes; where files are named, some surrogates are written as the bytes they
were read from. Reading stops at the first ill-formed sequence and
reports the longest part of it that could still have begun a character: a byte
that begins none, a byte that does not continue one, or the end of the data in
the middle of one.
-/

namespace RomKit.Utf8

/-- The bytes of a text. -/
def encode (s : String) : List UInt8 :=
  s.toList.flatMap String.utf8EncodeChar

/-- Surrogates in a row that have no bytes, and the position of the first. -/
structure EncodeFault where
  position : Nat
  surrogates : List (Fin 0x800)
deriving DecidableEq, Repr

/-- The surrogates that a text begins with. -/
def leadingSurrogates : RawText → List (Fin 0x800)
  | .surrogate i :: rest => i :: leadingSurrogates rest
  | _ => []

/-- The bytes of raw text that starts at `position` of the whole. Some surrogates may stand for
bytes; another one stops the writing. -/
def encodeFrom (escaped : Fin 0x800 → Option UInt8) (position : Nat) :
    RawText → Except EncodeFault (List UInt8)
  | [] => .ok []
  | .char c :: rest =>
    match encodeFrom escaped (position + 1) rest with
    | .error fault => .error fault
    | .ok bytes => .ok (String.utf8EncodeChar c ++ bytes)
  | .surrogate i :: rest =>
    match escaped i with
    | none => .error ⟨position, i :: leadingSurrogates rest⟩
    | some b =>
      match encodeFrom escaped (position + 1) rest with
      | .error fault => .error fault
      | .ok bytes => .ok (b :: bytes)

/-- The bytes of raw text, which has none if it holds a surrogate. -/
def encodeText (t : RawText) : Except EncodeFault (List UInt8) :=
  encodeFrom (fun _ => none) 0 t

/-- The bytes of texts that are written one after another, up to the first that has none, and what
is wrong with that one. -/
def encodeTexts : List RawText → List UInt8 × Option EncodeFault
  | [] => ([], none)
  | t :: ts =>
    match encodeText t with
    | .error fault => ([], some fault)
    | .ok bytes => (bytes ++ (encodeTexts ts).1, (encodeTexts ts).2)

/-- The byte that a surrogate stands for in the name of a file. -/
def escapedByte? (i : Fin 0x800) : Option UInt8 :=
  if 0x480 ≤ i.val ∧ i.val < 0x500 then some (UInt8.ofNat (i.val - 0x400)) else none

/-- The bytes of the name of a file. -/
def encodeName (t : RawText) : Except EncodeFault (List UInt8) :=
  encodeFrom escapedByte? 0 t

/-- The text of the error: one surrogate is shown, of several only the positions. -/
def EncodeFault.message (fault : EncodeFault) : String :=
  let at_ := toString fault.position
  let place := match fault.surrogates with
    | [i] =>
        "character '\\u" ++ String.ofList (Nat.toDigits 16 (0xD800 + i.val)) ++ "' in position "
          ++ at_
    | surrogates => "characters in position " ++ at_ ++ "-"
        ++ toString (fault.position + surrogates.length - 1)
  "'utf-8' codec can't encode " ++ place ++ ": surrogates not allowed"

/-- How a sequence is ill-formed. -/
inductive Flaw where
  | badStart
  | badContinuation
  | endOfData
deriving DecidableEq, Repr

/-- An ill-formed sequence: its bytes, and the position of the first. -/
structure Fault where
  flaw : Flaw
  position : Nat
  bytes : List UInt8
deriving DecidableEq, Repr

/-- What a leading byte announces. -/
structure Lead where
  /-- The bits of the code point that the leading byte holds. -/
  high : Nat
  /-- The number of bytes to follow. -/
  more : Nat
  /-- The bounds of the first byte to follow. They leave out over-long forms, surrogates and
  everything beyond U+10FFFF. -/
  low : Nat
  top : Nat

/-- Reads a leading byte; `none` if no character begins with it. -/
def lead? (b : UInt8) : Option Lead :=
  let n := b.toNat
  if n < 0x80 then some ⟨n, 0, 0x80, 0xBF⟩
  else if n < 0xC2 then none
  else if n < 0xE0 then some ⟨n - 0xC0, 1, 0x80, 0xBF⟩
  else if n = 0xE0 then some ⟨0, 2, 0xA0, 0xBF⟩
  else if n = 0xED then some ⟨0xD, 2, 0x80, 0x9F⟩
  else if n < 0xF0 then some ⟨n - 0xE0, 2, 0x80, 0xBF⟩
  else if n = 0xF0 then some ⟨0, 3, 0x90, 0xBF⟩
  else if n < 0xF4 then some ⟨n - 0xF0, 3, 0x80, 0xBF⟩
  else if n = 0xF4 then some ⟨4, 3, 0x80, 0x8F⟩
  else none

/-- Reads `more` continuation bytes, the first within the bounds, onto the value so far. Gives the
value, or the flaw with the number of bytes that were still in order. -/
def continuation (value : Nat) : (more low top : Nat) → List UInt8 → Except (Flaw × Nat) Nat
  | 0, _, _, _ => .ok value
  | _ + 1, _, _, [] => .error (.endOfData, 0)
  | more + 1, low, top, b :: bs =>
    if low ≤ b.toNat && b.toNat ≤ top then
      match continuation (value * 64 + b.toNat % 64) more 0x80 0xBF bs with
      | .ok v => .ok v
      | .error (flaw, n) => .error (flaw, n + 1)
    else .error (.badContinuation, 0)

/-- Reads bytes that start at `position` of the whole. -/
def decodeFrom (position : Nat) (bytes : List UInt8) : Except Fault (List Char) :=
  match bytes with
  | [] => .ok []
  | b :: rest =>
    match lead? b with
    | none => .error ⟨.badStart, position, [b]⟩
    | some lead =>
      match continuation lead.high lead.more lead.low lead.top rest with
      | .error (flaw, n) => .error ⟨flaw, position, b :: rest.take n⟩
      | .ok value =>
        match decodeFrom (position + 1 + lead.more) (rest.drop lead.more) with
        | .error fault => .error fault
        | .ok cs => .ok (Char.ofNat value :: cs)
termination_by bytes.length
decreasing_by
  simp only [List.length_drop, List.length_cons]
  omega

/-- Reads a whole text. -/
def decode (bytes : List UInt8) : Except Fault String :=
  match decodeFrom 0 bytes with
  | .ok cs => .ok (String.ofList cs)
  | .error fault => .error fault

/-- What is wrong with the bytes. -/
def Flaw.message : Flaw → String
  | .badStart => "invalid start byte"
  | .badContinuation => "invalid continuation byte"
  | .endOfData => "unexpected end of data"

/-- The text of the error: one byte is shown, of several only the positions. -/
def Fault.message (fault : Fault) : String :=
  let at_ := toString fault.position
  let place := match fault.bytes with
    | [b] => "byte 0x" ++ String.ofList (Nat.toDigits 16 b.toNat) ++ " in position " ++ at_
    | bytes => "bytes in position " ++ at_ ++ "-" ++ toString (fault.position + bytes.length - 1)
  "'utf-8' codec can't decode " ++ place ++ ": " ++ fault.flaw.message

end RomKit.Utf8
