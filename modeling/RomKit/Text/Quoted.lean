import RomKit.Text.Printable
import RomKit.Text.RawText

/-!
# Quoted text

Messages show a text in single quotes, or in double quotes if it holds a single
quote and no double quote. Backslashes, the quote in use and characters without
a visible form are escaped, and so are surrogates. A quoted text stays on one line
and has characters only.
-/

namespace RomKit.Text

/-- The quote around a text: double only if that spares an escape. -/
def quoteFor (t : RawText) : Char :=
  if t.contains (.char '\x27') && !t.contains (.char '"') then '"' else '\x27'

/-- A number in lower-case hexadecimal with `width` places. -/
def escapeDigits (width n : Nat) : List Char :=
  let ds := Nat.toDigits 16 n
  List.replicate (width - ds.length) '0' ++ ds

/-- A character as it stands between quotes `q`. -/
def quotedChar (q c : Char) : List Char :=
  if c = '\\' || c = q then ['\\', c]
  else if c = '\t' then ['\\', 't']
  else if c = '\n' then ['\\', 'n']
  else if c = '\r' then ['\\', 'r']
  else if isPrintable c then [c]
  else if c.toNat < 0x100 then ['\\', 'x'] ++ escapeDigits 2 c.toNat
  else if c.toNat < 0x10000 then ['\\', 'u'] ++ escapeDigits 4 c.toNat
  else ['\\', 'U'] ++ escapeDigits 8 c.toNat

/-- A surrogate as an escape. -/
def quotedSurrogate (i : Fin 0x800) : List Char :=
  ['\\', 'u'] ++ escapeDigits 4 (0xD800 + i.val)

/-- A code point as it stands between quotes `q`. -/
def quotedPoint (q : Char) : CodePoint → List Char
  | .char c => quotedChar q c
  | .surrogate i => quotedSurrogate i

/-- A text in quotes, with escapes. -/
def quoted (t : RawText) : String :=
  let q := quoteFor t
  String.ofList (q :: t.flatMap (quotedPoint q) ++ [q])

end RomKit.Text
