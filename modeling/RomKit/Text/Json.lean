import RomKit.Text.RawText

/-!
# JSON documents

JSON for a reader: two spaces for each level, each member and each element on a
line of its own. Only visible ASCII characters stand for themselves; all others
are escaped, as two units if they need more than 16 bits. So any raw text can stand
in a document.
-/

namespace RomKit

/-- A JSON document. -/
inductive Json where
  | null
  | bool (b : Bool)
  | number (n : Int)
  | string (t : RawText)
  | array (elements : List Json)
  | object (members : List (String × Json))
deriving Repr

namespace Json

/-- A 16-bit unit as an escape. -/
def escapeUnit (n : Nat) : List Char :=
  let ds := Nat.toDigits 16 n
  ['\\', 'u'] ++ List.replicate (4 - ds.length) '0' ++ ds

/-- A character as it stands in a string. -/
def escapeChar (c : Char) : List Char :=
  let n := c.toNat
  if c = '"' || c = '\\' then ['\\', c]
  else if c = '\n' then ['\\', 'n']
  else if c = '\r' then ['\\', 'r']
  else if c = '\t' then ['\\', 't']
  else if n = 8 then ['\\', 'b']
  else if n = 12 then ['\\', 'f']
  else if 0x20 ≤ n && n < 0x7F then [c]
  else if n < 0x10000 then escapeUnit n
  else escapeUnit (0xD800 + (n - 0x10000) / 0x400) ++ escapeUnit (0xDC00 + (n - 0x10000) % 0x400)

/-- A code point as it stands in a string. -/
def escapePoint : CodePoint → List Char
  | .char c => escapeChar c
  | .surrogate i => escapeUnit (0xD800 + i.val)

/-- A string in double quotes. -/
def quote (t : RawText) : String :=
  String.ofList ('"' :: t.flatMap escapePoint ++ ['"'])

/-- The start of a line at a level. -/
def indent (level : Nat) : String :=
  "\n" ++ String.ofList (List.replicate (2 * level) ' ')

/-- Puts lines at a level between brackets; nothing at all if there are none. -/
def enclose (opening closing : String) (level : Nat) (lines : List String) : String :=
  if lines.isEmpty then opening ++ closing
  else opening ++ indent (level + 1) ++ ("," ++ indent (level + 1)).intercalate lines
    ++ indent level ++ closing

mutual

/-- The document as text, at a level of indentation. -/
def renderAt (level : Nat) : Json → String
  | .null => "null"
  | .bool b => if b then "true" else "false"
  | .number n => toString n
  | .string t => quote t
  | .array elements => enclose "[" "]" level (renderElements (level + 1) elements)
  | .object members => enclose "\x7b" "\x7d" level (renderMembers (level + 1) members)

/-- The elements of an array. -/
def renderElements (level : Nat) : List Json → List String
  | [] => []
  | j :: js => renderAt level j :: renderElements level js

/-- The members of an object. -/
def renderMembers (level : Nat) : List (String × Json) → List String
  | [] => []
  | (key, j) :: rest => (quote key ++ ": " ++ renderAt level j) :: renderMembers level rest

end

/-- The document as text. -/
def render (j : Json) : String :=
  renderAt 0 j

end Json

end RomKit
