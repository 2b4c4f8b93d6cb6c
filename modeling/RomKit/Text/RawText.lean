/-!
# Raw text

The names of files are bytes to the system, and need not be text. A byte that is
no part of a character is kept as a surrogate, a code point that stands for no
character: byte `0x80` as U+DC80, and so on up to `0xFF`. So what is said about
files is raw text, a sequence of any code points. A text of characters is raw text
too, and is used as such.
-/

namespace RomKit

/-- A code point: a character, or the surrogate U+D800 + `index`. -/
inductive CodePoint where
  | char (c : Char)
  | surrogate (index : Fin 0x800)
deriving DecidableEq, Repr

/-- A text of any code points. -/
abbrev RawText := List CodePoint

namespace CodePoint

/-- The number of the code point. -/
def toNat : CodePoint → Nat
  | .char c => c.toNat
  | .surrogate i => 0xD800 + i.val

/-- Is a character of a class. -/
def isIn (p : Char → Bool) : CodePoint → Bool
  | .char c => p c
  | .surrogate _ => false

end CodePoint

namespace RawText

/-- A text of characters. -/
def ofString (s : String) : RawText :=
  s.toList.map .char

instance : Coe String RawText := ⟨ofString⟩

/-- The characters, if there is nothing else. -/
def chars? : RawText → Option (List Char)
  | [] => some []
  | .char c :: rest => (chars? rest).map (c :: ·)
  | .surrogate _ :: _ => none

/-- The text, if it has characters only. -/
def string? (t : RawText) : Option String :=
  t.chars?.map String.ofList

/-! ## Texts of characters -/

@[simp] theorem ofString_append (s t : String) :
    ofString (s ++ t) = ofString s ++ ofString t := by
  simp [ofString]

theorem chars?_map (cs : List Char) : chars? (cs.map .char) = some cs := by
  induction cs with
  | nil => rfl
  | cons c cs ih =>
      show (chars? (cs.map .char)).map (c :: ·) = _
      rw [ih]
      rfl

@[simp] theorem string?_ofString (s : String) : (ofString s).string? = some s := by
  unfold string? ofString
  rw [chars?_map, Option.map_some, String.ofList_toList]

end RawText

end RomKit
