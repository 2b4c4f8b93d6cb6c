import RomKit.Text.RawText

/-!
# Places in source text
-/

namespace RomKit

/-- A place in a named source: line and column, both counted from 1 by a cursor. -/
structure Location where
  file : RawText
  line : Int
  column : Int
deriving DecidableEq, Repr, Inhabited

/-- The place as messages show it. -/
def Location.text (l : Location) : RawText :=
  l.file ++ ":" ++ toString l.line ++ ":" ++ toString l.column

/-- A place that need not be known, as messages show it. -/
def Location.textOf : Option Location → RawText
  | some l => l.text
  | none => "None"

end RomKit
