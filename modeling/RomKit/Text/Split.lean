/-!
# Splitting text

A text is split at every occurrence of a separator. There is always one piece
more than there are separators, so pieces may be empty.
-/

namespace RomKit.Text

variable {α : Type}

/-- Puts a character in front of the first piece. -/
def consHead (c : α) : List (List α) → List (List α)
  | [] => [[c]]
  | piece :: pieces => (c :: piece) :: pieces

/-- The pieces between the separators. -/
def splitOn [DecidableEq α] (separator : α) (cs : List α) : List (List α) :=
  cs.foldr (fun c pieces => if c = separator then [] :: pieces else consHead c pieces) [[]]

end RomKit.Text
