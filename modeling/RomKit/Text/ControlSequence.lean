import RomKit.Text.RawText
import RomKit.Text.Split

/-!
# Control sequences

A control sequence tells a terminal how to show text. It opens with an escape
character and `[`, goes on with parameters and then intermediates, any number of
each, and closes with one final character. Text that is not shown on a terminal
is written without them.

No control sequence holds a second escape character. So it is enough to look at
what follows each escape character, up to the next one.
-/

namespace RomKit.ControlSequence

/-- Opens a control sequence, with the `[` after it. -/
def escape : CodePoint := .char '\x1b'

/-- A parameter: a digit or one of `:;<=>?`. -/
def isParameter (c : Char) : Bool :=
  '0' ≤ c && c ≤ '?'

/-- An intermediate: the space or a sign up to `/`. -/
def isIntermediate (c : Char) : Bool :=
  ' ' ≤ c && c ≤ '/'

/-- A final character: a letter or one of the signs around the letters. -/
def isFinal (c : Char) : Bool :=
  '@' ≤ c && c ≤ '~'

/-- What follows a control sequence that starts with an escape character and these characters. -/
def rest? : RawText → Option RawText
  | .char '[' :: cs =>
    match (cs.dropWhile (·.isIn isParameter)).dropWhile (·.isIn isIntermediate) with
    | c :: rest => if c.isIn isFinal then some rest else none
    | [] => none
  | _ => none

/-- An escape character and the piece of text after it, without the control sequence they start. -/
def eraseFirst (piece : RawText) : RawText :=
  (rest? piece).getD (escape :: piece)

/-- A text without its control sequences. -/
def erase (t : RawText) : RawText :=
  match Text.splitOn escape t with
  | [] => []
  | piece :: pieces => piece ++ pieces.flatMap eraseFirst

end RomKit.ControlSequence

/-- A text as it is written to a channel that is no terminal. -/
def RomKit.Text.plain (t : RawText) : RawText :=
  ControlSequence.erase t
