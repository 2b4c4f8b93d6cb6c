import RomKit.Text.Split

/-!
# Lines

A text is cut into lines at every line boundary; a carriage return with the line
feed after it is one boundary, and a boundary at the very end opens no further
line. Text files are read with each carriage return, alone or before a line
feed, as a line feed.
-/

namespace RomKit.Text

/-- Ends a line: line feed to carriage return, three of the information separators, next line,
and the line and paragraph separators. -/
def isLineEnd (c : Char) : Bool :=
  let n := c.toNat
  (10 ≤ n && n ≤ 13) || (0x1C ≤ n && n ≤ 0x1E) || n == 0x85 || n == 0x2028 || n == 0x2029

/-- The lines of a text, without what ends them. -/
def lines : List Char → List (List Char)
  | [] => []
  | '\r' :: '\n' :: cs => [] :: lines cs
  | c :: cs => if isLineEnd c then [] :: lines cs else consHead c (lines cs)

/-- Reads each carriage return, alone or before a line feed, as a line feed. -/
def unifyNewlines : List Char → List Char
  | [] => []
  | '\r' :: '\n' :: cs => '\n' :: unifyNewlines cs
  | c :: cs => (if c = '\r' then '\n' else c) :: unifyNewlines cs

end RomKit.Text
