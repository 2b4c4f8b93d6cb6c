/-!
# Blank characters and fields

The characters that separate the fields of a line: the ASCII controls from tab
to carriage return, the four information separators, the space, and the blanks
beyond ASCII.
-/

namespace RomKit.Text

/-- Separates the fields of a line. -/
def isBlank (c : Char) : Bool :=
  let n := c.toNat
  (9 ≤ n && n ≤ 13) || (0x1C ≤ n && n ≤ 0x20) || n == 0x85 || n == 0xA0 || n == 0x1680
    || (0x2000 ≤ n && n ≤ 0x200A) || n == 0x2028 || n == 0x2029 || n == 0x202F
    || n == 0x205F || n == 0x3000

/-- The blanks that ASCII calls white space: tab to carriage return, and the space. -/
def isAsciiBlank (c : Char) : Bool :=
  let n := c.toNat
  (9 ≤ n && n ≤ 13) || n == 0x20

/-- Drops the longest run of characters with `p` at both ends. -/
def trimBy (p : Char → Bool) (cs : List Char) : List Char :=
  ((cs.dropWhile p).reverse.dropWhile p).reverse

/-- A line without the blanks at its ends. -/
def trim (cs : List Char) : List Char :=
  trimBy isBlank cs

theorem length_dropWhile_le (p : Char → Bool) (cs : List Char) :
    (cs.dropWhile p).length ≤ cs.length :=
  (List.dropWhile_suffix p).length_le

/-- The maximal runs of characters that are not blank, in order. -/
def fields (cs : List Char) : List (List Char) :=
  match _h : cs.dropWhile isBlank with
  | [] => []
  | c :: rest => (c :: rest.takeWhile (!isBlank ·)) :: fields (rest.dropWhile (!isBlank ·))
termination_by cs.length
decreasing_by
  have h₁ := length_dropWhile_le (!isBlank ·) rest
  have h₂ := length_dropWhile_le isBlank cs
  rw [_h, List.length_cons] at h₂
  omega

end RomKit.Text
