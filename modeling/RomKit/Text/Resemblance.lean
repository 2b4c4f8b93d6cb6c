/-!
# Resembling words

Suggestions for a misspelt word. Two words share blocks: the longest common
block (the first of several), then, likewise, what they share before it and
after it. A word resembles another if at least 3/5 of the characters of both lie
in shared blocks.

In a target of 200 or more characters the frequent ones start no block, though a
block found without them may grow over them.
-/

namespace RomKit.Resemblance

/-- A block common to two words: where it starts in each, and its length. -/
structure Block where
  left : Nat
  right : Nat
  size : Nat
deriving DecidableEq, Repr, Inhabited

/-- Targets at least this long have frequent characters. -/
def frequentFrom : Nat := 200

/-- A character of the target that may start a block. -/
def isSeed (target : List Char) (c : Char) : Bool :=
  target.length < frequentFrom || target.count c ≤ target.length / 100 + 1

/-- The lengths of the common runs that end in a given character on the left and in each place on
the right, from the lengths for the character before. -/
def runLengths (seed : Char → Bool) (c : Char) (right : List Char) (before : List Nat) : List Nat :=
  let starts := seed c
  right.zipWith (fun d n => if d = c && starts then n + 1 else 0) (0 :: before)

/-- The longer of a block and the runs that end at place `i` on the left and at `j` and later on the
right; the earlier one if they are equally long. -/
def longerRun (i : Nat) : (j : Nat) → List Nat → Block → Block
  | _, [], best => best
  | j, n :: ns, best =>
    longerRun i (j + 1) ns (if best.size < n then ⟨i + 1 - n, j + 1 - n, n⟩ else best)

/-- The longest run, for the characters of the left word from place `i` on. -/
def longestRun (seed : Char → Bool) (right : List Char) :
    (i : Nat) → List Char → List Nat → Block → Block
  | _, [], _, best => best
  | i, c :: left, before, best =>
    let now := runLengths seed c right before
    longestRun seed right (i + 1) left now (longerRun i 0 now best)

/-- The length of the common beginning of two words. -/
def commonLength : List Char → List Char → Nat
  | c :: cs, d :: ds => if c = d then commonLength cs ds + 1 else 0
  | _, _ => 0

/-- The longest common block, grown over equal characters at both ends. -/
def longestBlock (seed : Char → Bool) (left right : List Char) : Block :=
  let b := longestRun seed right 0 left (right.map fun _ => 0) ⟨0, 0, 0⟩
  let back := commonLength (left.take b.left).reverse (right.take b.right).reverse
  let on := commonLength (left.drop (b.left + b.size)) (right.drop (b.right + b.size))
  ⟨b.left - back, b.right - back, back + b.size + on⟩

/-- The number of characters in shared blocks. -/
def shared (seed : Char → Bool) (left right : List Char) : Nat :=
  let b := longestBlock seed left right
  if _h : 0 < b.size ∧ b.left + b.size ≤ left.length then
    b.size + shared seed (left.take b.left) (right.take b.right)
      + shared seed (left.drop (b.left + b.size)) (right.drop (b.right + b.size))
  else 0
termination_by left.length
decreasing_by
  · simp only [b] at _h; simp only [List.length_take]; omega
  · simp only [b] at _h; simp only [List.length_drop]; omega

/-- How much a word resembles the target: shared characters, of how many. -/
structure Score where
  word : String
  common : Nat
  total : Nat
deriving DecidableEq, Repr

/-- Scores a word against the target. -/
def score (target word : String) : Score :=
  let t := target.toList
  let w := word.toList
  ⟨word, shared (isSeed t) w t, w.length + t.length⟩

/-- At least 3/5 of the characters are shared: of each word, `2 * common / total`. -/
def Score.isClose (s : Score) : Bool :=
  3 * s.total ≤ 10 * s.common

/-- Closer words first; of equally close ones, the later in code point order. Two empty words are as
close as can be. -/
def Score.precedes (a b : Score) : Bool :=
  let share (s : Score) := if s.total = 0 then (1, 2) else (s.common, s.total)
  let (m, n) := (share a, share b)
  if m.1 * n.2 = n.1 * m.2 then decide (b.word ≤ a.word) else n.1 * m.2 < m.1 * n.2

/-- The most suggestions given. -/
def maxSuggestions : Nat := 3

/-- The words that resemble the target most, closest first. -/
def closest (target : String) (words : List String) : List String :=
  ((((words.map (score target)).filter Score.isClose).mergeSort Score.precedes).take
    maxSuggestions).map Score.word

end RomKit.Resemblance
