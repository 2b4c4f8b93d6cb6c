import RomKit.Text.Quoted
import RomKit.Text.Split

/-!
# Paths

A path is kept in normal form: without empty parts and without `.`, while `..`
stays. Two leading slashes differ from one; more than two are as one. The last
part is the name of the file, and what follows its last dot is its suffix,
unless the dot stands at an end of the name.
-/

namespace RomKit

/-- Where a path starts. -/
inductive PathRoot where
  | relative
  | slash
  | doubleSlash
deriving DecidableEq, Repr

/-- A path in normal form. -/
structure Path where
  root : PathRoot
  parts : List RawText
deriving DecidableEq, Repr

/-- A path without a name has no sibling. -/
structure PathError where
  path : Path
deriving DecidableEq, Repr

/-- The leading slashes. -/
def PathRoot.text : PathRoot → String
  | .relative => ""
  | .slash => "/"
  | .doubleSlash => "//"

namespace Path

/-- Stands between the parts. -/
def slash : CodePoint := .char '/'

/-- Stands in front of a suffix. -/
def dot : CodePoint := .char '.'

/-- The parts of a path as typed: all that stands between slashes. -/
def typedParts (typed : RawText) : List RawText :=
  Text.splitOn slash typed

/-- The start of a path as typed. -/
def rootOf : RawText → PathRoot
  | .char '/' :: .char '/' :: .char '/' :: _ => .slash
  | .char '/' :: .char '/' :: _ => .doubleSlash
  | .char '/' :: _ => .slash
  | _ => .relative

/-- A part that normal form keeps. -/
def isStep (part : RawText) : Bool :=
  !part.isEmpty && part != [dot]

/-- The path that a text names. -/
def ofText (typed : RawText) : Path :=
  ⟨rootOf typed, (typedParts typed).filter isStep⟩

/-- The path as text. -/
def text (p : Path) : RawText :=
  if p.root = .relative ∧ p.parts.isEmpty then [dot]
  else p.root.text ++ [slash].intercalate p.parts

/-- The last part; empty if there is none. -/
def name (p : Path) : RawText :=
  p.parts.getLastD []

/-- The end of a name from its last dot on, if the dot is neither first nor last. -/
def suffixOf (name : RawText) : RawText :=
  let tail := (name.reverse.takeWhile (· ≠ dot)).reverse
  let stem := name.length - tail.length - 1
  if tail.isEmpty || stem = 0 || tail.length = name.length then [] else dot :: tail

/-- The suffix of the name. -/
def suffix (p : Path) : RawText :=
  suffixOf p.name

/-- The path with text added to its name. -/
def addToName (p : Path) (more : RawText) : Except PathError Path :=
  if p.name.isEmpty then .error ⟨p⟩
  else .ok { p with parts := p.parts.dropLast ++ [p.name ++ more] }

end Path

/-- The text of the error. -/
def PathError.message (e : PathError) : String :=
  "PosixPath(" ++ Text.quoted e.path.text ++ ") has an empty name"

end RomKit
