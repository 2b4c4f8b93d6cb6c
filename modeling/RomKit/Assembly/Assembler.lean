import RomKit.Assembly.Pass

/-!
# Assemblers

An assembler keeps what its last pass gave: the image, the labels, the name of the
source and the warnings. Each is an attribute of its own. A pass begins by clearing
all of them (`Assembler.reset`), and only when it has succeeded they are set again,
one after another.

Seen from above, an assembler holds one result or none, and a pass replaces it
whatever it was (`Assembler.run_eq`).
-/

namespace RomKit

/-- An assembler. Its attributes but the mode are those of the last pass. -/
structure Assembler where
  /-- References to unknown labels are errors. -/
  strict : Bool
  warnings : List RawText
  /-- The image; there is none unless the last pass succeeded. -/
  code : Option Image
  /-- The address of each label, in the order of definition. -/
  symbols : List (String × Int)
  sourceName : Option RawText
deriving DecidableEq, Repr

/-- The name of a source that has none. -/
def defaultSourceName : String := "<input>"

namespace Assembler

/-- An assembler that has not assembled anything. -/
def fresh (strict : Bool) : Assembler where
  strict := strict
  warnings := []
  code := none
  symbols := []
  sourceName := none

/-- Clears what the last pass gave. -/
def reset (a : Assembler) : Assembler :=
  let a := { a with warnings := [] }
  let a := { a with code := none }
  let a := { a with symbols := [] }
  { a with sourceName := none }

/-- Takes over what a pass over a file gave. -/
def keep (a : Assembler) (file : RawText) (code : Image) (p : Pass) : Assembler :=
  let a := { a with code := some code }
  let a := { a with symbols := p.symbols }
  let a := { a with sourceName := some file }
  { a with warnings := p.unused.map Definition.unusedWarning }

/-- Assembles a source in one pass, and tells about it. -/
def run (a : Assembler) (file : RawText) (stream : Stream) :
    Except Failure Image × Assembler × List Event :=
  let a := a.reset
  match Pass.start file stream a.strict addressSpace with
  | .error d => (.error (.diagnostic d), a, [])
  | .ok p =>
    match p.generate with
    | .error e p' => (.error e, a, p'.draft.log.toList)
    | .ok code p' =>
      let a := a.keep file code p'
      (.ok code, a, p'.draft.log.toList ++ [.assembled code.size a.warnings.length])

/-- The image, which an assembler gives out only after a success. -/
def result (a : Assembler) : Except Diagnostic Image :=
  match a.code with
  | some image => .ok image
  | none => .error ⟨.nothingAssembled, none⟩

end Assembler

/-! ## Results -/

/-- The result of a pass over a source. -/
structure Build where
  image : Image
  /-- The address of each label, in the order of definition. -/
  symbols : List (String × Int)
  /-- The name of the source. -/
  source : RawText
  unused : List Definition
deriving DecidableEq, Repr

/-- The result of a pass over a source, and what is told about it. -/
def assemble (strict : Bool) (file : RawText) (stream : Stream) :
    Except Failure Build × List Event :=
  match Pass.start file stream strict addressSpace with
  | .error d => (.error (.diagnostic d), [])
  | .ok p =>
    match p.generate with
    | .error e p' => (.error e, p'.draft.log.toList)
    | .ok image p' =>
      (.ok ⟨image, p'.symbols, file, p'.unused⟩,
        p'.draft.log.toList ++ [.assembled image.size p'.unused.length])

/-- A result is that of the file it was asked for. -/
theorem source_of_assemble {strict : Bool} {file : RawText} {stream : Stream} {b : Build}
    (h : (assemble strict file stream).1 = .ok b) : b.source = file := by
  unfold assemble at h
  cases hstart : Pass.start file stream strict addressSpace with
  | error d =>
      rw [hstart] at h
      cases h
  | ok p =>
      rw [hstart] at h
      dsimp only at h
      cases hgenerate : p.generate with
      | error e p' =>
          rw [hgenerate] at h
          cases h
      | ok image p' =>
          rw [hgenerate] at h
          cases h
          rfl

namespace Assembler

/-- An assembler in a mode that holds a result, or none. -/
def holding (strict : Bool) : Option Build → Assembler
  | none => fresh strict
  | some b => {
      strict := strict
      warnings := b.unused.map Definition.unusedWarning
      code := some b.image
      symbols := b.symbols
      sourceName := some b.source }

/-- What is cleared before a pass and set after it makes no mixture of results. -/
theorem keep_reset (a : Assembler) (file : RawText) (code : Image) (p : Pass) :
    a.reset.keep file code p = holding a.strict (some ⟨code, p.symbols, file, p.unused⟩) := rfl

/-- **A pass leaves its result and nothing of earlier ones**: that of a success, and none after a
failure, in the mode the assembler was in. -/
theorem run_eq (a : Assembler) (file : RawText) (stream : Stream) :
    a.run file stream = match assemble a.strict file stream with
      | (.ok b, log) => (.ok b.image, holding a.strict (some b), log)
      | (.error e, log) => (.error e, holding a.strict none, log) := by
  have hstrict : a.reset.strict = a.strict := rfl
  unfold run assemble
  dsimp only
  rw [hstrict]
  cases Pass.start file stream a.strict addressSpace with
  | error d => rfl
  | ok p =>
      dsimp only
      cases p.generate with
      | error e p' => rfl
      | ok code p' =>
          dsimp only
          rw [keep_reset]
          simp only [holding, List.length_map]

section

variable {a : Assembler} {file : RawText} {stream : Stream}

theorem run_of_ok {b : Build} (h : (assemble a.strict file stream).1 = .ok b) :
    (a.run file stream).1 = .ok b.image
      ∧ (a.run file stream).2.1 = holding a.strict (some b) := by
  rw [run_eq]
  generalize assemble a.strict file stream = result at h ⊢
  obtain ⟨outcome, log⟩ := result
  dsimp only at h
  subst h
  exact ⟨rfl, rfl⟩

theorem run_of_error {e : Failure} (h : (assemble a.strict file stream).1 = .error e) :
    (a.run file stream).1 = .error e
      ∧ (a.run file stream).2.1 = holding a.strict none := by
  rw [run_eq]
  generalize assemble a.strict file stream = result at h ⊢
  obtain ⟨outcome, log⟩ := result
  dsimp only at h
  subst h
  exact ⟨rfl, rfl⟩

end

end Assembler

end RomKit
