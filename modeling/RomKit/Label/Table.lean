import RomKit.Diagnostic
import RomKit.Machine.Address

/-!
# Label tables

While a source is scanned, its labels are recorded: where each one is defined
and where its address is wanted, with the place in the source if there is one. A
label is defined once and may be referred to any number of times, before and
after its definition.
-/

namespace RomKit

/-- A label stands for an offset of the image. -/
structure Definition where
  name : String
  offset : Int
  location : Option Location
deriving DecidableEq, Repr

/-- Four bytes at an offset of the image want the address of a label. -/
structure Reference where
  name : String
  offset : Int
  location : Option Location
deriving DecidableEq, Repr

/-- The labels of one source, in the order of recording. -/
structure Labels where
  definitions : List Definition
  references : List Reference
deriving DecidableEq, Repr

namespace Labels

/-- No labels. -/
def empty : Labels :=
  ⟨[], []⟩

/-- The definition of a name. -/
def find? (t : Labels) (name : String) : Option Definition :=
  t.definitions.find? fun d => d.name == name

/-- Records a definition, unless the name has one. -/
def define (d : Definition) : EStateM Diagnostic Labels Unit := do
  let t ← get
  match t.find? d.name with
  | some first => throw ⟨.duplicateLabel d.name first.location, d.location⟩
  | none => set { t with definitions := t.definitions ++ [d] }

theorem define_of_new {t : Labels} {d : Definition} (h : t.find? d.name = none) :
    define d t = .ok () { t with definitions := t.definitions ++ [d] } := by
  show (match t.find? d.name with | some _ => _ | none => _ : EStateM Diagnostic Labels Unit) t = _
  rw [h]
  rfl

/-- A second definition is refused, and the table stays as it is. -/
theorem define_of_known {t : Labels} {d first : Definition} (h : t.find? d.name = some first) :
    define d t = .error ⟨.duplicateLabel d.name first.location, d.location⟩ t := by
  show (match t.find? d.name with | some _ => _ | none => _ : EStateM Diagnostic Labels Unit) t = _
  rw [h]
  rfl

/-- Records a reference. -/
def refer (t : Labels) (r : Reference) : Labels :=
  { t with references := t.references ++ [r] }

/-- The references to a name, in the order of recording. -/
def sites (t : Labels) (name : String) : List Reference :=
  t.references.filter fun r => r.name == name

/-- The names referred to, each once, in the order of their first references. -/
def referredNames (t : Labels) : List String :=
  (t.references.map Reference.name).eraseDups

/-- The references to names without definition, by offset. Among references with the same offset,
those to the name referred to first come first. -/
def undefined (t : Labels) : List Reference :=
  ((t.referredNames.filter fun n => (t.find? n).isNone).flatMap t.sites).mergeSort
    fun a b => decide (a.offset ≤ b.offset)

/-- The address of each label in an image of the given length, in the order of definition. -/
def addresses (t : Labels) (length : Int) : List (String × Int) :=
  t.definitions.map fun d => (d.name, placedAddress d.offset length)

end Labels

end RomKit
