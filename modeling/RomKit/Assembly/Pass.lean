import RomKit.Assembly.Production
import RomKit.Label.Resolution

/-!
# Passes

A pass assembles one source. It runs production after production until the source
is exhausted, and then it resolves the labels.

A pass that failed can be taken up again where its cursor stands.
-/

namespace RomKit

namespace Pass

/-- A pass at the start of its source. -/
def start (file : RawText) (stream : Stream) (strict : Bool) (limit : Int) :
    Except Diagnostic Pass :=
  match Cursor.start file stream with
  | .error d => .error d
  | .ok cursor => .ok ⟨cursor, .empty, strict, limit, []⟩

/-- Reads the rest of the source. -/
def scan (p : Pass) : EStateM.Result Diagnostic Pass Unit :=
  match _h : p.step with
  | .error e p' => .error e p'
  | .ok false p' => .ok () p'
  | .ok true p' => p'.scan
termination_by p.cursor.remaining
decreasing_by exact remaining_step_lt _h

/-- Resolves the labels of a complete draft. -/
def finish (p : Pass) : EStateM.Result Failure Pass Image :=
  match p.draft.labels.resolve p.strict p.draft.image with
  | .error e r =>
    .error e { p with draft := { p.draft with image := r.image, log := p.draft.log ++ r.log } }
  | .ok unused r =>
    let told := .scanned p.cursor.file r.image.size p.draft.labels.definitions.length
    .ok r.image { p with
      draft := { p.draft with image := r.image, log := (p.draft.log ++ r.log).push told }
      unused := unused }

/-- Reads the rest of the source and gives the image with all labels resolved. -/
def generate : EStateM Failure Pass Image := fun p =>
  match p.scan with
  | .error e p' => .error (.diagnostic e) p'
  | .ok _ p' =>
    if p'.limit < p'.draft.image.size then
      .error (.diagnostic ⟨.imageTooLarge p'.draft.image.size p'.limit, none⟩) p'
    else p'.finish

/-- The address of each label for the image so far. -/
def symbols (p : Pass) : List (String × Int) :=
  p.draft.labels.addresses p.draft.image.size

/-- Takes out what was told so far. -/
def takeLog (p : Pass) : List Event × Pass :=
  (p.draft.log.toList, { p with draft := { p.draft with log := #[] } })

end Pass

end RomKit
