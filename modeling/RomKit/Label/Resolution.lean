import RomKit.Event
import RomKit.Image
import RomKit.Text.Resemblance

/-!
# Resolving labels

When an image is complete, the address of every label is known. Each reference
to a defined label receives the address; a reference to an undefined one stays
as it is, or is an error in strict mode. A label without references is reported.
-/

namespace RomKit

/-- What stops the assembler: a fault of the source, or an address that cannot be written. -/
inductive Failure where
  | diagnostic (diagnostic : Diagnostic)
  | patch (error : PatchError)
deriving DecidableEq, Repr

/-- The text of the error. -/
def Failure.message : Failure → RawText
  | .diagnostic d => d.message
  | .patch e => e.message

/-- The progress of resolving: the image so far, the labels found unused, and what was told. -/
structure Resolution where
  image : Image
  unused : List Definition
  log : Array Event
deriving DecidableEq, Repr

namespace Labels

/-- Writes an address at every site. -/
def patchSites (address : Int) : List Reference → EStateM PatchError Image Unit
  | [] => pure ()
  | r :: rs => do
    Image.patch r.offset address
    patchSites address rs

/-- Resolves one label in an image of the given length. -/
def resolveOne (t : Labels) (length : Int) (d : Definition) :
    EStateM PatchError Resolution Unit := fun r =>
  let sites := t.sites d.name
  if sites.isEmpty then
    .ok () { r with unused := r.unused ++ [d], log := r.log.push (.labelUnused d) }
  else
    let address := placedAddress d.offset length
    match patchSites address sites r.image with
    | .error e image => .error e { r with image := image }
    | .ok _ image =>
      .ok () { r with
        image := image
        log := r.log.push (.labelResolved d.name address sites.length) }

/-- Resolves labels one after another. -/
def resolveEach (t : Labels) (length : Int) : List Definition → EStateM PatchError Resolution Unit
  | [] => pure ()
  | d :: ds => do
    resolveOne t length d
    resolveEach t length ds

/-- The error about the first reference to a label without definition. -/
def undefinedError (t : Labels) (r : Reference) : Diagnostic :=
  ⟨.undefinedLabel r.name (Resemblance.closest r.name (t.definitions.map Definition.name)),
    r.location⟩

/-- Resolves all labels in a complete image. The image and the log are given also on failure. -/
def resolve (t : Labels) (strict : Bool) (image : Image) :
    EStateM.Result Failure Resolution (List Definition) :=
  let fresh : Resolution := ⟨image, [], #[]⟩
  match if strict then t.undefined.head? else none with
  | some r => .error (.diagnostic (t.undefinedError r)) fresh
  | none =>
    match resolveEach t image.size t.definitions fresh with
    | .ok _ done => .ok done.unused done
    | .error e done => .error (.patch e) done

end Labels

end RomKit
