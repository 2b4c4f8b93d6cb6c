/-!
# Streams

A stream is what successive reads of one byte give: a byte, nothing, or a fault.
An unreliable stream may give nothing and then go on, or fail and then recover.
After finitely many reads it stays the same for ever, at its end or at a fault.
-/

namespace RomKit

/-- The outcome of one read. -/
inductive Read where
  | byte (b : UInt8)
  | nothing
  | fault (reason : String)
deriving DecidableEq, Repr

/-- The reads to come: finitely many, and then the same one again and again. -/
structure Stream where
  pending : List Read
  /-- The fault that every later read meets; without one, every later read gives nothing. -/
  finalFault : Option String
deriving DecidableEq, Repr

namespace Stream

/-- The outcome of every read after the pending ones. -/
def finalRead (s : Stream) : Read :=
  match s.finalFault with
  | some reason => .fault reason
  | none => .nothing

/-- Reads once. -/
def read (s : Stream) : Read × Stream :=
  match s.pending with
  | r :: rest => (r, { s with pending := rest })
  | [] => (s.finalRead, s)

/-- A stream that gives some bytes and ends. -/
def ofBytes (bytes : List UInt8) : Stream :=
  ⟨bytes.map .byte, none⟩

/-- The number of bytes among the pending reads. -/
def unread (s : Stream) : Nat :=
  s.pending.countP fun
    | .byte _ => true
    | _ => false

theorem unread_read_byte {s s' : Stream} {b : UInt8} (h : s.read = (.byte b, s')) :
    s.unread = s'.unread + 1 := by
  unfold read finalRead at h
  split at h
  · next r rest hp =>
    obtain ⟨rfl, rfl⟩ := Prod.mk.inj h
    simp [unread, hp]
  · next hp =>
    split at h <;> simp at h

theorem unread_read_le (s : Stream) : s.read.2.unread ≤ s.unread := by
  unfold read
  split
  · next r rest hp =>
    simp only [unread, hp, List.countP_cons]
    exact Nat.le_add_right _ _
  · exact Nat.le_refl _

end Stream

end RomKit
