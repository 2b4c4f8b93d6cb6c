import RomKit.Source.Cursor

/-!
# Steps of scanning

A scan is a step that moves a cursor. This module says what it means that a scan
brings a cursor no farther from the end (`Scan.Approaches`), and that a scan which
starts with a proper step brings it nearer.
-/

namespace RomKit

namespace Scan

/-- Fails with a cause at a place. -/
def fail {α : Type} (at_ : Location) (cause : Cause) : Scan α :=
  throw ⟨cause, some at_⟩

/-- Consumes the current byte if it is in a class, and gives it. -/
def takeIf (p : UInt8 → Bool) : Scan (Option UInt8) := fun c =>
  if c.sees p then c.advance else .ok none c

/-- Consumes the longest run of bytes in a class. -/
def takeRun (p : UInt8 → Bool) : Scan (List UInt8) :=
  Cursor.takeWhile p

/-! ## Progress -/

/-- No success brings the cursor farther from the end. -/
def Approaches {α : Type} (x : Scan α) : Prop :=
  ∀ c a c', x c = .ok a c' → c'.remaining ≤ c.remaining

theorem bind_ok {α β : Type} {x : Scan α} {f : α → Scan β} {c c' : Cursor} {b : β}
    (h : (x >>= f) c = .ok b c') : ∃ a c₁, x c = .ok a c₁ ∧ f a c₁ = .ok b c' := by
  change EStateM.bind x f c = .ok b c' at h
  unfold EStateM.bind at h
  split at h
  · next a c₁ hx => exact ⟨a, c₁, hx, h⟩
  · cases h

theorem approaches_pure {α : Type} (a : α) : Approaches (pure a : Scan α) := by
  intro c b c' h
  cases h
  exact Nat.le_refl _

theorem approaches_get : Approaches (get : Scan Cursor) := by
  intro c b c' h
  cases h
  exact Nat.le_refl _

theorem approaches_fail {α : Type} (l : Location) (e : Cause) :
    Approaches (fail l e : Scan α) := by
  intro c b c' h
  cases h

theorem approaches_bind {α β : Type} {x : Scan α} {f : α → Scan β}
    (hx : Approaches x) (hf : ∀ a, Approaches (f a)) : Approaches (x >>= f) := by
  intro c b c' h
  obtain ⟨a, c₁, h₁, h₂⟩ := bind_ok h
  exact Nat.le_trans (hf a c₁ b c' h₂) (hx c a c₁ h₁)

theorem approaches_advance : Approaches Cursor.advance :=
  fun _ _ _ h => Cursor.remaining_advance_le h

theorem approaches_takeIf (p : UInt8 → Bool) : Approaches (takeIf p) := by
  intro c a c' h
  unfold takeIf at h
  split at h
  · exact Cursor.remaining_advance_le h
  · cases h
    exact Nat.le_refl _

theorem approaches_takeRun (p : UInt8 → Bool) : Approaches (takeRun p) :=
  fun c _ _ h => Cursor.remaining_takeWhile_le c h

/-- A scan that starts with a proper step brings the cursor nearer to the end. -/
theorem remaining_bind_lt {α β : Type} {x : Scan α} {f : α → Scan β} {c c' : Cursor} {b : β}
    (hx : ∀ a c₁, x c = .ok a c₁ → c₁.remaining < c.remaining) (hf : ∀ a, Approaches (f a))
    (h : (x >>= f) c = .ok b c') : c'.remaining < c.remaining := by
  obtain ⟨a, c₁, h₁, h₂⟩ := bind_ok h
  exact Nat.lt_of_le_of_lt (hf a c₁ b c' h₂) (hx a c₁ h₁)

end Scan

end RomKit
