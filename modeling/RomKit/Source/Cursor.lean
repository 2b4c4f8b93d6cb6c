import RomKit.Diagnostic
import RomKit.Source.Stream

/-!
# Cursors

A cursor walks over a stream of source bytes. It sees the current byte and one
byte ahead, and it knows the line and the column of the current byte. It never
goes back.

A read that gives nothing ends the source for the cursor, whatever the stream
would give later. A read that fails stops the step in the middle: the cursor has
moved on, and the byte ahead is the one that was ahead before.

Every step that succeeds brings the cursor nearer to the end of the source
(`remaining_advance_lt`), which is why scanning ends.
-/

namespace RomKit

/-- A position in a stream of source bytes. -/
structure Cursor where
  file : RawText
  line : Nat
  column : Nat
  /-- The byte under the cursor; `none` at the end. -/
  current : Option UInt8
  /-- The byte after the current one. -/
  peek : Option UInt8
  /-- A read gave nothing, so there will be no further read. -/
  exhausted : Bool
  stream : Stream
deriving DecidableEq, Repr

/-- A step of scanning: it moves the cursor, also when it fails. -/
abbrev Scan := EStateM Diagnostic Cursor

namespace Cursor

/-- The place of the current byte. -/
def location (c : Cursor) : Location :=
  ⟨c.file, c.line, c.column⟩

/-- Everything is consumed. -/
def atEnd (c : Cursor) : Bool :=
  c.current.isNone

/-- The current byte is in a class. -/
def sees (c : Cursor) (p : UInt8 → Bool) : Bool :=
  c.current.any p

/-- Reads the next byte of the stream, unless a read gave nothing before. -/
def fetch : Scan (Option UInt8) := fun c =>
  if c.exhausted then .ok none c
  else match c.stream.read with
    | (.byte b, s) => .ok (some b) { c with stream := s }
    | (.nothing, s) => .ok none { c with stream := s, exhausted := true }
    | (.fault reason, s) => .error ⟨.unreadable reason, some c.location⟩ { c with stream := s }

/-- Moves past the byte `b`: a line feed starts a new line. -/
def shift (c : Cursor) (b : UInt8) : Cursor :=
  if b = 0x0A then { c with line := c.line + 1, column := 1, current := c.peek }
  else { c with column := c.column + 1, current := c.peek }

/-- Consumes the current byte and gives it; gives nothing at the end. -/
def advance : Scan (Option UInt8) := fun c =>
  match c.current with
  | none => .ok none c
  | some b =>
    match (c.shift b).fetch with
    | .ok next c' => .ok (some b) { c' with peek := next }
    | .error d c' => .error d c'

/-- A cursor at the start of a stream. -/
def start (file : RawText) (stream : Stream) : Except Diagnostic Cursor :=
  match fetch ⟨file, 1, 1, none, none, false, stream⟩ with
  | .error d _ => .error d
  | .ok first c =>
    match fetch c with
    | .error d _ => .error d
    | .ok second c' => .ok { c' with current := first, peek := second }

/-! ## The distance to the end -/

/-- The number of bytes in sight and still to be read. -/
def remaining (c : Cursor) : Nat :=
  c.current.toList.length + c.peek.toList.length + c.stream.unread

theorem fetch_ok {c c' : Cursor} {next : Option UInt8} (h : c.fetch = .ok next c') :
    c'.current = c.current ∧ c'.peek = c.peek
      ∧ next.toList.length + c'.stream.unread ≤ c.stream.unread := by
  unfold fetch at h
  split at h
  · cases h
    simp
  · split at h
    · next b s hs =>
      cases h
      have := Stream.unread_read_byte hs
      simp only [Option.toList_some, List.length_cons, List.length_nil, true_and]
      omega
    · next s hs =>
      cases h
      have := c.stream.unread_read_le
      rw [hs] at this
      simpa using this
    · cases h

theorem remaining_advance_lt {c c' : Cursor} {b : UInt8} {r : Option UInt8}
    (hc : c.current = some b) (h : c.advance = .ok r c') : c'.remaining < c.remaining := by
  unfold advance at h
  simp only [hc] at h
  split at h
  · next next c₁ hf =>
    cases h
    obtain ⟨hcur, _, hun⟩ := fetch_ok hf
    have hshift : (c.shift b).current = c.peek ∧ (c.shift b).stream = c.stream := by
      unfold shift; split <;> exact ⟨rfl, rfl⟩
    rw [hshift.2] at hun
    simp only [remaining, hcur, hshift.1, hc, Option.toList_some, List.length_cons,
      List.length_nil]
    omega
  · cases h

theorem remaining_advance_le {c c' : Cursor} {r : Option UInt8}
    (h : c.advance = .ok r c') : c'.remaining ≤ c.remaining := by
  cases hc : c.current with
  | none =>
    unfold advance at h
    simp only [hc] at h
    cases h
    exact Nat.le_refl _
  | some b => exact Nat.le_of_lt (remaining_advance_lt hc h)

theorem advance_eq_some {c c' : Cursor} {b : UInt8} {r : Option UInt8} (hc : c.current = some b)
    (ha : c.advance = .ok r c') : r = some b := by
  unfold advance at ha
  simp only [hc] at ha
  split at ha
  · cases ha
    rfl
  · cases ha

/-! ## Runs -/

/-- Consumes the longest run of bytes in a class and gives it. -/
def takeWhile (p : UInt8 → Bool) (c : Cursor) : EStateM.Result Diagnostic Cursor (List UInt8) :=
  match _hc : c.current with
  | none => .ok [] c
  | some b =>
    if p b then
      match _h : c.advance with
      | .error d c' => .error d c'
      | .ok _ c' =>
        match takeWhile p c' with
        | .ok bs c'' => .ok (b :: bs) c''
        | .error d c'' => .error d c''
    else .ok [] c
termination_by c.remaining
decreasing_by exact remaining_advance_lt _hc _h

theorem remaining_takeWhile_le {p : UInt8 → Bool} (c : Cursor) :
    ∀ {bs : List UInt8} {c' : Cursor}, c.takeWhile p = .ok bs c' → c'.remaining ≤ c.remaining := by
  fun_induction takeWhile p c with
  | case1 c hc => intro bs c' h; cases h; exact Nat.le_refl _
  | case2 c b hc hp d c₁ ha => intro bs c' h; cases h
  | case3 c b hc hp r c₁ ha bs₁ c₂ ht ih =>
    intro bs c' h
    cases h
    have := ih ht
    have := remaining_advance_lt hc ha
    omega
  | case4 c b hc hp r c₁ ha d c₂ ht ih => intro bs c' h; cases h
  | case5 c b hc hp => intro bs c' h; cases h; exact Nat.le_refl _

/-- A run ends before a byte outside the class. -/
theorem sees_of_takeWhile {p : UInt8 → Bool} {c : Cursor} :
    ∀ {bs : List UInt8} {c' : Cursor}, c.takeWhile p = .ok bs c' → c'.sees p = false := by
  fun_induction takeWhile p c with
  | case1 c hc => intro bs c' h; cases h; simp [sees, hc]
  | case2 c b hc hp d c₁ ha => intro bs c' h; cases h
  | case3 c b hc hp r c₁ ha bs₁ c₂ ht ih =>
    intro bs c' h
    cases h
    exact ih ht
  | case4 c b hc hp r c₁ ha d c₂ ht ih => intro bs c' h; cases h
  | case5 c b hc hp => intro bs c' h; cases h; simpa [sees, hc] using hp

theorem remaining_takeWhile_lt {p : UInt8 → Bool} {c c' : Cursor} {bs : List UInt8}
    (hs : c.sees p = true) (h : c.takeWhile p = .ok bs c') : c'.remaining < c.remaining := by
  unfold sees at hs
  rw [takeWhile] at h
  split at h
  · next hc => simp [hc] at hs
  · next b hc =>
    have hp : p b = true := by simpa [hc] using hs
    rw [if_pos hp] at h
    split at h
    · cases h
    · next r c₁ ha =>
      have h₁ := remaining_advance_lt hc ha
      split at h
      · next bs₁ c₂ ht =>
        cases h
        exact Nat.lt_of_le_of_lt (remaining_takeWhile_le c₁ ht) h₁
      · cases h

end Cursor

end RomKit
