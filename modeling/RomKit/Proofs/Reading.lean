import RomKit.Source.Scan

/-!
# Reading a known source

On a source that is known in full, a cursor is pinned down by what it has
consumed: `Cursor.between file before rest` stands between the bytes `before` and
the bytes `rest`. The line and the column are counted from `before`, the two
bytes in sight and the stream come from `rest`.

Every primitive of scanning moves such a cursor to another such cursor, and the
equations below say to which one. They are all that later modules know about
cursors on sources without read faults.

What taking a run can do is said for any cursor (`Cursor.takeWhile_cases`), since
a run is taken in the same way whatever lies behind it.
-/

namespace RomKit

namespace Source

/-- The line of the byte after `before`, counted from 1. -/
def lineAfter (before : List UInt8) : Nat :=
  before.count 0x0A + 1

/-- The column of the byte after `before`, counted from 1 on every line. -/
def columnAfter (before : List UInt8) : Nat :=
  (before.reverse.takeWhile (· != 0x0A)).length + 1

/-- The place of the byte after `before` in a named source. -/
def placeAfter (file : RawText) (before : List UInt8) : Location :=
  ⟨file, lineAfter before, columnAfter before⟩

theorem lineAfter_snoc (before : List UInt8) (b : UInt8) :
    lineAfter (before ++ [b]) = lineAfter before + if b = 0x0A then 1 else 0 := by
  unfold lineAfter
  rw [List.count_append, List.count_singleton]
  simp only [beq_iff_eq]
  omega

theorem columnAfter_snoc (before : List UInt8) (b : UInt8) :
    columnAfter (before ++ [b]) = if b = 0x0A then 1 else columnAfter before + 1 := by
  unfold columnAfter
  rw [List.reverse_append, List.reverse_singleton, List.singleton_append, List.takeWhile_cons]
  by_cases hb : b = 0x0A
  · simp [hb]
  · simp [hb]

end Source

namespace Stream

@[simp] theorem read_ofBytes_nil : (ofBytes []).read = (.nothing, ofBytes []) := rfl

@[simp] theorem read_ofBytes_cons (b : UInt8) (rest : List UInt8) :
    (ofBytes (b :: rest)).read = (.byte b, ofBytes rest) := rfl

theorem ofBytes_injective {xs ys : List UInt8} (h : ofBytes xs = ofBytes ys) : xs = ys := by
  have hmap : xs.map Read.byte = ys.map Read.byte := congrArg Stream.pending h
  exact (List.map_inj_right fun _ _ hr => Read.byte.inj hr).mp hmap

end Stream

namespace Cursor

open Source

/-- The cursor on a source of known bytes that has consumed `before` and has `rest` to come. -/
def between (file : RawText) (before rest : List UInt8) : Cursor where
  file := file
  line := lineAfter before
  column := columnAfter before
  current := rest.head?
  peek := rest.tail.head?
  exhausted := decide (rest.length < 2)
  stream := .ofBytes (rest.drop 2)

@[simp] theorem current_between (file : RawText) (before rest : List UInt8) :
    (between file before rest).current = rest.head? := rfl

@[simp] theorem location_between (file : RawText) (before rest : List UInt8) :
    (between file before rest).location = placeAfter file before := rfl

@[simp] theorem sees_between (file : RawText) (before rest : List UInt8) (p : UInt8 → Bool) :
    (between file before rest).sees p = rest.head?.any p := rfl

/-- What is still to come can be read off a cursor. -/
theorem rest_of_between_eq {file file' : RawText} {before before' rest rest' : List UInt8}
    (h : between file before rest = between file' before' rest') : rest = rest' := by
  -- two bytes are in sight, the others are still in the stream
  have hcur : rest.head? = rest'.head? := congrArg Cursor.current h
  have hpeek : rest.tail.head? = rest'.tail.head? := congrArg Cursor.peek h
  have hdrop : rest.drop 2 = rest'.drop 2 :=
    Stream.ofBytes_injective (congrArg Cursor.stream h)
  match rest, rest' with
  | [], [] => rfl
  | [], _ :: _ => simp at hcur
  | _ :: _, [] => simp at hcur
  | [a], [b] => simpa using hcur
  | [_], _ :: _ :: _ => simp at hpeek
  | _ :: _ :: _, [_] => simp at hpeek
  | a :: a' :: as, b :: b' :: bs =>
      simp only [List.head?_cons, Option.some.injEq, List.tail_cons, List.drop_succ_cons,
        List.drop_zero] at hcur hpeek hdrop
      rw [hcur, hpeek, hdrop]

/-! ## Starting and moving on -/

/-- A cursor starts before the first byte. -/
theorem start_ofBytes (file : RawText) (source : List UInt8) :
    start file (.ofBytes source) = .ok (between file [] source) := by
  match source with
  | [] => rfl
  | [a] => rfl
  | a :: b :: rest => rfl

theorem shift_between (file : RawText) (before : List UInt8) (b : UInt8) (rest : List UInt8) :
    (between file before (b :: rest)).shift b =
      { between file before (b :: rest) with
        line := lineAfter (before ++ [b])
        column := columnAfter (before ++ [b])
        current := rest.head? } := by
  unfold shift
  rw [lineAfter_snoc, columnAfter_snoc]
  by_cases hb : b = 0x0A
  · rw [if_pos hb, if_pos hb, if_pos hb]; rfl
  · rw [if_neg hb, if_neg hb, if_neg hb]; rfl

/-- A step consumes one byte. -/
@[simp] theorem advance_between_cons (file : RawText) (before : List UInt8) (b : UInt8)
    (rest : List UInt8) :
    (between file before (b :: rest)).advance
      = .ok (some b) (between file (before ++ [b]) rest) := by
  unfold advance
  simp only [current_between, List.head?_cons, shift_between]
  -- the read behind the two bytes in sight: none is left, or the next one comes into sight
  match rest with
  | [] => rfl
  | [a] => rfl
  | a :: c :: rest => rfl

@[simp] theorem advance_between_nil (file : RawText) (before : List UInt8) :
    (between file before []).advance = .ok none (between file before []) := rfl

theorem takeWhile_of_advance {p : UInt8 → Bool} {c c' : Cursor} {b : UInt8} {r : Option UInt8}
    (hc : c.current = some b) (hp : p b = true) (ha : c.advance = .ok r c') :
    c.takeWhile p = match c'.takeWhile p with
      | .ok bs c'' => .ok (b :: bs) c''
      | .error d c'' => .error d c'' := by
  rw [takeWhile.eq_def]
  split
  · next hn => rw [hc] at hn; cases hn
  · next b' hb =>
    rw [hc] at hb
    cases hb
    rw [if_pos hp]
    split
    · next ha' => rw [ha] at ha'; cases ha'
    · next ha' => rw [ha] at ha'; cases ha'; rfl

theorem takeWhile_of_advance_error {p : UInt8 → Bool} {c c' : Cursor} {b : UInt8} {d : Diagnostic}
    (hc : c.current = some b) (hp : p b = true) (ha : c.advance = .error d c') :
    c.takeWhile p = .error d c' := by
  rw [takeWhile.eq_def]
  split
  · next hn => rw [hc] at hn; cases hn
  · next b' hb =>
    rw [hc] at hb
    cases hb
    rw [if_pos hp]
    split
    · next ha' => rw [ha] at ha'; cases ha'; rfl
    · next ha' => rw [ha] at ha'; cases ha'

theorem takeWhile_of_not {p : UInt8 → Bool} {c : Cursor} (h : c.sees p = false) :
    c.takeWhile p = .ok [] c := by
  rw [takeWhile.eq_def]
  split
  · rfl
  · next b hb =>
    have hp : p b = false := by simpa [sees, hb] using h
    rw [if_neg (by simp [hp])]

/-- Moving past a byte brings the next one under the cursor, and reads nothing. -/
theorem shift_reads_nothing (c : Cursor) (b : UInt8) :
    (c.shift b).current = c.peek ∧ (c.shift b).exhausted = c.exhausted
      ∧ (c.shift b).stream = c.stream := by
  unfold shift
  split
  · exact ⟨rfl, rfl, rfl⟩
  · exact ⟨rfl, rfl, rfl⟩

/-- **What taking a run can do**, if no read fails: nothing before a byte outside the class, else
take the current byte and then the rest of the run. -/
theorem takeWhile_cases {p : UInt8 → Bool} {c c' : Cursor} {run : List UInt8}
    (h : c.takeWhile p = .ok run c') :
    (c.sees p = false ∧ run = [] ∧ c' = c)
      ∨ ∃ b bs c₁, run = b :: bs ∧ c.sees p = true ∧ c.advance = .ok (some b) c₁
        ∧ c₁.takeWhile p = .ok bs c' := by
  cases hs : c.sees p with
  | false =>
      rw [takeWhile_of_not hs] at h
      cases h
      exact Or.inl ⟨rfl, rfl, rfl⟩
  | true =>
      obtain ⟨b, hc, hp⟩ := (Option.any_eq_true p c.current).mp hs
      cases ha : c.advance with
      | error d c₁ =>
          rw [takeWhile_of_advance_error hc hp ha] at h
          cases h
      | ok r c₁ =>
          rw [takeWhile_of_advance hc hp ha] at h
          cases ht : c₁.takeWhile p with
          | error d c₂ =>
              rw [ht] at h
              cases h
          | ok bs c₂ =>
              rw [ht] at h
              cases h
              exact Or.inr ⟨b, bs, c₁, rfl, rfl, by rw [advance_eq_some hc ha], ht⟩

/-- A run is the longest one there is, and what follows it is still to come. -/
theorem takeWhile_between (p : UInt8 → Bool) (file : RawText) (rest : List UInt8) :
    ∀ before : List UInt8, (between file before rest).takeWhile p
      = .ok (rest.takeWhile p) (between file (before ++ rest.takeWhile p) (rest.dropWhile p)) := by
  induction rest with
  | nil =>
      intro before
      rw [takeWhile_of_not (by simp)]
      simp
  | cons b rest ih =>
      intro before
      by_cases hp : p b = true
      · rw [takeWhile_of_advance (by simp) hp (advance_between_cons _ _ _ _), ih]
        simp [hp]
      · rw [takeWhile_of_not (by simpa using hp)]
        simp [hp]

end Cursor

namespace Scan

open Cursor

/-! ## Scans, step by step -/

theorem bind_of_ok {α β : Type} {x : Scan α} {f : α → Scan β} {c c' : Cursor} {a : α}
    (h : x c = .ok a c') : (x >>= f) c = f a c' := by
  show EStateM.bind x f c = f a c'
  unfold EStateM.bind
  rw [h]

theorem bind_of_error {α β : Type} {x : Scan α} {f : α → Scan β} {c c' : Cursor}
    {d : Diagnostic} (h : x c = .error d c') : (x >>= f) c = .error d c' := by
  show EStateM.bind x f c = .error d c'
  unfold EStateM.bind
  rw [h]

theorem takeRun_between (p : UInt8 → Bool) (file : RawText) (before rest : List UInt8) :
    takeRun p (between file before rest)
      = .ok (rest.takeWhile p) (between file (before ++ rest.takeWhile p) (rest.dropWhile p)) :=
  takeWhile_between p file rest before

/-- The first byte of a run can be taken alone, and the others after it. -/
theorem takeIf_of_takeWhile_cons {p : UInt8 → Bool} {c c' : Cursor} {b : UInt8} {bs : List UInt8}
    (h : c.takeWhile p = .ok (b :: bs) c') :
    ∃ c₁, takeIf p c = .ok (some b) c₁ ∧ c₁.takeWhile p = .ok bs c' := by
  rcases takeWhile_cases h with ⟨-, hrun, -⟩ | ⟨_, _, c₁, hrun, hs, ha, hrest⟩
  · cases hrun
  · cases hrun
    refine ⟨c₁, ?_, hrest⟩
    unfold takeIf
    rw [if_pos hs, ha]

/-- Where a run is empty, nothing is taken. -/
theorem takeIf_of_takeWhile_nil {p : UInt8 → Bool} {c c' : Cursor}
    (h : c.takeWhile p = .ok [] c') : takeIf p c = .ok none c ∧ c' = c := by
  rcases takeWhile_cases h with ⟨hs, -, hc⟩ | ⟨_, _, _, hrun, -⟩
  · refine ⟨?_, hc⟩
    unfold takeIf
    rw [if_neg (by rw [hs]; exact Bool.false_ne_true)]
  · cases hrun

theorem takeIf_between_cons {p : UInt8 → Bool} {b : UInt8} (hp : p b = true) (file : RawText)
    (before rest : List UInt8) :
    takeIf p (between file before (b :: rest))
      = .ok (some b) (between file (before ++ [b]) rest) := by
  unfold takeIf
  rw [if_pos (by simpa using hp), advance_between_cons]

theorem takeIf_between_of_not {p : UInt8 → Bool} {rest : List UInt8}
    (h : rest.head?.any p = false) (file : RawText) (before : List UInt8) :
    takeIf p (between file before rest) = .ok none (between file before rest) := by
  unfold takeIf
  rw [if_neg (by simp [h])]

end Scan

end RomKit
