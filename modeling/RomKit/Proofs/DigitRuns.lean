import RomKit.Proofs.CodeListing
import RomKit.Proofs.CursorMoves

/-!
# Runs of digits

Every number of a source is read by one scan, two digits at a time. The scan stops
at its limit of four pairs, in the middle of a longer run, and it looks for a
second digit whenever it has taken a first one. What it does is nevertheless told
by the run of digits as a whole: an even run of at most eight digits is taken, up
to where `Cursor.takeWhile` would take it, and any other run is refused.

The run is the longest one in what a cursor is to come to. `Cursor.Awaits` says
what that is, from the cursor alone: it does not matter what was read before.
-/

namespace RomKit

open Source

namespace Stream

theorem Delivers.read_nil {s : Stream} {stop : Read} (h : s.Delivers [] stop) :
    ∃ s', s.read = (stop, s') :=
  ⟨_, read_after h.stops⟩

theorem Delivers.read_cons {s : Stream} {b : UInt8} {bytes : List UInt8} {stop : Read}
    (h : s.Delivers (b :: bytes) stop) :
    ∃ s', s.read = (.byte b, s') ∧ s'.Delivers bytes stop :=
  ⟨_, read_after (h.bytes 0 b rfl), h.after (Nat.le_add_left 1 bytes.length)⟩

end Stream

namespace Cursor

/-! ## What a cursor is to come to -/

/-- A cursor is to come to these bytes, and no read fails on the way: the first two are in sight,
and the stream delivers the others and then an empty read. A cursor that starts on a stream without
faults is of this kind, and it stays so whether it is moved by a step or past a run. -/
structure Awaits (c : Cursor) (rest : List UInt8) : Prop where
  current : c.current = rest.head?
  peek : c.peek = rest.tail.head?
  unread : c.StillReads (rest.drop 2)

theorem awaits_start {stream : Stream} {source : List UInt8}
    (h : stream.Delivers source .nothing) (file : RawText) :
    ∃ c, Cursor.start file stream = .ok c ∧ c.Awaits source := by
  rcases start_onStream file h with ⟨-, hstart⟩ | ⟨d, -, reason, hstop, -⟩
  · exact ⟨_, hstart, rfl, rfl, stillReads_onStream h file rfl⟩
  · cases hstop

/-- A read gives the first of the bytes that are still to be read. -/
theorem StillReads.fetch {c : Cursor} {bytes : List UInt8} (h : c.StillReads bytes) :
    ∃ c', c.fetch = .ok bytes.head? c' ∧ c'.current = c.current ∧ c'.StillReads bytes.tail := by
  unfold StillReads at h
  cases hex : c.exhausted with
  | true =>
      rw [hex, if_pos rfl] at h
      subst h
      refine ⟨c, ?_, rfl, ?_⟩
      · unfold Cursor.fetch
        rw [if_pos hex]
        rfl
      · unfold StillReads
        rw [if_pos hex]
        rfl
  | false =>
      rw [hex, if_neg Bool.false_ne_true] at h
      cases bytes with
      | nil =>
          obtain ⟨s, hread⟩ := h.read_nil
          exact ⟨_, fetch_of_nothing hex hread, rfl, rfl⟩
      | cons x bytes =>
          obtain ⟨s, hread, hlater⟩ := h.read_cons
          refine ⟨_, fetch_of_byte hex hread, rfl, ?_⟩
          unfold StillReads
          rw [if_neg (by rw [hex]; exact Bool.false_ne_true)]
          exact hlater

/-- A step takes the first of the bytes that a cursor is to come to. -/
theorem Awaits.advance {c : Cursor} {b : UInt8} {rest : List UInt8} (h : c.Awaits (b :: rest)) :
    ∃ c', c.advance = .ok (some b) c' ∧ c'.Awaits rest := by
  obtain ⟨hnow, hexhausted, hstream⟩ := c.shift_reads_nothing b
  have hshifted : (c.shift b).StillReads (rest.drop 1) := by
    unfold StillReads
    rw [hexhausted, hstream]
    exact h.unread
  obtain ⟨c', hfetch, hcurrent, hunread⟩ := hshifted.fetch
  refine ⟨_, advance_of_fetch h.current hfetch, ?_, ?_, ?_⟩
  · show c'.current = rest.head?
    rw [hcurrent, hnow, h.peek]
    rfl
  · show (rest.drop 1).head? = rest.tail.head?
    rw [List.drop_one]
  · show c'.StillReads (rest.drop 2)
    rw [← List.tail_drop]
    exact hunread

/-- A run is taken whole, and the cursor is to come to what follows it. -/
theorem Awaits.takeWhile (p : UInt8 → Bool) {rest : List UInt8} : ∀ {c : Cursor}, c.Awaits rest →
    ∃ c', c.takeWhile p = .ok (rest.takeWhile p) c' ∧ c'.Awaits (rest.dropWhile p) := by
  induction rest with
  | nil =>
      intro c h
      have hs : c.sees p = false := by
        unfold sees
        rw [h.current]
        rfl
      exact ⟨c, takeWhile_of_not hs, h⟩
  | cons b rest ih =>
      intro c h
      cases hp : p b with
      | false =>
          have hs : c.sees p = false := by
            unfold sees
            rw [h.current]
            exact hp
          rw [List.takeWhile_cons_of_neg (by simp [hp]), List.dropWhile_cons_of_neg (by simp [hp])]
          exact ⟨c, takeWhile_of_not hs, h⟩
      | true =>
          obtain ⟨c₁, hadvance, hc₁⟩ := h.advance
          obtain ⟨c', hrun, hc'⟩ := ih hc₁
          rw [List.takeWhile_cons_of_pos hp, List.dropWhile_cons_of_pos hp]
          refine ⟨c', ?_, hc'⟩
          rw [takeWhile_of_advance h.current hp hadvance, hrun]

/-- There is only one longest run. -/
theorem LongestRun.eq_takeWhile {p : UInt8 → Bool} {run bytes : List UInt8}
    (h : LongestRun p run bytes) : run = bytes.takeWhile p := by
  have hother := longestRun_takeWhile p bytes
  have hle := (h.longest _ hother.starts hother.inside).length_le
  exact (hother.longest _ h.starts h.inside).eq_of_length_le hle

end Cursor

/-! ## What is read and what is refused -/

/-- A scan fails because the text at a place is malformed, in these words. -/
def Scan.Refuses {α : Type} (x : Scan α) (c : Cursor) (place : Location) (words : String) : Prop :=
  ∃ d c', x c = .error d c' ∧ d.location = some place ∧ d.cause.category = .malformed
    ∧ d.cause.message = words

namespace Token

open Cursor

/--
**A run of digits is read exactly.** Let `digits` be the longest run of digits in what a cursor is
to come to. It is read if and only if it is even and not longer than eight. Then the cursor stands
behind the run, where taking the run as a whole leaves it, and the bytes are the ones that are
written with these digits. An odd run of less than eight digits and a run of more than eight are
refused, each in its own words.
-/
theorem digit_runs_read_exactly {c : Cursor} {rest digits : List UInt8} (start : Location)
    (hc : c.Awaits rest) (hrun : LongestRun isHexDigit digits rest) :
    ((∃ bytes c', scanDigits start c = .ok bytes c')
        ↔ digits.length % 2 = 0 ∧ digits.length ≤ 8)
      ∧ (∀ bytes c', scanDigits start c = .ok bytes c' →
          c.takeWhile isHexDigit = .ok digits c'
            ∧ (∃ after, digits ++ after = rest ∧ c'.Awaits after)
            ∧ bytes.length = digits.length / 2 ∧ Utf8.encode (Hex.run bytes) = digits)
      ∧ (digits.length % 2 = 1 → digits.length < 8 →
          Scan.Refuses (scanDigits start) c start
            "invalid number: hex digits must come in pairs")
      ∧ (8 < digits.length →
          Scan.Refuses (scanDigits start) c start "invalid number: more than 8 hex digits") := by
  obtain ⟨c', htake, hc'⟩ := hc.takeWhile isHexDigit
  rw [← hrun.eq_takeWhile] at htake
  refine ⟨⟨?_, ?_⟩, ?_, ?_, ?_⟩
  · rintro ⟨bytes, c₁, hread⟩
    exact ((scanDigits_eq_ok_iff start htake).mp hread).1
  · intro hlength
    exact ⟨_, c', (scanDigits_eq_ok_iff start htake).mpr ⟨hlength, rfl, rfl⟩⟩
  · intro bytes c₁ hread
    obtain ⟨⟨heven, -⟩, rfl, rfl⟩ := (scanDigits_eq_ok_iff start htake).mp hread
    have hwritten := Hex.encode_run_pairBytes hrun.inside heven
    have hsize := Hex.length_encode_run (pairBytes digits)
    rw [hwritten] at hsize
    refine ⟨htake, ⟨_, ?_, hc'⟩, by omega, hwritten⟩
    rw [hrun.eq_takeWhile, List.takeWhile_append_dropWhile]
  · intro hodd hlt
    exact ⟨_, c', scanDigits_odd start htake hodd hlt, rfl, rfl, rfl⟩
  · intro hlong
    obtain ⟨c₁, hfails⟩ := scanDigits_long start htake hlong
    exact ⟨_, c₁, hfails, rfl, rfl, rfl⟩

/-- A literal of eight digits, an empty read, and one more digit behind it. -/
def fullLiteral : Stream :=
  ⟨[.byte 0x23, .byte 0x31, .byte 0x66, .byte 0x32, .byte 0x61, .byte 0x33, .byte 0x62,
    .byte 0x34, .byte 0x63, .nothing, .byte 0x35], none⟩

/-- Behind the `#` the eight digits are read as four bytes, and the ninth is not part of the run. -/
theorem digit_runs_read_exactly_fullLiteral :
    ∃ c₀ c, Cursor.start "x" fullLiteral = .ok c₀ ∧ c₀.advance = .ok (some hash) c
      ∧ c.Awaits [0x31, 0x66, 0x32, 0x61, 0x33, 0x62, 0x34, 0x63]
      ∧ ∃ bytes c', scanDigits ⟨"x", 1, 1⟩ c = .ok bytes c' ∧ bytes.length = 4
        ∧ Utf8.encode (Hex.run bytes) = [0x31, 0x66, 0x32, 0x61, 0x33, 0x62, 0x34, 0x63] := by
  have hdelivers : fullLiteral.Delivers
      [0x23, 0x31, 0x66, 0x32, 0x61, 0x33, 0x62, 0x34, 0x63] .nothing :=
    Stream.delivers_cons rfl (Stream.delivers_cons rfl (Stream.delivers_cons rfl
      (Stream.delivers_cons rfl (Stream.delivers_cons rfl (Stream.delivers_cons rfl
        (Stream.delivers_cons rfl (Stream.delivers_cons rfl (Stream.delivers_cons rfl
          (Stream.delivers_nil rfl fun _ => Read.noConfusion)))))))))
  obtain ⟨c₀, hstart, hc₀⟩ := awaits_start hdelivers "x"
  obtain ⟨c, hadvance, hc⟩ := hc₀.advance
  have hrun := longestRun_takeWhile isHexDigit [0x31, 0x66, 0x32, 0x61, 0x33, 0x62, 0x34, 0x63]
  obtain ⟨⟨-, hread⟩, hexact, -⟩ := digit_runs_read_exactly ⟨"x", 1, 1⟩ hc hrun
  obtain ⟨bytes, c', hbytes⟩ := hread (by decide)
  obtain ⟨-, -, hsize, hwritten⟩ := hexact bytes c' hbytes
  exact ⟨c₀, c, hstart, hadvance, hc, bytes, c', hbytes, hsize, hwritten⟩

end Token

end RomKit
