import RomKit.Proofs.Acceptance
import RomKit.Proofs.Lockstep

/-!
# Assembling from an unreliable stream

A stream is looked at as the sequence of its outcomes. Up to the first one that
is no byte it delivers a source (`Stream.Delivers`). What comes of the source
depends on that outcome.

If it is an empty read, the source is assembled as if it lay in memory, and the
outcomes behind the empty read stay unread. If it is a fault, there is no image:
either the cursor runs into the fault, two bytes ahead of what it consumes, or
the source is rejected before, for a reason that no continuation can mend.

Both follow from one comparison. A cursor on the stream and a cursor on the known
bytes, with a continuation behind them, show the same byte at the same place as
long as the fault is not met (`Cursor.lockstep_shadows`).
-/

namespace RomKit

/-! ## The outcomes of a stream -/

namespace Stream

/-- The stream after some reads. -/
def after (s : Stream) : Nat → Stream
  | 0 => s
  | n + 1 => (s.after n).read.2

/-- The outcome of a read, when `n` reads came before it. -/
def outcome (s : Stream) (n : Nat) : Read :=
  (s.after n).read.1

/-- The bytes `source` come before the first outcome that is no byte, which is `stop`. -/
structure Delivers (s : Stream) (source : List UInt8) (stop : Read) : Prop where
  bytes : ∀ n b, source[n]? = some b → s.outcome n = .byte b
  stops : s.outcome source.length = stop
  ends : ∀ b, stop ≠ .byte b

theorem after_succ (s : Stream) (n : Nat) : s.after (n + 1) = s.read.2.after n := by
  induction n with
  | zero => rfl
  | succ n ih => rw [after, ih]; rfl

theorem read_after {s : Stream} {n : Nat} {r : Read} (h : s.outcome n = r) :
    (s.after n).read = (r, s.after (n + 1)) := by
  rw [← h]
  rfl

theorem delivers_nil {s : Stream} {stop : Read} (h : s.read.1 = stop)
    (hends : ∀ b, stop ≠ .byte b) : s.Delivers [] stop where
  bytes := by intro n b hn; cases hn
  stops := h
  ends := hends

theorem delivers_cons {s s' : Stream} {b : UInt8} {source : List UInt8} {stop : Read}
    (h : s.read = (.byte b, s')) (h' : s'.Delivers source stop) :
    s.Delivers (b :: source) stop := by
  have hlater : ∀ n, s.outcome (n + 1) = s'.outcome n := by
    intro n
    rw [outcome, after_succ, h]
    rfl
  refine ⟨?_, (hlater _).trans h'.stops, h'.ends⟩
  intro n x hn
  cases n with
  | zero =>
      cases hn
      exact congrArg Prod.fst h
  | succ n => exact (hlater n).trans (h'.bytes n x hn)

/-- **Every stream delivers some bytes and then something else.** -/
theorem exists_delivers (s : Stream) : ∃ source stop, s.Delivers source stop := by
  obtain ⟨pending, finalFault⟩ := s
  induction pending with
  | nil =>
      refine ⟨[], finalRead ⟨[], finalFault⟩, delivers_nil rfl fun b => ?_⟩
      cases finalFault with
      | none => exact Read.noConfusion
      | some reason => exact Read.noConfusion
  | cons r rest ih =>
      cases r with
      | byte b =>
          obtain ⟨source, stop, h⟩ := ih
          exact ⟨b :: source, stop, delivers_cons rfl h⟩
      | nothing => exact ⟨[], .nothing, delivers_nil rfl fun _ => Read.noConfusion⟩
      | fault reason => exact ⟨[], .fault reason, delivers_nil rfl fun _ => Read.noConfusion⟩

theorem Delivers.length_le {s : Stream} {source source' : List UInt8} {stop stop' : Read}
    (h : s.Delivers source stop) (h' : s.Delivers source' stop') :
    source'.length ≤ source.length := by
  by_contra hlonger
  have hread : source'[source.length]? = some (source'.get ⟨source.length, by omega⟩) :=
    List.getElem?_eq_getElem (by omega)
  exact h.ends _ (h.stops.symm.trans (h'.bytes _ _ hread))

/-- **A stream delivers its bytes and stops in one way only.** -/
theorem Delivers.unique {s : Stream} {source source' : List UInt8} {stop stop' : Read}
    (h : s.Delivers source stop) (h' : s.Delivers source' stop') :
    source = source' ∧ stop = stop' := by
  have hlength : source.length = source'.length :=
    Nat.le_antisymm (h'.length_le h) (h.length_le h')
  constructor
  · refine List.ext_getElem hlength fun n hn hn' => ?_
    have hsame := (h.bytes n _ (List.getElem?_eq_getElem hn)).symm.trans
      (h'.bytes n _ (List.getElem?_eq_getElem hn'))
    exact Read.byte.inj hsame
  · rw [← h.stops, ← h'.stops, hlength]

end Stream

/-- The place of the last byte of a source; without one, the place where it would begin. -/
def Source.lastPlace (file : RawText) (source : List UInt8) : Location :=
  placeAfter file source.dropLast

/-! ## A cursor on the stream and one on known bytes -/

namespace Cursor

open Source

/-- The cursor on a stream that has consumed `before` and has `rest` to come before the stream
stops. It has read two bytes ahead, but not beyond the first outcome that is no byte. -/
def onStream (stream : Stream) (file : RawText) (before rest : List UInt8) : Cursor :=
  { between file before rest with
    stream := stream.after (min (before.length + 2) ((before ++ rest).length + 1)) }

/-- A cursor on a stream beside one on the bytes `source ++ more`, equally far. Before a fault two
bytes are in sight. -/
inductive Shadows (file : RawText) (stream : Stream) (source more : List UInt8) (stop : Read) :
    Cursor → Cursor → Prop where
  | intro {before rest : List UInt8} :
      before ++ rest = source → (stop = .nothing ∨ 2 ≤ rest.length) →
      Shadows file stream source more stop (onStream stream file before rest)
        (between file before (rest ++ more))

/-- The diagnostic about the fault that ends a source. -/
def FaultAt (file : RawText) (source : List UInt8) (stop : Read) (d : Diagnostic) : Prop :=
  ∃ reason, stop = .fault reason ∧ d = ⟨.unreadable reason, some (lastPlace file source)⟩

variable (file : RawText) (stream : Stream) (before rest : List UInt8)

theorem shift_onStream (b : UInt8) :
    (onStream stream file before (b :: rest)).shift b =
      { onStream stream file before (b :: rest) with
        line := lineAfter (before ++ [b])
        column := columnAfter (before ++ [b])
        current := rest.head? } := by
  unfold shift
  rw [lineAfter_snoc, columnAfter_snoc]
  by_cases hb : b = 0x0A
  · rw [if_pos hb, if_pos hb, if_pos hb]; rfl
  · rw [if_neg hb, if_neg hb, if_neg hb]; rfl

/-- Two bytes in sight have both been read, and nothing behind them. -/
theorem stream_onStream_ahead (a b : UInt8) :
    (onStream stream file before (a :: b :: rest)).stream = stream.after (before.length + 2) := by
  have hreads : min (before.length + 2) ((before ++ a :: b :: rest).length + 1)
      = before.length + 2 := by
    rw [List.length_append, List.length_cons, List.length_cons]
    omega
  show stream.after (min _ _) = _
  rw [hreads]

theorem advance_of_fetch {c c' : Cursor} {b : UInt8} {next : Option UInt8}
    (hc : c.current = some b) (hf : (c.shift b).fetch = .ok next c') :
    c.advance = .ok (some b) { c' with peek := next } := by
  unfold advance
  simp only [hc, hf]

theorem advance_of_fetch_error {c c' : Cursor} {b : UInt8} {d : Diagnostic}
    (hc : c.current = some b) (hf : (c.shift b).fetch = .error d c') :
    c.advance = .error d c' := by
  unfold advance
  simp only [hc, hf]

theorem fetch_of_byte {c : Cursor} (hex : c.exhausted = false) {x : UInt8} {s : Stream}
    (hr : c.stream.read = (.byte x, s)) : c.fetch = .ok (some x) { c with stream := s } := by
  unfold fetch
  rw [hex, hr]
  rfl

theorem fetch_of_nothing {c : Cursor} (hex : c.exhausted = false) {s : Stream}
    (hr : c.stream.read = (.nothing, s)) :
    c.fetch = .ok none { c with stream := s, exhausted := true } := by
  unfold fetch
  rw [hex, hr]
  rfl

theorem fetch_of_fault {c : Cursor} (hex : c.exhausted = false) {reason : String} {s : Stream}
    (hr : c.stream.read = (.fault reason, s)) :
    c.fetch = .error ⟨.unreadable reason, some c.location⟩ { c with stream := s } := by
  unfold fetch
  rw [hex, hr]
  rfl

theorem advance_onStream_byte (a b : UInt8) {x : UInt8}
    (hx : stream.outcome (before.length + 2) = .byte x) :
    (onStream stream file before (a :: b :: x :: rest)).advance
      = .ok (some a) (onStream stream file (before ++ [a]) (b :: x :: rest)) := by
  have hread := Stream.read_after hx
  rw [← stream_onStream_ahead file stream before (x :: rest) a b] at hread
  have hreads : min ((before ++ [a]).length + 2) ((before ++ [a] ++ b :: x :: rest).length + 1)
      = before.length + 2 + 1 := by
    simp only [List.length_append, List.length_cons, List.length_nil]
    omega
  rw [advance_of_fetch rfl (fetch_of_byte (by rw [shift_onStream]; rfl)
    (by rw [shift_onStream]; exact hread)), shift_onStream, onStream, onStream, hreads]
  rfl

theorem advance_onStream_nothing (a b : UInt8)
    (hx : stream.outcome (before.length + 2) = .nothing) :
    (onStream stream file before [a, b]).advance
      = .ok (some a) (onStream stream file (before ++ [a]) [b]) := by
  have hread := Stream.read_after hx
  rw [← stream_onStream_ahead file stream before [] a b] at hread
  have hreads : min ((before ++ [a]).length + 2) ((before ++ [a] ++ [b]).length + 1)
      = before.length + 2 + 1 := by
    simp only [List.length_append, List.length_cons, List.length_nil]
    omega
  rw [advance_of_fetch rfl (fetch_of_nothing (by rw [shift_onStream]; rfl)
    (by rw [shift_onStream]; exact hread)), shift_onStream, onStream, onStream, hreads]
  rfl

theorem advance_onStream_fault (a b : UInt8) {reason : String}
    (hx : stream.outcome (before.length + 2) = .fault reason) :
    ∃ c, (onStream stream file before [a, b]).advance
      = .error ⟨.unreadable reason, some (placeAfter file (before ++ [a]))⟩ c := by
  have hread := Stream.read_after hx
  rw [← stream_onStream_ahead file stream before [] a b] at hread
  rw [advance_of_fetch_error rfl (fetch_of_fault (by rw [shift_onStream]; rfl)
    (by rw [shift_onStream]; exact hread)), shift_onStream]
  exact ⟨_, rfl⟩

theorem advance_onStream_last (a : UInt8) :
    (onStream stream file before [a]).advance
      = .ok (some a) (onStream stream file (before ++ [a]) []) := by
  have hreads : min (before.length + 2) ((before ++ [a]).length + 1)
      = min ((before ++ [a]).length + 2) ((before ++ [a] ++ []).length + 1) := by
    simp only [List.length_append, List.length_cons, List.length_nil]
    omega
  have hfetch : ((onStream stream file before [a]).shift a).fetch
      = .ok none ((onStream stream file before [a]).shift a) := by
    rw [shift_onStream]
    rfl
  rw [advance_of_fetch rfl hfetch, shift_onStream, onStream, onStream, hreads]
  rfl

variable {file stream before rest} {source more : List UInt8} {stop : Read}

/-- **A step keeps the two cursors side by side**, until it meets the fault. -/
theorem advance_shadows (h : stream.Delivers source stop) (hmore : stop = .nothing → more = []) :
    Mirrors (Shadows file stream source more stop) Eq (FaultAt file source stop)
      advance advance := by
  rintro _ _ ⟨hsource, hahead⟩
  rename_i before rest
  match rest with
  | [] =>
      -- nothing is in sight, so the source ends with an empty read
      have hstop : stop = .nothing := hahead.resolve_right (by simp)
      have hkeep : Shadows file stream source more stop (onStream stream file before [])
          (between file before ([] ++ more)) := .intro hsource hahead
      rw [hmore hstop, List.append_nil] at hkeep ⊢
      exact .ok hkeep
  | [a] =>
      have hstop : stop = .nothing := hahead.resolve_right (by simp)
      have hkeep : Shadows file stream source more stop
          (onStream stream file (before ++ [a]) []) (between file (before ++ [a]) ([] ++ more)) :=
        .intro (by rw [List.append_nil, hsource]) (Or.inl hstop)
      rw [advance_onStream_last, List.singleton_append, advance_between_cons]
      exact .ok hkeep
  | [a, b] =>
      have hlen : before.length + 2 = source.length := by
        rw [← hsource, List.length_append]
        rfl
      have hout : stream.outcome (before.length + 2) = stop := by rw [hlen]; exact h.stops
      cases stop with
      | byte x => exact absurd rfl (h.ends x)
      | nothing =>
          have hkeep : Shadows file stream source more .nothing
              (onStream stream file (before ++ [a]) [b])
              (between file (before ++ [a]) ([b] ++ more)) :=
            .intro (by rw [← hsource, List.append_assoc]; rfl) (Or.inl rfl)
          rw [advance_onStream_nothing file stream before a b hout, List.cons_append,
            advance_between_cons]
          exact .ok hkeep
      | fault reason =>
          obtain ⟨c, hc⟩ := advance_onStream_fault file stream before a b hout
          rw [hc]
          refine .fault ⟨reason, rfl, ?_⟩
          rw [lastPlace, ← hsource, show before ++ [a, b] = before ++ [a] ++ [b] by simp,
            List.dropLast_concat]
  | a :: b :: x :: rest =>
      have hout : stream.outcome (before.length + 2) = .byte x := by
        refine h.bytes _ _ ?_
        rw [← hsource, List.getElem?_append_right (by omega)]
        simp
      have hkeep : Shadows file stream source more stop
          (onStream stream file (before ++ [a]) (b :: x :: rest))
          (between file (before ++ [a]) (b :: x :: rest ++ more)) :=
        .intro (by rw [← hsource, List.append_assoc]; rfl) (Or.inr (by simp))
      rw [advance_onStream_byte file stream before rest a b hout, List.cons_append,
        advance_between_cons]
      exact .ok hkeep

theorem lockstep_shadows (h : stream.Delivers source stop) (hmore : stop = .nothing → more = []) :
    Lockstep (Shadows file stream source more stop) Eq (FaultAt file source stop) where
  current := by
    rintro _ _ ⟨-, hahead⟩
    rename_i before rest
    show (rest ++ more).head? = rest.head?
    cases rest with
    | nil =>
        rcases hahead with hstop | hlen
        · rw [hmore hstop, List.append_nil]
        · simp at hlen
    | cons b rest => rfl
  place := by
    rintro _ _ ⟨-, -⟩ cause
    rfl
  advance := advance_shadows h hmore

/-- Before a fault the end of the source is never in sight. -/
theorem Shadows.current_ne_none {reason : String} {c c' : Cursor}
    (h : Shadows file stream source more (.fault reason) c c') : c.current ≠ none := by
  obtain ⟨-, hahead⟩ := h
  rename_i before rest
  show rest.head? ≠ none
  rw [Ne, List.head?_eq_none_iff]
  rcases hahead with hstop | hlen
  · cases hstop
  · exact List.length_pos_iff.mp (by omega)

/-- Nothing is read behind the first outcome that is no byte. -/
theorem Shadows.stream_eq {c c' : Cursor} (h : Shadows file stream source more stop c c') :
    ∃ n ≤ source.length + 1, c.stream = stream.after n := by
  obtain ⟨hsource, -⟩ := h
  exact ⟨_, by rw [← hsource]; exact Nat.min_le_right _ _, rfl⟩

/-- The window of a new cursor is filled by two reads, the second only if the first gave a byte. -/
theorem start_onStream (file : RawText) (h : stream.Delivers source stop) :
    (stop = .nothing ∨ 2 ≤ source.length)
        ∧ Cursor.start file stream = .ok (onStream stream file [] source)
      ∨ ∃ d, Cursor.start file stream = .error d ∧ FaultAt file source stop d := by
  unfold Cursor.start
  match source with
  | [] =>
      have hread := Stream.read_after h.stops
      cases stop with
      | byte x => exact absurd rfl (h.ends x)
      | nothing =>
          rw [fetch_of_nothing rfl hread]
          exact Or.inl ⟨Or.inl rfl, rfl⟩
      | fault reason =>
          rw [fetch_of_fault rfl hread]
          exact Or.inr ⟨_, rfl, reason, rfl, rfl⟩
  | [a] =>
      have hread := Stream.read_after (h.bytes 0 a rfl)
      have hread' := Stream.read_after h.stops
      rw [fetch_of_byte rfl hread]
      dsimp only
      cases stop with
      | byte x => exact absurd rfl (h.ends x)
      | nothing =>
          rw [fetch_of_nothing rfl hread']
          exact Or.inl ⟨Or.inl rfl, rfl⟩
      | fault reason =>
          rw [fetch_of_fault rfl hread']
          exact Or.inr ⟨_, rfl, reason, rfl, rfl⟩
  | a :: b :: rest =>
      have hread := Stream.read_after (h.bytes 0 a rfl)
      have hread' := Stream.read_after (h.bytes 1 b rfl)
      have hreads :
          min (([] : List UInt8).length + 2) (([] ++ a :: b :: rest).length + 1) = 1 + 1 := by
        simp only [List.nil_append, List.length_nil, List.length_cons]
        omega
      rw [fetch_of_byte rfl hread]
      dsimp only
      rw [fetch_of_byte rfl hread', onStream, hreads]
      exact Or.inl ⟨Or.inr (by simp), rfl⟩

end Cursor

/-! ## Assembling -/

namespace Pass

open Cursor

variable {file : RawText} {stream : Stream} {source : List UInt8} {stop : Read} {strict : Bool}

/-- A pass on the stream starts beside one on the known bytes, unless it meets the fault. -/
theorem start_beside (h : stream.Delivers source stop) (file : RawText) (strict : Bool)
    (more : List UInt8) :
    (∃ p, Pass.start file stream strict addressSpace = .ok p
        ∧ Beside (Shadows file stream source more stop) p (fresh file (source ++ more) strict))
      ∨ ∃ d, Pass.start file stream strict addressSpace = .error d
        ∧ FaultAt file source stop d := by
  unfold Pass.start
  rcases start_onStream file h with ⟨hahead, hstart⟩ | ⟨d, hstart, hfault⟩
  · rw [hstart]
    exact Or.inl ⟨_, rfl, .intro rfl hahead, rfl⟩
  · rw [hstart]
    exact Or.inr ⟨d, rfl, hfault⟩

end Pass

section Assemble

open Cursor Pass

variable {stream : Stream} {source : List UInt8}

/-- **An empty read ends the source**: it is assembled as if it lay in memory, and nothing behind
the empty read is read. -/
theorem assemble_of_nothing (h : stream.Delivers source .nothing) (strict : Bool) (file : RawText) :
    assemble strict file stream = assemble strict file (.ofBytes source)
      ∧ ∃ p, Pass.start file stream strict addressSpace = .ok p
        ∧ ∃ n ≤ source.length + 1, (settled p.generate).cursor.stream = stream.after n := by
  rcases start_beside h file strict [] with ⟨p, hstart, hbeside⟩ | ⟨d, -, reason, hstop, -⟩
  · have hgen := alike_generate (lockstep_shadows h fun _ => rfl) hbeside
    rw [List.append_nil] at hgen
    unfold assemble
    rw [hstart, Pass.start_ofBytes]
    dsimp only
    generalize hr : p.generate = r at hgen ⊢
    generalize (fresh file source strict).generate = r' at hgen ⊢
    cases hgen with
    | ok hp₁ =>
        obtain ⟨n, hn, hstream⟩ := hp₁.cursor.stream_eq
        rw [hp₁.others]
        exact ⟨rfl, p, rfl, n, hn, by rw [hr]; exact hstream⟩
    | error hp₁ hsame =>
        obtain ⟨n, hn, hstream⟩ := hp₁.cursor.stream_eq
        rw [hp₁.others, hsame]
        exact ⟨rfl, p, rfl, n, hn, by rw [hr]; exact hstream⟩
    | fault hfault =>
        obtain ⟨_, -, reason, hstop, -⟩ := hfault
        cases hstop
  · cases hstop

/-- A fault leaves no image: it is met, or the source is rejected whatever might follow. -/
theorem assemble_beside_fault {reason : String} (h : stream.Delivers source (.fault reason))
    (strict : Bool) (file : RawText) (more : List UInt8) :
    (assemble strict file stream).1
        = .error (.diagnostic ⟨.unreadable reason, some (Source.lastPlace file source)⟩)
      ∨ ∃ d, (assemble strict file stream).1 = .error (.diagnostic d)
        ∧ (assemble strict file (.ofBytes (source ++ more))).1 = .error (.diagnostic d) := by
  unfold assemble
  rw [Pass.start_ofBytes]
  rcases start_beside h file strict more with ⟨p, hstart, hbeside⟩ | ⟨d, hstart, hfault⟩
  · have hlock : Lockstep (Shadows file stream source more (.fault reason)) Eq
        (FaultAt file source (.fault reason)) :=
      lockstep_shadows h fun hstop => Read.noConfusion hstop
    have hscan := alike_scan (fun _ _ => alike_step hlock) hbeside
    rw [hstart]
    dsimp only
    unfold generate
    generalize hr : p.scan = r at hscan ⊢
    generalize (fresh file (source ++ more) strict).scan = r' at hscan ⊢
    cases hscan with
    | ok hp₁ => exact absurd (current_of_scan hr) hp₁.cursor.current_ne_none
    | error _ hsame =>
        subst hsame
        exact Or.inr ⟨_, rfl, rfl⟩
    | fault hfault =>
        obtain ⟨_, hstop, rfl⟩ := hfault
        cases hstop
        exact Or.inl rfl
  · obtain ⟨_, hstop, rfl⟩ := hfault
    cases hstop
    rw [hstart]
    exact Or.inl rfl

theorem assemble_of_fault {reason : String} (h : stream.Delivers source (.fault reason))
    (strict : Bool) (file : RawText) :
    (assemble strict file stream).1
        = .error (.diagnostic ⟨.unreadable reason, some (Source.lastPlace file source)⟩)
      ∨ ∃ d, (assemble strict file stream).1 = .error (.diagnostic d)
        ∧ ∀ more, (assemble strict file (.ofBytes (source ++ more))).1
            = .error (.diagnostic d) := by
  rcases assemble_beside_fault h strict file [] with hfault | ⟨d, hd, -⟩
  · exact Or.inl hfault
  · by_cases hfault : (assemble strict file stream).1
        = .error (.diagnostic ⟨.unreadable reason, some (Source.lastPlace file source)⟩)
    · exact Or.inl hfault
    · -- the error does not depend on what follows, since it is the same one for all of it
      refine Or.inr ⟨d, hd, fun more => ?_⟩
      obtain ⟨d', hd', hmore⟩ := (assemble_beside_fault h strict file more).resolve_left hfault
      rw [hmore, ← hd', hd]

end Assemble

namespace Assembler

/--
**Assembling from an unreliable stream.** Every stream delivers some bytes before its first outcome
that is no byte. If that is an empty read, the result is that of the bytes in memory, so later
outcomes have no influence, and none of them is read. If it is a fault, there is no image: the
error is the fault, at the place of the last byte, or one that the bytes get whatever follows them.
-/
theorem run_on_unreliable_stream (a : Assembler) (file : RawText) (stream : Stream) :
    ∃ source stop, stream.Delivers source stop ∧ match stop with
      | .byte _ => False
      | .nothing =>
        a.run file stream = a.run file (.ofBytes source)
          ∧ ∃ p, Pass.start file stream a.strict addressSpace = .ok p
            ∧ ∃ n ≤ source.length + 1, (settled p.generate).cursor.stream = stream.after n
      | .fault reason =>
        (a.run file stream).1
            = .error (.diagnostic ⟨.unreadable reason, some (Source.lastPlace file source)⟩)
          ∨ ∃ d, (a.run file stream).1 = .error (.diagnostic d)
            ∧ ∀ more, (a.run file (.ofBytes (source ++ more))).1 = .error (.diagnostic d) := by
  obtain ⟨source, stop, h⟩ := stream.exists_delivers
  refine ⟨source, stop, h, ?_⟩
  cases stop with
  | byte b => exact h.ends b rfl
  | nothing =>
      obtain ⟨hsame, hunread⟩ := assemble_of_nothing h a.strict file
      refine ⟨?_, hunread⟩
      rw [run_eq, run_eq, hsame]
  | fault reason =>
      rcases assemble_of_fault h a.strict file with hfault | ⟨d, hd, hmore⟩
      · exact Or.inl (run_of_error hfault).1
      · exact Or.inr ⟨d, (run_of_error hd).1, fun more => (run_of_error (hmore more)).1⟩

/-- The byte after an empty read is not assembled, and a fault after the same bytes is an error. -/
theorem run_on_unreliable_stream_short :
    (fresh false).run "p" ⟨[.byte 0x48, .byte 0x4C, .byte 0x54, .nothing, .byte 0x30], none⟩
        = (fresh false).run "p" (.ofBytes [0x48, 0x4C, 0x54])
      ∧ ∃ d, ((fresh false).run "p" ⟨[.byte 0x48, .byte 0x4C, .byte 0x54], some "gone"⟩).1
        = .error (.diagnostic d) := by
  constructor
  · obtain ⟨source, stop, hdelivers, hresult⟩ := run_on_unreliable_stream (fresh false) "p"
      ⟨[.byte 0x48, .byte 0x4C, .byte 0x54, .nothing, .byte 0x30], none⟩
    have hbytes : Stream.Delivers
        ⟨[.byte 0x48, .byte 0x4C, .byte 0x54, .nothing, .byte 0x30], none⟩
        [0x48, 0x4C, 0x54] .nothing :=
      Stream.delivers_cons rfl <| Stream.delivers_cons rfl <| Stream.delivers_cons rfl <|
        Stream.delivers_nil rfl nofun
    obtain ⟨rfl, rfl⟩ := hdelivers.unique hbytes
    exact hresult.1
  · obtain ⟨source, stop, hdelivers, hresult⟩ := run_on_unreliable_stream (fresh false) "p"
      ⟨[.byte 0x48, .byte 0x4C, .byte 0x54], some "gone"⟩
    have hbytes : Stream.Delivers ⟨[.byte 0x48, .byte 0x4C, .byte 0x54], some "gone"⟩
        [0x48, 0x4C, 0x54] (.fault "gone") :=
      Stream.delivers_cons rfl <| Stream.delivers_cons rfl <| Stream.delivers_cons rfl <|
        Stream.delivers_nil rfl nofun
    obtain ⟨rfl, rfl⟩ := hdelivers.unique hbytes
    rcases hresult with hfault | ⟨d, hd, -⟩
    · exact ⟨_, hfault⟩
    · exact ⟨d, hd⟩

end Assembler

end RomKit
