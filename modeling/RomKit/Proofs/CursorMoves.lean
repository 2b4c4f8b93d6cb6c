import RomKit.Proofs.Interruption

/-!
# What a cursor gives and what it keeps

A cursor is moved byte by byte or run by run. However it is moved, no byte of the
source gets lost or comes twice: what it has given, the two bytes in sight and
what it has not read yet make up the source (`Cursor.Accounts`). Its line and
column are those of the current byte, not of the byte it looks ahead to.

The moves are followed on a cursor whose source lies in memory, where each one is
an equation. A stream that delivers the same bytes and then an empty read is read
in lockstep with that, so the same holds there (`make_onStream`).
-/

namespace RomKit

namespace Stream

theorem after_add (s : Stream) (n k : Nat) : (s.after n).after k = s.after (n + k) := by
  induction k with
  | zero => rfl
  | succ k ih => rw [after, ih]; rfl

/-- Behind some of its bytes a stream delivers the others. -/
theorem Delivers.after {s : Stream} {source : List UInt8} {stop : Read}
    (h : s.Delivers source stop) {n : Nat} (hn : n ≤ source.length) :
    (s.after n).Delivers (source.drop n) stop := by
  have hlater : ∀ k, (s.after n).outcome k = s.outcome (n + k) := by
    intro k
    unfold outcome
    rw [after_add]
  refine ⟨?_, ?_, h.ends⟩
  · intro k b hk
    rw [hlater]
    rw [List.getElem?_drop] at hk
    exact h.bytes _ b hk
  · rw [hlater, List.length_drop, Nat.add_sub_cancel' hn]
    exact h.stops

end Stream

namespace Cursor

open Source

/-! ## Moves -/

/-- A way to move a cursor: past one byte, or past a run of bytes in a class. -/
inductive Move where
  | advance
  | takeWhile (p : UInt8 → Bool)

/-- Makes a move and gives the bytes that were consumed. -/
def Move.make : Move → Scan (List UInt8)
  | .advance => do
    let b ← Cursor.advance
    return b.toList
  | .takeWhile p => Cursor.takeWhile p

/-- Makes several moves and gives what each of them gave. -/
def makeAll : List Move → Scan (List (List UInt8))
  | [] => return []
  | m :: ms => do
    let bytes ← m.make
    let others ← makeAll ms
    return bytes :: others

/-- The bytes that a move takes from the front of what is to come. -/
def Move.takes : Move → List UInt8 → List UInt8
  | .advance, rest => rest.take 1
  | .takeWhile p, rest => rest.takeWhile p

/-- The bytes that are still to come after a move. -/
def Move.leaves : Move → List UInt8 → List UInt8
  | .advance, rest => rest.drop 1
  | .takeWhile p, rest => rest.dropWhile p

theorem Move.takes_append_leaves (m : Move) (rest : List UInt8) :
    m.takes rest ++ m.leaves rest = rest := by
  cases m with
  | advance => exact List.take_append_drop 1 rest
  | takeWhile p => exact List.takeWhile_append_dropWhile

section Memory

variable (file : RawText)

/-- **A move consumes what it takes.** -/
theorem make_between (m : Move) (before rest : List UInt8) :
    m.make (between file before rest)
      = .ok (m.takes rest) (between file (before ++ m.takes rest) (m.leaves rest)) := by
  cases m with
  | takeWhile p => exact takeWhile_between p file rest before
  | advance =>
      show (Cursor.advance >>= fun b => pure b.toList) _ = _
      cases rest with
      | nil =>
          rw [Scan.bind_of_ok (advance_between_nil _ _)]
          show _ = EStateM.Result.ok [] (between file (before ++ []) [])
          rw [List.append_nil]
          rfl
      | cons b rest =>
          rw [Scan.bind_of_ok (advance_between_cons _ _ _ _)]
          rfl

/-- Moves one after another consume what they give. -/
theorem makeAll_between (moves : List Move) : ∀ before rest : List UInt8,
    ∃ replies later, replies.length = moves.length ∧ replies.flatten ++ later = rest
      ∧ makeAll moves (between file before rest)
        = .ok replies (between file (before ++ replies.flatten) later) := by
  induction moves with
  | nil =>
      intro before rest
      refine ⟨[], rest, rfl, rfl, ?_⟩
      rw [List.flatten_nil, List.append_nil]
      rfl
  | cons m moves ih =>
      intro before rest
      obtain ⟨replies, later, hlength, hrest, hmakes⟩ :=
        ih (before ++ m.takes rest) (m.leaves rest)
      refine ⟨m.takes rest :: replies, later, congrArg (· + 1) hlength, ?_, ?_⟩
      · rw [List.flatten_cons, List.append_assoc, hrest, m.takes_append_leaves]
      · show (m.make >>= fun bytes => makeAll moves >>= fun others => pure (bytes :: others)) _ = _
        rw [Scan.bind_of_ok (make_between file m before rest), Scan.bind_of_ok hmakes,
          List.flatten_cons, ← List.append_assoc]
        rfl

end Memory

/-! ## Streams -/

section Lockstep

variable {near : Cursor → Cursor → Prop} {same : Diagnostic → Diagnostic → Prop}
  {fault : Diagnostic → Prop}

theorem Move.mirrors (m : Move) (h : Lockstep near same fault) :
    Mirrors near same fault m.make m.make := by
  cases m with
  | advance => exact .bind h.advance fun _ => .pure _
  | takeWhile p => exact h.takeRun p

theorem mirrors_makeAll (h : Lockstep near same fault) (moves : List Move) :
    Mirrors near same fault (makeAll moves) (makeAll moves) := by
  induction moves with
  | nil => exact .pure _
  | cons m moves ih => exact .bind (m.mirrors h) fun _ => .bind ih fun _ => .pure _

end Lockstep

section Reliable

variable {file : RawText} {stream : Stream} {source before before' rest rest' : List UInt8}

/-- **On a stream that ends with an empty read everything goes as in memory.** -/
theorem onStream_of_between {α : Type} {x : Scan α} {a : α}
    (hx : Mirrors (Shadows file stream source [] .nothing) Eq (FaultAt file source .nothing) x x)
    (hsource : before ++ rest = source) (hsource' : before' ++ rest' = source)
    (hrun : x (between file before rest) = .ok a (between file before' rest')) :
    x (onStream stream file before rest) = .ok a (onStream stream file before' rest') := by
  have hbeside : Shadows file stream source [] .nothing (onStream stream file before rest)
      (between file before (rest ++ [])) := .intro hsource (Or.inl rfl)
  rw [List.append_nil] at hbeside
  have halike := hx _ _ hbeside
  rw [hrun] at halike
  generalize x (onStream stream file before rest) = r at halike ⊢
  generalize hc : between file before' rest' = c at halike
  cases halike with
  | fault hfault =>
      obtain ⟨reason, hstop, -⟩ := hfault
      cases hstop
  | ok hbeside' =>
      -- the cursor in memory shows how far the one on the stream has come
      cases hbeside' with
      | @intro before₁ rest₁ hsource₁ _ =>
          have hrest := rest_of_between_eq hc
          rw [List.append_nil] at hrest
          subst hrest
          rw [← hsource'] at hsource₁
          rw [List.append_cancel_right hsource₁]

theorem make_onStream (h : stream.Delivers source .nothing) (m : Move)
    (hsource : before ++ rest = source) :
    m.make (onStream stream file before rest)
      = .ok (m.takes rest) (onStream stream file (before ++ m.takes rest) (m.leaves rest)) := by
  refine onStream_of_between (m.mirrors (lockstep_shadows h fun _ => rfl)) hsource ?_
    (make_between file m before rest)
  rw [List.append_assoc, m.takes_append_leaves, hsource]

end Reliable

/-! ## The account of a source -/

/-- The bytes that a cursor is still to read: none, once a read gave nothing. -/
def StillReads (c : Cursor) (bytes : List UInt8) : Prop :=
  if c.exhausted then bytes = [] else c.stream.Delivers bytes .nothing

/-- The longest beginning of some bytes that lies in a class. -/
structure LongestRun (p : UInt8 → Bool) (run bytes : List UInt8) : Prop where
  starts : run <+: bytes
  inside : ∀ b ∈ run, p b = true
  longest : ∀ other, other <+: bytes → (∀ b ∈ other, p b = true) → other <+: run

theorem longestRun_takeWhile (p : UInt8 → Bool) (bytes : List UInt8) :
    LongestRun p (bytes.takeWhile p) bytes where
  starts := List.takeWhile_prefix p
  inside := fun _ hb => List.mem_takeWhile_imp hb
  longest := by
    intro other hother hinside
    obtain ⟨later, rfl⟩ := hother
    rw [List.takeWhile_append_of_pos hinside]
    exact List.prefix_append _ _

/-- A cursor that has given the bytes `given` of a source, and what it will do next. -/
structure Accounts (source given : List UInt8) (c : Cursor) : Prop where
  /-- No byte is lost and none comes twice. -/
  conserved : ∃ unread, c.StillReads unread
    ∧ given ++ c.current.toList ++ c.peek.toList ++ unread = source
  line : c.line = lineAfter given
  column : c.column = columnAfter given
  /-- Nothing is current exactly when everything is consumed. -/
  atEnd_iff : c.atEnd = true ↔ given = source
  /-- At the end no move gives anything or changes anything. -/
  rests : c.atEnd = true → ∀ m : Move, m.make c = .ok [] c
  /-- A step gives the current byte. -/
  gives_current : ∃ c', Move.advance.make c = .ok c.current.toList c'
  /-- A run is the longest one of what has not been given. -/
  gives_run : ∀ p, ∃ run c', (Move.takeWhile p).make c = .ok run c'
    ∧ LongestRun p run (source.drop given.length)

/-- Two bytes are in sight, and the others are still to be read. -/
theorem stillReads_onStream {stream : Stream} {source given rest : List UInt8}
    (h : stream.Delivers source .nothing) (file : RawText) (hsource : given ++ rest = source) :
    (onStream stream file given rest).StillReads (rest.drop 2) := by
  unfold StillReads
  show if decide (rest.length < 2) = true then _ else _
  by_cases hshort : rest.length < 2
  · rw [if_pos (decide_eq_true hshort)]
    exact List.drop_eq_nil_of_le (by omega)
  · have hlength := congrArg List.length hsource
    rw [List.length_append] at hlength
    have hreads : min (given.length + 2) ((given ++ rest).length + 1) = given.length + 2 := by
      rw [hsource]
      omega
    have hunread : source.drop (given.length + 2) = rest.drop 2 := by
      rw [← hsource, ← List.drop_drop, List.drop_left]
    rw [if_neg (by simpa using hshort)]
    show (stream.after _).Delivers _ _
    rw [hreads, ← hunread]
    exact h.after (by omega)

theorem accounts_onStream {file : RawText} {stream : Stream} {source given rest : List UInt8}
    (h : stream.Delivers source .nothing) (hsource : given ++ rest = source) :
    Accounts source given (onStream stream file given rest) where
  conserved := by
    refine ⟨rest.drop 2, stillReads_onStream h file hsource, ?_⟩
    show given ++ rest.head?.toList ++ rest.tail.head?.toList ++ rest.drop 2 = source
    rw [← hsource]
    match rest with
    | [] => simp
    | [a] => simp
    | a :: b :: rest => simp
  line := rfl
  column := rfl
  atEnd_iff := by
    show rest.head?.isNone = true ↔ _
    rw [Option.isNone_iff_eq_none, List.head?_eq_none_iff, ← hsource]
    constructor
    · intro hnone
      rw [hnone, List.append_nil]
    · intro hall
      exact List.self_eq_append_right.mp hall
  rests := by
    intro hend m
    have hnone : rest = [] := by
      have hcurrent : rest.head?.isNone = true := hend
      rw [Option.isNone_iff_eq_none, List.head?_eq_none_iff] at hcurrent
      exact hcurrent
    subst hnone
    obtain ⟨htakes, hleaves⟩ := List.append_eq_nil_iff.mp (m.takes_append_leaves [])
    rw [make_onStream h m hsource, htakes, hleaves, List.append_nil]
  gives_current := by
    have hcurrent : (onStream stream file given rest).current.toList = Move.advance.takes rest := by
      show rest.head?.toList = rest.take 1
      cases rest <;> rfl
    rw [hcurrent]
    exact ⟨_, make_onStream h .advance hsource⟩
  gives_run := by
    intro p
    refine ⟨_, _, make_onStream h (.takeWhile p) hsource, ?_⟩
    rw [← hsource, List.drop_left]
    exact longestRun_takeWhile p rest

/--
**Nothing is lost and every place is right, however a cursor is moved.** On a stream that delivers
a source and then an empty read, whatever it would do after that, every sequence of moves succeeds.
What the moves gave is then accounted for: with the bytes in sight and the bytes still to be read it
makes up the source, the line and the column are counted from it, the end is reached when it is the
whole source, and the next move gives the current byte or the longest run.
-/
theorem moves_account_for_source (file : RawText) {stream : Stream} {source : List UInt8}
    (h : stream.Delivers source .nothing) (moves : List Move) :
    ∃ c₀ replies c, Cursor.start file stream = .ok c₀ ∧ makeAll moves c₀ = .ok replies c
      ∧ replies.length = moves.length ∧ c.Accounts source replies.flatten := by
  have hstart : Cursor.start file stream = .ok (onStream stream file [] source) := by
    rcases start_onStream file h with ⟨-, hstart⟩ | ⟨d, -, reason, hstop, -⟩
    · exact hstart
    · cases hstop
  obtain ⟨replies, rest, hlength, hsource, hmakes⟩ := makeAll_between file moves [] source
  rw [List.nil_append] at hmakes
  refine ⟨_, replies, onStream stream file replies.flatten rest, hstart, ?_, hlength,
    accounts_onStream h hsource⟩
  exact onStream_of_between (mirrors_makeAll (lockstep_shadows h fun _ => rfl) moves) rfl hsource
    hmakes

/-- Two lines, an empty read, and more behind it. -/
def twoLines : Stream :=
  ⟨[.byte 0x61, .byte 0x62, .byte 0x0A, .byte 0x63, .byte 0x64, .nothing, .byte 0x65], some ""⟩

/-- The run up to the line end, the line end and one step more leave the cursor on the second byte
of the second line. -/
theorem moves_account_for_source_twoLines :
    twoLines.Delivers [0x61, 0x62, 0x0A, 0x63, 0x64] .nothing
      ∧ ∃ c₀ replies c, Cursor.start "x" twoLines = .ok c₀
        ∧ makeAll [.takeWhile (· != 0x0A), .advance, .advance] c₀ = .ok replies c
        ∧ replies.flatten = [0x61, 0x62, 0x0A, 0x63] ∧ c.line = 2 ∧ c.column = 2
        ∧ c.Accounts [0x61, 0x62, 0x0A, 0x63, 0x64] replies.flatten := by
  have hdelivers : twoLines.Delivers [0x61, 0x62, 0x0A, 0x63, 0x64] .nothing :=
    Stream.delivers_cons rfl (Stream.delivers_cons rfl (Stream.delivers_cons rfl
      (Stream.delivers_cons rfl (Stream.delivers_cons rfl
        (Stream.delivers_nil rfl fun _ => Read.noConfusion)))))
  obtain ⟨c₀, replies, c, hstart, hmakes, -, haccounts⟩ := moves_account_for_source "x" hdelivers
    [.takeWhile (· != 0x0A), .advance, .advance]
  have hgiven : ((Cursor.start "x" twoLines).toOption.bind
      (makeAll [.takeWhile (· != 0x0A), .advance, .advance]).run')
        = some [[0x61, 0x62], [0x0A], [0x63]] := by decide +kernel
  rw [hstart] at hgiven
  change EStateM.run' _ c₀ = _ at hgiven
  unfold EStateM.run' EStateM.run at hgiven
  rw [hmakes] at hgiven
  have hflat : replies.flatten = [0x61, 0x62, 0x0A, 0x63] := by
    rw [Option.some.inj hgiven]
    rfl
  refine ⟨hdelivers, c₀, replies, c, hstart, hmakes, hflat, ?_, ?_, haccounts⟩
  · rw [haccounts.line, hflat]
    decide
  · rw [haccounts.column, hflat]
    decide

end Cursor

end RomKit
