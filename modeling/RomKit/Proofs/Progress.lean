import RomKit.Proofs.Lockstep

/-!
# Reading always comes to an end

A pass reads token after token until nothing is current. It comes to an end because
every token that is read takes something away from the front of what is to come
(`Pass.toCome_step`): the two bytes in sight and the bytes that the stream still
has before its next empty read. What is in sight has to be counted, since a read
that fails leaves one byte in sight twice, and such a pass may be taken up again.

The loop itself is written down as a relation that knows nothing of a bound
(`Pass.Loop`). From every state it leads to exactly one result, after at most as
many productions as there are bytes to come (`Pass.exists_loop`).
-/

namespace RomKit

/-! ## What is to come -/

/-- The bytes that reads give before one gives nothing, whatever faults lie between them. -/
def Read.bytesBeforeEnd : List Read → List UInt8
  | [] => []
  | .byte b :: reads => b :: bytesBeforeEnd reads
  | .fault _ :: reads => bytesBeforeEnd reads
  | .nothing :: _ => []

namespace Stream

/-- The bytes that a stream still has before its next empty read. -/
def toCome (s : Stream) : List UInt8 :=
  Read.bytesBeforeEnd s.pending

theorem toCome_of_byte {s s' : Stream} {b : UInt8} (h : s.read = (.byte b, s')) :
    s.toCome = b :: s'.toCome := by
  unfold read finalRead at h
  split at h
  · next r reads hp =>
    obtain ⟨rfl, rfl⟩ := Prod.mk.inj h
    unfold toCome
    rw [hp, Read.bytesBeforeEnd]
  · split at h
    · cases h
    · cases h

theorem toCome_of_nothing {s s' : Stream} (h : s.read = (.nothing, s')) :
    s.toCome = [] ∧ s'.unread = s.unread := by
  unfold read finalRead at h
  split at h
  · next r reads hp =>
    obtain ⟨rfl, rfl⟩ := Prod.mk.inj h
    unfold toCome unread
    rw [hp, Read.bytesBeforeEnd]
    exact ⟨rfl, rfl⟩
  · next hp =>
    split at h
    · cases h
    · cases h
      unfold toCome
      rw [hp]
      exact ⟨rfl, rfl⟩

theorem length_toCome_le (s : Stream) : s.toCome.length ≤ s.unread := by
  unfold toCome unread
  induction s.pending with
  | nil => exact Nat.le_refl 0
  | cons r reads ih =>
      cases r with
      | byte b =>
          rw [Read.bytesBeforeEnd, List.length_cons, List.countP_cons_of_pos rfl]
          exact Nat.succ_le_succ ih
      | nothing => exact Nat.zero_le _
      | fault reason =>
          rw [Read.bytesBeforeEnd, List.countP_cons_of_neg Bool.false_ne_true]
          exact ih

end Stream

namespace Cursor

/-- The bytes that a cursor still has to read: none, once a read gave nothing. -/
def unreadBytes (c : Cursor) : List UInt8 :=
  if c.exhausted then [] else c.stream.toCome

/-- The bytes that a cursor is to come to: the two in sight and the unread ones. -/
def toCome (c : Cursor) : List UInt8 :=
  c.current.toList ++ c.peek.toList ++ c.unreadBytes

theorem length_toCome_le_remaining (c : Cursor) : c.toCome.length ≤ c.remaining := by
  have hunread : c.unreadBytes.length ≤ c.stream.unread := by
    unfold unreadBytes
    split
    · exact Nat.zero_le _
    · exact c.stream.length_toCome_le
  unfold toCome remaining
  rw [List.length_append, List.length_append]
  exact Nat.add_le_add_left hunread _

theorem length_toCome_pos {c : Cursor} (h : c.atEnd = false) : 0 < c.toCome.length := by
  unfold atEnd at h
  unfold toCome
  cases hc : c.current with
  | none =>
      rw [hc] at h
      cases h
  | some b => exact Nat.succ_pos _

/-- A read takes its byte from the unread ones. -/
theorem unreadBytes_fetch {c c' : Cursor} {next : Option UInt8} (h : c.fetch = .ok next c') :
    c.unreadBytes = next.toList ++ c'.unreadBytes
      ∧ c.stream.unread = next.toList.length + c'.stream.unread := by
  unfold fetch at h
  split at h
  · cases h
    exact ⟨rfl, (Nat.zero_add _).symm⟩
  · next hex =>
    split at h
    · next b s hread =>
      cases h
      refine ⟨?_, ?_⟩
      · unfold unreadBytes
        rw [if_neg hex, if_neg hex]
        exact Stream.toCome_of_byte hread
      · rw [Stream.unread_read_byte hread, Nat.add_comm]
        rfl
    · next s hread =>
      cases h
      obtain ⟨hnone, hunread⟩ := Stream.toCome_of_nothing hread
      refine ⟨?_, ?_⟩
      · unfold unreadBytes
        rw [if_neg hex, hnone]
        rfl
      · rw [← hunread]
        exact (Nat.zero_add _).symm
    · cases h

/-- **A step takes the first byte of what is to come**, and only that. -/
theorem toCome_advance {c c' : Cursor} {r : Option UInt8} (h : c.advance = .ok r c') :
    c.toCome = r.toList ++ c'.toCome ∧ c.remaining = r.toList.length + c'.remaining := by
  unfold advance at h
  split at h
  · cases h
    exact ⟨rfl, (Nat.zero_add _).symm⟩
  · next b hc =>
    split at h
    · next next c₁ hfetch =>
      cases h
      obtain ⟨hnow, hexhausted, hstream⟩ := c.shift_reads_nothing b
      obtain ⟨hbytes, hunread⟩ := unreadBytes_fetch hfetch
      have hcurrent := (fetch_ok hfetch).1
      have hsame : (c.shift b).unreadBytes = c.unreadBytes := by
        unfold unreadBytes
        rw [hexhausted, hstream]
      have hlater : ({ c₁ with peek := next } : Cursor).unreadBytes = c₁.unreadBytes := rfl
      rw [hsame] at hbytes
      rw [hstream] at hunread
      rw [hnow] at hcurrent
      constructor
      · unfold toCome
        rw [hlater, hc, hbytes, hcurrent]
        simp
      · unfold remaining
        rw [hc, hunread, hcurrent]
        simp only [Option.toList_some, List.length_singleton]
        omega
    · cases h

/-- A cursor that has moved on from one with the bytes `ahead` to come and `left` bytes remaining:
what it has passed is missing from both. -/
structure MovedOn (ahead : List UInt8) (left : Nat) (c : Cursor) : Prop where
  suffix : c.toCome <:+ ahead
  balance : ahead.length + c.remaining = c.toCome.length + left

theorem MovedOn.advance {ahead : List UInt8} {left : Nat} {c c' : Cursor} {r : Option UInt8}
    (h : c.MovedOn ahead left) (ha : c.advance = .ok r c') : c'.MovedOn ahead left := by
  obtain ⟨hbytes, hremaining⟩ := toCome_advance ha
  have hlength := congrArg List.length hbytes
  rw [List.length_append] at hlength
  have hbalance := h.balance
  refine ⟨?_, by omega⟩
  have hsuffix := h.suffix
  rw [hbytes] at hsuffix
  exact (List.suffix_append _ _).trans hsuffix

/-- A cursor is followed beside itself, until a step fails. -/
theorem lockstep_movedOn (ahead : List UInt8) (left : Nat) :
    Lockstep (fun c c' => c' = c ∧ c.MovedOn ahead left) Eq fun _ => True where
  current := by
    rintro c _ ⟨rfl, -⟩
    rfl
  place := by
    rintro c _ ⟨rfl, -⟩ cause
    rfl
  advance := by
    intro c c' hnear
    obtain ⟨rfl, hc⟩ := hnear
    cases ha : c'.advance with
    | ok r c₁ => exact .ok ⟨rfl, hc.advance ha⟩
    | error d c₁ => exact .fault trivial

end Cursor

namespace Token

/-- **A token that is read is taken from the front of what is to come**, and it is not empty. -/
theorem toCome_scan {c c' : Cursor} {t : Token} (h : scan c = .ok (some t) c') :
    c'.toCome <:+ c.toCome ∧ c'.toCome.length < c.toCome.length := by
  have hstart : c.MovedOn c.toCome c.remaining := ⟨List.suffix_refl _, rfl⟩
  have hscan := (Cursor.lockstep_movedOn c.toCome c.remaining).scan c c ⟨rfl, hstart⟩
  rw [h] at hscan
  cases hscan with
  | ok hmoved =>
      obtain ⟨-, hsuffix, hbalance⟩ := hmoved
      have hless := remaining_scan_lt h
      exact ⟨hsuffix, by omega⟩

end Token

namespace Pass

/-! ## One production -/

theorem toCome_step {p q : Pass} (h : p.step = .ok true q) :
    q.cursor.toCome <:+ p.cursor.toCome
      ∧ q.cursor.toCome.length < p.cursor.toCome.length := by
  obtain ⟨t, c, hread, rfl⟩ := step_eq_true h
  exact Token.toCome_scan hread

/-- Before the end a step fails or goes on. -/
theorem step_of_not_atEnd {p : Pass} (h : p.cursor.atEnd = false) :
    (∃ e q, p.step = .error e q) ∨ ∃ q, p.step = .ok true q := by
  rcases p.step_cases with ⟨e, c, -, hs⟩ | ⟨c, hread, -⟩ | ⟨_, c, _, _, -, -, -, hs⟩ |
    ⟨t, c, -, -, hs⟩
  · exact Or.inl ⟨_, _, hs⟩
  · have hend := Option.isNone_iff_eq_none.mpr (Token.scan_eq_none_iff.mp hread).1
    cases h.symm.trans hend
  · exact Or.inl ⟨_, _, hs⟩
  · exact Or.inr ⟨_, hs⟩

/-! ## The loop -/

/-- The loop of a pass as it is written: as long as something is current, a production is run.
`Loop p n result` says that from `p` it runs `n` productions, a failing one included, and comes out
with `result`. -/
inductive Loop : Pass → Nat → EStateM.Result Diagnostic Pass Unit → Prop where
  | ends {p : Pass} : p.cursor.atEnd = true → Loop p 0 (.ok () p)
  | fails {p q : Pass} {e : Diagnostic} :
      p.cursor.atEnd = false → p.step = .error e q → Loop p 1 (.error e q)
  | goesOn {p q : Pass} {n : Nat} {result : EStateM.Result Diagnostic Pass Unit} :
      p.cursor.atEnd = false → p.step = .ok true q → Loop q n result → Loop p (n + 1) result

/-- The loop has one way to go. -/
theorem Loop.unique {p : Pass} {n n' : Nat} {result result' : EStateM.Result Diagnostic Pass Unit}
    (h : Loop p n result) (h' : Loop p n' result') : n' = n ∧ result' = result := by
  induction h generalizing n' with
  | ends hend =>
      cases h' with
      | ends _ => exact ⟨rfl, rfl⟩
      | fails hend' _ => rw [hend] at hend'; cases hend'
      | goesOn hend' _ _ => rw [hend] at hend'; cases hend'
  | fails hend hs =>
      cases h' with
      | ends hend' => rw [hend] at hend'; cases hend'
      | fails _ hs' =>
          rw [hs] at hs'
          cases hs'
          exact ⟨rfl, rfl⟩
      | goesOn _ hs' _ =>
          rw [hs] at hs'
          cases hs'
  | goesOn hend hs _ ih =>
      cases h' with
      | ends hend' => rw [hend] at hend'; cases hend'
      | fails _ hs' =>
          rw [hs] at hs'
          cases hs'
      | goesOn _ hs' hrest =>
          rw [hs] at hs'
          cases hs'
          obtain ⟨hcount, hresult⟩ := ih hrest
          exact ⟨congrArg (· + 1) hcount, hresult⟩

/-- **Reading is what the loop does**, and each production uses up at least one byte. -/
theorem exists_loop (p : Pass) : ∃ n ≤ p.cursor.toCome.length, Loop p n p.scan := by
  -- on what is to come, of which a production that succeeds leaves less
  induction hlength : p.cursor.toCome.length using Nat.strongRecOn generalizing p with
  | ind length ih =>
    cases hend : p.cursor.atEnd with
    | true =>
        have hdone : p.scan = .ok () p := by
          rw [scan_eq, step_of_atEnd (Option.isNone_iff_eq_none.mp hend)]
        rw [hdone]
        exact ⟨0, Nat.zero_le _, .ends hend⟩
    | false =>
        rcases step_of_not_atEnd hend with ⟨e, q, hs⟩ | ⟨q, hs⟩
        · rw [scan_eq, hs]
          exact ⟨1, hlength ▸ Cursor.length_toCome_pos hend, .fails hend hs⟩
        · obtain ⟨-, hless⟩ := toCome_step hs
          obtain ⟨n, hn, hloop⟩ := ih _ (hlength ▸ hless) q rfl
          rw [scan_eq, hs]
          exact ⟨n + 1, by omega, .goesOn hend hs hloop⟩

/-- What a run makes of its loop: it gives up with the error, refuses an image that is too large,
or resolves the labels. -/
def conclude : EStateM.Result Diagnostic Pass Unit → EStateM.Result Failure Pass Image
  | .error e q => .error (.diagnostic e) q
  | .ok _ q =>
    if q.limit < q.draft.image.size then
      .error (.diagnostic ⟨.imageTooLarge q.draft.image.size q.limit, none⟩) q
    else q.finish

theorem generate_eq_conclude (p : Pass) : p.generate = conclude p.scan := by
  unfold generate conclude
  cases p.scan with
  | error e q => rfl
  | ok _ q => rfl

/--
**Reading always makes progress.** In every state of a pass, however often it was taken up again:
before the end of the source a step fails, or it takes a beginning that is not empty from what is
to come, so that fewer bytes are in sight and unread than before. Hence the loop of a run, for which
no bound is written down, comes out with exactly one result, which is the one that the run goes on
with. It runs at most as many productions as there are bytes to come.
-/
theorem reading_makes_progress (p : Pass) :
    (p.cursor.atEnd = false →
        (∃ e q, p.step = .error e q)
          ∨ ∃ q, p.step = .ok true q ∧ q.cursor.toCome <:+ p.cursor.toCome
            ∧ q.cursor.toCome.length < p.cursor.toCome.length
            ∧ q.cursor.remaining < p.cursor.remaining)
      ∧ ∃ n result, Loop p n result ∧ p.generate = conclude result
          ∧ n ≤ p.cursor.toCome.length ∧ p.cursor.toCome.length ≤ p.cursor.remaining
          ∧ ∀ n' result', Loop p n' result' → n' = n ∧ result' = result := by
  refine ⟨fun hend => ?_, ?_⟩
  · rcases step_of_not_atEnd hend with hfails | ⟨q, hs⟩
    · exact Or.inl hfails
    · obtain ⟨hsuffix, hless⟩ := toCome_step hs
      exact Or.inr ⟨q, hs, hsuffix, hless, remaining_step_lt hs⟩
  · obtain ⟨n, hn, hloop⟩ := p.exists_loop
    exact ⟨n, p.scan, hloop, p.generate_eq_conclude, hn, p.cursor.length_toCome_le_remaining,
      fun _ _ hother => hloop.unique hother⟩

/-- Two digits, a fault behind them, and a blank. -/
def brokenPair : Stream :=
  ⟨[.byte 0x31, .byte 0x32, .fault "", .byte 0x20], none⟩

/-- The run that meets the fault leaves the second digit in sight twice. Taken up again, the pass has
three bytes to come, and it runs three productions at most. -/
theorem reading_makes_progress_after_fault :
    ∃ p, Reachable "" brokenPair false p ∧ p.cursor.atEnd = false
      ∧ p.cursor.toCome = [0x32, 0x32, 0x20]
      ∧ ((∃ e q, p.step = .error e q)
        ∨ ∃ q, p.step = .ok true q ∧ q.cursor.toCome.length < 3 ∧ q.cursor.remaining < 3)
      ∧ ∃ n result, Loop p n result ∧ p.generate = conclude result ∧ n ≤ 3 := by
  obtain ⟨p, hp⟩ : ∃ p, p = settled (Pass.mk ⟨"", 1, 1, some 0x31, some 0x32, false,
      ⟨[.fault "", .byte 0x20], none⟩⟩ .empty false addressSpace []).generate := ⟨_, rfl⟩
  have hreachable : Reachable "" brokenPair false p := by
    rw [hp]
    exact .generate (.start rfl)
  have hend : p.cursor.atEnd = false := by
    rw [hp]
    decide +kernel
  have hcome : p.cursor.toCome = [0x32, 0x32, 0x20] := by
    rw [hp]
    decide +kernel
  have hremaining : p.cursor.remaining = 3 := by
    rw [hp]
    decide +kernel
  obtain ⟨hstep, n, result, hloop, hgenerate, hn, -⟩ := reading_makes_progress p
  have hprogress := hstep hend
  rw [hcome, hremaining] at hprogress
  rw [hcome] at hn
  refine ⟨p, hreachable, hend, hcome, ?_, n, result, hloop, hgenerate, hn⟩
  rcases hprogress with hfails | ⟨q, hs, -, hless, hless'⟩
  · exact Or.inl hfails
  · exact Or.inr ⟨q, hs, hless, hless'⟩

end Pass

end RomKit
