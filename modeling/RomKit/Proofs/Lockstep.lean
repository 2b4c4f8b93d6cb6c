import RomKit.Proofs.PassInvariant

/-!
# Two readings side by side

Scanning looks at nothing but the current byte and its place, and it moves only
by `advance`. Hence two cursors that show the same byte, and still do so after
every step, lead to the same tokens and to the same causes of failure, whatever
lies behind them. This module says so once (`Lockstep.scan`), for any relation
between cursors that a step keeps.

One of the two readings may meet a fault that the other does not know of. From
there on nothing is said about the other one.
-/

namespace RomKit

/-- Two computations end alike: with one result or with matching errors, and in matching states;
or the first one meets a fault. -/
inductive Alike {ε σ α : Type} (near : σ → σ → Prop) (same : ε → ε → Prop) (fault : ε → Prop) :
    EStateM.Result ε σ α → EStateM.Result ε σ α → Prop where
  | ok {a : α} {s s' : σ} : near s s' → Alike near same fault (.ok a s) (.ok a s')
  | error {e e' : ε} {s s' : σ} :
      near s s' → same e e' → Alike near same fault (.error e s) (.error e' s')
  | fault {e : ε} {s : σ} {r : EStateM.Result ε σ α} :
      fault e → Alike near same fault (.error e s) r

/-- Two scans end alike from all matching cursors. -/
def Mirrors {α : Type} (near : Cursor → Cursor → Prop) (same : Diagnostic → Diagnostic → Prop)
    (fault : Diagnostic → Prop) (x x' : Scan α) : Prop :=
  ∀ c c', near c c' → Alike near same fault (x c) (x' c')

/-- Matching cursors show the same byte, at places that match in errors, and a step keeps it so. -/
structure Lockstep (near : Cursor → Cursor → Prop) (same : Diagnostic → Diagnostic → Prop)
    (fault : Diagnostic → Prop) : Prop where
  current : ∀ {c c'}, near c c' → c'.current = c.current
  place : ∀ {c c'}, near c c' → ∀ cause, same ⟨cause, some c.location⟩ ⟨cause, some c'.location⟩
  advance : Mirrors near same fault Cursor.advance Cursor.advance

namespace Mirrors

variable {near : Cursor → Cursor → Prop} {same : Diagnostic → Diagnostic → Prop}
  {fault : Diagnostic → Prop} {α β : Type}

theorem pure (a : α) : Mirrors near same fault (Pure.pure a) (Pure.pure a) :=
  fun _ _ hnear => .ok hnear

theorem fail {l l' : Location} {cause : Cause} (h : same ⟨cause, some l⟩ ⟨cause, some l'⟩) :
    Mirrors near same fault (Scan.fail l cause : Scan α) (Scan.fail l' cause) :=
  fun _ _ hnear => .error hnear h

theorem bind {x x' : Scan α} {f f' : α → Scan β} (hx : Mirrors near same fault x x')
    (hf : ∀ a, Mirrors near same fault (f a) (f' a)) :
    Mirrors near same fault (x >>= f) (x' >>= f') := by
  intro c c' hnear
  have hfirst := hx c c' hnear
  generalize hr : x c = r at hfirst
  generalize hr' : x' c' = r' at hfirst
  cases hfirst with
  | ok hnear₁ =>
      rw [Scan.bind_of_ok hr, Scan.bind_of_ok hr']
      exact hf _ _ _ hnear₁
  | error hnear₁ hsame =>
      rw [Scan.bind_of_error hr, Scan.bind_of_error hr']
      exact .error hnear₁ hsame
  | fault hfault =>
      rw [Scan.bind_of_error hr]
      exact .fault hfault

/-- What is read off the cursor may be used without moving it. -/
theorem get_bind {f f' : Cursor → Scan α}
    (hf : ∀ c c', near c c' → Mirrors near same fault (f c) (f' c')) :
    Mirrors near same fault (get >>= f) (get >>= f') :=
  fun c c' hnear => hf c c' hnear c c' hnear

end Mirrors

namespace Lockstep

open Source Scan

variable {near : Cursor → Cursor → Prop} {same : Diagnostic → Diagnostic → Prop}
  {fault : Diagnostic → Prop} {α β : Type}

theorem sees (h : Lockstep near same fault) {c c' : Cursor} (hnear : near c c')
    (p : UInt8 → Bool) : c'.sees p = c.sees p := by
  unfold Cursor.sees
  rw [h.current hnear]

/-! ## Primitives -/

theorem takeIf (h : Lockstep near same fault) (p : UInt8 → Bool) :
    Mirrors near same fault (takeIf p) (takeIf p) := by
  intro c c' hnear
  unfold Scan.takeIf
  rw [h.sees hnear]
  split
  · exact h.advance c c' hnear
  · exact .ok hnear

theorem takeRun (h : Lockstep near same fault) (p : UInt8 → Bool) :
    Mirrors near same fault (takeRun p) (takeRun p) := by
  intro c c'
  show near c c' → Alike near same fault (c.takeWhile p) (c'.takeWhile p)
  -- on what the first cursor has before it; the second one keeps up
  induction hn : c.remaining using Nat.strongRecOn generalizing c c' with
  | ind n ih =>
    intro hnear
    cases hs : c.sees p with
    | false =>
        rw [Cursor.takeWhile_of_not hs, Cursor.takeWhile_of_not ((h.sees hnear p).trans hs)]
        exact .ok hnear
    | true =>
        obtain ⟨b, hc, hp⟩ := (Option.any_eq_true p c.current).mp hs
        have hc' := (h.current hnear).trans hc
        have hadv := h.advance c c' hnear
        generalize ha : c.advance = r at hadv
        generalize ha' : c'.advance = r' at hadv
        cases hadv with
        | @ok _ c₁ c₁' hnear₁ =>
            have hrest := ih _ (hn ▸ Cursor.remaining_advance_lt hc ha) c₁ c₁' rfl hnear₁
            rw [Cursor.takeWhile_of_advance hc hp ha, Cursor.takeWhile_of_advance hc' hp ha']
            generalize c₁.takeWhile p = t at hrest ⊢
            generalize c₁'.takeWhile p = t' at hrest ⊢
            cases hrest with
            | ok hnear₂ => exact .ok hnear₂
            | error hnear₂ hsame => exact .error hnear₂ hsame
            | fault hfault => exact .fault hfault
        | error hnear₁ hsame =>
            rw [Cursor.takeWhile_of_advance_error hc hp ha,
              Cursor.takeWhile_of_advance_error hc' hp ha']
            exact .error hnear₁ hsame
        | fault hfault =>
            rw [Cursor.takeWhile_of_advance_error hc hp ha]
            exact .fault hfault

/-! ## Productions -/

section Productions

open Token

variable {start start' : Location}

theorem scanComment (h : Lockstep near same fault)
    (hs : ∀ cause, same ⟨cause, some start⟩ ⟨cause, some start'⟩) :
    Mirrors near same fault (Token.scanComment start) (Token.scanComment start') := by
  refine .bind h.advance fun _ => .bind (h.takeRun _) fun text => .bind (h.takeIf _) fun close => ?_
  cases close with
  | none => exact .fail (hs _)
  | some _ => exact .pure _

theorem scanName (h : Lockstep near same fault)
    (hs : ∀ cause, same ⟨cause, some start⟩ ⟨cause, some start'⟩) (use : LabelUse) :
    Mirrors near same fault (Token.scanName start use) (Token.scanName start' use) := by
  refine .bind h.advance fun _ => .bind (h.takeRun _) fun name => ?_
  split
  · exact .fail (hs _)
  · exact .pure _

theorem scanString (h : Lockstep near same fault)
    (hs : ∀ cause, same ⟨cause, some start⟩ ⟨cause, some start'⟩) :
    Mirrors near same fault (Token.scanString start) (Token.scanString start') := by
  refine .bind h.advance fun _ => .bind (h.takeRun _) fun bytes => ?_
  split
  · exact .fail (hs _)
  · exact .pure _

theorem scanPairs (h : Lockstep near same fault)
    (hs : ∀ cause, same ⟨cause, some start⟩ ⟨cause, some start'⟩) :
    ∀ n, Mirrors near same fault (Token.scanPairs start n) (Token.scanPairs start' n)
  | 0 => .pure _
  | n + 1 => by
    refine .bind (h.takeIf _) fun high => ?_
    cases high with
    | none => exact .pure _
    | some high =>
        refine .bind (h.takeIf _) fun low => ?_
        cases low with
        | none => exact .fail (hs _)
        | some low => exact .bind (h.scanPairs hs n) fun _ => .pure _

theorem scanDigits (h : Lockstep near same fault)
    (hs : ∀ cause, same ⟨cause, some start⟩ ⟨cause, some start'⟩) :
    Mirrors near same fault (Token.scanDigits start) (Token.scanDigits start') := by
  refine .bind (h.scanPairs hs _) fun bytes => .get_bind fun c c' hnear => ?_
  rw [h.sees hnear]
  split
  · exact .fail (hs _)
  · exact .pure _

theorem scanLiteral (h : Lockstep near same fault)
    (hs : ∀ cause, same ⟨cause, some start⟩ ⟨cause, some start'⟩) :
    Mirrors near same fault (Token.scanLiteral start) (Token.scanLiteral start') := by
  refine .bind h.advance fun _ => .bind (h.scanDigits hs) fun payload => ?_
  split
  · exact .fail (hs _)
  · exact .pure _

theorem scanInstruction (h : Lockstep near same fault)
    (hs : ∀ cause, same ⟨cause, some start⟩ ⟨cause, some start'⟩) :
    Mirrors near same fault (Token.scanInstruction start) (Token.scanInstruction start') := by
  refine .bind (h.takeRun _) fun run => ?_
  refine .bind (.bind (h.takeIf _) fun _ => .pure _) fun size => ?_
  dsimp only
  split
  · exact .fail (hs _)
  · refine .get_bind fun c c' hnear => ?_
    rw [h.current hnear]
    split
    · exact .pure _
    · split
      · exact .pure _
      · exact .fail (hs _)

/-- The current byte chooses the production, on both sides the same. -/
theorem scanFrom (h : Lockstep near same fault)
    (hs : ∀ cause, same ⟨cause, some start⟩ ⟨cause, some start'⟩) (b : UInt8) :
    Mirrors near same fault (Token.scanFrom start b) (Token.scanFrom start' b) := by
  unfold Token.scanFrom
  split
  · exact h.scanComment hs
  split
  · exact .bind (h.scanName hs _) fun _ => .pure _
  split
  · exact .bind (h.scanName hs _) fun _ => .pure _
  split
  · exact h.scanString hs
  split
  · exact h.scanLiteral hs
  split
  · exact .bind h.advance fun _ => .pure _
  split
  · exact .bind (h.scanDigits hs) fun _ => .pure _
  split
  · exact h.scanInstruction hs
  · exact .fail (hs _)

end Productions

/-- **Readings in lockstep give the same tokens and the same causes of failure.** -/
theorem scan (h : Lockstep near same fault) : Mirrors near same fault Token.scan Token.scan := by
  intro c c' hnear
  unfold Token.scan
  rw [h.current hnear]
  cases c.current with
  | none => exact .ok hnear
  | some b =>
      have hfrom := h.scanFrom (h.place hnear) b c c' hnear
      dsimp only
      generalize Token.scanFrom c.location b c = r at hfrom ⊢
      generalize Token.scanFrom c'.location b c' = r' at hfrom ⊢
      cases hfrom with
      | ok hnear₁ => exact .ok hnear₁
      | error hnear₁ hsame => exact .error hnear₁ hsame
      | fault hfault => exact .fault hfault

/-- Places that match in errors by equality are equal. -/
theorem location (h : Lockstep near Eq fault) {c c' : Cursor} (hnear : near c c') :
    c'.location = c.location := by
  have hplace := h.place hnear .emptyString
  exact (Option.some.inj (Diagnostic.mk.inj hplace).2).symm

end Lockstep

/-! ## Passes -/

namespace Pass

/-- Passes that a step keeps together stay together up to the end of the source. -/
theorem alike_scan {near : Pass → Pass → Prop} {same : Diagnostic → Diagnostic → Prop}
    {fault : Diagnostic → Prop}
    (hstep : ∀ p p', near p p' → Alike near same fault p.step p'.step) {p p' : Pass}
    (hp : near p p') : Alike near same fault p.scan p'.scan := by
  induction hn : p.cursor.remaining using Nat.strongRecOn generalizing p p' with
  | ind n ih =>
    have hfirst := hstep p p' hp
    rw [scan_eq p, scan_eq p']
    generalize hs : p.step = r at hfirst ⊢
    generalize p'.step = r' at hfirst ⊢
    cases hfirst with
    | @ok more p₁ p₁' hp₁ =>
        cases more with
        | false => exact .ok hp₁
        | true => exact ih _ (hn ▸ remaining_step_lt hs) hp₁ rfl
    | error hp₁ hsame => exact .error hp₁ hsame
    | fault hfault => exact .fault hfault

/-- Two passes that differ in their cursors only, and these match. -/
structure Beside (near : Cursor → Cursor → Prop) (p p' : Pass) : Prop where
  cursor : near p.cursor p'.cursor
  others : p' = { p with cursor := p'.cursor }

variable {near : Cursor → Cursor → Prop} {fault : Diagnostic → Prop}

/-- **A step on both sides.** -/
theorem alike_step (h : Lockstep near Eq fault) {p p' : Pass} (hp : Beside near p p') :
    Alike (Beside near) Eq fault p.step p'.step := by
  obtain ⟨cursor, draft, strict, limit, unused⟩ := p
  obtain ⟨cursor', draft', strict', limit', unused'⟩ := p'
  obtain ⟨hnear, hothers⟩ := hp
  dsimp only at hnear
  cases hothers
  have hread := h.scan cursor cursor' hnear
  rw [step_eq, step_eq]
  dsimp only
  rw [h.location hnear]
  generalize Token.scan cursor = r at hread ⊢
  generalize Token.scan cursor' = r' at hread ⊢
  cases hread with
  | @ok found c c' hnear₁ =>
      cases found with
      | none => exact .ok ⟨hnear₁, rfl⟩
      | some t =>
          dsimp only
          cases draft.put cursor.location t with
          | ok _ d => exact .ok ⟨hnear₁, rfl⟩
          | error e d => exact .error ⟨hnear₁, rfl⟩ rfl
  | error hnear₁ hsame =>
      subst hsame
      exact .error ⟨hnear₁, rfl⟩ rfl
  | fault hfault => exact .fault hfault

/-- A run on both sides. -/
theorem alike_generate (h : Lockstep near Eq fault) {p p' : Pass} (hp : Beside near p p') :
    Alike (Beside near) Eq (fun e => ∃ d, e = .diagnostic d ∧ fault d) p.generate p'.generate := by
  have hscan := alike_scan (fun _ _ => alike_step h) hp
  unfold generate
  generalize p.scan = r at hscan ⊢
  generalize p'.scan = r' at hscan ⊢
  cases hscan with
  | error hp₁ hsame => exact .error hp₁ (congrArg Failure.diagnostic hsame)
  | fault hfault => exact .fault ⟨_, rfl, hfault⟩
  | @ok _ p₁ p₁' hp₁ =>
      obtain ⟨cursor, draft, strict, limit, unused⟩ := p₁
      obtain ⟨cursor', draft', strict', limit', unused'⟩ := p₁'
      obtain ⟨hnear, hothers⟩ := hp₁
      dsimp only at hnear
      cases hothers
      dsimp only
      split
      · exact .error ⟨hnear, rfl⟩ rfl
      · unfold finish
        dsimp only
        cases draft.labels.resolve strict draft.image with
        | error e r => exact .error ⟨hnear, rfl⟩ rfl
        | ok unused' r =>
            have hfile : cursor'.file = cursor.file := congrArg Location.file (h.location hnear)
            rw [hfile]
            exact .ok ⟨hnear, rfl⟩

end Pass

end RomKit
