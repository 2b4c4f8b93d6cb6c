import RomKit.Proofs.StrictMode

/-!
# Text that has no effect

Blanks and comments may be put between two tokens, or taken away, without any
effect but on the places that messages show. The text behind them is arbitrary:
it may be malformed, refer to labels of the text before or define them again.

The argument runs two passes side by side. What stands before is read by both in
the same way, and the blanks and comments are read by one of them without a
trace. From there on the two have the same bytes before them and drafts that
differ in places only (`Pass.Agrees`). Every step keeps it so, and so does the
resolving of labels.
-/

namespace RomKit

open Source Token

/-! ## Forgetting places -/

/-- The definition without its place. -/
def Definition.unplaced (x : Definition) : Definition :=
  { x with location := none }

/-- The reference without its place. -/
def Reference.unplaced (r : Reference) : Reference :=
  { r with location := none }

/-- The cause without the place that it names. -/
def Cause.unplaced : Cause → Cause
  | .duplicateLabel label _ => .duplicateLabel label none
  | cause => cause

theorem Cause.category_unplaced (c : Cause) : c.unplaced.category = c.category := by
  cases c <;> rfl

theorem Cause.message_unplaced (c : Cause) : c.unplaced.message = c.message := by
  cases c <;> rfl

theorem Cause.hint_unplaced {c : Cause} (h : c.category ≠ .duplicateLabel) :
    c.unplaced.hint = c.hint := by
  cases c with
  | duplicateLabel label first => exact absurd rfl h
  | _ => rfl

namespace Labels

/-- The table without places. -/
def unplaced (t : Labels) : Labels where
  definitions := t.definitions.map Definition.unplaced
  references := t.references.map Reference.unplaced

variable (t : Labels)

theorem find?_unplaced (name : String) :
    t.unplaced.find? name = (t.find? name).map Definition.unplaced := by
  unfold find? unplaced
  rw [List.find?_map]
  rfl

theorem lacks_unplaced (name : String) : t.unplaced.lacks name = t.lacks name := by
  unfold lacks
  rw [find?_unplaced, Option.isNone_map]

theorem sites_unplaced (name : String) :
    t.unplaced.sites name = (t.sites name).map Reference.unplaced := by
  unfold sites unplaced
  rw [List.filter_map]
  rfl

theorem isUnused_unplaced (x : Definition) : t.unplaced.isUnused x.unplaced = t.isUnused x := by
  unfold isUnused
  rw [sites_unplaced, List.isEmpty_map]
  rfl

theorem unused_unplaced : t.unplaced.unused = t.unused.map Definition.unplaced := by
  unfold unused
  rw [show t.unplaced.definitions = t.definitions.map Definition.unplaced from rfl,
    List.filter_map]
  refine congrArg (List.map _) (List.filter_congr fun x _ => ?_)
  exact t.isUnused_unplaced x

theorem writesFor_unplaced (length : Int) (x : Definition) :
    t.unplaced.writesFor length x.unplaced = t.writesFor length x := by
  unfold writesFor
  rw [show x.unplaced.name = x.name from rfl, sites_unplaced, List.map_map]
  rfl

theorem writes_unplaced (length : Int) : t.unplaced.writes length = t.writes length := by
  unfold writes
  rw [show t.unplaced.definitions = t.definitions.map Definition.unplaced from rfl,
    List.flatMap_map]
  exact List.flatMap_congr fun x _ => t.writesFor_unplaced length x

theorem addresses_unplaced (length : Int) : t.unplaced.addresses length = t.addresses length := by
  unfold addresses unplaced
  rw [List.map_map]
  rfl

/-- Suggestions are drawn from names alone. -/
theorem cause_undefinedError_unplaced (r : Reference) :
    (t.unplaced.undefinedError r.unplaced).cause = (t.undefinedError r).cause := by
  unfold undefinedError unplaced
  rw [List.map_map]
  rfl

end Labels

/-! ## Drafts that differ in places -/

/-- The same image, and labels that differ in places only. -/
structure Draft.Agrees (d d' : Draft) : Prop where
  image : d'.image = d.image
  labels : d'.labels.unplaced = d.labels.unplaced

/-- Two diagnostics are about the same fault, though not at the same place. -/
def Diagnostic.SameFault (d d' : Diagnostic) : Prop :=
  d'.cause.unplaced = d.cause.unplaced

namespace Draft

variable {d d' : Draft}

theorem Agrees.names (h : Agrees d d') : d'.names = d.names := by
  have hnames : ∀ t : Labels, t.unplaced.definitions.map Definition.name
      = t.definitions.map Definition.name := by
    intro t
    exact List.map_map
  unfold Draft.names
  rw [← hnames d'.labels, ← hnames d.labels, h.labels]

theorem Agrees.add (h : Agrees d d') (t : Token) (start start' : Location) :
    Agrees (d.add ⟨t, d.image.size, start⟩) (d'.add ⟨t, d'.image.size, start'⟩) where
  image := by
    unfold Draft.add
    rw [h.image]
  labels := by
    have hdefinitions := congrArg Labels.definitions h.labels
    have hreferences := congrArg Labels.references h.labels
    unfold Labels.unplaced at hdefinitions hreferences ⊢
    unfold Draft.add Item.definition? Item.reference?
    rw [h.image]
    simp only [List.map_append, Labels.mk.injEq] at hdefinitions hreferences ⊢
    rw [hdefinitions, hreferences]
    cases t.defines? <;> cases t.refersTo? <;> exact ⟨rfl, rfl⟩

/-- **One token is put down on both sides, or refused on both.** -/
theorem Agrees.put (h : Agrees d d') (t : Token) (start start' : Location) :
    Alike Agrees Diagnostic.SameFault (fun _ => False) (d.put start t) (d'.put start' t) := by
  rcases d.put_cases start t with ⟨hfresh, hput⟩ | ⟨name, first, ht, hfirst, hput⟩
  · rw [hput, put_of_fresh start' (by rw [h.names]; exact hfresh)]
    exact .ok (h.add t start start')
  · -- the other side knows the name too, from another place perhaps
    have hknown : d'.labels.unplaced.find? name = d.labels.unplaced.find? name := by
      rw [h.labels]
    rw [Labels.find?_unplaced, Labels.find?_unplaced, hfirst, Option.map_some,
      Option.map_eq_some_iff] at hknown
    obtain ⟨first', hfirst', -⟩ := hknown
    rw [hput, put_of_known start' ht hfirst']
    exact .error h rfl

/-- Blanks and comments are put down without a trace. -/
theorem add_of_inert (d : Draft) {t : Token} (h : (∃ b, t = .blank b) ∨ ∃ text, t = .comment text)
    (offset : Nat) (place : Location) : d.add ⟨t, offset, place⟩ = d := by
  rcases h with ⟨b, rfl⟩ | ⟨text, rfl⟩
  · simp [add, emit, Item.definition?, Item.reference?, Item.event?, defines?, refersTo?]
  · simp [add, emit, Item.definition?, Item.reference?, Item.event?, defines?, refersTo?]

end Draft

/-! ## Passes with the same text before them -/

namespace Cursor

/-- Two cursors with the same bytes to come. -/
inductive SameAhead (file : RawText) : Cursor → Cursor → Prop where
  | intro {before before' rest : List UInt8} :
      SameAhead file (between file before rest) (between file before' rest)

theorem lockstep_sameAhead (file : RawText) :
    Lockstep (SameAhead file) Diagnostic.SameFault fun _ => False where
  current := by
    intro c c' h
    cases h
    rfl
  place := by
    intro c c' _ cause
    rfl
  advance := by
    intro c c' h
    cases h with
    | @intro before before' rest =>
        cases rest with
        | nil => exact .ok .intro
        | cons b rest =>
            rw [advance_between_cons, advance_between_cons]
            exact .ok .intro

end Cursor

namespace Pass

open Cursor

/-- Two passes that have the same bytes before them and differ in places only. -/
structure Agrees (file : RawText) (p p' : Pass) : Prop where
  cursor : SameAhead file p.cursor p'.cursor
  draft : p.draft.Agrees p'.draft
  strict : p'.strict = p.strict
  limit : p'.limit = p.limit
  unused : p'.unused.map Definition.unplaced = p.unused.map Definition.unplaced

variable {file : RawText} {p p' : Pass}

/-- **A step keeps the agreement.** -/
theorem Agrees.step (h : Agrees file p p') :
    Alike (Agrees file) Diagnostic.SameFault (fun _ => False) p.step p'.step := by
  have hread := (lockstep_sameAhead file).scan p.cursor p'.cursor h.cursor
  rw [Pass.step_eq, Pass.step_eq]
  generalize Token.scan p.cursor = r at hread ⊢
  generalize Token.scan p'.cursor = r' at hread ⊢
  cases hread with
  | fault hfault => exact hfault.elim
  | error hcursor hsame => exact .error ⟨hcursor, h.draft, h.strict, h.limit, h.unused⟩ hsame
  | @ok found c c' hcursor =>
      cases found with
      | none => exact .ok ⟨hcursor, h.draft, h.strict, h.limit, h.unused⟩
      | some t =>
          have hput := h.draft.put t p.cursor.location p'.cursor.location
          dsimp only
          generalize p.draft.put p.cursor.location t = s at hput ⊢
          generalize p'.draft.put p'.cursor.location t = s' at hput ⊢
          cases hput with
          | fault hfault => exact hfault.elim
          | error hdraft hsame =>
              exact .error ⟨hcursor, hdraft, h.strict, h.limit, h.unused⟩ hsame
          | ok hdraft => exact .ok ⟨hcursor, hdraft, h.strict, h.limit, h.unused⟩

/-- Two failures are diagnostics about the same fault. -/
inductive SameFailure : Failure → Failure → Prop where
  | diagnostic {d d' : Diagnostic} :
      d.SameFault d' → SameFailure (.diagnostic d) (.diagnostic d')

/-- The first undefined reference is the same on both sides, but for its place. -/
theorem Agrees.head?_undefined (h : Agrees file p p') (hp : p.Sound) (hp' : p'.Sound) :
    p'.draft.labels.undefined.head?.map Reference.unplaced
      = p.draft.labels.undefined.head?.map Reference.unplaced := by
  have hfirst : ∀ q : Pass, q.Sound → q.draft.labels.undefined.head?.map Reference.unplaced
      = q.draft.labels.unplaced.references.find? fun r =>
          q.draft.labels.unplaced.lacks r.name := by
    intro q hq
    rw [hq.draft.head?_undefined,
      show q.draft.labels.unplaced.references
        = q.draft.labels.references.map Reference.unplaced from rfl, List.find?_map]
    refine congrArg (Option.map _) (congrArg (fun f => List.find? f _) (funext fun r => ?_))
    exact (Labels.lacks_unplaced _ _).symm
  rw [hfirst p' hp', hfirst p hp, h.draft.labels]

/-- **Resolving labels keeps the agreement**, and gives one image. -/
theorem Agrees.finish (h : Agrees file p p') (hp : p.Sound) (hp' : p'.Sound)
    (hsize : p.draft.image.size ≤ addressSpace) :
    Alike (Agrees file) SameFailure (fun _ => False) p.finish p'.finish := by
  have hsize' : p'.draft.image.size ≤ addressSpace := by
    rw [h.draft.image]
    exact hsize
  have hundefined := h.head?_undefined hp hp'
  unfold Pass.finish
  rcases Labels.resolve_cases_both (hp.draft.fits hsize) (hp'.draft.fits hsize') h.strict
    (by simpa using (congrArg Option.isSome hundefined).symm) with
    ⟨-, r, r', hr, hr', hres, hres'⟩ | ⟨-, log, log', hres, hres'⟩
  · rw [hr, hr', Option.map_some, Option.map_some, Option.some.injEq] at hundefined
    rw [hres, hres']
    refine .error ⟨h.cursor, ⟨h.draft.image, h.draft.labels⟩, h.strict, h.limit, h.unused⟩
      (.diagnostic ?_)
    unfold Diagnostic.SameFault
    rw [← Labels.cause_undefinedError_unplaced,
      ← Labels.cause_undefinedError_unplaced p.draft.labels, h.draft.labels, hundefined]
  · have himage : Write.applyAll p'.draft.image (p'.draft.labels.writes p'.draft.image.size)
        = Write.applyAll p.draft.image (p.draft.labels.writes p.draft.image.size) := by
      rw [← Labels.writes_unplaced, ← Labels.writes_unplaced p.draft.labels, h.draft.labels,
        h.draft.image]
    rw [hres, hres', himage]
    refine .ok ⟨h.cursor, ⟨rfl, h.draft.labels⟩, h.strict, h.limit, ?_⟩
    show p'.draft.labels.unused.map _ = p.draft.labels.unused.map _
    rw [← Labels.unused_unplaced, ← Labels.unused_unplaced, h.draft.labels]

/-- Whole runs end alike. -/
theorem Agrees.generate (h : Agrees file p p') (hp : p.Sound) (hp' : p'.Sound) :
    Alike (Agrees file) SameFailure (fun _ => False) p.generate p'.generate := by
  have hscan := alike_scan (fun _ _ => Agrees.step) h
  unfold Pass.generate
  generalize hr : p.scan = r at hscan ⊢
  generalize hr' : p'.scan = r' at hscan ⊢
  cases hscan with
  | fault hfault => exact hfault.elim
  | error hagrees hsame => exact .error hagrees (.diagnostic hsame)
  | @ok _ q q' hagrees =>
      have hq := hp.scanned hr
      have hq' := hp'.scanned hr'
      dsimp only
      rw [hagrees.limit, hagrees.draft.image]
      split
      · exact .error hagrees (.diagnostic rfl)
      · next hfits =>
        rw [hq.limit] at hfits
        exact hagrees.finish hq hq' (by omega)

/-- The symbols are the same on both sides. -/
theorem Agrees.symbols (h : Agrees file p p') : p'.symbols = p.symbols := by
  unfold Pass.symbols
  rw [← Labels.addresses_unplaced, ← Labels.addresses_unplaced p.draft.labels, h.draft.labels,
    h.draft.image]

end Pass

/-! ## Reading past some text -/

/-- Blanks and comments, one after another. -/
inductive Inert : List UInt8 → Prop where
  | nil : Inert []
  | blank {b : UInt8} {rest : List UInt8} : isSpace b = true → Inert rest → Inert (b :: rest)
  | comment {text rest : List UInt8} :
      closeParen ∉ text → Inert rest → Inert (openParen :: (text ++ [closeParen]) ++ rest)

/-- In a source that ends in a blank every lexeme stays one, whatever is put behind it. -/
theorem Spells.before_anything {text rest : List UInt8} {t : Token} (h : Spells text rest t)
    (hend : (text ++ rest).getLast?.all isSpace = true) (tail : List UInt8) :
    Spells text (rest ++ tail) t := by
  cases rest with
  | cons b rest => exact h.of_head?_eq rfl
  | nil =>
      -- the lexeme is the last one, so it ends in a blank and is a blank
      rw [List.append_nil] at hend
      cases hlast : text.getLast? with
      | none => exact absurd (List.getLast?_eq_none_iff.mp hlast) (Token.spells_ne_nil h)
      | some b =>
          rw [hlast] at hend
          rcases h.of_blank_mem hend (List.mem_of_getLast? hlast) with rfl | ⟨inner, -, rfl⟩
          · obtain ⟨-, -, rfl⟩ := spells_unique h (.blank hend) rfl
            exact .blank hend
          · rw [List.getLast?_cons, List.getLast?_append] at hlast
            cases hlast
            cases hend

namespace Pass

open Cursor

variable (file : RawText) (strict : Bool) (limit : Int) (unused : List Definition)

/-- Lexemes up to a blank are read and put down, whatever comes behind them. -/
theorem scan_past_splits {front : List UInt8} {lexemes : List Lexeme} (h : Splits front lexemes)
    (tail : List UInt8) :
    ∀ (before : List UInt8) (draft : Draft), front.getLast?.all isSpace = true →
      (draft.names ++ definedNames lexemes).Nodup →
      (Pass.mk (between file before (front ++ tail)) draft strict limit unused).scan
        = (Pass.mk (between file (before ++ front) tail)
            (draft.addAll (layOut file before draft.image.size lexemes)) strict limit
            unused).scan := by
  induction h with
  | nil =>
      intro before draft _ _
      rw [List.nil_append, List.append_nil]
      rfl
  | @cons text rest t lexemes hs _ ih =>
      intro before draft hend hnodup
      rw [definedNames_cons, ← List.append_assoc] at hnodup
      have hrest : rest.getLast?.all isSpace = true := by
        rw [List.getLast?_append] at hend
        cases hlast : rest.getLast? with
        | none => rfl
        | some b =>
            rw [hlast] at hend
            exact hend
      rw [List.append_assoc, scan_eq, step_of_spells file before (hs.before_anything hend tail)
        (Draft.fresh_of_nodup hnodup)]
      dsimp only
      rw [ih (before ++ text) _ hrest (by rw [Draft.names_add]; exact hnodup), Draft.size_add,
        List.append_assoc]
      rfl

/-- A blank or a comment moves the cursor, and nothing else changes. -/
theorem scan_past_one {text rest : List UInt8} {t : Token} (h : Spells text rest t)
    (ht : (∃ b, t = .blank b) ∨ ∃ inner, t = .comment inner) (before : List UInt8)
    (draft : Draft) :
    (Pass.mk (between file before (text ++ rest)) draft strict limit unused).scan
      = (Pass.mk (between file (before ++ text) rest) draft strict limit unused).scan := by
  have hfresh : ∀ name, t.defines? = some name → name ∉ draft.names := by
    intro name hname
    rcases ht with ⟨b, rfl⟩ | ⟨inner, rfl⟩
    · cases hname
    · cases hname
  rw [scan_eq, step_of_spells file before h hfresh]
  dsimp only
  rw [draft.add_of_inert ht]

/-- Blanks and comments are read without a trace. -/
theorem scan_past_inert {inert : List UInt8} (h : Inert inert) (tail : List UInt8) :
    ∀ (before : List UInt8) (draft : Draft),
      (Pass.mk (between file before (inert ++ tail)) draft strict limit unused).scan
        = (Pass.mk (between file (before ++ inert) tail) draft strict limit unused).scan := by
  induction h with
  | nil =>
      intro before draft
      rw [List.nil_append, List.append_nil]
  | @blank b rest hb _ ih =>
      intro before draft
      rw [show b :: rest = [b] ++ rest from rfl, List.append_assoc,
        scan_past_one _ _ _ _ (.blank hb) (Or.inl ⟨b, rfl⟩), ih, List.append_assoc]
  | @comment text rest hclose _ ih =>
      intro before draft
      rw [List.append_assoc, scan_past_one _ _ _ _ (.comment hclose) (Or.inr ⟨text, rfl⟩), ih,
        List.append_assoc]

theorem generate_of_scan_eq {p q : Pass} (h : p.scan = q.scan) : p.generate = q.generate := by
  unfold generate
  rw [h]

end Pass

/-! ## Assembling -/

/-- Two results are the same but for places: two builds with the same image, the same symbols and
the same unused labels, or two diagnostics of one kind with one message. They give the same hint,
unless that names a place. -/
inductive SameButPlaces : Except Failure Build → Except Failure Build → Prop where
  | built {b b' : Build} :
      b'.image = b.image → b'.symbols = b.symbols →
      b'.unused.map Definition.unplaced = b.unused.map Definition.unplaced →
      SameButPlaces (.ok b) (.ok b')
  | rejected {d d' : Diagnostic} :
      d'.cause.category = d.cause.category → d'.cause.message = d.cause.message →
      (d.cause.category ≠ .duplicateLabel → d'.cause.hint = d.cause.hint) →
      SameButPlaces (.error (.diagnostic d)) (.error (.diagnostic d'))

theorem Diagnostic.SameFault.sameButPlaces {d d' : Diagnostic} (h : d.SameFault d') :
    SameButPlaces (.error (.diagnostic d)) (.error (.diagnostic d')) := by
  unfold SameFault at h
  have hcategory : d'.cause.category = d.cause.category := by
    rw [← Cause.category_unplaced, h, Cause.category_unplaced]
  refine .rejected hcategory ?_ fun hother => ?_
  · rw [← Cause.message_unplaced, h, Cause.message_unplaced]
  · rw [← Cause.hint_unplaced hother, ← Cause.hint_unplaced (hcategory.symm ▸ hother), h]

/--
**Blanks and comments between tokens have no effect.** Take some text that is empty or ends in a
blank and is read to its end by itself, and any text at all to follow it. With or without blanks
and comments between the two, in either mode, they are assembled to the same image with the same
symbols and the same unused labels, or they are rejected for the same reason.
-/
theorem assemble_with_inert_text (strict : Bool) (file : RawText) {front inert : List UInt8}
    (rest : List UInt8) (hend : front.getLast?.all isSpace = true)
    (hreads : ∃ p p', Pass.start file (.ofBytes front) strict addressSpace = .ok p
      ∧ p.scan = .ok () p')
    (hinert : Inert inert) :
    SameButPlaces (assemble strict file (.ofBytes (front ++ inert ++ rest))).1
      (assemble strict file (.ofBytes (front ++ rest))).1 := by
  obtain ⟨p, p', hstart, hscan⟩ := hreads
  rw [Pass.start_ofBytes] at hstart
  cases hstart
  obtain ⟨lexemes, hsplits, hnames, -⟩ := Pass.scan_fresh_eq_ok_iff.mp hscan
  -- both passes are followed to the text behind, where they agree
  have hwith : (Pass.fresh file (front ++ inert ++ rest) strict).scan
      = (Pass.mk (Cursor.between file (front ++ inert) rest) (draftOf file lexemes) strict
          addressSpace []).scan := by
    rw [Pass.fresh, List.append_assoc,
      Pass.scan_past_splits file strict _ _ hsplits _ [] .empty hend hnames,
      Pass.scan_past_inert file strict _ _ hinert]
    rfl
  have hwithout : (Pass.fresh file (front ++ rest) strict).scan
      = (Pass.mk (Cursor.between file front rest) (draftOf file lexemes) strict addressSpace
          []).scan := by
    rw [Pass.fresh, Pass.scan_past_splits file strict _ _ hsplits _ [] .empty hend hnames]
    rfl
  have hsound := Pass.sound_draftOf file hsplits hnames
  have hagrees : Pass.Agrees file
      ⟨Cursor.between file (front ++ inert) rest, draftOf file lexemes, strict, addressSpace, []⟩
      ⟨Cursor.between file front rest, draftOf file lexemes, strict, addressSpace, []⟩ :=
    ⟨.intro, ⟨rfl, rfl⟩, rfl, rfl, rfl⟩
  have hrun := hagrees.generate ⟨hsound, rfl⟩ ⟨hsound, rfl⟩
  rw [← Pass.generate_of_scan_eq hwith, ← Pass.generate_of_scan_eq hwithout] at hrun
  generalize hr : (Pass.fresh file (front ++ inert ++ rest) strict).generate = r at hrun
  generalize hr' : (Pass.fresh file (front ++ rest) strict).generate = r' at hrun
  cases hrun with
  | fault hfault => exact hfault.elim
  | error _ hsame =>
      cases hsame with
      | diagnostic hsame =>
          rw [assemble_of_generate_error hr, assemble_of_generate_error hr']
          exact hsame.sameButPlaces
  | ok hagrees =>
      rw [Pass.assemble_of_generate hr, Pass.assemble_of_generate hr']
      exact .built rfl hagrees.symbols hagrees.unused

/-- After `;b` and a blank, a comment with a new line in it is inert: `@b @u HLT` behind it gives
the same image, with the reference to `b` resolved, and the unused label `u` on the second line.
After `@a` and a blank, before `@a` again, the comment only moves the error to the second line. -/
theorem assemble_with_inert_text_between :
    Inert [0x28, 0x0A, 0x40, 0x29]
      ∧ ((assemble true "x" (.ofBytes ([0x3B, 0x62, 0x20] ++ [0x28, 0x0A, 0x40, 0x29]
            ++ bytesOf "@b @u HLT"))).1
          = .ok ⟨#[0x60, 0x00, 0x7F, 0xFF, 0xFF, 0x03], [("b", 0x7FFFFF), ("u", 0x7FFFFF)], "x",
            [⟨"u", 5, some ⟨"x", 2, 6⟩⟩]⟩
        ∧ (assemble true "x" (.ofBytes ([0x3B, 0x62, 0x20] ++ bytesOf "@b @u HLT"))).1
          = .ok ⟨#[0x60, 0x00, 0x7F, 0xFF, 0xFF, 0x03], [("b", 0x7FFFFF), ("u", 0x7FFFFF)], "x",
            [⟨"u", 5, some ⟨"x", 1, 7⟩⟩]⟩
        ∧ SameButPlaces
            (assemble true "x" (.ofBytes ([0x3B, 0x62, 0x20] ++ [0x28, 0x0A, 0x40, 0x29]
              ++ bytesOf "@b @u HLT"))).1
            (assemble true "x" (.ofBytes ([0x3B, 0x62, 0x20] ++ bytesOf "@b @u HLT"))).1)
      ∧ ((assemble true "x" (.ofBytes ([0x40, 0x61, 0x20] ++ [0x28, 0x0A, 0x40, 0x29]
            ++ bytesOf "@a"))).1
          = .error (.diagnostic ⟨.duplicateLabel "a" (some ⟨"x", 1, 1⟩), some ⟨"x", 2, 3⟩⟩)
        ∧ (assemble true "x" (.ofBytes ([0x40, 0x61, 0x20] ++ bytesOf "@a"))).1
          = .error (.diagnostic ⟨.duplicateLabel "a" (some ⟨"x", 1, 1⟩), some ⟨"x", 1, 4⟩⟩)
        ∧ SameButPlaces
            (assemble true "x" (.ofBytes ([0x40, 0x61, 0x20] ++ [0x28, 0x0A, 0x40, 0x29]
              ++ bytesOf "@a"))).1
            (assemble true "x" (.ofBytes ([0x40, 0x61, 0x20] ++ bytesOf "@a"))).1) := by
  have hinert : Inert [0x28, 0x0A, 0x40, 0x29] :=
    @Inert.comment [0x0A, 0x40] [] (by decide) .nil
  refine ⟨hinert, ⟨by decide +kernel, by decide +kernel, ?_⟩,
    by decide +kernel, by decide +kernel, ?_⟩
  · have hname : Source.Run isSymbol [0x62] [0x20] :=
      ⟨List.cons_ne_nil _ _, List.forall_mem_singleton.mpr (by decide), by decide⟩
    have hsplits : Splits [0x3B, 0x62, 0x20]
        [⟨[0x3B, 0x62], .reference (textOf [0x62])⟩, ⟨[0x20], .blank 0x20⟩] :=
      .cons (.reference hname) (.cons (.blank (by decide)) .nil)
    exact assemble_with_inert_text true "x" _ (by decide)
      ⟨_, _, Pass.start_ofBytes "x" _ true,
        Pass.scan_fresh_eq_ok_iff.mpr ⟨_, hsplits, List.Pairwise.nil, rfl⟩⟩ hinert
  · have hname : Source.Run isSymbol [0x61] [0x20] :=
      ⟨List.cons_ne_nil _ _, List.forall_mem_singleton.mpr (by decide), by decide⟩
    have hsplits : Splits [0x40, 0x61, 0x20]
        [⟨[0x40, 0x61], .definition (textOf [0x61])⟩, ⟨[0x20], .blank 0x20⟩] :=
      .cons (.definition hname) (.cons (.blank (by decide)) .nil)
    exact assemble_with_inert_text true "x" _ (by decide)
      ⟨_, _, Pass.start_ofBytes "x" _ true,
        Pass.scan_fresh_eq_ok_iff.mpr ⟨_, hsplits, List.pairwise_singleton _ _, rfl⟩⟩ hinert

end RomKit
