import RomKit.Assembly.Assembler
import RomKit.Proofs.PassInvariant
import RomKit.Proofs.Recognition

/-!
# What the assembler accepts

A pass over a source in memory reads it to the end exactly when the source
splits into lexemes and no name is defined twice; the draft then holds the items
of the lexemes, each where its predecessors end (`scan_fresh_eq_ok_iff`). Without
strict mode nothing but the size of the image can go wrong afterwards, because
every address can be written.
-/

namespace RomKit

namespace Pass

open Cursor

/-- A pass over a source in memory, at its start. -/
def fresh (file : RawText) (source : List UInt8) (strict : Bool) : Pass :=
  ⟨Cursor.between file [] source, .empty, strict, addressSpace, []⟩

theorem start_ofBytes (file : RawText) (source : List UInt8) (strict : Bool) :
    Pass.start file (.ofBytes source) strict addressSpace = .ok (fresh file source strict) := by
  unfold Pass.start
  rw [Cursor.start_ofBytes]
  rfl

theorem sound_fresh (file : RawText) (source : List UInt8) (strict : Bool) :
    (fresh file source strict).Sound :=
  ⟨Draft.sound_empty, rfl⟩

/-! ## Reading to the end -/

/-- A lexeme that defines no known name is read and put down. -/
theorem step_of_spells (file : RawText) (before : List UInt8) {text rest : List UInt8} {t : Token}
    (h : Spells text rest t) {draft : Draft}
    (hfresh : ∀ name, t.defines? = some name → name ∉ draft.names) (strict : Bool) (limit : Int)
    (unused : List Definition) :
    (Pass.mk (Cursor.between file before (text ++ rest)) draft strict limit unused).step
      = .ok true ⟨Cursor.between file (before ++ text) rest,
          draft.add ⟨t, draft.image.size, Source.placeAfter file before⟩, strict, limit,
          unused⟩ := by
  rw [step_eq]
  dsimp only
  rw [Token.scan_complete file before rest h]
  dsimp only
  rw [Draft.put_of_fresh _ hfresh]
  rfl

/-- Lexemes that define new names only are read and put down one after another. -/
theorem scan_of_splits (file : RawText) (strict : Bool) (limit : Int) (unused : List Definition)
    {rest : List UInt8} {lexemes : List Lexeme} (h : Splits rest lexemes) :
    ∀ (before : List UInt8) (draft : Draft), (draft.names ++ definedNames lexemes).Nodup →
      (Pass.mk (Cursor.between file before rest) draft strict limit unused).scan
        = .ok () ⟨Cursor.between file (before ++ rest) [],
            draft.addAll (layOut file before draft.image.size lexemes), strict, limit, unused⟩ := by
  induction h with
  | nil =>
      intro before draft _
      rw [scan_eq, List.append_nil]
      rfl
  | @cons text rest t lexemes hs _ ih =>
      intro before draft hnodup
      rw [definedNames_cons, ← List.append_assoc] at hnodup
      have hfresh := Draft.fresh_of_nodup hnodup
      rw [scan_eq, step_of_spells file before hs hfresh]
      dsimp only
      rw [ih (before ++ text) _ (by rw [Draft.names_add]; exact hnodup), Draft.size_add,
        List.append_assoc]
      rfl

/-- Whatever is read to the end is a sequence of lexemes that define each name once. -/
theorem splits_of_scan {file : RawText} {strict : Bool} {limit : Int} {unused : List Definition}
    {p' : Pass} : ∀ (n : Nat) (rest before : List UInt8) (draft : Draft),
    rest.length ≤ n → draft.names.Nodup →
    (Pass.mk (Cursor.between file before rest) draft strict limit unused).scan = .ok () p' →
    ∃ lexemes, Splits rest lexemes ∧ (draft.names ++ definedNames lexemes).Nodup := by
  intro n
  -- on a bound for what is left: no lexeme is empty, so the bytes behind one are fewer
  induction n with
  | zero =>
      intro rest before draft hlen hnodup _
      rw [List.length_eq_zero_iff.mp (Nat.le_zero.mp hlen)]
      exact ⟨[], .nil, by simpa [definedNames] using hnodup⟩
  | succ n ih =>
      intro rest before draft hlen hnodup hscan
      rw [scan_eq] at hscan
      rcases step_cases (Pass.mk (Cursor.between file before rest) draft strict limit unused) with
        ⟨e, c, -, hs⟩ | ⟨c, hread, -⟩ | ⟨_, c, _, _, -, -, -, hs⟩ | ⟨t, c, hread, hfresh, hs⟩
      · rw [hs] at hscan
        cases hscan
      · obtain ⟨rfl, -⟩ := Token.scan_between_none _ _ _ hread
        exact ⟨[], .nil, by simpa [definedNames] using hnodup⟩
      · rw [hs] at hscan
        cases hscan
      · obtain ⟨text, after, rfl, hspell, rfl⟩ := Token.scan_sound _ _ _ hread
        rw [hs] at hscan
        have hpos := List.length_pos_iff.mpr (Token.spells_ne_nil hspell)
        rw [List.length_append] at hlen
        obtain ⟨lexemes, hsplits, hnames⟩ := ih after (before ++ text) _ (by omega)
          (Draft.nodup_names_add hnodup hfresh) hscan
        rw [Draft.names_add, List.append_assoc] at hnames
        refine ⟨⟨text, t⟩ :: lexemes, .cons hspell hsplits, ?_⟩
        rw [definedNames_cons]
        exact hnames

/-- **A source is read to the end exactly if it splits into lexemes that define each name once.** -/
theorem scan_fresh_eq_ok_iff {file : RawText} {strict : Bool} {source : List UInt8} {p' : Pass} :
    (fresh file source strict).scan = .ok () p'
      ↔ ∃ lexemes, Splits source lexemes ∧ (definedNames lexemes).Nodup
        ∧ p' = ⟨Cursor.between file source [], draftOf file lexemes, strict, addressSpace, []⟩ := by
  constructor
  · intro hscan
    obtain ⟨lexemes, hsplits, hnames⟩ :=
      splits_of_scan source.length source [] .empty (Nat.le_refl _) List.Pairwise.nil hscan
    have hread := scan_of_splits file strict addressSpace [] hsplits [] .empty hnames
    rw [show (Pass.mk (Cursor.between file [] source) .empty strict addressSpace [])
      = fresh file source strict from rfl, hscan] at hread
    injection hread with _ hp
    exact ⟨lexemes, hsplits, hnames, hp⟩
  · rintro ⟨lexemes, hsplits, hnames, rfl⟩
    exact scan_of_splits file strict addressSpace [] hsplits [] .empty hnames

/-- Lexemes that define each name once leave a draft that fits together. -/
theorem sound_draftOf (file : RawText) {source : List UInt8} {lexemes : List Lexeme}
    (hsplits : Splits source lexemes) (hnames : (definedNames lexemes).Nodup) :
    (draftOf file lexemes).Sound := by
  -- it is the draft that reading the source to the end leaves behind
  have hsound := scan_keeps sound_step _ (sound_fresh file source false)
  rw [scan_fresh_eq_ok_iff.mpr ⟨lexemes, hsplits, hnames, rfl⟩] at hsound
  exact hsound.draft

/-! ## Assembling -/

/-- A source of lexemes that define each name once is assembled if it fits into memory; strict mode
asks for the definitions of all names as well. -/
theorem generate_of_splits (file : RawText) {strict : Bool} {source : List UInt8}
    {lexemes : List Lexeme} (hsplits : Splits source lexemes)
    (hnames : (definedNames lexemes).Nodup) (hsize : totalSize lexemes ≤ addressSpace)
    (hdef : strict = true → (draftOf file lexemes).labels.undefined = []) :
    ∃ p', (fresh file source strict).generate
        = .ok (Write.applyAll (draftOf file lexemes).image
            ((draftOf file lexemes).labels.writes (totalSize lexemes))) p'
      ∧ p'.draft.labels = (draftOf file lexemes).labels
      ∧ p'.draft.image.size = totalSize lexemes
      ∧ p'.unused = (draftOf file lexemes).labels.unused := by
  have hscan : (fresh file source strict).scan
      = .ok () ⟨Cursor.between file source [], draftOf file lexemes, strict, addressSpace, []⟩ :=
    scan_fresh_eq_ok_iff.mpr ⟨lexemes, hsplits, hnames, rfl⟩
  have hlen := size_draftOf file lexemes
  have hfits := (sound_draftOf file hsplits hnames).fits (by rw [hlen]; exact hsize)
  rcases generate_cases (fresh file source strict) with
    ⟨_, _, hs, -⟩ | ⟨p', hs, hbig, -⟩ | ⟨p', hs, -, hgen⟩
  · rw [hscan] at hs
    cases hs
  · rw [hscan] at hs
    cases hs
    simp only [hlen] at hbig
    omega
  · rw [hscan] at hs
    cases hs
    rw [hgen]
    unfold finish
    dsimp only
    rcases Labels.resolve_cases strict hfits with ⟨hstrict, r, hr, -⟩ | ⟨-, log, hres⟩
    · rw [hdef hstrict] at hr
      cases hr
    · rw [hres, hlen]
      refine ⟨_, rfl, rfl, ?_, rfl⟩
      show (Write.applyAll _ _).size = _
      rw [Write.size_applyAll, hlen]

/-- The result of assembling a source in memory is what its pass ends with. -/
theorem assemble_of_generate {file : RawText} {strict : Bool} {source : List UInt8} {image : Image}
    {p' : Pass} (h : (fresh file source strict).generate = .ok image p') :
    (assemble strict file (.ofBytes source)).1 = .ok ⟨image, p'.symbols, file, p'.unused⟩ := by
  unfold assemble
  rw [start_ofBytes]
  dsimp only
  rw [h]

/-- What is assembled splits into lexemes that define each name once and fit into memory. -/
theorem splits_of_generate {file : RawText} {strict : Bool} {source : List UInt8} {image : Image}
    {p' : Pass} (h : (fresh file source strict).generate = .ok image p') :
    ∃ lexemes, Splits source lexemes ∧ (definedNames lexemes).Nodup
      ∧ totalSize lexemes ≤ addressSpace := by
  rcases generate_cases (fresh file source strict) with
    ⟨_, _, -, hgen⟩ | ⟨_, -, -, hgen⟩ | ⟨p₁, hs, hle, -⟩
  · rw [hgen] at h
    cases h
  · rw [hgen] at h
    cases h
  · obtain ⟨lexemes, hsplits, hnames, rfl⟩ := scan_fresh_eq_ok_iff.mp hs
    simp only [size_draftOf] at hle
    exact ⟨lexemes, hsplits, hnames, Int.ofNat_le.mp hle⟩

/--
**The assembler accepts exactly its grammar.** Without strict mode a source in memory is assembled
if and only if it is a concatenation of lexemes, no label is defined by two of them, and what they
emit fits into memory; and there is only one such way to take it apart.
-/
theorem generate_succeeds_iff_grammatical (file : RawText) (source : List UInt8) :
    ((∃ p image p', Pass.start file (.ofBytes source) false addressSpace = .ok p
        ∧ p.generate = .ok image p')
      ↔ ∃ lexemes, Splits source lexemes ∧ (definedNames lexemes).Nodup
        ∧ totalSize lexemes ≤ addressSpace)
    ∧ ∀ xs ys, Splits source xs → Splits source ys → xs = ys := by
  refine ⟨⟨?_, ?_⟩, fun xs ys => splits_unique⟩
  · rintro ⟨p, image, p', hstart, hgen⟩
    rw [start_ofBytes] at hstart
    cases hstart
    exact splits_of_generate hgen
  · rintro ⟨lexemes, hsplits, hnames, hsize⟩
    obtain ⟨p', hgen, -⟩ := generate_of_splits file hsplits hnames hsize
      fun hstrict : false = true => Bool.noConfusion hstrict
    exact ⟨_, _, p', start_ofBytes file source false, hgen⟩

end Pass

end RomKit
