import RomKit.Proofs.StrictMode

/-!
# Where errors point

The place of an error is taken before the token at fault is read, however far the
cursor gets into it. On a source in memory this place is where the lexemes before
the token end, so an error points behind text that is in order by itself and at
the first text that is not (`scan_fresh_error_cases`).

Strict mode reports a reference when the whole source has been read. The place
recorded with the reference is again where the lexemes before it end.
-/

namespace RomKit

open Source Token

/-! ## A place tells the byte -/

namespace Source

variable {file : RawText} {before more : List UInt8}

theorem columnAfter_append (before : List UInt8) (h : (0x0A : UInt8) ∉ more) :
    columnAfter (before ++ more) = more.length + columnAfter before := by
  have hline : ∀ b ∈ more.reverse, (b != 0x0A) = true := by
    intro b hb
    rw [bne_iff_ne]
    exact fun heq => h (heq ▸ List.mem_reverse.mp hb)
  unfold columnAfter
  rw [List.reverse_append, List.takeWhile_append_of_pos hline, List.length_append,
    List.length_reverse]
  omega

/-- More text leads to another place. -/
theorem eq_nil_of_placeAfter (h : placeAfter file (before ++ more) = placeAfter file before) :
    more = [] := by
  obtain ⟨-, hline, hcolumn⟩ := Location.mk.inj h
  have hcount : lineAfter (before ++ more) = lineAfter before := Int.ofNat_inj.mp hline
  unfold lineAfter at hcount
  rw [List.count_append] at hcount
  have hnone : more.count 0x0A = 0 := by omega
  have hlength := columnAfter_append before (List.count_eq_zero.mp hnone)
  rw [Int.ofNat_inj.mp hcolumn] at hlength
  exact List.length_eq_zero_iff.mp (by omega)

/-- **No two bytes of a source have the same place.** -/
theorem placeAfter_injective {before' rest rest' : List UInt8}
    (h : before ++ rest = before' ++ rest')
    (hplace : placeAfter file before = placeAfter file before') : before = before' := by
  rcases List.append_eq_append_iff.mp h with ⟨more, rfl, -⟩ | ⟨more, rfl, -⟩
  · rw [eq_nil_of_placeAfter hplace.symm, List.append_nil]
  · rw [eq_nil_of_placeAfter hplace, List.append_nil]

end Source

/-! ## Tokens that cannot be read -/

/-- The cause lies in the text of a single token. -/
def Cause.isLexical (c : Cause) : Bool :=
  match c.category with
  | .malformed | .unknownInstruction | .refusedModifier => true
  | _ => false

/-- Something is wrong with the token that starts at a place. -/
structure Diagnostic.Blames (d : Diagnostic) (start : Location) : Prop where
  location : d.location = some start
  lexical : d.cause.isLexical = true

theorem Scan.bind_error {α β : Type} {x : Scan α} {f : α → Scan β} {c c' : Cursor}
    {d : Diagnostic} (h : (x >>= f) c = .error d c') :
    x c = .error d c' ∨ ∃ a c₁, x c = .ok a c₁ ∧ f a c₁ = .error d c' := by
  cases hx : x c with
  | ok a c₁ =>
      rw [Scan.bind_of_ok hx] at h
      exact Or.inr ⟨a, c₁, rfl, h⟩
  | error d₁ c₁ =>
      rw [Scan.bind_of_error hx] at h
      cases h
      exact Or.inl rfl

namespace Token

open Cursor Scan

variable {start : Location} {file : RawText} {before rest : List UInt8} {d : Diagnostic}
  {c' : Cursor}

theorem scanName_error {use : LabelUse} {b : UInt8}
    (h : scanName start use (between file before (b :: rest)) = .error d c') : d.Blames start := by
  rw [scanName_between] at h
  split at h
  · cases h
    exact ⟨rfl, rfl⟩
  · cases h

theorem scanDigits_error (h : scanDigits start (between file before rest) = .error d c') :
    d.Blames start := by
  have hrun := takeWhile_between isHexDigit file rest before
  by_cases hlong : 8 < (rest.takeWhile isHexDigit).length
  · obtain ⟨c₁, hfails⟩ := scanDigits_long start hrun hlong
    rw [hfails] at h
    cases h
    exact ⟨rfl, rfl⟩
  by_cases hodd : (rest.takeWhile isHexDigit).length % 2 = 1
  · rw [scanDigits_odd start hrun hodd (by omega)] at h
    cases h
    exact ⟨rfl, rfl⟩
  · rw [scanDigits_even start hrun (by omega) (by omega)] at h
    cases h

theorem isLexical_of_toInstruction {name : String} {ret : Bool} {size : Option Width}
    {cause : Cause} (h : toInstruction name ret size = .error cause) : cause.isLexical = true := by
  unfold toInstruction at h
  split at h
  · cases h
    rfl
  · split at h
    · cases h
      rfl
    · split at h
      · cases h
        rfl
      · cases h

theorem scanInstruction_error
    (h : scanInstruction start (between file before rest) = .error d c') : d.Blames start := by
  rw [scanInstruction_between] at h
  dsimp only at h
  split at h
  · next hcause =>
    cases h
    exact ⟨rfl, isLexical_of_toInstruction hcause⟩
  · split at h
    · cases h
    · split at h
      · cases h
      · cases h
        exact ⟨rfl, rfl⟩

/-- **A token that cannot be read is blamed at its start.** -/
theorem scanFrom_error {b : UInt8}
    (h : scanFrom start b (between file before (b :: rest)) = .error d c') : d.Blames start := by
  -- one case for each production, in the order in which they are tried
  unfold scanFrom at h
  split at h
  · rw [scanComment_between] at h
    split at h
    · cases h
      exact ⟨rfl, rfl⟩
    · cases h
  split at h
  · rcases bind_error h with hname | ⟨_, _, -, hret⟩
    · exact scanName_error hname
    · cases hret
  split at h
  · rcases bind_error h with hname | ⟨_, _, -, hret⟩
    · exact scanName_error hname
    · cases hret
  split at h
  · rw [scanString_between] at h
    split at h
    · cases h
      exact ⟨rfl, rfl⟩
    · cases h
  split at h
  · unfold scanLiteral at h
    rw [bind_of_ok (advance_between_cons _ _ _ _)] at h
    rcases bind_error h with hdigits | ⟨payload, _, -, hret⟩
    · exact scanDigits_error hdigits
    · split at hret
      · cases hret
        exact ⟨rfl, rfl⟩
      · cases hret
  split at h
  · rw [scanBlank_between] at h
    cases h
  split at h
  · rcases bind_error h with hdigits | ⟨_, _, -, hret⟩
    · exact scanDigits_error hdigits
    · cases hret
  split at h
  · exact scanInstruction_error h
  · cases h
    exact ⟨rfl, rfl⟩

/-- Where no token can be read there is text, but no lexeme begins it. -/
theorem scan_error (h : scan (between file before rest) = .error d c') :
    d.Blames (placeAfter file before) ∧ rest ≠ []
      ∧ ∀ text after t, rest = text ++ after → ¬Spells text after t := by
  refine ⟨?_, ?_, ?_⟩
  · unfold scan at h
    rw [current_between] at h
    cases rest with
    | nil => cases h
    | cons b rest =>
        simp only [List.head?_cons] at h
        split at h
        · cases h
        · next hfrom =>
          cases h
          exact scanFrom_error hfrom
  · rintro rfl
    cases h
  · rintro text after t rfl hspells
    rw [scan_complete file before after hspells] at h
    cases h

end Token

/-! ## Sources that cannot be read to the end -/

/-- Why reading stops before the bytes `rest`: no lexeme begins them, or a lexeme that defines a
name of the draft again. -/
inductive Stuck (draft : Draft) (rest : List UInt8) : Cause → Prop where
  | unreadable {cause : Cause} :
      cause.isLexical = true → rest ≠ [] →
      (∀ text after t, rest = text ++ after → ¬Spells text after t) → Stuck draft rest cause
  | known {name : String} {first : Definition} {text after : List UInt8} :
      rest = text ++ after → Spells text after (.definition name) →
      draft.labels.find? name = some first →
      Stuck draft rest (.duplicateLabel name first.location)

namespace Pass

open Cursor

/-- Reading stops behind lexemes that were all put down, and the error points there. -/
theorem scan_error_cases {file : RawText} {strict : Bool} {limit : Int} {unused : List Definition}
    {d : Diagnostic} {p' : Pass} {rest before : List UInt8} {draft : Draft}
    (hnames : draft.names.Nodup)
    (h : (Pass.mk (between file before rest) draft strict limit unused).scan = .error d p') :
    ∃ front tail lexemes, rest = front ++ tail ∧ Splits front lexemes
      ∧ (draft.names ++ definedNames lexemes).Nodup
      ∧ d.location = some (placeAfter file (before ++ front))
      ∧ Stuck (draft.addAll (layOut file before draft.image.size lexemes)) tail d.cause := by
  -- on the length of what is left: no lexeme is empty, so the bytes behind one are fewer
  induction hn : rest.length using Nat.strongRecOn generalizing rest before draft with
  | ind n ih =>
    rw [scan_eq] at h
    rcases step_cases (Pass.mk (between file before rest) draft strict limit unused) with
      ⟨e, c, hread, hs⟩ | ⟨c, -, hs⟩ | ⟨t, c, name, first, hread, ht, hfirst, hs⟩ |
      ⟨t, c, hread, hfresh, hs⟩
    · rw [hs] at h
      cases h
      obtain ⟨hblames, hrest, hnone⟩ := Token.scan_error hread
      refine ⟨[], rest, [], rfl, .nil, by simpa [definedNames] using hnames, ?_,
        .unreadable hblames.lexical hrest hnone⟩
      rw [List.append_nil]
      exact hblames.location
    · rw [hs] at h
      cases h
    · rw [hs] at h
      cases h
      obtain ⟨text, after, hrest, hspells, -⟩ := Token.scan_sound _ _ _ hread
      rw [Token.defines?_eq_some.mp ht] at hspells
      refine ⟨[], rest, [], rfl, .nil, by simpa [definedNames] using hnames, ?_,
        .known hrest hspells hfirst⟩
      rw [List.append_nil]
      rfl
    · rw [hs] at h
      obtain ⟨text, after, rfl, hspells, rfl⟩ := Token.scan_sound _ _ _ hread
      have hpos := List.length_pos_iff.mpr (Token.spells_ne_nil hspells)
      rw [List.length_append] at hn
      obtain ⟨front, tail, lexemes, rfl, hsplits, hnodup, hplace, hstuck⟩ :=
        ih after.length (by omega) (Draft.nodup_names_add hnames hfresh) h rfl
      rw [Draft.size_add] at hstuck
      rw [Draft.names_add, List.append_assoc] at hnodup
      refine ⟨text ++ front, tail, ⟨text, t⟩ :: lexemes, (List.append_assoc _ _ _).symm,
        .cons hspells.of_append hsplits, ?_, ?_, hstuck⟩
      · rw [definedNames_cons]
        exact hnodup
      · rw [← List.append_assoc]
        exact hplace

/-- **A source that cannot be read to its end** has lexemes up to the place of the error. -/
theorem scan_fresh_error_cases {file : RawText} {source : List UInt8} {strict : Bool}
    {d : Diagnostic} {p' : Pass} (h : (fresh file source strict).scan = .error d p') :
    ∃ before rest lexemes, source = before ++ rest ∧ Splits before lexemes
      ∧ (definedNames lexemes).Nodup ∧ d.location = some (placeAfter file before)
      ∧ Stuck (draftOf file lexemes) rest d.cause := by
  have hnames : Draft.empty.names.Nodup := List.Pairwise.nil
  exact scan_error_cases hnames h

end Pass

/-! ## The lexemes that errors point at -/

theorem Spells.text_of_definition {text rest : List UInt8} {name : String}
    (h : Spells text rest (.definition name)) : text = atSign :: bytesOf name := by
  cases h with
  | definition hrun => rw [bytesOf_textOf]

theorem Spells.text_of_reference {text rest : List UInt8} {name : String}
    (h : Spells text rest (.reference name)) : text = semicolon :: bytesOf name := by
  cases h with
  | reference hrun => rw [bytesOf_textOf]

section

variable {file : RawText} {name : String} {source : List UInt8} {lexemes : List Lexeme}

/-- The definition that a draft knows comes from the one lexeme that defines the name. -/
theorem exists_definition_of_find? {first : Definition} (hsplits : Splits source lexemes)
    (hnames : (definedNames lexemes).Nodup)
    (h : (draftOf file lexemes).labels.find? name = some first) :
    ∃ earlier later, lexemes = earlier ++ ⟨atSign :: bytesOf name, .definition name⟩ :: later
      ∧ name ∉ definedNames (earlier ++ later)
      ∧ first.location = some (placeAfter file (earlier.flatMap Lexeme.text)) := by
  have hname : first.name = name := by simpa using List.find?_some h
  obtain ⟨i, hi, hdefinition⟩ := Draft.mem_definitions_addAll.mp (List.mem_of_find?_eq_some h)
  obtain ⟨name', htoken, rfl⟩ := Option.map_eq_some_iff.mp hdefinition
  obtain rfl : name' = name := hname
  obtain ⟨earlier, ⟨text, token⟩, later, rfl, hx, hplace⟩ := exists_lexeme_of_mem_layOut hi
  rw [Token.defines?_eq_some.mp htoken] at hx
  subst hx
  obtain ⟨tail, -, -, htail⟩ := hsplits.of_append
  cases htail with
  | cons hspells _ =>
      rw [hspells.text_of_definition]
      refine ⟨earlier, later, rfl, ?_, congrArg some hplace⟩
      -- the name stands once in the list of all names
      rw [definedNames_append, definedNames_cons] at hnames
      obtain ⟨-, hlater, hearlier⟩ := List.nodup_append.mp hnames
      rw [definedNames_append, List.mem_append, not_or]
      exact ⟨fun hmem => hearlier _ hmem _ List.mem_cons_self rfl, (List.nodup_cons.mp hlater).1⟩

/-- The reference that strict mode reports comes from a lexeme of the source. -/
theorem exists_reference_of_mem {r : Reference} (hsplits : Splits source lexemes)
    (hr : r ∈ (draftOf file lexemes).labels.references) :
    ∃ earlier after, source = earlier.flatMap Lexeme.text ++ (semicolon :: bytesOf r.name ++ after)
      ∧ Splits (earlier.flatMap Lexeme.text) earlier
      ∧ Spells (semicolon :: bytesOf r.name) after (.reference r.name)
      ∧ definedNames earlier <+: definedNames lexemes
      ∧ r.location = some (placeAfter file (earlier.flatMap Lexeme.text)) := by
  obtain ⟨i, hi, hreference⟩ := Draft.mem_references_addAll.mp hr
  obtain ⟨name, htoken, rfl⟩ := Option.map_eq_some_iff.mp hreference
  obtain ⟨earlier, ⟨text, token⟩, later, rfl, hx, hplace⟩ := exists_lexeme_of_mem_layOut hi
  rw [Token.refersTo?_eq_some.mp htoken] at hx
  subst hx
  obtain ⟨tail, rfl, hearlier, htail⟩ := hsplits.of_append
  cases htail with
  | @cons _ after _ _ hspells _ =>
      obtain rfl := hspells.text_of_reference
      refine ⟨earlier, after, rfl, hearlier, hspells, ?_, congrArg some hplace⟩
      rw [definedNames_append]
      exact List.prefix_append _ _

end

/-- What a diagnostic says of a source that has the bytes `before` in front of its place and the
bytes `rest` from there on. -/
structure Diagnostic.Explains (d : Diagnostic) (file : RawText) (before rest : List UInt8) :
    Prop where
  /-- A label defined again: its definition comes next, and the one definition before is the first
  that the diagnostic names. -/
  duplicate : ∀ name first, d.cause = .duplicateLabel name first →
    (∃ after, rest = atSign :: bytesOf name ++ after
      ∧ Spells (atSign :: bytesOf name) after (.definition name))
    ∧ ∃ earlier later,
        Splits before (earlier ++ ⟨atSign :: bytesOf name, .definition name⟩ :: later)
      ∧ name ∉ definedNames (earlier ++ later)
      ∧ first = some (placeAfter file (earlier.flatMap Lexeme.text))
      ∧ (earlier.flatMap Lexeme.text).length < before.length
  /-- A label without definition: a reference to it comes next. -/
  undefined : ∀ name similar, d.cause = .undefinedLabel name similar →
    ∃ after, rest = semicolon :: bytesOf name ++ after
      ∧ Spells (semicolon :: bytesOf name) after (.reference name)
  /-- Anything else: there is more text, and no lexeme begins it. -/
  other : d.cause.category ≠ .duplicateLabel → d.cause.category ≠ .undefinedLabel →
    rest ≠ [] ∧ ∀ text after t, rest = text ++ after → ¬Spells text after t

theorem Stuck.explains {file : RawText} {before rest : List UInt8} {lexemes : List Lexeme}
    {d : Diagnostic} (h : Stuck (draftOf file lexemes) rest d.cause)
    (hsplits : Splits before lexemes) (hnames : (definedNames lexemes).Nodup) :
    d.Explains file before rest := by
  obtain ⟨cause, location⟩ := d
  dsimp only at h
  cases h with
  | unreadable hlexical hrest hnone =>
      refine ⟨?_, ?_, fun _ _ => ⟨hrest, hnone⟩⟩
      · rintro name first rfl
        cases hlexical
      · rintro name similar rfl
        cases hlexical
  | @known name first text after hrest hspells hfirst =>
      obtain rfl := hspells.text_of_definition
      refine ⟨?_, ?_, fun hnot => absurd rfl hnot⟩
      · intro name' first' hcause
        cases hcause
        obtain ⟨earlier, later, rfl, honce, hplace⟩ :=
          exists_definition_of_find? hsplits hnames hfirst
        refine ⟨⟨after, hrest, hspells⟩, earlier, later, hsplits, honce, hplace, ?_⟩
        rw [← hsplits.flatMap_text, List.flatMap_append, List.flatMap_cons, List.length_append,
          List.length_append, List.length_cons]
        omega
      · intro name' similar hcause
        cases hcause

/--
**Errors point at what is wrong.** For every source in memory, file name and mode: an error of a
run, unless it is about the size of the image, has the place of one byte of the source and of no
other. The text before that byte is read to its end by itself, and splits into lexemes. What comes
next is the second definition of a label, whose first and only earlier definition is named as well;
or a reference to a label without definition; or, in all other cases, the first text that is no
lexeme.
-/
theorem errors_point_at_their_cause {file : RawText} {source : List UInt8} {strict : Bool}
    {p p' : Pass} {d : Diagnostic}
    (hstart : Pass.start file (.ofBytes source) strict addressSpace = .ok p)
    (hgen : p.generate = .error (.diagnostic d) p')
    (hsize : ∀ size limit, d.cause ≠ .imageTooLarge size limit) :
    ∃ before rest, source = before ++ rest
      ∧ d.location = some (placeAfter file before)
      ∧ (∀ before' rest', source = before' ++ rest' →
          d.location = some (placeAfter file before') → before' = before)
      ∧ (∃ q q', Pass.start file (.ofBytes before) strict addressSpace = .ok q
          ∧ q.scan = .ok () q')
      ∧ (∃ lexemes, Splits before lexemes)
      ∧ d.Explains file before rest := by
  rw [Pass.start_ofBytes] at hstart
  cases hstart
  -- the place and the lexemes before it are enough: the rest follows from them
  suffices hplace : ∃ before rest lexemes, source = before ++ rest ∧ Splits before lexemes
      ∧ (definedNames lexemes).Nodup ∧ d.location = some (placeAfter file before)
      ∧ d.Explains file before rest by
    obtain ⟨before, rest, lexemes, rfl, hsplits, hnames, hlocation, hexplains⟩ := hplace
    refine ⟨before, rest, rfl, hlocation, ?_, ?_, ⟨lexemes, hsplits⟩, hexplains⟩
    · intro before' rest' hsource hlocation'
      rw [hlocation] at hlocation'
      exact (placeAfter_injective hsource (Option.some.inj hlocation')).symm
    · exact ⟨_, _, Pass.start_ofBytes file before strict,
        Pass.scan_fresh_eq_ok_iff.mpr ⟨lexemes, hsplits, hnames, rfl⟩⟩
  rcases (Pass.fresh file source strict).generate_cases with
    ⟨e, q, hs, hg⟩ | ⟨q, -, -, hg⟩ | ⟨q, hs, hle, hg⟩
  · rw [hg] at hgen
    cases hgen
    obtain ⟨before, rest, lexemes, hsource, hsplits, hnames, hlocation, hstuck⟩ :=
      Pass.scan_fresh_error_cases hs
    exact ⟨before, rest, lexemes, hsource, hsplits, hnames, hlocation,
      hstuck.explains hsplits hnames⟩
  · rw [hg] at hgen
    cases hgen
    exact absurd rfl (hsize _ _)
  · -- the source is read to its end, and strict mode stops the run
    obtain ⟨lexemes, hsplits, hnames, rfl⟩ := Pass.scan_fresh_eq_ok_iff.mp hs
    have hfits := (Pass.sound_draftOf file hsplits hnames).fits (Int.ofNat_le.mp hle)
    rw [hg] at hgen
    unfold Pass.finish at hgen
    dsimp only at hgen
    rcases Labels.resolve_cases strict hfits with ⟨-, r, hr, hres⟩ | ⟨-, log, hres⟩
    · rw [hres] at hgen
      cases hgen
      obtain ⟨hmem, -⟩ := Labels.mem_undefined.mp (List.mem_of_mem_head? hr)
      obtain ⟨earlier, after, hsource, hearlier, hspells, hprefix, hlocation⟩ :=
        exists_reference_of_mem hsplits hmem
      refine ⟨_, _, earlier, hsource, hearlier, hnames.sublist hprefix.sublist, hlocation, ?_⟩
      refine ⟨?_, ?_, fun _ hnot => absurd rfl hnot⟩
      · intro name first hcause
        cases hcause
      · intro name similar hcause
        cases hcause
        exact ⟨after, rfl, hspells⟩
    · rw [hres] at hgen
      cases hgen

/-- The bytes of `(`, a new line, `)@a @a`: a comment and one label twice, the second time at the
fifth byte of the second line. -/
def labelTwice : List UInt8 :=
  [0x28, 0x0A, 0x29, 0x40, 0x61, 0x20, 0x40, 0x61]

/-- The error of that source points behind its first six bytes. -/
theorem errors_point_at_their_cause_labelTwice :
    ∃ p p' d, Pass.start "x" (.ofBytes labelTwice) false addressSpace = .ok p
      ∧ p.generate = .error (.diagnostic d) p'
      ∧ d = ⟨.duplicateLabel "a" (some ⟨"x", 2, 2⟩), some ⟨"x", 2, 5⟩⟩
      ∧ ∃ rest, labelTwice = labelTwice.take 6 ++ rest
          ∧ d.Explains "x" (labelTwice.take 6) rest := by
  have hfails : (match (Pass.fresh "x" labelTwice false).generate with
      | .error (.diagnostic d) _ =>
          d == ⟨.duplicateLabel "a" (some ⟨"x", 2, 2⟩), some ⟨"x", 2, 5⟩⟩
      | _ => false) = true := by decide +kernel
  cases hgen : (Pass.fresh "x" labelTwice false).generate with
  | ok image p' =>
      rw [hgen] at hfails
      cases hfails
  | error e p' =>
      cases e with
      | patch e =>
          rw [hgen] at hfails
          cases hfails
      | diagnostic d =>
          rw [hgen] at hfails
          obtain rfl := eq_of_beq hfails
          have hstart := Pass.start_ofBytes "x" labelTwice false
          obtain ⟨before, rest, hsource, -, honly, -, -, hexplains⟩ :=
            errors_point_at_their_cause hstart hgen fun _ _ hsize => nomatch hsize
          have hbefore : labelTwice.take 6 = before :=
            honly _ (labelTwice.drop 6) (List.take_append_drop 6 labelTwice).symm (by decide)
          rw [← hbefore] at hsource hexplains
          exact ⟨_, p', _, hstart, hgen, rfl, rest, hsource, hexplains⟩

end RomKit
