import RomKit.Proofs.Builds
import RomKit.Proofs.Lockstep

/-!
# Strict mode filters what is assembled anyway

Strict mode looks at the labels only when the source has been read and fits into
memory, so whatever is wrong with a source is reported in both modes. Beyond that
it asks for the definition of every name that is referred to.

References to undefined names are grouped by name and then sorted by offset.
That the first of them is the first one in the source follows from the offsets of
references, which grow with every reference that is put down.
-/

namespace RomKit

/-! ## The first undefined reference -/

namespace Labels

variable {t : Labels} {r : Reference}

/-- No definition has the name. -/
def lacks (t : Labels) (name : String) : Bool :=
  (t.find? name).isNone

theorem lacks_iff {name : String} :
    t.lacks name = true ↔ ∀ d ∈ t.definitions, d.name ≠ name := by
  unfold lacks find?
  simp only [Option.isNone_iff_eq_none, List.find?_eq_none, beq_iff_eq, ne_eq]

theorem mem_undefined : r ∈ t.undefined ↔ r ∈ t.references ∧ t.lacks r.name = true := by
  unfold undefined referredNames sites lacks
  rw [List.mem_mergeSort, List.mem_flatMap]
  simp only [List.mem_filter, List.mem_eraseDups, List.mem_map, beq_iff_eq]
  constructor
  · rintro ⟨name, ⟨-, hlacks⟩, hr, rfl⟩
    exact ⟨hr, hlacks⟩
  · rintro ⟨hr, hlacks⟩
    exact ⟨r.name, ⟨⟨r, hr, rfl⟩, hlacks⟩, hr, rfl⟩

/-- No undefined reference has a smaller offset than the first one. -/
theorem offset_le_of_mem_undefined {first : Reference} (hfirst : t.undefined.head? = some first)
    (hr : r ∈ t.undefined) : first.offset ≤ r.offset := by
  have hsorted : t.undefined.Pairwise fun a b => decide (a.offset ≤ b.offset) = true :=
    List.pairwise_mergeSort (fun a b c hab hbc => by simp at *; omega)
      (fun a b => by simp; omega) _
  obtain ⟨rest, hrest⟩ := List.head?_eq_some_iff.mp hfirst
  rw [hrest] at hsorted hr
  rcases List.mem_cons.mp hr with rfl | hmem
  · exact Int.le_refl _
  · exact of_decide_eq_true (List.rel_of_pairwise_cons hsorted hmem)

end Labels

/-- **The first undefined reference by offset is the first one that was recorded.** -/
theorem Draft.Sound.head?_undefined {d : Draft} (h : d.Sound) :
    d.labels.undefined.head? = d.labels.references.find? fun r => d.labels.lacks r.name := by
  cases hfind : d.labels.references.find? fun r => d.labels.lacks r.name with
  | none =>
      rw [List.find?_eq_none] at hfind
      rw [List.head?_eq_none_iff, List.eq_nil_iff_forall_not_mem]
      intro r hr
      obtain ⟨hmem, hlacks⟩ := Labels.mem_undefined.mp hr
      exact hfind r hmem hlacks
  | some r =>
      obtain ⟨hlacks, earlier, later, hsplit, hearlier⟩ := List.find?_eq_some_iff_append.mp hfind
      have hr : r ∈ d.labels.undefined :=
        Labels.mem_undefined.mpr ⟨by rw [hsplit]; simp, hlacks⟩
      cases hfirst : d.labels.undefined.head? with
      | none =>
          rw [List.head?_eq_none_iff.mp hfirst] at hr
          cases hr
      | some first =>
          have hle := Labels.offset_le_of_mem_undefined hfirst hr
          obtain ⟨hmem, hlacks'⟩ := Labels.mem_undefined.mp (List.mem_of_mem_head? hfirst)
          rw [hsplit] at hmem
          rcases List.mem_append.mp hmem with hbefore | hmem'
          · -- the references recorded before all have their definitions
            have hnot := hearlier first hbefore
            rw [hlacks'] at hnot
            cases hnot
          · rcases List.mem_cons.mp hmem' with rfl | hafter
            · rfl
            · -- a later one would have a larger offset
              have hapart := h.apart
              rw [hsplit] at hapart
              have hgap := List.rel_of_pairwise_cons (List.pairwise_append.mp hapart).2.1 hafter
              omega

section

variable {file : RawText} {source : List UInt8} {lexemes : List Lexeme}

theorem lacks_draftOf {name : String} :
    (draftOf file lexemes).labels.lacks name = true ↔ name ∉ definedNames lexemes := by
  unfold Labels.lacks
  rw [Option.isNone_iff_eq_none, Draft.find?_eq_none_iff, names_draftOf]

/-- The references of a draft are those of its lexemes. -/
theorem references_draftOf :
    (draftOf file lexemes).labels.references
      = (layOut file [] 0 lexemes).filterMap Item.reference? := by
  rw [draftOf, Draft.references_addAll]
  rfl

/-- Lexemes whose references all have definitions record none without. -/
theorem find?_lacks_eq_none {xs : List Lexeme} {before : List UInt8} {offset : Nat}
    (h : ∀ x ∈ xs, ∀ name, x.token = .reference name → name ∈ definedNames lexemes) :
    ((layOut file before offset xs).filterMap Item.reference?).find?
      (fun r => (draftOf file lexemes).labels.lacks r.name) = none := by
  rw [List.find?_eq_none]
  intro r hr hlacks
  obtain ⟨i, hi, hir⟩ := List.mem_filterMap.mp hr
  obtain ⟨name, hname, rfl⟩ := Option.map_eq_some_iff.mp hir
  obtain ⟨earlier, x, later, rfl, hxi, -⟩ := exists_lexeme_of_mem_layOut hi
  rw [Token.refersTo?_eq_some, hxi] at hname
  exact lacks_draftOf.mp hlacks (h x (List.mem_append_right _ List.mem_cons_self) name hname)

/-- Of the lexemes that refer to names outside a list, one comes first. -/
theorem exists_first_dangling {names : List String} {xs : List Lexeme}
    (h : ∃ x ∈ xs, ∃ name, x.token = .reference name ∧ name ∉ names) :
    ∃ before x after, xs = before ++ x :: after
      ∧ (∃ name, x.token = .reference name ∧ name ∉ names)
      ∧ ∀ y ∈ before, ∀ other, y.token = .reference other → other ∈ names := by
  induction xs with
  | nil =>
      obtain ⟨x, hx, -⟩ := h
      cases hx
  | cons y ys ih =>
      by_cases hy : ∃ name, y.token = .reference name ∧ name ∉ names
      · exact ⟨[], y, ys, rfl, hy, fun z hz => nomatch hz⟩
      · obtain ⟨x, hx, hdangles⟩ := h
        rcases List.mem_cons.mp hx with rfl | hmem
        · exact absurd hdangles hy
        · obtain ⟨before, x', after, rfl, hx', hbefore⟩ := ih ⟨x, hmem, hdangles⟩
          refine ⟨y :: before, x', after, rfl, hx', List.forall_mem_cons.mpr ⟨?_, hbefore⟩⟩
          intro other hother
          by_contra hnot
          exact hy ⟨other, hother, hnot⟩

theorem undefined_eq_nil (h : Accepted source lexemes)
    (hdef : ∀ x ∈ lexemes, ∀ name, x.token = .reference name → name ∈ definedNames lexemes) :
    (draftOf file lexemes).labels.undefined = [] := by
  rw [← List.head?_eq_none_iff, (h.sound file).head?_undefined, references_draftOf]
  exact find?_lacks_eq_none hdef

/-- The first lexeme that refers to an undefined name gives the first undefined reference. -/
theorem head?_undefined_of_first (file : RawText) (h : Accepted source lexemes)
    {before after : List Lexeme} {x : Lexeme} {name : String}
    (hsplit : lexemes = before ++ x :: after) (hx : x.token = .reference name)
    (hname : name ∉ definedNames lexemes)
    (hbefore : ∀ y ∈ before, ∀ other, y.token = .reference other → other ∈ definedNames lexemes) :
    ∃ offset, (draftOf file lexemes).labels.undefined.head?
      = some ⟨name, offset, some (Source.placeAfter file (before.flatMap Lexeme.text))⟩ := by
  rw [(h.sound file).head?_undefined, references_draftOf]
  have hlayout : layOut file [] 0 lexemes = layOut file [] 0 before
      ++ ⟨x.token, 0 + totalSize before, Source.placeAfter file ([] ++ before.flatMap Lexeme.text)⟩
        :: layOut file ([] ++ before.flatMap Lexeme.text ++ x.text)
          (0 + totalSize before + x.token.size) after := by
    rw [hsplit, layOut_append]
    rfl
  rw [hlayout, List.filterMap_append, List.find?_append, find?_lacks_eq_none hbefore,
    Option.none_or, List.filterMap_cons_some (by rw [Item.reference?, hx]; rfl)]
  have hlacks : (draftOf file lexemes).labels.lacks name = true := lacks_draftOf.mpr hname
  exact ⟨_, List.find?_cons_of_pos hlacks⟩

end

/-! ## Errors do not depend on the mode -/

namespace Pass

/-- A step makes no use of the mode. -/
theorem alike_step_strict (p : Pass) (strict : Bool) :
    Alike (fun p p' => p' = { p with strict := strict }) Eq (fun _ => False) p.step
      (Pass.step { p with strict := strict }) := by
  obtain ⟨cursor, draft, mode, limit, unused⟩ := p
  rw [step_eq, step_eq]
  dsimp only
  cases Token.scan cursor with
  | error e c => exact .error rfl rfl
  | ok found c =>
      cases found with
      | none => exact .ok rfl
      | some t =>
          dsimp only
          cases draft.put cursor.location t with
          | ok _ d => exact .ok rfl
          | error e d => exact .error rfl rfl

/-- A source that cannot be read to its end fails in both modes with one error. -/
theorem scan_fresh_error {file : RawText} {source : List UInt8} {strict : Bool} {e : Diagnostic}
    {p : Pass} (h : (fresh file source strict).scan = .error e p) (strict' : Bool) :
    ∃ p', (fresh file source strict').scan = .error e p' := by
  have hscan : Alike (fun p p' => p' = { p with strict := strict' }) Eq (fun _ => False)
      (fresh file source strict).scan (fresh file source strict').scan :=
    alike_scan (fun p p' hp => by subst hp; exact p.alike_step_strict strict') rfl
  rw [h] at hscan
  generalize (fresh file source strict').scan = r at hscan ⊢
  cases hscan with
  | error _ hsame => exact ⟨_, by rw [hsame]⟩
  | fault hfault => exact hfault.elim

end Pass

/-- **What is wrong with a source is wrong with it in strict mode**, and is reported alike. -/
theorem assemble_strict_of_error {file : RawText} {source : List UInt8} {e : Failure}
    (h : (assemble false file (.ofBytes source)).1 = .error e) :
    (assemble true file (.ofBytes source)).1 = .error e := by
  rcases (Pass.fresh file source false).generate_cases with
    ⟨e', p', hs, hgen⟩ | ⟨p', hs, hbig, hgen⟩ | ⟨p', hs, hfits, -⟩
  · -- the source cannot be read
    rw [assemble_of_generate_error hgen] at h
    obtain ⟨p'', hs'⟩ := Pass.scan_fresh_error hs true
    have hgen' : (Pass.fresh file source true).generate = .error (.diagnostic e') p'' := by
      unfold Pass.generate
      rw [hs']
    exact (assemble_of_generate_error hgen').trans h
  · -- the image is too large
    rw [assemble_of_generate_error hgen] at h
    obtain ⟨lexemes, hsplits, hnames, rfl⟩ := Pass.scan_fresh_eq_ok_iff.mp hs
    have hs' : (Pass.fresh file source true).scan = .ok ()
        ⟨Cursor.between file source [], draftOf file lexemes, true, addressSpace, []⟩ :=
      Pass.scan_fresh_eq_ok_iff.mpr ⟨lexemes, hsplits, hnames, rfl⟩
    have hgen' : ∃ p'', (Pass.fresh file source true).generate = .error (.diagnostic
        ⟨.imageTooLarge (draftOf file lexemes).image.size addressSpace, none⟩) p'' := by
      unfold Pass.generate
      rw [hs']
      dsimp only
      rw [if_pos hbig]
      exact ⟨_, rfl⟩
    obtain ⟨p'', hgen'⟩ := hgen'
    exact (assemble_of_generate_error hgen').trans h
  · -- otherwise the source is assembled
    obtain ⟨lexemes, hsplits, hnames, rfl⟩ := Pass.scan_fresh_eq_ok_iff.mp hs
    dsimp only at hfits
    rw [size_draftOf] at hfits
    have haccepted : Accepted source lexemes := ⟨hsplits, hnames, Int.ofNat_le.mp hfits⟩
    rw [assemble_of_accepted haccepted file fun hstrict : false = true =>
      Bool.noConfusion hstrict] at h
    cases h

/--
**Strict mode only filters.** A source that fails without it fails with the same error in it. A
source that is assembled without it has one sequence of lexemes. If every name that these refer to
is defined by one of them, strict mode makes no difference; otherwise it reports the first lexeme
that refers to an undefined name.
-/
theorem strict_mode_only_filters (file : RawText) (source : List UInt8) :
    (∀ e, (assemble false file (.ofBytes source)).1 = .error e →
        (assemble true file (.ofBytes source)).1 = .error e)
      ∧ ∀ b, (assemble false file (.ofBytes source)).1 = .ok b →
        ∃ lexemes, (∀ xs, Splits source xs ↔ xs = lexemes)
          ∧ ((∀ x ∈ lexemes, ∀ name, x.token = .reference name → name ∈ definedNames lexemes) →
              (assemble true file (.ofBytes source)).1 = .ok b)
          ∧ ((∃ x ∈ lexemes, ∃ name, x.token = .reference name ∧ name ∉ definedNames lexemes) →
              ∃ before x after name similar, lexemes = before ++ x :: after
                ∧ x.token = .reference name ∧ name ∉ definedNames lexemes
                ∧ (∀ y ∈ before, ∀ other, y.token = .reference other →
                    other ∈ definedNames lexemes)
                ∧ (assemble true file (.ofBytes source)).1
                    = .error (.diagnostic ⟨.undefinedLabel name similar,
                        some (Source.placeAfter file (before.flatMap Lexeme.text))⟩)) := by
  refine ⟨fun e => assemble_strict_of_error, fun b hb => ?_⟩
  obtain ⟨lexemes, haccepted, rfl⟩ := accepted_of_assemble hb
  refine ⟨lexemes, fun xs => ⟨fun hxs => splits_unique hxs haccepted.splits,
    fun h => h ▸ haccepted.splits⟩, fun hdef => ?_, ?_⟩
  · exact assemble_of_accepted haccepted file fun _ => undefined_eq_nil haccepted hdef
  · intro hdangling
    obtain ⟨before, x, after, hsplit, ⟨name, hx, hname⟩, hbefore⟩ :=
      exists_first_dangling hdangling
    obtain ⟨offset, hhead⟩ := head?_undefined_of_first file haccepted hsplit hx hname hbefore
    exact ⟨before, x, after, name, _, hsplit, hx, hname, hbefore,
      assemble_of_undefined haccepted hhead⟩

/-- The source `;x` refers to a name without definition, which only strict mode reports. -/
theorem strict_mode_only_filters_dangling :
    ∃ b similar, (assemble false "p" (.ofBytes (Source.bytesOf ";x"))).1 = .ok b
      ∧ (assemble true "p" (.ofBytes (Source.bytesOf ";x"))).1
        = .error (.diagnostic ⟨.undefinedLabel "x" similar, some ⟨"p", 1, 1⟩⟩) := by
  have hpasses : (assemble false "p" (.ofBytes (Source.bytesOf ";x"))).1.isOk = true := by
    decide +kernel
  have hname : Source.Run Source.isSymbol [0x78] [] :=
    ⟨List.cons_ne_nil _ _, List.forall_mem_singleton.mpr (by decide), rfl⟩
  have hsplits : Splits (Source.bytesOf ";x")
      [⟨[0x3B, 0x78], .reference (Source.textOf [0x78])⟩] := .cons (.reference hname) .nil
  cases hb : (assemble false "p" (.ofBytes (Source.bytesOf ";x"))).1 with
  | error e =>
      rw [hb] at hpasses
      cases hpasses
  | ok b =>
      obtain ⟨lexemes, hunique, -, hreported⟩ :=
        (strict_mode_only_filters "p" (Source.bytesOf ";x")).2 b hb
      obtain rfl := (hunique _).mp hsplits
      obtain ⟨before, x, after, name, similar, hsplit, hx, -, -, herror⟩ :=
        hreported ⟨_, List.mem_cons_self, _, rfl, by decide⟩
      cases before with
      | cons y before =>
          have hlength := congrArg List.length hsplit
          simp at hlength
      | nil =>
          cases hsplit
          cases hx
          exact ⟨b, similar, rfl, herror⟩

end RomKit
