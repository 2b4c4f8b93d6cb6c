import RomKit.Proofs.Builds

/-!
# Concatenating and relocating sources

Two sources with blanks between them are assembled as one. The image ends at the
top of memory whatever its length, so the second source keeps its addresses, and
the first one moves down by the length of the second.

At the seam a blank ends every lexeme that could go on: a run of symbol bytes, of
digits or of string bytes, and an instruction (`Spells.append`). Behind the seam
everything follows from the symbols, which are those of the two sources with the
first ones lowered (`symbols_concatenated`): an image holds no other addresses
than these.
-/

namespace RomKit

open Source Token

/-! ## Blanks between sources -/

/-- The lexemes of blanks. -/
def blanks (w : List UInt8) : List Lexeme :=
  w.map fun b => ⟨[b], .blank b⟩

theorem splits_blanks {w source : List UInt8} {ys : List Lexeme} (h : Splits source ys)
    (hw : ∀ b ∈ w, isSpace b = true) : Splits (w ++ source) (blanks w ++ ys) := by
  induction w with
  | nil => exact h
  | cons b w ih =>
      have hrest := ih fun c hc => hw c (List.mem_cons_of_mem _ hc)
      exact .cons (.blank (hw b List.mem_cons_self)) hrest

theorem totalSize_blanks (w : List UInt8) : totalSize (blanks w) = 0 := by
  induction w with
  | nil => rfl
  | cons b w ih => exact (Nat.zero_add _).trans ih

theorem definedNames_blanks (w : List UInt8) : definedNames (blanks w) = [] := by
  unfold definedNames blanks
  rw [List.filterMap_map]
  exact List.filterMap_eq_nil_iff.mpr fun b _ => rfl

theorem symbolsFrom_blanks (start : Int) (w : List UInt8) : symbolsFrom start (blanks w) = [] := by
  have hnames := map_fst_symbolsFrom (blanks w) start
  rw [definedNames_blanks] at hnames
  exact List.map_eq_nil_iff.mp hnames

/-! ## Where addresses stand in an image -/

section

variable {f g : String → List UInt8}

/-- The address of a label stands behind the control byte of a reference to it. -/
theorem take_drop_reference (hf : ∀ name, (f name).length = 4) {before after : List Lexeme}
    {x : Lexeme} {name : String} (hx : x.token = .reference name) :
    (((before ++ x :: after).flatMap fun y => y.token.emit f).drop (totalSize before + 1)).take 4
      = f name := by
  rw [List.flatMap_append, List.flatMap_cons, hx, ← length_flatMap_emit hf before,
    List.drop_append, List.drop_of_length_le (Nat.le_succ _), Nat.add_sub_cancel_left,
    List.nil_append]
  show (f name ++ _).take 4 = _
  rw [← hf name, List.take_left]

/-- Images that differ in addresses agree outside the references to the labels concerned. -/
theorem getElem?_flatMap_emit (hf : ∀ name, (f name).length = 4)
    (hg : ∀ name, (g name).length = 4) {xs : List Lexeme} : ∀ {k : Nat},
    (∀ before x after name, xs = before ++ x :: after → x.token = .reference name →
      f name ≠ g name → ¬(totalSize before < k ∧ k ≤ totalSize before + 4)) →
    (xs.flatMap fun x => x.token.emit f)[k]? = (xs.flatMap fun x => x.token.emit g)[k]? := by
  induction xs with
  | nil => intro k _; rfl
  | cons x xs ih =>
      intro k hk
      rw [List.flatMap_cons, List.flatMap_cons]
      by_cases hin : k < x.token.size
      · -- within the first lexeme, which is a reference if the bytes differ at all
        rw [List.getElem?_append_left (by rwa [length_emit hf]),
          List.getElem?_append_left (by rwa [length_emit hg])]
        by_cases hsame : ∀ name, x.token.refersTo? = some name → f name = g name
        · rw [emit_congr hsame]
        · simp only [not_forall] at hsame
          obtain ⟨name, hname, hne⟩ := hsame
          have hx := refersTo?_eq_some.mp hname
          have hout := hk [] x xs name rfl hx hne
          have hsize : x.token.size = 5 := by rw [hx]; rfl
          have hnil : totalSize [] = 0 := rfl
          have hzero : k = 0 := by omega
          rw [hzero, hx]
          rfl
      · rw [List.getElem?_append_right (by rw [length_emit hf]; omega),
          List.getElem?_append_right (by rw [length_emit hg]; omega), length_emit hf,
          length_emit hg]
        refine ih fun before y after name hsplit hy hne => ?_
        have hout := hk (x :: before) y after name (by rw [hsplit]; rfl) hy hne
        rw [totalSize_cons] at hout
        omega

end

/-! ## Lowered symbols -/

/-- A symbol table whose addresses are all lowered. -/
def lowered (shift : Int) (symbols : List (String × Int)) : List (String × Int) :=
  symbols.map fun s => (s.1, s.2 - shift)

theorem lookup_lowered (shift : Int) (name : String) (symbols : List (String × Int)) :
    (lowered shift symbols).lookup name = (symbols.lookup name).map (· - shift) := by
  induction symbols with
  | nil => rfl
  | cons s symbols ih =>
      show List.lookup name ((s.1, s.2 - shift) :: lowered shift symbols) = _
      rw [List.lookup_cons, List.lookup_cons, ih]
      cases name == s.1 <;> rfl

theorem symbolsFrom_sub (shift : Int) (xs : List Lexeme) : ∀ start : Int,
    symbolsFrom (start - shift) xs = lowered shift (symbolsFrom start xs) := by
  induction xs with
  | nil => intro start; rfl
  | cons x xs ih =>
      intro start
      have hnext : start - shift + x.token.size = start + x.token.size - shift := by omega
      rw [symbolsFrom, symbolsFrom, hnext, ih, lowered, lowered, List.map_append]
      cases x.token.defines? <;> rfl

theorem totalSize_concatenated (xs ys : List Lexeme) (w : List UInt8) :
    totalSize (xs ++ (blanks w ++ ys)) = totalSize xs + totalSize ys := by
  rw [totalSize_append, totalSize_append, totalSize_blanks, Nat.zero_add]

/-- **The symbols of two sources in one**: the first ones are lowered, the others are kept. -/
theorem symbols_concatenated (file fileA fileB : RawText) (xs ys : List Lexeme) (w : List UInt8) :
    (buildOf file (xs ++ (blanks w ++ ys))).symbols
      = lowered (totalSize ys) (buildOf fileA xs).symbols ++ (buildOf fileB ys).symbols := by
  rw [symbols_buildOf, symbols_buildOf, symbols_buildOf, symbolsFrom_append, symbolsFrom_append,
    symbolsFrom_blanks, List.nil_append, totalSize_blanks, totalSize_concatenated,
    ← symbolsFrom_sub]
  have hfirst : (addressSpace : Int) - (totalSize xs + totalSize ys : Nat)
      = addressSpace - totalSize xs - totalSize ys := by omega
  have hsecond : (addressSpace : Int) - totalSize xs - totalSize ys + totalSize xs + (0 : Nat)
      = addressSpace - totalSize ys := by omega
  rw [hfirst, hsecond]

/-- Two sources without a common label are accepted as one, if they fit together. -/
theorem Accepted.concatenated {A B w : List UInt8} {xs ys : List Lexeme} (hA : Accepted A xs)
    (hB : Accepted B ys) (hw : w ≠ []) (hblank : ∀ b ∈ w, isSpace b = true)
    (hsize : totalSize xs + totalSize ys ≤ addressSpace)
    (hdistinct : ∀ name ∈ definedNames xs, name ∉ definedNames ys) :
    Accepted (A ++ (w ++ B)) (xs ++ (blanks w ++ ys)) where
  splits := by
    refine hA.splits.append (splits_blanks hB.splits hblank) ?_
    cases w with
    | nil => exact absurd rfl hw
    | cons b w => exact hblank b List.mem_cons_self
  names := by
    rw [definedNames_append, definedNames_append, definedNames_blanks, List.nil_append,
      List.nodup_append]
    exact ⟨hA.names, hB.names, fun a ha b hb hab => hdistinct a ha (hab ▸ hb)⟩
  size := by rwa [totalSize_concatenated]

/-! ## Relocated images -/

/--
`moved` is `image`, the image of some lexemes, with the address at each reference to a label that
these define lowered by `shift`.
-/
structure Relocated (lexemes : List Lexeme) (shift : Int) (image moved : List UInt8) : Prop where
  address : ∀ before x after name, lexemes = before ++ x :: after → x.token = .reference name →
    name ∈ definedNames lexemes →
    (Image.ofBigEndian ((moved.drop (totalSize before + 1)).take 4) : Int)
      = Image.ofBigEndian ((image.drop (totalSize before + 1)).take 4) - shift
  other : ∀ k, (∀ before x after name, lexemes = before ++ x :: after →
      x.token = .reference name → name ∈ definedNames lexemes →
      ¬(totalSize before < k ∧ k ≤ totalSize before + 4)) →
    moved[k]? = image[k]?

/-- Bytes made with a lowered symbol table are a relocated image. -/
theorem relocated_of_lookup {file : RawText} {xs : List Lexeme} {symbols : List (String × Int)}
    {shift : Nat} (hfits : totalSize xs + shift ≤ addressSpace)
    (h : ∀ x ∈ xs, ∀ name, x.token = .reference name →
      symbols.lookup name = ((buildOf file xs).symbols.lookup name).map (· - (shift : Int))) :
    Relocated xs shift (buildOf file xs).image.toList
      (xs.flatMap fun x => x.token.emit (symbolBytes symbols)) where
  address := by
    intro before x after name hsplit hx hname
    cases hlookup : (buildOf file xs).symbols.lookup name with
    | none => exact absurd hname ((lookup_buildOf_eq_none file).mp hlookup)
    | some address =>
        obtain ⟨hlow, hhigh⟩ := bounds_of_lookup hlookup
        have hmoved : symbols.lookup name = some (address - shift) := by
          rw [h x (by rw [hsplit]; simp) name hx, hlookup]
          rfl
        have hbytes := ofBigEndian_symbolBytes hlookup (by omega) hhigh
        have hbytes' := ofBigEndian_symbolBytes hmoved (by omega) (by omega)
        rw [image_buildOf]
        generalize (buildOf file xs).symbols = table at hbytes ⊢
        rw [hsplit, take_drop_reference (length_symbolBytes _) hx,
          take_drop_reference (length_symbolBytes _) hx, hbytes, hbytes']
  other := by
    intro k hk
    rw [image_buildOf]
    refine getElem?_flatMap_emit (length_symbolBytes _) (length_symbolBytes _) ?_
    intro before x after name hsplit hx hne
    refine hk before x after name hsplit hx ?_
    by_contra hundefined
    -- a label without an address has none in the other table either
    have hnone : (buildOf file xs).symbols.lookup name = none :=
      (lookup_buildOf_eq_none file).mpr hundefined
    have hmoved := h x (by rw [hsplit]; simp) name hx
    rw [hnone] at hmoved
    refine hne ?_
    unfold symbolBytes
    rw [hnone, hmoved]
    rfl

/-- The image of two sources in one: the bytes of the first source, then those of the second. -/
theorem image_concatenated (file : RawText) (xs ys : List Lexeme) (w : List UInt8) :
    (buildOf file (xs ++ (blanks w ++ ys))).image.toList
      = (xs.flatMap fun x => x.token.emit
          (symbolBytes (buildOf file (xs ++ (blanks w ++ ys))).symbols))
        ++ ys.flatMap fun y => y.token.emit
          (symbolBytes (buildOf file (xs ++ (blanks w ++ ys))).symbols) := by
  rw [image_buildOf]
  generalize (buildOf file (xs ++ (blanks w ++ ys))).symbols = symbols
  have hblanks : ((blanks w).flatMap fun x => x.token.emit (symbolBytes symbols)) = [] := by
    refine List.eq_nil_of_length_eq_zero ?_
    rw [length_flatMap_emit (length_symbolBytes _), totalSize_blanks]
  rw [List.flatMap_append, List.flatMap_append, hblanks, List.nil_append]

/--
**Concatenation relocates the first source and leaves the second one alone.** Two sources without a
common label that fit into memory together are assembled as one, with blanks between them. If
neither refers to a label of the other, the image is that of the first source, relocated, and then
that of the second.
-/
theorem assemble_concatenated {fileA fileB : RawText} {A B w : List UInt8} {a b : Build}
    (ha : (assemble false fileA (.ofBytes A)).1 = .ok a)
    (hb : (assemble false fileB (.ofBytes B)).1 = .ok b)
    (hsize : a.image.size + b.image.size ≤ addressSpace)
    (hdistinct : ∀ s ∈ a.symbols, ∀ t ∈ b.symbols, s.1 ≠ t.1)
    (hw : w ≠ []) (hblank : ∀ c ∈ w, isSpace c = true) (file : RawText) :
    ∃ c, (assemble false file (.ofBytes (A ++ w ++ B))).1 = .ok c
      ∧ c.image.size = a.image.size + b.image.size
      ∧ c.symbols = a.symbols.map (fun s => (s.1, s.2 - (b.image.size : Int))) ++ b.symbols
      ∧ ∃ xs ys, Splits A xs ∧ Splits B ys
        ∧ ((∀ x ∈ xs, ∀ name, x.token = .reference name → name ∉ definedNames ys) →
          (∀ y ∈ ys, ∀ name, y.token = .reference name → name ∉ definedNames xs) →
          c.image.toList.drop a.image.size = b.image.toList
            ∧ Relocated xs b.image.size a.image.toList (c.image.toList.take a.image.size)) := by
  obtain ⟨xs, hA, rfl⟩ := accepted_of_assemble ha
  obtain ⟨ys, hB, rfl⟩ := accepted_of_assemble hb
  rw [size_buildOf, size_buildOf] at hsize
  have hnames : ∀ name ∈ definedNames xs, name ∉ definedNames ys := by
    intro name hxs hys
    rw [← map_fst_symbols fileA] at hxs
    rw [← map_fst_symbols fileB] at hys
    obtain ⟨s, hs, rfl⟩ := List.mem_map.mp hxs
    obtain ⟨t, ht, hst⟩ := List.mem_map.mp hys
    exact hdistinct s hs t ht hst.symm
  have hAB := hA.concatenated hB hw hblank hsize hnames
  have hsymbols := symbols_concatenated file fileA fileB xs ys w
  refine ⟨buildOf file (xs ++ (blanks w ++ ys)), ?_, ?_, ?_, xs, ys, hA.splits, hB.splits, ?_⟩
  · rw [List.append_assoc]
    exact assemble_of_accepted hAB file fun hstrict : false = true => Bool.noConfusion hstrict
  · rw [size_buildOf, size_buildOf, size_buildOf, totalSize_concatenated]
  · rw [size_buildOf]
    exact hsymbols
  · intro hforeign hforeign'
    have hlength := length_flatMap_emit
      (length_symbolBytes (buildOf file (xs ++ (blanks w ++ ys))).symbols) xs
    rw [image_concatenated, size_buildOf, size_buildOf, List.drop_left' hlength,
      List.take_left' hlength, hsymbols]
    constructor
    · rw [image_buildOf]
      refine List.flatMap_congr fun y hy => emit_congr fun name hname => ?_
      have hnone := (lookup_buildOf_eq_none fileA).mpr
        (hforeign' y hy name (refersTo?_eq_some.mp hname))
      unfold symbolBytes
      rw [List.lookup_append, lookup_lowered, hnone, Option.map_none, Option.none_or]
    · refine relocated_of_lookup hsize fun x hx name hname => ?_
      have hnone := (lookup_buildOf_eq_none fileB).mpr (hforeign x hx name hname)
      rw [List.lookup_append, lookup_lowered, hnone, Option.or_none]

/-- The lexemes of `@c ;c`, a label before a reference to it. -/
def selfReference (c : UInt8) : List Lexeme :=
  [⟨[atSign, c], .definition (textOf [c])⟩, ⟨[0x20], .blank 0x20⟩,
    ⟨[semicolon, c], .reference (textOf [c])⟩]

theorem accepted_selfReference {c : UInt8} (hc : isSymbol c = true) :
    Accepted [atSign, c, 0x20, semicolon, c] (selfReference c) where
  splits := by
    have hrun : ∀ rest : List UInt8, rest.head?.any isSymbol = false →
        Source.Run isSymbol [c] rest :=
      fun rest hrest => ⟨List.cons_ne_nil _ _, List.forall_mem_singleton.mpr hc, hrest⟩
    have hblank : isSymbol 0x20 = false := by decide
    exact .cons (.definition (hrun [0x20, semicolon, c] hblank))
      (.cons (.blank (by decide)) (.cons (.reference (hrun [] rfl)) .nil))
  names := List.pairwise_singleton _ _
  size := by
    show 5 ≤ addressSpace
    decide

theorem reference_selfReference {c : UInt8} {x : Lexeme} (hx : x ∈ selfReference c)
    {name : String} (hname : x.token = .reference name) : name = textOf [c] := by
  rcases List.mem_cons.mp hx with rfl | hx
  · cases hname
  · rcases List.mem_cons.mp hx with rfl | hx
    · cases hname
    · rw [List.mem_singleton.mp hx] at hname
      exact (Token.reference.inj hname).symm

/-- The label of the first source moves down by the five bytes of the second one. -/
theorem assemble_concatenated_selfReferences :
    ∃ a b c, (assemble false "a" (.ofBytes (bytesOf "@x ;x"))).1 = .ok a
      ∧ (assemble false "b" (.ofBytes (bytesOf "@y ;y"))).1 = .ok b
      ∧ (assemble false "c" (.ofBytes (bytesOf "@x ;x @y ;y"))).1 = .ok c
      ∧ a.symbols = [("x", 0x7FFFFB)] ∧ b.symbols = [("y", 0x7FFFFB)]
      ∧ c.symbols = [("x", 0x7FFFF6), ("y", 0x7FFFFB)]
      ∧ c.image.toList.drop 5 = b.image.toList
      ∧ Relocated (selfReference 0x78) 5 a.image.toList (c.image.toList.take 5) := by
  have hx := accepted_selfReference (c := 0x78) (by decide)
  have hy := accepted_selfReference (c := 0x79) (by decide)
  have ha : (assemble false "a" (.ofBytes (bytesOf "@x ;x"))).1
      = .ok (buildOf "a" (selfReference 0x78)) :=
    assemble_of_accepted hx "a" fun hstrict : false = true => Bool.noConfusion hstrict
  have hb : (assemble false "b" (.ofBytes (bytesOf "@y ;y"))).1
      = .ok (buildOf "b" (selfReference 0x79)) :=
    assemble_of_accepted hy "b" fun hstrict : false = true => Bool.noConfusion hstrict
  have hsize : ∀ file c, (buildOf file (selfReference c)).image.size = 5 :=
    fun file c => size_buildOf file (selfReference c)
  have hsa : (buildOf "a" (selfReference 0x78)).symbols = [("x", 0x7FFFFB)] := by
    rw [symbols_buildOf]
    rfl
  have hsb : (buildOf "b" (selfReference 0x79)).symbols = [("y", 0x7FFFFB)] := by
    rw [symbols_buildOf]
    rfl
  obtain ⟨c, hc, -, hsymbols, xs, ys, hxs, hys, himage⟩ :=
    assemble_concatenated (w := [0x20]) ha hb (by rw [hsize, hsize]; decide)
      (by rw [hsa, hsb]; decide) (by decide) (List.forall_mem_singleton.mpr (by decide)) "c"
  rw [hsize, hsize, splits_unique hxs hx.splits, splits_unique hys hy.splits] at himage
  rw [hsize, hsa, hsb] at hsymbols
  obtain ⟨hlast, hfirst⟩ := himage
    (fun x hx name hname => by rw [reference_selfReference hx hname]; decide)
    (fun y hy name hname => by rw [reference_selfReference hy hname]; decide)
  exact ⟨_, _, c, ha, hb, hc, hsa, hsb, hsymbols, hlast, hfirst⟩

end RomKit
