import Mathlib.Data.List.Nodup
import RomKit.Proofs.TwoPass

/-!
# The build of a source in memory

Assembling a source in memory comes to one of two things. Either the source is
not accepted, and strict mode makes no difference to the error, or it splits
into lexemes whose build is that of two passes (`assemble_of_accepted`). In the
second case strict mode still asks for the definition of every name, and reports
the first reference that has none (`assemble_of_undefined`).

Places in the source leave no trace in a build but its warnings: the symbols
follow from the lexemes alone (`symbols_buildOf`), and the image from the lexemes
and the symbols (`image_buildOf`).
-/

namespace RomKit

/-- A source splits into lexemes that define each name once and fit into memory. -/
structure Accepted (source : List UInt8) (lexemes : List Lexeme) : Prop where
  splits : Splits source lexemes
  names : (definedNames lexemes).Nodup
  size : totalSize lexemes ≤ addressSpace

/-- The build that two passes make of some lexemes. -/
def buildOf (file : RawText) (lexemes : List Lexeme) : Build where
  image := (TwoPass.image (layOut file [] 0 lexemes)).toArray
  symbols := TwoPass.symbols (layOut file [] 0 lexemes)
  source := file
  unused := (draftOf file lexemes).labels.unused

namespace Accepted

variable {source : List UInt8} {lexemes : List Lexeme}

theorem sound (h : Accepted source lexemes) (file : RawText) : (draftOf file lexemes).Sound :=
  Pass.sound_draftOf file h.splits h.names

/-- The source is read to its end. -/
theorem scan (h : Accepted source lexemes) (file : RawText) (strict : Bool) :
    (Pass.fresh file source strict).scan
      = .ok () ⟨Cursor.between file source [], draftOf file lexemes, strict, addressSpace, []⟩ :=
  Pass.scan_fresh_eq_ok_iff.mpr ⟨lexemes, h.splits, h.names, rfl⟩

/-- The overwritten image of the draft is that of two passes. -/
theorem image_eq (h : Accepted source lexemes) (file : RawText) :
    Write.applyAll (draftOf file lexemes).image
        ((draftOf file lexemes).labels.writes (totalSize lexemes))
      = (TwoPass.image (layOut file [] 0 lexemes)).toArray := by
  refine Array.ext' ?_
  rw [← length_layOut file lexemes [] 0]
  exact toList_applyAll (laid_layOut file lexemes [] 0) (h.sound file)

end Accepted

section

variable {file : RawText} {source : List UInt8} {lexemes : List Lexeme} {strict : Bool}

theorem assemble_of_generate_error {e : Failure} {p' : Pass}
    (h : (Pass.fresh file source strict).generate = .error e p') :
    (assemble strict file (.ofBytes source)).1 = .error e := by
  unfold assemble
  rw [Pass.start_ofBytes]
  dsimp only
  rw [h]

/-- **An accepted source is assembled**, in strict mode if no name lacks a definition. -/
theorem assemble_of_accepted (h : Accepted source lexemes) (file : RawText)
    (hdef : strict = true → (draftOf file lexemes).labels.undefined = []) :
    (assemble strict file (.ofBytes source)).1 = .ok (buildOf file lexemes) := by
  obtain ⟨p', hgen, hlabels, hlen, hunused⟩ :=
    Pass.generate_of_splits file h.splits h.names h.size hdef
  have hsymbols : p'.symbols = TwoPass.symbols (layOut file [] 0 lexemes) := by
    rw [Pass.symbols, hlabels, hlen, ← length_layOut file lexemes [] 0]
    exact addresses_addAll _
  rw [Pass.assemble_of_generate hgen, hsymbols, hunused, h.image_eq file]
  rfl

/-- Strict mode reports the first reference without definition. -/
theorem assemble_of_undefined (h : Accepted source lexemes) {r : Reference}
    (hr : (draftOf file lexemes).labels.undefined.head? = some r) :
    (assemble true file (.ofBytes source)).1
      = .error (.diagnostic ((draftOf file lexemes).labels.undefinedError r)) := by
  have hscan := h.scan file true
  have hsize : ((draftOf file lexemes).image.size : Int) ≤ addressSpace := by
    rw [size_draftOf]
    exact Int.ofNat_le.mpr h.size
  have hgen : ∃ p', (Pass.fresh file source true).generate
      = .error (.diagnostic ((draftOf file lexemes).labels.undefinedError r)) p' := by
    unfold Pass.generate
    rw [hscan]
    dsimp only
    rw [if_neg (by omega)]
    unfold Pass.finish Labels.resolve
    dsimp only
    rw [if_pos rfl, hr]
    exact ⟨_, rfl⟩
  obtain ⟨p', hgen⟩ := hgen
  exact assemble_of_generate_error hgen

/-- Whatever is assembled, in either mode, is accepted and has the build of two passes. -/
theorem accepted_of_assemble {b : Build} (h : (assemble strict file (.ofBytes source)).1 = .ok b) :
    ∃ lexemes, Accepted source lexemes ∧ b = buildOf file lexemes := by
  cases hgen : (Pass.fresh file source strict).generate with
  | error e p' =>
      rw [assemble_of_generate_error hgen] at h
      cases h
  | ok image p' =>
      obtain ⟨lexemes, hsplits, hnames, hsize⟩ := Pass.splits_of_generate hgen
      have haccepted : Accepted source lexemes := ⟨hsplits, hnames, hsize⟩
      refine ⟨lexemes, haccepted, ?_⟩
      -- in strict mode a name without definition would have been reported
      have hdef : strict = true → (draftOf file lexemes).labels.undefined = [] := by
        intro hstrict
        cases hr : (draftOf file lexemes).labels.undefined.head? with
        | none => exact List.head?_eq_none_iff.mp hr
        | some r =>
            rw [hstrict, assemble_of_undefined haccepted hr] at h
            cases h
      rw [assemble_of_accepted haccepted file hdef] at h
      exact (Except.ok.inj h).symm

end

/-! ## Symbols and images of lexemes -/

/-- The labels of lexemes whose bytes lie from an address on. -/
def symbolsFrom (start : Int) : List Lexeme → List (String × Int)
  | [] => []
  | x :: xs =>
    (x.token.defines?.map fun name => (name, start)).toList
      ++ symbolsFrom (start + x.token.size) xs

/-- The four bytes of the address of a label, or zeros if a table lacks it. -/
def symbolBytes (symbols : List (String × Int)) (name : String) : List UInt8 :=
  match symbols.lookup name with
  | some address => Image.bigEndian address.toNat
  | none => [0, 0, 0, 0]

theorem length_symbolBytes (symbols : List (String × Int)) (name : String) :
    (symbolBytes symbols name).length = 4 := by
  unfold symbolBytes
  split <;> rfl

theorem symbolsFrom_append (xs ys : List Lexeme) : ∀ start : Int,
    symbolsFrom start (xs ++ ys)
      = symbolsFrom start xs ++ symbolsFrom (start + totalSize xs) ys := by
  induction xs with
  | nil => intro start; simp [symbolsFrom, totalSize, Token.sizeOfAll]
  | cons x xs ih =>
      intro start
      rw [List.cons_append, symbolsFrom, symbolsFrom, ih, totalSize_cons, List.append_assoc,
        Int.natCast_add, Int.add_assoc]

theorem map_fst_symbolsFrom (xs : List Lexeme) : ∀ start : Int,
    (symbolsFrom start xs).map Prod.fst = definedNames xs := by
  induction xs with
  | nil => intro start; rfl
  | cons x xs ih =>
      intro start
      rw [symbolsFrom, List.map_append, ih, definedNames_cons]
      cases x.token.defines? <;> rfl

/-- A label has the address of the bytes behind its definition. -/
theorem mem_symbolsFrom {name : String} {address : Int} {xs : List Lexeme} : ∀ {start : Int},
    (name, address) ∈ symbolsFrom start xs
      ↔ ∃ before x after, xs = before ++ x :: after ∧ x.token = .definition name
        ∧ address = start + totalSize before := by
  induction xs with
  | nil =>
      intro start
      constructor
      · intro h
        cases h
      · rintro ⟨before, x, after, hsplit, -⟩
        cases before <;> cases hsplit
  | cons y ys ih =>
      intro start
      rw [symbolsFrom, List.mem_append, ih]
      constructor
      · rintro (hmem | ⟨before, x, after, rfl, hx, rfl⟩)
        · obtain ⟨n, hn, heq⟩ := Option.map_eq_some_iff.mp (Option.mem_toList.mp hmem)
          cases heq
          exact ⟨[], y, ys, rfl, Token.defines?_eq_some.mp hn, (Int.add_zero _).symm⟩
        · exact ⟨y :: before, x, after, rfl, hx, by rw [totalSize_cons]; omega⟩
      · rintro ⟨before, x, after, hsplit, hx, rfl⟩
        cases before with
        | nil =>
            cases hsplit
            left
            rw [Token.defines?_eq_some.mpr hx]
            exact List.mem_singleton.mpr (Prod.ext rfl (Int.add_zero _))
        | cons z before =>
            cases hsplit
            right
            exact ⟨before, x, after, rfl, hx, by rw [totalSize_cons]; omega⟩

theorem filterMap_layOut (file : RawText) (base : Int) (xs : List Lexeme) :
    ∀ (before : List UInt8) (offset : Nat),
      ((layOut file before offset xs).filterMap fun i =>
          i.token.defines?.map fun name => (name, base + (i.offset : Int)))
        = symbolsFrom (base + offset) xs := by
  induction xs with
  | nil => intro before offset; rfl
  | cons x xs ih =>
      intro before offset
      rw [layOut, symbolsFrom, List.filterMap_cons, ih, Int.natCast_add, Int.add_assoc]
      cases x.token.defines? <;> rfl

theorem symbols_buildOf (file : RawText) (xs : List Lexeme) :
    (buildOf file xs).symbols = symbolsFrom (addressSpace - totalSize xs) xs := by
  have hlayout := filterMap_layOut file (addressSpace - totalSize xs) xs [] 0
  rw [Int.natCast_zero, Int.add_zero] at hlayout
  rw [← hlayout, ← length_layOut file xs [] 0]
  rfl

theorem map_fst_symbols (file : RawText) (xs : List Lexeme) :
    (buildOf file xs).symbols.map Prod.fst = definedNames xs := by
  rw [symbols_buildOf, map_fst_symbolsFrom]

theorem lookup_buildOf_eq_none (file : RawText) {xs : List Lexeme} {name : String} :
    (buildOf file xs).symbols.lookup name = none ↔ name ∉ definedNames xs := by
  rw [← map_fst_symbols file, List.lookup_eq_none_iff, List.mem_map]
  constructor
  · rintro h ⟨s, hs, rfl⟩
    simpa using h s hs
  · intro h s hs
    exact bne_iff_ne.mpr fun heq => h ⟨s, hs, heq.symm⟩

theorem lookup_symbols (name : String) (address : Item → Int) (items : List Item) :
    (items.filterMap fun i => i.token.defines?.map fun n => (n, address i)).lookup name
      = (items.find? fun i => i.token.defines? == some name).map address := by
  induction items with
  | nil => rfl
  | cons i items ih =>
      cases hi : i.token.defines? with
      | none => simp [hi, ih]
      | some n =>
          by_cases hn : n = name
          · simp [hi, hn]
          · have hne : (name == n) = false := beq_eq_false_iff_ne.mpr (Ne.symm hn)
            simp [hi, hn, List.lookup_cons, hne, ih]

/-- **An image holds the addresses of the symbol table.** -/
theorem image_buildOf (file : RawText) (xs : List Lexeme) :
    (buildOf file xs).image.toList
      = xs.flatMap fun x => x.token.emit (symbolBytes (buildOf file xs).symbols) := by
  have hbytes : TwoPass.addressBytes (layOut file [] 0 xs)
      = symbolBytes (buildOf file xs).symbols := by
    funext name
    unfold TwoPass.addressBytes symbolBytes
    rw [show (buildOf file xs).symbols = TwoPass.symbols (layOut file [] 0 xs) from rfl,
      TwoPass.symbols, lookup_symbols]
    cases (layOut file [] 0 xs).find? fun i => i.token.defines? == some name <;> rfl
  show TwoPass.image (layOut file [] 0 xs) = _
  rw [TwoPass.image, hbytes]
  have hmap := congrArg (fun ts => ts.flatMap (Token.emit (symbolBytes (buildOf file xs).symbols)))
    (map_token_layOut file xs [] 0)
  simpa only [List.flatMap_map] using hmap

theorem length_flatMap_emit {address : String → List UInt8}
    (h : ∀ name, (address name).length = 4) (xs : List Lexeme) :
    (xs.flatMap fun x => x.token.emit address).length = totalSize xs := by
  induction xs with
  | nil => rfl
  | cons x xs ih =>
      rw [List.flatMap_cons, List.length_append, Token.length_emit h, ih, totalSize_cons]

theorem size_buildOf (file : RawText) (xs : List Lexeme) :
    (buildOf file xs).image.size = totalSize xs := by
  rw [← Array.length_toList, image_buildOf, length_flatMap_emit (length_symbolBytes _)]

/-- The bytes of a label in a table are its address, if this lies in memory. -/
theorem ofBigEndian_symbolBytes {symbols : List (String × Int)} {name : String} {address : Int}
    (h : symbols.lookup name = some address) (hlow : 0 ≤ address)
    (hhigh : address ≤ addressSpace) :
    (Image.ofBigEndian (symbolBytes symbols name) : Int) = address := by
  unfold symbolBytes
  rw [h]
  show (Image.ofBigEndian (Image.bigEndian address.toNat) : Int) = address
  unfold addressSpace at hhigh
  rw [Image.ofBigEndian_bigEndian (by omega)]
  omega

theorem mem_of_lookup_eq_some {α β : Type} [BEq α] [LawfulBEq α] {l : List (α × β)} {a : α} {b : β}
    (h : l.lookup a = some b) : (a, b) ∈ l := by
  obtain ⟨earlier, later, rfl, -⟩ := List.lookup_eq_some_iff.mp h
  exact List.mem_append_right _ List.mem_cons_self

theorem lookup_eq_some_iff_mem {α β : Type} [BEq α] [LawfulBEq α] {l : List (α × β)} {a : α}
    {b : β} (h : (l.map Prod.fst).Nodup) : l.lookup a = some b ↔ (a, b) ∈ l := by
  refine ⟨mem_of_lookup_eq_some, fun hmem => ?_⟩
  cases hlookup : l.lookup a with
  | none =>
      have hne := List.lookup_eq_none_iff.mp hlookup _ hmem
      exact absurd rfl (bne_iff_ne.mp hne)
  | some c =>
      have hsame := List.inj_on_of_nodup_map h (mem_of_lookup_eq_some hlookup) hmem rfl
      cases hsame
      rfl

/-- The labels of a build lie in its image or behind it. -/
theorem bounds_of_lookup {file : RawText} {xs : List Lexeme} {name : String} {address : Int}
    (h : (buildOf file xs).symbols.lookup name = some address) :
    addressSpace - totalSize xs ≤ address ∧ address ≤ addressSpace := by
  have hmem := mem_of_lookup_eq_some h
  rw [symbols_buildOf] at hmem
  obtain ⟨before, x, after, rfl, -, rfl⟩ := mem_symbolsFrom.mp hmem
  rw [totalSize_append]
  omega

end RomKit
