import RomKit.Proofs.Acceptance
import RomKit.Proofs.Entries
import RomKit.Text.Utf8

/-!
# A listing is source text for what it lists

`SourceFor text bytes` says that `text` splits into lexemes without labels that
emit `bytes`, whatever stands behind it after a blank. Texts of this kind are put
together with blanks between them (`SourceFor.join`), so it is enough to look at
one entry of a listing at a time, and the text of an entry is source for its bytes
because it shows them (`Shape.Shows.sourceFor`).

Without labels there is nothing to overwrite, nothing undefined and nothing
unused, so the assembler gives back the bytes in either mode
(`SourceFor.assemble`).
-/

namespace RomKit

open Source Token

/-! ## Texts as bytes -/

namespace Utf8

theorem encode_append (s t : String) : encode (s ++ t) = encode s ++ encode t := by
  simp [encode]

theorem encode_mnemonic (op : Opcode) : encode op.mnemonic = bytesOf op.mnemonic := by
  cases op <;> decide

theorem encode_spelling (i : Instruction) : encode i.spelling = i.written := by
  obtain ⟨op, ret, w⟩ := i
  have hret : encode (if ret then "r" else "") = returnMarks ret := by
    cases ret <;> decide
  have hwidth : encode (if w = .one then "" else toString w.byteCount) = w.digits := by
    cases w <;> decide +kernel
  unfold Instruction.spelling Instruction.written
  rw [encode_append, encode_append, encode_mnemonic, hret, hwidth]

end Utf8

namespace Hex

/-- The digit with a value below sixteen. -/
def digitByte (n : Nat) : UInt8 :=
  UInt8.ofNat (Nat.digitChar n).toNat

theorem digitByte_spec : ∀ n < 16, String.utf8EncodeChar (Nat.digitChar n) = [digitByte n]
    ∧ isHexDigit (digitByte n) = true ∧ hexValue (digitByte n) = n := by
  decide +kernel

theorem byte_eq_run (b : UInt8) : byte b = run [b] := by
  simp [byte, run, digits]

theorem encode_run_cons (b : UInt8) (bytes : List UInt8) :
    Utf8.encode (run (b :: bytes))
      = digitByte (b.toNat / 16) :: digitByte (b.toNat % 16) :: Utf8.encode (run bytes) := by
  have hlt := b.toNat_lt
  have hhigh := (digitByte_spec (b.toNat / 16) (by omega)).1
  have hlow := (digitByte_spec (b.toNat % 16) (by omega)).1
  simp [Utf8.encode, run, digits, pair, hhigh, hlow]

theorem length_encode_run (bytes : List UInt8) :
    (Utf8.encode (run bytes)).length = 2 * bytes.length := by
  induction bytes with
  | nil => rfl
  | cons b bytes ih =>
      rw [encode_run_cons, List.length_cons, List.length_cons, ih, List.length_cons]
      omega

theorem isHexDigit_of_mem_run (bytes : List UInt8) :
    ∀ d ∈ Utf8.encode (run bytes), isHexDigit d = true := by
  induction bytes with
  | nil => intro d hd; cases hd
  | cons b bytes ih =>
      intro d hd
      have hlt := b.toNat_lt
      rw [encode_run_cons] at hd
      rcases List.mem_cons.mp hd with rfl | hd
      · exact (digitByte_spec _ (by omega)).2.1
      · rcases List.mem_cons.mp hd with rfl | hd
        · exact (digitByte_spec _ (by omega)).2.1
        · exact ih d hd

/-- Reading digits two by two gives back the bytes that they were written for. -/
theorem pairBytes_encode_run (bytes : List UInt8) :
    pairBytes (Utf8.encode (run bytes)) = bytes := by
  induction bytes with
  | nil => rfl
  | cons b bytes ih =>
      have hlt := b.toNat_lt
      have hbyte : byteOf (digitByte (b.toNat / 16)) (digitByte (b.toNat % 16)) = b := by
        unfold byteOf
        rw [(digitByte_spec _ (by omega)).2.2, (digitByte_spec _ (by omega)).2.2,
          Nat.div_add_mod', UInt8.ofNat_toNat]
      rw [encode_run_cons, pairBytes, hbyte, ih]

/-- One to four bytes are written as a number. -/
theorem number_encode_run {bytes : List UInt8} (h₁ : 1 ≤ bytes.length)
    (h₄ : bytes.length ≤ 4) : Number (Utf8.encode (run bytes)) [] where
  run :=
    { nonempty := List.length_pos_iff.mp (by rw [length_encode_run]; omega)
      inside := isHexDigit_of_mem_run bytes
      stops := rfl }
  length := by
    rw [length_encode_run]
    have : bytes.length = 1 ∨ bytes.length = 2 ∨ bytes.length = 3 ∨ bytes.length = 4 := by omega
    rcases this with h | h | h | h <;> rw [h] <;> decide

end Hex

/-! ## Source text without labels -/

/-- A token that neither defines a label nor refers to one. -/
def Token.Bare (t : Token) : Prop :=
  t.defines? = none ∧ t.refersTo? = none

/-- A text splits into lexemes without labels, also before a blank, and they emit some bytes. -/
def SourceFor (text bytes : List UInt8) : Prop :=
  ∃ xs : List Lexeme,
    (∀ rest ys, rest.head?.all isSpace = true → Splits rest ys → Splits (text ++ rest) (xs ++ ys))
      ∧ (∀ x ∈ xs, x.token.Bare)
      ∧ xs.flatMap (fun x => x.token.emit noAddress) = bytes

namespace SourceFor

theorem nil : SourceFor [] [] :=
  ⟨[], fun _ _ _ h => h, fun _ hx => (nomatch hx), rfl⟩

/-- A single lexeme. -/
theorem lexeme {text bytes : List UInt8} (t : Token) (hbare : t.Bare)
    (hemit : t.emit noAddress = bytes)
    (h : Spells text [] t) : SourceFor text bytes := by
  refine ⟨[⟨text, t⟩], fun rest ys hrest hys => .cons (h.append hrest) hys, ?_, ?_⟩
  · intro x hx
    rw [List.mem_singleton.mp hx]
    exact hbare
  · rw [List.flatMap_singleton]
    exact hemit

theorem instruction {i : Instruction} (h : i.allowed = true) :
    SourceFor i.written [i.control] :=
  lexeme (.instruction i) ⟨rfl, rfl⟩ rfl (.instruction h rfl)

theorem data {bytes : List UInt8} (h₁ : 1 ≤ bytes.length) (h₄ : bytes.length ≤ 4) :
    SourceFor (Utf8.encode (Hex.run bytes)) bytes :=
  lexeme (.data (pairBytes (Utf8.encode (Hex.run bytes)))) ⟨rfl, rfl⟩
    (Hex.pairBytes_encode_run bytes) (.data (Hex.number_encode_run h₁ h₄))

theorem literal {payload : List UInt8} (h₁ : 1 ≤ payload.length) (h₄ : payload.length ≤ 4) :
    SourceFor (hash :: Utf8.encode (Hex.run payload))
      ((⟨.lit, false, .ofLength payload.length⟩ : Instruction).control :: payload) := by
  refine lexeme (.literal (pairBytes (Utf8.encode (Hex.run payload)))) ⟨rfl, rfl⟩ ?_
    (.literal (Hex.number_encode_run h₁ h₄))
  rw [Hex.pairBytes_encode_run]
  rfl

/-- **Two texts with a blank between them.** -/
theorem join {text text' bytes bytes' : List UInt8} {blank : UInt8} (h : SourceFor text bytes)
    (hblank : isSpace blank = true) (h' : SourceFor text' bytes') :
    SourceFor (text ++ blank :: text') (bytes ++ bytes') := by
  obtain ⟨xs, hsplits, hbare, hemit⟩ := h
  obtain ⟨xs', hsplits', hbare', hemit'⟩ := h'
  refine ⟨xs ++ ⟨[blank], .blank blank⟩ :: xs', ?_, ?_, ?_⟩
  · intro rest ys hrest hys
    rw [List.append_assoc, List.append_assoc]
    refine hsplits _ _ hblank ?_
    exact .cons (.blank hblank) (hsplits' rest ys hrest hys)
  · intro x hx
    rcases List.mem_append.mp hx with hx | hx
    · exact hbare x hx
    · rcases List.mem_cons.mp hx with rfl | hx
      · exact ⟨rfl, rfl⟩
      · exact hbare' x hx
  · rw [List.flatMap_append, List.flatMap_cons, hemit, hemit']
    rfl

end SourceFor

/-! ## Listings -/

/-- **The text of an entry is source for its bytes.** -/
theorem Shape.Shows.sourceFor {shape : Shape} {bytes : List UInt8} (h : shape.Shows bytes) :
    SourceFor (Utf8.encode shape.text) bytes := by
  cases h with
  | @plain i hallowed hlit =>
      rw [Shape.text, Instruction.textWith, if_neg hlit, Utf8.encode_spelling]
      exact .instruction hallowed
  | @push i payload hallowed hlit hlen =>
      have hcount : 1 ≤ payload.length ∧ payload.length ≤ 4 := by
        rw [hlen]
        cases i.width <;> decide
      rw [Shape.text, Instruction.textWith, if_pos hlit]
      by_cases hret : i.ret = true
      · -- the payload cannot follow `LITr` at once: it stands behind a blank, as data
        rw [if_pos hret, Utf8.encode_append, Utf8.encode_append, Utf8.encode_spelling,
          List.append_assoc]
        exact (SourceFor.instruction hallowed).join (by decide)
          (.data hcount.1 hcount.2)
      · have hi : (⟨.lit, false, .ofLength payload.length⟩ : Instruction) = i := by
          rw [hlen, Width.ofLength_byteCount, ← hlit, ← Bool.eq_false_iff.mpr hret]
        rw [if_neg hret, Utf8.encode_append, ← hi]
        exact .literal hcount.1 hcount.2
  | @data b reason =>
      rw [Shape.text, Hex.byte_eq_run]
      exact .data (Nat.le_refl 1) (by decide : 1 ≤ 4)

/-- **Lines that are source make a text that is source.** -/
theorem SourceFor.lines {ls : List (String × List UInt8)}
    (h : ∀ l ∈ ls, SourceFor (Utf8.encode l.1) l.2) :
    SourceFor (Utf8.encode ("\n".intercalate (ls.map Prod.fst))) (ls.flatMap Prod.snd) := by
  induction ls with
  | nil => exact .nil
  | cons l ls ih =>
      have hl := h l List.mem_cons_self
      have hls := ih fun x hx => h x (List.mem_cons_of_mem _ hx)
      cases ls with
      | nil =>
          rw [List.flatMap_singleton, List.map_singleton, String.intercalate_singleton]
          exact hl
      | cons l' ls =>
          rw [List.map_cons, List.map_cons, String.intercalate_cons_cons, Utf8.encode_append,
            Utf8.encode_append, List.append_assoc, List.flatMap_cons]
          exact hl.join (by decide) hls

theorem sourceFor_listing {es : List Entry} (h : ∀ e ∈ es, e.shape.Shows e.bytes) :
    SourceFor (Utf8.encode (listing es false)) (es.flatMap Entry.bytes) := by
  have hlines : ∀ l ∈ es.map fun e => (e.text, e.bytes), SourceFor (Utf8.encode l.1) l.2 := by
    intro l hl
    obtain ⟨e, he, rfl⟩ := List.mem_map.mp hl
    exact (h e he).sourceFor
  have htext := SourceFor.lines hlines
  rw [List.map_map, List.flatMap_map] at htext
  exact htext

/-! ## Assembling them -/

/-- Tokens without labels leave none in the draft. -/
theorem labels_draftOf_of_bare (file : RawText) {xs : List Lexeme} (h : ∀ x ∈ xs, x.token.Bare) :
    (draftOf file xs).labels = ⟨[], []⟩ := by
  have hitems : ∀ i ∈ layOut file [] 0 xs, i.token.Bare := by
    intro i hi
    have hmem : i.token ∈ xs.map Lexeme.token := by
      rw [← map_token_layOut file xs [] 0]
      exact List.mem_map_of_mem hi
    obtain ⟨x, hx, hxi⟩ := List.mem_map.mp hmem
    rw [← hxi]
    exact h x hx
  have hdefs : (draftOf file xs).labels.definitions = [] := by
    refine List.eq_nil_iff_forall_not_mem.mpr fun x hx => ?_
    obtain ⟨i, hi, hix⟩ := Draft.mem_definitions_addAll.mp hx
    rw [Item.definition?, (hitems i hi).1] at hix
    cases hix
  have hrefs : (draftOf file xs).labels.references = [] := by
    refine List.eq_nil_iff_forall_not_mem.mpr fun r hr => ?_
    obtain ⟨i, hi, hir⟩ := Draft.mem_references_addAll.mp hr
    rw [Item.reference?, (hitems i hi).2] at hir
    cases hir
  cases hlabels : (draftOf file xs).labels with
  | mk definitions references =>
      rw [hlabels] at hdefs hrefs
      dsimp only at hdefs hrefs
      rw [hdefs, hrefs]

/-- **Source without labels is assembled to its bytes**, in either mode. -/
theorem SourceFor.assemble {source bytes : List UInt8} (h : SourceFor source bytes)
    (hsize : bytes.length ≤ addressSpace) (strict : Bool) (file : RawText) :
    (RomKit.assemble strict file (.ofBytes source)).1 = .ok ⟨bytes.toArray, [], file, []⟩ := by
  obtain ⟨xs, hsplits, hbare, rfl⟩ := h
  have hsplit : Splits source xs := by
    have := hsplits [] [] rfl .nil
    rwa [List.append_nil, List.append_nil] at this
  have hlabels := labels_draftOf_of_bare file hbare
  have htotal : totalSize xs ≤ addressSpace := by
    rw [← size_draftOf file xs, image_draftOf]
    exact hsize
  have hnodup : (definedNames xs).Nodup := by
    have hnames : definedNames xs = [] := List.filterMap_eq_nil_iff.mpr fun x hx => (hbare x hx).1
    rw [hnames]
    exact List.nodup_nil
  -- strict mode has nothing to complain about
  have hdef : strict = true → (draftOf file xs).labels.undefined = [] := by
    intro _
    rw [hlabels]
    simp [Labels.undefined, Labels.referredNames]
  obtain ⟨p', hgen, hlabels', -, hunused⟩ :=
    Pass.generate_of_splits file hsplit hnodup htotal hdef
  have hsymbols : p'.symbols = [] := by
    rw [Pass.symbols, hlabels', hlabels]
    rfl
  -- without labels there are no writes either, so the image is the one that was emitted
  rw [Pass.assemble_of_generate hgen, hsymbols, hunused, hlabels, image_draftOf]
  rfl

namespace Assembler

/-- Assembling a text succeeds with these bytes, with no labels and with nothing to warn about. -/
def Yields (a : Assembler) (file : RawText) (text : String) (bytes : List UInt8) : Prop :=
  (a.run file (.ofBytes (Utf8.encode text))).1 = .ok bytes.toArray
    ∧ (a.run file (.ofBytes (Utf8.encode text))).2.1.symbols = []
    ∧ (a.run file (.ofBytes (Utf8.encode text))).2.1.warnings = []

theorem yields_of_sourceFor (a : Assembler) (file : RawText) {text : String} {bytes : List UInt8}
    (h : SourceFor (Utf8.encode text) bytes) (hsize : bytes.length ≤ addressSpace) :
    a.Yields file text bytes := by
  obtain ⟨himage, hheld⟩ := run_of_ok (h.assemble hsize a.strict file)
  unfold Yields
  rw [himage, hheld]
  exact ⟨rfl, rfl, rfl⟩

/--
**A listing is source text for the image that it lists.** Whatever the symbols, the start address
and the mode, the listing of an image that fits into memory is assembled to the image. A listing
that a count cuts short is assembled to the bytes of its entries, with which the image begins.
-/
theorem yields_image_of_listing (a : Assembler) (file : RawText) (symbols : SymbolMap)
    (rom : List UInt8) (start : Option Int) (hsize : rom.length ≤ addressSpace) :
    a.Yields file (listing (disassemble symbols rom start none) false) rom
    ∧ ∀ count : Int,
      a.Yields file (listing (disassemble symbols rom start (some count)) false)
        (((disassemble symbols rom start none).take (max count 0).toNat).flatMap Entry.bytes)
      ∧ ((disassemble symbols rom start none).take (max count 0).toNat).flatMap Entry.bytes
          <+: rom := by
  have hshows : ∀ e ∈ disassemble symbols rom start none, e.shape.Shows e.bytes :=
    shows_of_mem_entries symbols _ rom
  have hbytes : (disassemble symbols rom start none).flatMap Entry.bytes = rom :=
    flatMap_bytes_entries symbols _ rom
  have hinit : ∀ n, ((disassemble symbols rom start none).take n).flatMap Entry.bytes <+: rom := by
    intro n
    refine ⟨((disassemble symbols rom start none).drop n).flatMap Entry.bytes, ?_⟩
    rw [← List.flatMap_append, List.take_append_drop, hbytes]
  refine ⟨?_, fun count => ⟨?_, hinit _⟩⟩
  · -- the bytes of all entries are the image
    have hall := sourceFor_listing hshows
    rw [hbytes] at hall
    exact yields_of_sourceFor a file hall hsize
  · rw [disassemble_some]
    refine yields_of_sourceFor a file ?_ (Nat.le_trans (hinit _).length_le hsize)
    exact sourceFor_listing fun e he => hshows e (List.mem_of_mem_take he)

/-- A literal, one on the return stack, a byte that is no instruction, and a literal cut off by the
end of the image. -/
theorem yields_image_of_listing_mixed :
    ([0x00, 0x7F, 0x80, 0x01, 0x1F, 0x20, 0x05] : List UInt8).length ≤ addressSpace
      ∧ (Assembler.fresh true).Yields "rom"
        (listing (disassemble .empty [0x00, 0x7F, 0x80, 0x01, 0x1F, 0x20, 0x05] none none) false)
        [0x00, 0x7F, 0x80, 0x01, 0x1F, 0x20, 0x05] :=
  ⟨by decide, (yields_image_of_listing _ _ _ _ _ (by decide)).1⟩

end Assembler

end RomKit
