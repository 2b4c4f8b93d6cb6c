import Mathlib.Data.List.Forall2
import RomKit.Proofs.Comments
import RomKit.Proofs.Reassembly

/-!
# The listing of a program is its code

A program of instructions, literals and references, without data, is listed as it
was written. The image has no boundaries, but its first byte is a control byte, and
each instruction says how many bytes it takes, so decoding stays in step with what
was emitted (`decoded_entries`).

Every entry lies where its lexeme was put down, so with the symbols of the program
the comments name its labels (`Decoded.commented`).
-/

namespace RomKit

open Source Token

/-! ## Digits -/

namespace Hex

theorem digitByte_hexValue {d : UInt8} (h : isHexDigit d = true) :
    hexValue d < 16 ∧ digitByte (hexValue d) = d := by
  have hall : ∀ n : Fin 256, isHexDigit (UInt8.ofNat n.val) = true →
      hexValue (UInt8.ofNat n.val) < 16
        ∧ digitByte (hexValue (UInt8.ofNat n.val)) = UInt8.ofNat n.val := by
    decide +kernel
  have hd := hall ⟨d.toNat, d.toNat_lt⟩
  rw [UInt8.ofNat_toNat] at hd
  exact hd h

/-- Bytes that were read from digits are written with the same digits. -/
theorem encode_run_pairBytes {digits : List UInt8} (hhex : ∀ d ∈ digits, isHexDigit d = true)
    (heven : digits.length % 2 = 0) : Utf8.encode (run (pairBytes digits)) = digits := by
  induction digits using pairBytes.induct with
  | case1 high low rest ih =>
      obtain ⟨hhigh, hhigh'⟩ := digitByte_hexValue (hhex high List.mem_cons_self)
      obtain ⟨hlow, hlow'⟩ :=
        digitByte_hexValue (hhex low (List.mem_cons_of_mem _ List.mem_cons_self))
      have hbyte : (byteOf high low).toNat = hexValue high * 16 + hexValue low := by
        unfold byteOf
        rw [UInt8.toNat_ofNat']
        omega
      have hdiv : (byteOf high low).toNat / 16 = hexValue high := by omega
      have hmod : (byteOf high low).toNat % 16 = hexValue low := by omega
      have hrest := ih (fun d hd => hhex d (List.mem_cons_of_mem _ (List.mem_cons_of_mem _ hd)))
        (by simp only [List.length_cons] at heven; omega)
      rw [pairBytes, encode_run_cons, hdiv, hmod, hhigh', hlow', hrest]
  | case2 digits hshort =>
      cases digits with
      | nil => rfl
      | cons d digits =>
          cases digits with
          | nil => cases heven
          | cons d' digits => exact absurd rfl (hshort d d' digits)

theorem zeroFill_toDigits_succ {k : Nat} (hk : 0 < k) (n : Nat) :
    zeroFill (k + 1) (Nat.toDigits 16 n)
      = zeroFill k (Nat.toDigits 16 (n / 16)) ++ [Nat.digitChar (n % 16)] := by
  unfold zeroFill
  by_cases hn : n < 16
  · have hzero : n / 16 = 0 := by omega
    have hmod : n % 16 = n := by omega
    have hfill : List.replicate k '0' = List.replicate (k - 1) '0' ++ ['0'] := by
      rw [← List.replicate_succ', Nat.sub_add_cancel hk]
    rw [Nat.toDigits_of_lt_base hn, hzero, hmod]
    show List.replicate k '0' ++ [_] = List.replicate (k - 1) '0' ++ ['0'] ++ [_]
    rw [hfill]
  · rw [Nat.toDigits_of_base_le (by decide) (by omega), List.length_append, List.length_singleton,
      Nat.add_sub_add_right, List.append_assoc]

theorem pair_ofNat (n : Nat) :
    pair (UInt8.ofNat n) = [Nat.digitChar (n / 16 % 16), Nat.digitChar (n % 16)] := by
  have hhigh : (UInt8.ofNat n).toNat / 16 = n / 16 % 16 := by
    rw [UInt8.toNat_ofNat']
    omega
  have hlow : (UInt8.ofNat n).toNat % 16 = n % 16 := by
    rw [UInt8.toNat_ofNat']
    omega
  rw [pair, hhigh, hlow]

/-- The last byte of a number has its last two digits. -/
theorem zeroFill_toDigits_byte {k : Nat} (hk : 0 < k) (n : Nat) :
    zeroFill (k + 2) (Nat.toDigits 16 n)
      = zeroFill k (Nat.toDigits 16 (n / 0x100)) ++ pair (UInt8.ofNat n) := by
  rw [zeroFill_toDigits_succ (Nat.succ_pos k), zeroFill_toDigits_succ hk, pair_ofNat,
    Nat.div_div_eq_div_mul, List.append_assoc]
  rfl

/-- **The bytes of an address are written with its eight digits.** -/
theorem run_bigEndian {n : Nat} (h : n < 0x100000000) :
    run (Image.bigEndian n) = String.ofList (zeroFill 8 (Nat.toDigits 16 n)) := by
  have hfirst : zeroFill 2 (Nat.toDigits 16 (n / 0x1000000))
      = pair (UInt8.ofNat (n / 0x1000000)) := by
    have hdigit : n / 0x1000000 / 16 < 16 := by omega
    rw [zeroFill_toDigits_succ (by decide), Nat.toDigits_of_lt_base hdigit, pair_ofNat,
      Nat.mod_eq_of_lt hdigit]
    rfl
  have hsecond : n / 0x100 / 0x100 = n / 0x10000 := by omega
  have hthird : n / 0x10000 / 0x100 = n / 0x1000000 := by omega
  rw [zeroFill_toDigits_byte (by decide), zeroFill_toDigits_byte (by decide),
    zeroFill_toDigits_byte (by decide), hsecond, hthird, hfirst]
  simp only [run, digits, Image.bigEndian, List.flatMap_cons, List.flatMap_nil,
    List.append_assoc, List.append_nil]

end Hex

/-! ## Code and its bytes -/

namespace Token

/-- A token without bytes of its own. -/
def isSilent : Token → Bool
  | .blank _ | .comment _ | .definition _ => true
  | _ => false

/-- A reference, a literal, or an instruction that pushes nothing. -/
def isCode : Token → Bool
  | .reference _ | .literal _ => true
  | .instruction i => decide (i.opcode ≠ .lit)
  | _ => false

/-- The instruction of a piece of code and the payload that it pushes, given the four bytes of the
address of each label. -/
def code (address : String → List UInt8) : Token → Instruction × List UInt8
  | .reference name => (⟨.lit, false, .four⟩, address name)
  | .literal payload => (⟨.lit, false, .ofLength payload.length⟩, payload)
  | .instruction i => (i, [])
  | _ => default

theorem emit_of_isSilent (address : String → List UInt8) {t : Token} (h : t.isSilent = true) :
    t.emit address = [] ∧ t.size = 0 ∧ t.isCode = false := by
  cases t with
  | blank _ | comment _ | definition _ => exact ⟨rfl, rfl, rfl⟩
  | _ => cases h

end Token

/-- A number spells one to four bytes, and these are written like the number. -/
theorem Number.pairBytes_spec {digits rest : List UInt8} (h : Number digits rest) :
    Utf8.encode (Hex.run (pairBytes digits)) = digits
      ∧ 1 ≤ (pairBytes digits).length ∧ (pairBytes digits).length ≤ 4 := by
  have hlength := h.length
  simp only [List.mem_cons, List.not_mem_nil, or_false] at hlength
  have hwritten := Hex.encode_run_pairBytes h.run.inside (by omega)
  have hdouble := congrArg List.length hwritten
  rw [Hex.length_encode_run] at hdouble
  exact ⟨hwritten, by omega, by omega⟩

/-- **Code emits the bytes that its instruction shows.** -/
theorem Spells.shows {address : String → List UInt8} (haddress : ∀ name, (address name).length = 4)
    {text rest : List UInt8} {t : Token} (h : Spells text rest t) (hcode : t.isCode = true) :
    Shape.Shows (.code (t.code address).1 (t.code address).2) (t.emit address) := by
  cases h with
  | reference _ => exact .push (i := ⟨.lit, false, .four⟩) rfl rfl (haddress _)
  | literal hnumber =>
      obtain ⟨-, hpos, hle⟩ := hnumber.pairBytes_spec
      refine .push ?_ rfl (Width.byteCount_ofLength hpos hle).symm
      show (⟨.lit, false, _⟩ : Instruction).allowed = true
      simp [Instruction.allowed, Opcode.acceptsSize]
  | instruction hallowed _ => exact .plain hallowed (of_decide_eq_true hcode)
  | _ => cases hcode

/-- Code other than a reference is listed as it was written. -/
theorem Spells.text_code {address : String → List UInt8} {text rest : List UInt8} {t : Token}
    (h : Spells text rest t) (hcode : t.isCode = true) (href : t.refersTo? = none) :
    Utf8.encode ((t.code address).1.textWith (t.code address).2) = text := by
  cases h with
  | reference _ => cases href
  | literal hnumber =>
      show Utf8.encode ("#" ++ Hex.run (pairBytes _)) = _
      rw [Utf8.encode_append, hnumber.pairBytes_spec.1]
      rfl
  | @instruction i _ _ _ =>
      have hlit : i.opcode ≠ .lit := of_decide_eq_true hcode
      show Utf8.encode (i.textWith []) = _
      rw [Instruction.textWith, if_neg hlit, Utf8.encode_spelling]
  | _ => cases hcode

/-! ## Decoding in step -/

/-- The lexemes of a program that are code, each with the offset of its first byte. -/
def codeFrom (offset : Nat) : List Lexeme → List (Nat × Lexeme)
  | [] => []
  | x :: xs =>
    if x.token.isCode then (offset, x) :: codeFrom (offset + x.token.size) xs
    else codeFrom (offset + x.token.size) xs

/-- An entry is the one of a lexeme at an offset from the start of an image. -/
structure Decoded (symbols : SymbolMap) (address : String → List UInt8) (start : Int)
    (p : Nat × Lexeme) (e : Entry) : Prop where
  spelt : ∃ rest, Spells p.2.text rest p.2.token
  isCode : p.2.token.isCode = true
  entry : e = Entry.ofCode symbols (start + p.1) (p.2.token.emit address)
    (p.2.token.code address).1 (p.2.token.code address).2

/-- **Decoding stays in step with emitting.** -/
theorem decoded_entries (symbols : SymbolMap) {address : String → List UInt8}
    (haddress : ∀ name, (address name).length = 4) (start : Int) {source : List UInt8}
    {xs : List Lexeme} (hsplits : Splits source xs)
    (hcode : ∀ x ∈ xs, x.token.isSilent = true ∨ x.token.isCode = true) : ∀ offset : Nat,
    List.Forall₂ (Decoded symbols address start) (codeFrom offset xs)
      (entries symbols (start + offset) (xs.flatMap fun x => x.token.emit address)) := by
  induction hsplits with
  | nil =>
      intro offset
      rw [List.flatMap_nil, entries]
      exact .nil
  | @cons text rest t xs hspells _ ih =>
      intro offset
      have hrest := ih (fun x hx => hcode x (List.mem_cons_of_mem _ hx)) (offset + t.size)
      rw [List.flatMap_cons, codeFrom]
      dsimp only
      rcases hcode ⟨text, t⟩ List.mem_cons_self with hsilent | hhere
      · obtain ⟨hemit, hsize, hnot⟩ := emit_of_isSilent address hsilent
        rw [hsize, Nat.add_zero] at hrest
        rw [hnot, hemit, hsize, if_neg (by decide)]
        exact hrest
      · have hhere' : t.isCode = true := hhere
        rw [if_pos hhere', entries_append symbols (hspells.shows haddress hhere'),
          length_emit haddress, Int.add_assoc, ← Int.natCast_add]
        exact .cons ⟨⟨rest, hspells⟩, hhere', rfl⟩ hrest

/-! ## Listings of builds -/

/-- What the listing of a build shows for a lexeme at an offset: no data, the address of the offset,
and either the lexeme itself or the address of the label that it refers to. -/
structure Listed (b : Build) (p : Nat × Lexeme) (e : Entry) : Prop where
  isCode : e.opcode?.isSome = true
  address : e.address = placedAddress p.1 b.image.size
  written : (∀ name, p.2.token ≠ .reference name) → Utf8.encode e.text = p.2.text
  referred : ∀ name, p.2.token = .reference name →
    e.text = "#" ++ String.ofList
      (Hex.zeroFill 8 (Nat.toDigits 16 ((b.symbols.lookup name).getD 0).toNat))

/-- What the comment of an entry tells about the labels of a program: the one that is defined at the
offset of the entry, and the one that its lexeme refers to. A text with a blank is the name of no
label; it may still be read into a comment, across the arrow. -/
structure Commented (lexemes : List Lexeme) (p : Nat × Lexeme) (e : Entry) : Prop where
  label : ∀ name, ' ' ∉ name.toList → (MarkedWith e.comment name ↔
    ∃ before x after, lexemes = before ++ x :: after ∧ x.token = .definition name
      ∧ totalSize before = p.1)
  target : ∀ name, p.2.token = .reference name → name ∈ definedNames lexemes →
    PointsAt e.comment name

section

variable {file : RawText} {xs : List Lexeme} {p : Nat × Lexeme} {e : Entry}

/-- Decoding stays in step over a whole image. -/
theorem decoded_disassemble (symbols : SymbolMap) (file : RawText) {source : List UInt8}
    (hsplits : Splits source xs)
    (hcode : ∀ x ∈ xs, x.token.isSilent = true ∨ x.token.isCode = true) :
    List.Forall₂
      (Decoded symbols (symbolBytes (buildOf file xs).symbols) (addressSpace - totalSize xs))
      (codeFrom 0 xs) (disassemble symbols (buildOf file xs).image.toList none none) := by
  have hentries := decoded_entries symbols (length_symbolBytes (buildOf file xs).symbols)
    (addressSpace - totalSize xs) hsplits hcode 0
  rw [← image_buildOf] at hentries
  show List.Forall₂ _ _ (entries symbols
    (placedAddress 0 (buildOf file xs).image.toList.length) (buildOf file xs).image.toList)
  rw [Array.length_toList, size_buildOf]
  exact hentries

theorem Decoded.listed {symbols : SymbolMap}
    (h : Decoded symbols (symbolBytes (buildOf file xs).symbols) (addressSpace - totalSize xs)
      p e) :
    Listed (buildOf file xs) p e := by
  obtain ⟨⟨rest, hspells⟩, hcode, rfl⟩ := h
  refine ⟨rfl, ?_, ?_, ?_⟩
  · rw [size_buildOf]
    rfl
  · intro hnone
    refine hspells.text_code hcode ?_
    cases href : p.2.token.refersTo? with
    | none => rfl
    | some name => exact absurd (refersTo?_eq_some.mp href) (hnone name)
  · intro name hname
    rw [hname]
    show "#" ++ Hex.run (symbolBytes (buildOf file xs).symbols name) = _
    have hbytes : symbolBytes (buildOf file xs).symbols name
        = Image.bigEndian (((buildOf file xs).symbols.lookup name).getD 0).toNat := by
      unfold symbolBytes
      cases (buildOf file xs).symbols.lookup name <;> rfl
    have hrange : (((buildOf file xs).symbols.lookup name).getD 0).toNat < 0x100000000 := by
      cases hlookup : (buildOf file xs).symbols.lookup name with
      | none => decide
      | some address =>
          have hbounds := bounds_of_lookup hlookup
          unfold addressSpace at hbounds
          show address.toNat < _
          omega
    rw [hbytes, Hex.run_bigEndian hrange]

theorem Decoded.commented {source : List UInt8} (haccepted : Accepted source xs)
    (hdistinct : ((buildOf file xs).symbols.map Prod.snd).Nodup)
    (h : Decoded (.insertSymbols .empty (buildOf file xs).symbols)
      (symbolBytes (buildOf file xs).symbols) (addressSpace - totalSize xs) p e) :
    Commented xs p e := by
  obtain ⟨⟨rest, hspells⟩, hcode, rfl⟩ := h
  have hlabels : ∀ s ∈ (buildOf file xs).symbols, LabelName s.1 := by
    intro s hs
    rw [symbols_buildOf] at hs
    obtain ⟨before, x, after, rfl, hx, -⟩ := mem_symbolsFrom.mp hs
    exact haccepted.splits.labelName (List.mem_append_right _ List.mem_cons_self) hx
  have hname? : ∀ a name, (SymbolMap.insertSymbols .empty (buildOf file xs).symbols).name? a
      = some name ↔ (name, a) ∈ (buildOf file xs).symbols :=
    fun a name => SymbolMap.name?_insertSymbols hdistinct fun s hs => (hlabels s hs).nonempty
  constructor
  · intro name hname
    rw [Entry.markedWith_ofCode (fun a n hn => hlabels _ ((hname? a n).mp hn)) hname, hname?,
      symbols_buildOf, mem_symbolsFrom]
    constructor
    · rintro ⟨before, x, after, hsplit, hx, hoffset⟩
      exact ⟨before, x, after, hsplit, hx, by omega⟩
    · rintro ⟨before, x, after, hsplit, hx, hoffset⟩
      exact ⟨before, x, after, hsplit, hx, by rw [hoffset]⟩
  · intro name href hdefined
    cases hlookup : (buildOf file xs).symbols.lookup name with
    | none => exact absurd hdefined ((lookup_buildOf_eq_none file).mp hlookup)
    | some address =>
        have hsize := haccepted.size
        obtain ⟨hlow, hhigh⟩ := bounds_of_lookup hlookup
        have hmem := mem_of_lookup_eq_some hlookup
        have hpayload := (hname? _ name).mpr
          (ofBigEndian_symbolBytes hlookup (by omega) hhigh ▸ hmem)
        rw [href]
        exact Entry.pointsAt_ofCode hpayload (hlabels _ hmem).nonempty

end

/--
**Disassembling undoes assembling.** The image of a program without data is listed with one entry
for each reference, literal and instruction of the source, in order. If no two labels share an
address, the comments of a listing with the symbols of the program name its labels where they are
defined and where they are referred to.
-/
theorem disassemble_undoes_assemble {strict : Bool} {file : RawText} {source : List UInt8}
    {b : Build} {lexemes : List Lexeme} (h : (assemble strict file (.ofBytes source)).1 = .ok b)
    (hsplits : Splits source lexemes)
    (hcode : ∀ x ∈ lexemes, x.token.isSilent = true ∨ x.token.isCode = true) :
    (∀ symbols, List.Forall₂ (Listed b) (codeFrom 0 lexemes)
        (disassemble symbols b.image.toList none none))
      ∧ ((b.symbols.map Prod.snd).Nodup →
        List.Forall₂ (Commented lexemes) (codeFrom 0 lexemes)
          (disassemble (.insertSymbols .empty b.symbols) b.image.toList none none)) := by
  obtain ⟨xs, haccepted, rfl⟩ := accepted_of_assemble h
  cases splits_unique hsplits haccepted.splits
  constructor
  · intro symbols
    exact (decoded_disassemble symbols file hsplits hcode).imp
      fun p e hdecoded => hdecoded.listed
  · intro hdistinct
    exact (decoded_disassemble _ file hsplits hcode).imp
      fun p e hdecoded => hdecoded.commented haccepted hdistinct

/-- The lexemes of `@a ;a #7f DUP`. -/
def labelledLoop : List Lexeme :=
  [⟨[atSign, 0x61], .definition "a"⟩, ⟨[0x20], .blank 0x20⟩, ⟨[semicolon, 0x61], .reference "a"⟩,
    ⟨[0x20], .blank 0x20⟩, ⟨[hash, 0x37, 0x66], .literal [0x7F]⟩, ⟨[0x20], .blank 0x20⟩,
    ⟨[0x44, 0x55, 0x50], .instruction ⟨.dup, false, .one⟩⟩]

theorem accepted_labelledLoop : Accepted (bytesOf "@a ;a #7f DUP") labelledLoop where
  splits := by
    have hrun : ∀ rest : List UInt8, rest.head?.any isSymbol = false →
        Source.Run isSymbol [0x61] rest :=
      fun rest hrest => ⟨List.cons_ne_nil _ _, List.forall_mem_singleton.mpr (by decide), hrest⟩
    have hdigits : ∀ d ∈ ([0x37, 0x66] : List UInt8), isHexDigit d = true :=
      List.forall_mem_cons.mpr ⟨by decide, List.forall_mem_singleton.mpr (by decide)⟩
    have hnumber : Number [0x37, 0x66] (0x20 :: bytesOf "DUP") :=
      ⟨⟨List.cons_ne_nil _ _, hdigits, by decide⟩, by decide⟩
    exact .cons (.definition (hrun _ (by decide))) (.cons (.blank (by decide))
      (.cons (.reference (hrun _ (by decide))) (.cons (.blank (by decide))
        (.cons (.literal hnumber) (.cons (.blank (by decide))
          (.cons (.instruction (i := ⟨.dup, false, .one⟩) rfl rfl) .nil))))))
  names := List.pairwise_singleton _ _
  size := by decide

/-- A label before a reference to it, a literal and an instruction: three entries. -/
theorem disassemble_undoes_assemble_labelledLoop :
    ∃ b, (assemble false "" (.ofBytes (bytesOf "@a ;a #7f DUP"))).1 = .ok b
      ∧ (b.symbols.map Prod.snd).Nodup
      ∧ (codeFrom 0 labelledLoop).length = 3
      ∧ (∀ symbols, List.Forall₂ (Listed b) (codeFrom 0 labelledLoop)
          (disassemble symbols b.image.toList none none))
      ∧ List.Forall₂ (Commented labelledLoop) (codeFrom 0 labelledLoop)
          (disassemble (.insertSymbols .empty b.symbols) b.image.toList none none) := by
  have hb : (assemble false "" (.ofBytes (bytesOf "@a ;a #7f DUP"))).1
      = .ok (buildOf "" labelledLoop) :=
    assemble_of_accepted accepted_labelledLoop "" fun hstrict : false = true =>
      Bool.noConfusion hstrict
  have hdistinct : ((buildOf "" labelledLoop).symbols.map Prod.snd).Nodup := by
    rw [symbols_buildOf]
    decide
  obtain ⟨hlisted, hcommented⟩ :=
    disassemble_undoes_assemble hb accepted_labelledLoop.splits (by decide)
  exact ⟨_, hb, hdistinct, by decide, hlisted, hcommented hdistinct⟩

end RomKit
