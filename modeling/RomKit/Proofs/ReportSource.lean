import RomKit.Assembly.Workspace
import RomKit.Listing.Report
import RomKit.Proofs.Encoding
import RomKit.Proofs.Numerals
import RomKit.Proofs.Reassembly
import RomKit.Proofs.StrictMode

/-!
# Listings with a header as source text

The header of a listing is made of comments, so that the listing stays source text. The second
line of it holds numbers only. The first line holds the name of the file, and a comment ends with
the first closing parenthesis: a name with one in it puts source text of its own before the image.

How much that matters is settled by the first line alone. It ends in a blank and a closing
parenthesis, and no lexeme reaches over these two (`Splits.cut`), so the listing is assembled to
the image if and only if its first line is assembled to nothing.
-/

namespace RomKit

open Source Token

/-! ## Cutting a source -/

section

variable {text rest tail : List UInt8} {t : Token}

/-- No lexeme begins with a closing parenthesis. -/
theorem Spells.head?_ne (h : Spells text rest t) : text.head? ≠ some closeParen := by
  intro hhead
  cases h with
  | @blank b _ hb =>
      cases hhead
      exact absurd hb (by decide)
  | comment => cases hhead
  | reference => cases hhead
  | definition => cases hhead
  | string => cases hhead
  | literal => cases hhead
  | data hnumber =>
      have hdigit := hnumber.run.inside _ (List.mem_of_head? hhead)
      exact absurd hdigit (by decide)
  | instruction => exact not_mem_written _ (by decide) (by decide) (List.mem_of_head? hhead)

theorem Splits.head?_ne {source : List UInt8} {xs : List Lexeme} (h : Splits source xs) :
    source.head? ≠ some closeParen := by
  cases h with
  | nil => exact fun hhead => nomatch hhead
  | @cons text rest t xs hspells _ =>
      obtain ⟨b, text, rfl⟩ := List.exists_cons_of_ne_nil (Token.spells_ne_nil hspells)
      exact hspells.head?_ne

/-- No lexeme goes on behind a blank and a closing parenthesis. -/
theorem Spells.ends_at_close {front more : List UInt8}
    (h : Spells (front ++ [0x20, closeParen] ++ more) rest t) : more = [] := by
  have hmem : (0x20 : UInt8) ∈ front ++ [0x20, closeParen] ++ more := by simp
  rcases h.of_blank_mem (by decide) hmem with hblank | ⟨inner, hclose, htext⟩
  · have hlength := congrArg List.length hblank
    simp only [List.length_append, List.length_cons, List.length_nil] at hlength
    omega
  · rcases List.eq_nil_or_concat more with hnil | ⟨more, b, rfl⟩
    · exact hnil
    · -- the parenthesis is not the last byte of the comment, so the comment has one inside
      rw [List.concat_eq_append, ← List.append_assoc, ← List.cons_append] at htext
      have hinside := List.append_inj_left' htext rfl
      have hparen : closeParen ∈ openParen :: inner := by
        rw [← hinside]
        simp
      rcases List.mem_cons.mp hparen with heq | hinner
      · exact absurd heq (by decide)
      · exact absurd hinner hclose

/-- **A source can be cut behind a blank and a closing parenthesis.** -/
theorem Splits.cut {source : List UInt8} {zs : List Lexeme} (h : Splits source zs) :
    ∀ front, source = front ++ [0x20, closeParen] ++ tail →
      ∃ xs ys, zs = xs ++ ys ∧ Splits (front ++ [0x20, closeParen]) xs ∧ Splits tail ys := by
  induction h with
  | nil =>
      intro front hsource
      simp at hsource
  | @cons text rest t zs hspells hsplits ih =>
      intro front hsource
      have hhere : text = front ++ [0x20, closeParen] → rest = tail →
          ∃ xs ys, ⟨text, t⟩ :: zs = xs ++ ys
            ∧ Splits (front ++ [0x20, closeParen]) xs ∧ Splits tail ys := by
        rintro rfl rfl
        have hlast := Splits.cons (@Spells.of_append _ [] _ _ hspells) .nil
        rw [List.append_nil] at hlast
        exact ⟨[_], zs, rfl, hlast, hsplits⟩
      have hlater : ∀ d, front = text ++ d → rest = d ++ [0x20, closeParen] ++ tail →
          ∃ xs ys, ⟨text, t⟩ :: zs = xs ++ ys
            ∧ Splits (front ++ [0x20, closeParen]) xs ∧ Splits tail ys := by
        rintro d rfl hrest
        obtain ⟨xs, ys, rfl, hxs, hys⟩ := ih d hrest
        rw [hrest] at hspells
        rw [List.append_assoc]
        exact ⟨_, ys, rfl, .cons hspells.of_append hxs, hys⟩
      -- the cut lies behind the lexeme, in it, or at its end
      rcases List.append_eq_append_iff.mp hsource with ⟨a, hseam, hrest⟩ | ⟨c, htext, htail⟩
      · rcases List.append_eq_append_iff.mp hseam with ⟨d, htext, hmiddle⟩ | ⟨d, hfront, ha⟩
        · match d with
          | [] =>
              rw [List.nil_append] at hmiddle
              exact hlater [] (by rw [htext, List.append_nil, List.append_nil])
                (by rw [hrest, hmiddle, List.nil_append])
          | [x] =>
              simp only [List.cons_append, List.nil_append, List.cons.injEq] at hmiddle
              rw [hrest, ← hmiddle.2] at hsplits
              exact absurd rfl hsplits.head?_ne
          | [x, y] =>
              simp only [List.cons_append, List.nil_append, List.cons.injEq] at hmiddle
              obtain ⟨rfl, rfl, rfl⟩ := hmiddle
              exact hhere htext hrest
          | x :: y :: z :: d => simp at hmiddle
        · exact hlater d hfront (by rw [hrest, ha])
      · rw [htext] at hspells
        have hnil := hspells.ends_at_close
        rw [hnil] at htext htail
        exact hhere (by rw [htext, List.append_nil]) htail.symm

end

/-! ## Source that emits nothing -/

theorem Token.emit_of_refersTo?_eq_none {t : Token} (h : t.refersTo? = none)
    (f g : String → List UInt8) : t.emit f = t.emit g := by
  cases t with
  | reference name => cases h
  | _ => rfl

theorem size_eq_zero_of_mem {xs : List Lexeme} (h : totalSize xs = 0) {x : Lexeme} (hx : x ∈ xs) :
    x.token.size = 0 := by
  induction xs with
  | nil => cases hx
  | cons y xs ih =>
      rw [totalSize_cons] at h
      rcases List.mem_cons.mp hx with rfl | hmem
      · omega
      · exact ih (by omega) hmem

section

variable {source tail bytes : List UInt8} {xs ys : List Lexeme}

/-- Lexemes that emit nothing have no part in the image. -/
theorem image_of_silent (hxs : totalSize xs = 0) (hys : ∀ y ∈ ys, y.token.Bare) (file : RawText) :
    (buildOf file (xs ++ ys)).image.toList = ys.flatMap fun y => y.token.emit noAddress := by
  have hnothing : xs.flatMap (fun x => x.token.emit (symbolBytes (buildOf file (xs ++ ys)).symbols))
      = [] := by
    rw [← List.length_eq_zero_iff, length_flatMap_emit (length_symbolBytes _), hxs]
  rw [image_buildOf, List.flatMap_append, hnothing, List.nil_append]
  exact List.flatMap_congr fun y hy => Token.emit_of_refersTo?_eq_none (hys y hy).2 _ _

namespace Assembler

theorem run_eq_ok_iff {a : Assembler} {file : RawText} {stream : Stream} {image : Image} :
    (a.run file stream).1 = .ok image
      ↔ ∃ b, (RomKit.assemble a.strict file stream).1 = .ok b ∧ b.image = image := by
  rw [run_eq]
  cases RomKit.assemble a.strict file stream with
  | mk result log =>
      cases result with
      | ok b => simp
      | error e => simp

theorem run_of_silent (a : Assembler) (file : RawText) (h : Accepted source (xs ++ ys))
    (hxs : totalSize xs = 0) (hys : ∀ y ∈ ys, y.token.Bare) :
    (a.run file (.ofBytes source)).1
      = .ok (ys.flatMap fun y => y.token.emit noAddress).toArray := by
  -- nothing refers to a label, so strict mode has nothing to miss
  have hdef : ∀ x ∈ xs ++ ys, ∀ name, x.token = .reference name →
      name ∈ definedNames (xs ++ ys) := by
    intro x hx name hname
    rcases List.mem_append.mp hx with hmem | hmem
    · have hsize := size_eq_zero_of_mem hxs hmem
      rw [hname] at hsize
      cases hsize
    · have hbare := (hys x hmem).2
      rw [hname] at hbare
      cases hbare
  have hbuild := assemble_of_accepted h file fun _ : a.strict = true => undefined_eq_nil h hdef
  refine run_eq_ok_iff.mpr ⟨_, hbuild, Array.ext' ?_⟩
  exact image_of_silent hxs hys file

/-- Source is assembled to nothing if no lexeme emits anything. -/
theorem run_eq_nothing_iff {a : Assembler} {file : RawText} :
    (a.run file (.ofBytes source)).1 = .ok #[]
      ↔ ∃ xs, Accepted source xs ∧ totalSize xs = 0 := by
  constructor
  · intro h
    obtain ⟨b, hb, himage⟩ := run_eq_ok_iff.mp h
    obtain ⟨xs, haccepted, rfl⟩ := accepted_of_assemble hb
    refine ⟨xs, haccepted, ?_⟩
    rw [← size_buildOf file xs, himage]
    rfl
  · rintro ⟨xs, haccepted, hsize⟩
    rw [← List.append_nil xs] at haccepted
    exact run_of_silent a file haccepted hsize fun y hy => nomatch hy

/-- **What stands before some source is either assembled to nothing or spoils the image.** -/
theorem run_before_source_iff {a : Assembler} {file : RawText} {front : List UInt8}
    (hsource : SourceFor tail bytes) (hblank : tail.head?.all isSpace = true)
    (hsize : bytes.length ≤ addressSpace) :
    (a.run file (.ofBytes (front ++ [0x20, closeParen] ++ tail))).1 = .ok bytes.toArray
      ↔ (a.run file (.ofBytes (front ++ [0x20, closeParen]))).1 = .ok #[] := by
  obtain ⟨ys, hsplits, hbare, rfl⟩ := hsource
  have hys : Splits tail ys := by
    have hwhole := hsplits [] [] rfl .nil
    rwa [List.append_nil, List.append_nil] at hwhole
  have hnames : definedNames ys = [] := List.filterMap_eq_nil_iff.mpr fun y hy => (hbare y hy).1
  have htotal := length_flatMap_emit length_noAddress ys
  rw [run_eq_nothing_iff]
  constructor
  · intro h
    obtain ⟨b, hb, himage⟩ := run_eq_ok_iff.mp h
    obtain ⟨zs, haccepted, rfl⟩ := accepted_of_assemble hb
    obtain ⟨xs, ys', rfl, hxs, hys'⟩ := haccepted.splits.cut front rfl
    cases splits_unique hys' hys
    -- the lexemes of the tail make up the whole image, which leaves no room for others
    have hwhole : totalSize (xs ++ ys) = totalSize ys := by
      rw [← size_buildOf file, himage, ← htotal]
      exact List.size_toArray
    rw [totalSize_append] at hwhole
    have hzero : totalSize xs = 0 := by omega
    have hdistinct := haccepted.names
    rw [definedNames_append, hnames, List.append_nil] at hdistinct
    exact ⟨xs, ⟨hxs, hdistinct, by omega⟩, hzero⟩
  · rintro ⟨xs, haccepted, hzero⟩
    refine run_of_silent a file ⟨haccepted.splits.append hys hblank, ?_, ?_⟩ hzero hbare
    · rw [definedNames_append, hnames, List.append_nil]
      exact haccepted.names
    · rw [totalSize_append, hzero, Nat.zero_add, ← htotal]
      exact hsize

end Assembler

end

/-! ## The listing -/

theorem SourceFor.comment {text : List UInt8} (h : closeParen ∉ text) :
    SourceFor (openParen :: (text ++ [closeParen])) [] :=
  lexeme (.comment text) ⟨rfl, rfl⟩ rfl (.comment h)

/-- A comment around text without a closing parenthesis. -/
theorem sourceFor_comment {s : String} (h : ')' ∉ s.toList) :
    SourceFor (Utf8.encode ("(" ++ s ++ ")")) [] := by
  rw [Utf8.encode_append, Utf8.encode_append]
  exact .comment (Utf8.not_mem_encode (c := ')') (by decide) h)

namespace Report

/-- The report on a whole image. -/
def ofImage (name : RawText) (symbols : SymbolMap) (rom : List UInt8) (base : Int) : Report :=
  ⟨name, rom.length, base, disassemble symbols rom (some base) none⟩

/-- The first line of a listing. -/
def title (name : RawText) : RawText :=
  "( Disassembly of " ++ name ++ " )"

/-- The first line of a listing, for a name of characters. -/
def titleText (name : String) : String :=
  "( Disassembly of " ++ name ++ " )"

/-- The second line of a listing. -/
def measures (r : Report) : String :=
  "( Size: " ++ toString r.size ++ " bytes, base address: $" ++ Hex.address r.base ++ " )"

/-- The lines of a listing from the second on. -/
def laterLines (r : Report) : List String :=
  r.measures :: "" :: r.entries.map Entry.text

theorem title_ofString (name : String) : title name = titleText name := by
  unfold title titleText
  rw [RawText.ofString_append, RawText.ofString_append]

theorem text_eq (r : Report) :
    r.text false = title r.name ++ ("\n" ++ "\n".intercalate r.laterLines ++ "\n" : String) := by
  have hmeasures : RawText.ofString r.measures = "( Size: " ++ toString r.size
      ++ " bytes, base address: $" ++ Hex.address r.base ++ " )" := by
    unfold measures
    simp only [RawText.ofString_append]
  have hlines : title r.name :: RawText.ofString r.measures :: RawText.ofString ""
      :: (r.entries.map fun e => RawText.ofString e.text)
      = title r.name :: r.laterLines.map RawText.ofString := by
    rw [laterLines, List.map_cons, List.map_cons, List.map_map]
    rfl
  have htext : r.text false
      = List.intercalate (RawText.ofString "\n") (title r.name :: r.laterLines.map RawText.ofString)
        ++ "\n" := by
    rw [← hlines, hmeasures]
    rfl
  rw [htext, laterLines, List.map_cons, List.intercalate_cons_cons, ← List.map_cons,
    RawText.intercalate_ofString, RawText.ofString_append, RawText.ofString_append]
  simp only [List.append_assoc]

/-- The listing of a file whose name has characters only is a text of characters. -/
theorem text_ofString {r : Report} {name : String} (h : r.name = name) :
    r.text false
      = (titleText name ++ ("\n" ++ "\n".intercalate r.laterLines ++ "\n") : String) := by
  rw [text_eq, h, title_ofString, ← RawText.ofString_append]

theorem sourceFor_title {name : String} (h : ')' ∉ name.toList) :
    SourceFor (Utf8.encode (titleText name)) [] := by
  have htitle : titleText name = "(" ++ (" Disassembly of " ++ name ++ " ") ++ ")" := by
    unfold titleText
    rw [show "( Disassembly of " = "(" ++ " Disassembly of " from rfl,
      show " )" = " " ++ ")" from rfl]
    simp only [String.append_assoc]
  rw [htitle]
  refine sourceFor_comment ?_
  simp only [String.toList_append, List.mem_append, not_or]
  exact ⟨⟨by decide, h⟩, by decide⟩

/-- The second line holds digits, and no parenthesis but its own. -/
theorem sourceFor_measures (r : Report) : SourceFor (Utf8.encode r.measures) [] := by
  have hmeasures : r.measures = "(" ++ (" Size: " ++ toString r.size
      ++ " bytes, base address: $" ++ Hex.address r.base ++ " ") ++ ")" := by
    unfold measures
    rw [show "( Size: " = "(" ++ " Size: " from rfl, show " )" = " " ++ ")" from rfl]
    simp only [String.append_assoc]
  have hsize : ')' ∉ (toString r.size).toList := by
    intro hmem
    rw [Nat.toString_eq_repr, Nat.toList_repr] at hmem
    exact absurd (Nat.isDigit_of_mem_toDigits (Nat.succ_pos 9) (Nat.le_refl 10) hmem) (by decide)
  have hbase : ')' ∉ (Hex.address r.base).toList := by
    intro hmem
    rcases Hex.isDigit_of_mem_address hmem with hdigit | heq
    · exact absurd hdigit (by decide)
    · exact absurd heq (by decide)
  rw [hmeasures]
  refine sourceFor_comment ?_
  simp only [String.toList_append, List.mem_append, not_or]
  exact ⟨⟨⟨⟨by decide, hsize⟩, by decide⟩, hbase⟩, by decide⟩

/-- A listing is, from the end of its first line on, source text for the bytes it lists. -/
theorem sourceFor_laterLines {r : Report} (h : ∀ e ∈ r.entries, e.shape.Shows e.bytes) :
    SourceFor (Utf8.encode ("\n" ++ "\n".intercalate r.laterLines ++ "\n"))
      (r.entries.flatMap Entry.bytes) := by
  have hlines : ∀ l ∈ (r.measures, []) :: ("", []) :: r.entries.map fun e => (e.text, e.bytes),
      SourceFor (Utf8.encode l.1) l.2 := by
    intro l hl
    rcases List.mem_cons.mp hl with rfl | hl
    · exact r.sourceFor_measures
    rcases List.mem_cons.mp hl with rfl | hl
    · exact .nil
    · obtain ⟨e, he, rfl⟩ := List.mem_map.mp hl
      exact (h e he).sourceFor
  have hbody := SourceFor.lines hlines
  rw [List.map_cons, List.map_cons, List.map_map, List.flatMap_cons, List.flatMap_cons,
    List.flatMap_map, List.nil_append, List.nil_append] at hbody
  have hnewline : isSpace 0x0A = true := by decide
  have hframed := SourceFor.nil.join hnewline (hbody.join hnewline .nil)
  rw [List.nil_append, List.nil_append, List.append_nil] at hframed
  rw [Utf8.encode_append, Utf8.encode_append, List.append_assoc]
  exact hframed

/-- The first line ends in a blank and a closing parenthesis. -/
theorem encode_titleText (name : String) :
    Utf8.encode (titleText name)
      = Utf8.encode ("( Disassembly of " ++ name) ++ [0x20, closeParen] := by
  unfold titleText
  rw [Utf8.encode_append]
  rfl

/-- The name stands in the first line, and the first line in the listing. -/
theorem name_subset_title (name : RawText) : name ⊆ title name :=
  fun _ hc => List.mem_append_left _ (List.mem_append_right _ hc)

theorem title_subset_text (r : Report) : title r.name ⊆ r.text false := by
  rw [text_eq]
  exact List.subset_append_left _ _

end Report

namespace Assembler

section

theorem runText_ofString (a : Assembler) (file : RawText) (s : String) :
    a.runText file s = onFiles (a.run file (.ofBytes (Utf8.encode s))) := by
  unfold runText
  rw [Utf8.encodeText_ofString]

theorem runText_eq_ok_iff {a : Assembler} {file : RawText} {s : String} {image : Image} :
    (a.runText file s).1 = .ok image
      ↔ (a.run file (.ofBytes (Utf8.encode s))).1 = .ok image := by
  rw [runText_ofString]
  unfold onFiles
  cases (a.run file (.ofBytes (Utf8.encode s))).1 <;> simp [Except.mapError]

/-- Text with a surrogate is not assembled. -/
theorem runText_of_surrogate (a : Assembler) (file : RawText) {t : RawText}
    (h : ¬∃ s : String, t = s) :
    ∃ fault, a.runText file t = (.error (.encoding fault), a, []) := by
  obtain ⟨fault, hfault⟩ := Utf8.exists_fault_iff.mpr h
  refine ⟨fault, ?_⟩
  unfold runText
  rw [hfault]

/-- The first line decides, for a name of characters. -/
theorem runText_report_ofString (a : Assembler) (file : RawText) (name : String)
    (symbols : SymbolMap) {rom : List UInt8} (base : Int) (hsize : rom.length ≤ addressSpace) :
    (a.runText file ((Report.ofImage name symbols rom base).text false)).1 = .ok rom.toArray
      ↔ (a.runText file (Report.title name)).1 = .ok #[] := by
  have hshows : ∀ e ∈ (Report.ofImage name symbols rom base).entries, e.shape.Shows e.bytes :=
    shows_of_mem_entries symbols base rom
  have hbytes : (Report.ofImage name symbols rom base).entries.flatMap Entry.bytes = rom :=
    flatMap_bytes_entries symbols base rom
  have hsource := Report.sourceFor_laterLines hshows
  rw [hbytes] at hsource
  have hblank : (Utf8.encode ("\n"
      ++ "\n".intercalate (Report.ofImage name symbols rom base).laterLines ++ "\n")).head?.all
      isSpace = true := by
    rw [Utf8.encode_append, Utf8.encode_append]
    rfl
  rw [Report.text_ofString rfl, Report.title_ofString, runText_eq_ok_iff, runText_eq_ok_iff,
    Utf8.encode_append, Report.encode_titleText]
  exact run_before_source_iff hsource hblank hsize

end

/--
**A listing with its header is source text for the image if and only if its first line is source
text for nothing.** For a name without a closing parenthesis that means that the name has characters
only; the listing of a file with another name has no bytes, and starts no pass.
-/
theorem run_report_iff (a : Assembler) (file name : RawText) (symbols : SymbolMap)
    (rom : List UInt8) (base : Int) (hsize : rom.length ≤ addressSpace) :
    let text := (Report.ofImage name symbols rom base).text false
    ((a.runText file text).1 = .ok rom.toArray
        ↔ (a.runText file (Report.title name)).1 = .ok #[])
      ∧ (.char ')' ∉ name →
        ((a.runText file text).1 = .ok rom.toArray ↔ ∃ s : String, name = s))
      ∧ ((¬∃ s : String, name = s) →
        ∃ fault, a.runText file text = (.error (.encoding fault), a, [])) := by
  intro text
  by_cases hname : ∃ s : String, name = s
  · obtain ⟨s, rfl⟩ := hname
    have hiff := runText_report_ofString a file s symbols base hsize
    refine ⟨hiff, fun hclosing => ⟨fun _ => ⟨s, rfl⟩, fun _ => hiff.mpr ?_⟩,
      fun hnone => absurd ⟨s, rfl⟩ hnone⟩
    have hchars : ')' ∉ s.toList := fun hmem => hclosing (List.mem_map_of_mem hmem)
    rw [Report.title_ofString, runText_eq_ok_iff]
    exact (yields_of_sourceFor a file (Report.sourceFor_title hchars) (Nat.zero_le _)).1
  · -- the name stands in both texts, so neither has bytes
    have htitle : ¬∃ s : String, Report.title name = s := fun h =>
      hname (RawText.exists_string_of_subset h (Report.name_subset_title name))
    have htext : ¬∃ s : String, text = s := fun h =>
      htitle (RawText.exists_string_of_subset h
        (Report.title_subset_text (Report.ofImage name symbols rom base)))
    obtain ⟨fault, hfault⟩ := runText_of_surrogate a file htitle
    obtain ⟨fault', hfault'⟩ := runText_of_surrogate a file htext
    rw [hfault, hfault']
    refine ⟨⟨?_, ?_⟩, fun _ => ⟨?_, fun h => absurd h hname⟩, fun _ => ⟨fault', rfl⟩⟩
    · intro h
      cases h
    · intro h
      cases h
    · intro h
      cases h

/-- The parentheses of `a) (b.rom` make two comments of the first line. A name with the byte `0xFF`
in it has no bytes in a text. -/
theorem run_report_iff_balanced :
    ([0x80, 0x01] : List UInt8).length ≤ addressSpace
      ∧ ((fresh true).runText "x.nasm" (Report.title "a) (b.rom")).1 = .ok #[]
      ∧ ((fresh true).runText "x.nasm"
          ((Report.ofImage "a) (b.rom" .empty [0x80, 0x01] 0x7FFFFE).text false)).1
        = .ok #[0x80, 0x01]
      ∧ (.char ')' ∉ CodePoint.surrogate 0x4FF :: RawText.ofString ".rom")
      ∧ ((fresh true).runText "x.nasm"
          ((Report.ofImage (.surrogate 0x4FF :: RawText.ofString ".rom") .empty [0x80, 0x01]
            0x7FFFFE).text false)).1 ≠ .ok #[0x80, 0x01] := by
  have htitle : ((fresh true).runText "x.nasm" (Report.title "a) (b.rom")).1 = .ok #[] := by
    decide +kernel
  have hclosing : .char ')' ∉ CodePoint.surrogate 0x4FF :: RawText.ofString ".rom" := by decide
  refine ⟨by decide, htitle, (run_report_iff _ _ _ _ _ _ (by decide)).1.mpr htitle, hclosing, ?_⟩
  intro hrom
  obtain ⟨s, hs⟩ := ((run_report_iff _ _ _ _ _ _ (by decide)).2.1 hclosing).mp hrom
  obtain ⟨c, hc⟩ := RawText.exists_string_iff.mp ⟨s, hs⟩ _ List.mem_cons_self
  cases hc

/-- The closing parenthesis of `a)b.rom` ends the comment, and `b` is no number. -/
theorem run_report_closing :
    ((fresh false).runText "x.nasm"
        ((Report.ofImage "a)b.rom" .empty [0x03] 0x7FFFFF).text false)).1
      = .error (.failure (.diagnostic ⟨.oddDigits, some ⟨"x.nasm", 1, 20⟩⟩)) := by
  decide +kernel

end Assembler

end RomKit
