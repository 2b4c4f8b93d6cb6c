import RomKit.Assembly.Workspace
import RomKit.Proofs.Comments
import RomKit.Proofs.Encoding
import RomKit.Proofs.FileWrites
import RomKit.Proofs.Numerals

/-!
# Reading a symbol file back

A symbol file has a line for each label and a few comments before them. Labels are spelled with
visible characters, so each line splits into the name and the address, and the address is read
back as it was written (`SymbolFile.readLine_entryLine`).

One visible character has a meaning in a symbol file: a line that begins with `#` is a comment.
The labels that begin with it are therefore lost, and no others are (`SymbolFile.parse_text`).
-/

namespace RomKit

namespace SymbolTable

theorem put_of_not_mem {symbols : List (String × Int)} {name : String}
    (h : name ∉ symbols.map Prod.fst) (address : Int) :
    put symbols name address = symbols ++ [(name, address)] := by
  have hnew : symbols.any (fun p => p.1 == name) = false := by
    rw [List.any_eq_false]
    intro p hp heq
    exact h (List.mem_map.mpr ⟨p, hp, beq_iff_eq.mp heq⟩)
  rw [put, hnew]
  rfl

theorem foldl_put_of_nodup (pairs : List (String × Int)) : ∀ symbols : List (String × Int),
    ((symbols ++ pairs).map Prod.fst).Nodup →
      pairs.foldl (fun t p => put t p.1 p.2) symbols = symbols ++ pairs := by
  induction pairs with
  | nil => intro symbols _; rw [List.append_nil]; rfl
  | cons p pairs ih =>
      intro symbols hnames
      have hassoc : symbols ++ p :: pairs = symbols ++ [p] ++ pairs := by
        rw [List.append_assoc, List.singleton_append]
      have hnew : p.1 ∉ symbols.map Prod.fst := by
        rw [List.map_append, List.map_cons] at hnames
        intro hmem
        exact (List.nodup_append.mp hnames).2.2 _ hmem _ List.mem_cons_self rfl
      rw [List.foldl_cons, put_of_not_mem hnew, ih _ (hassoc ▸ hnames), hassoc]

/-- A list that names nothing twice is a table. -/
theorem ofList_of_nodup {pairs : List (String × Int)} (h : (pairs.map Prod.fst).Nodup) :
    ofList pairs = pairs :=
  foldl_put_of_nodup pairs [] h

end SymbolTable

/-- A name that can stand as a field of a line. -/
structure FieldName (name : String) : Prop where
  nonempty : name ≠ ""
  solid : Text.Solid name.toList

namespace SymbolFile

/-- A line that starts with the name is a comment. -/
def opensComment (name : String) : Bool :=
  name.toList.head? == some '#'

/-! ## Reading lines -/

section

variable {left right : List Char}

/-- What follows a number sign says nothing. -/
theorem readLine_comment (hleft : ∀ c ∈ left, Text.isBlank c = true) (number : Nat)
    (cs : List Char) : readLine number (left ++ '#' :: cs) = .ok none := by
  have hhead : (Text.trim (left ++ '#' :: cs)).head? = some '#' :=
    Text.head?_trimBy hleft (by decide)
  unfold readLine
  dsimp only
  rw [hhead]
  simp

/-- A name and an address, with blanks around and between them, are read as such. -/
theorem readLine_entry {name gap digits : List Char} {address : Int}
    (hleft : ∀ c ∈ left, Text.isBlank c = true) (hright : ∀ c ∈ right, Text.isBlank c = true)
    (hne : name ≠ []) (hname : Text.Solid name) (hhash : name.head? ≠ some '#')
    (hgap : gap ≠ []) (hblank : ∀ c ∈ gap, Text.isBlank c = true) (hdigits : Text.Solid digits)
    (haddress : Numeral.read 16 (String.ofList digits) = .ok address) (number : Nat) :
    readLine number (left ++ (name ++ (gap ++ '$' :: digits)) ++ right)
      = .ok (some (String.ofList name, address)) := by
  obtain ⟨n, name, rfl⟩ := List.exists_cons_of_ne_nil hne
  obtain ⟨g, gap, rfl⟩ := List.exists_cons_of_ne_nil hgap
  have hmarked : Text.Solid ('$' :: digits) := by
    intro c hc
    rcases List.mem_cons.mp hc with rfl | hmem
    · decide
    · exact hdigits c hmem
  have htrim : Text.trim (left ++ (n :: name ++ (g :: gap ++ '$' :: digits)) ++ right)
      = n :: name ++ (g :: gap ++ '$' :: digits) := by
    refine Text.trimBy_padded hleft hright ?_ ?_
    · rintro c ⟨rfl⟩
      exact hname _ List.mem_cons_self
    · intro c hc
      rw [← List.append_assoc, List.getLast?_append_of_ne_nil _ (List.cons_ne_nil _ _)] at hc
      exact hmarked c (List.mem_of_getLast? hc)
  have hfields : Text.fields (n :: name ++ (g :: gap ++ '$' :: digits))
      = [n :: name, '$' :: digits] := by
    have hlast : Text.fields ('$' :: digits) = ['$' :: digits] := by
      have hword := @Text.fields_word _ [] (List.cons_ne_nil _ _) hmarked fun c hc => nomatch hc
      rwa [List.append_nil, Text.fields_nil] at hword
    rw [Text.fields_word (List.cons_ne_nil _ _) hname (by simpa using hblank g),
      Text.fields_blanks_append hblank, hlast]
  have hvisible : (some n == some '#') = false := beq_eq_false_iff_ne.mpr hhash
  unfold readLine
  rw [htrim]
  dsimp only
  rw [if_neg (by simp [hvisible]), hfields]
  simp only [haddress]

end

/-- Lines that each say something or nothing fill the table in their order, and each counts as a
line. -/
theorem readLines_append (ls : List (List Char × Option (String × Int))) :
    ∀ (symbols : List (String × Int)) (number : Nat),
      (∀ l ∈ ls, ∀ k, readLine k l.1 = .ok l.2) → ∀ rest,
        readLines symbols number (ls.map Prod.fst ++ rest)
          = readLines ((ls.filterMap Prod.snd).foldl (fun t p => SymbolTable.put t p.1 p.2) symbols)
              (number + ls.length) rest := by
  induction ls with
  | nil => intro symbols number _ rest; rfl
  | cons l ls ih =>
      intro symbols number hsaid rest
      have htail : ∀ l' ∈ ls, ∀ k, readLine k l'.1 = .ok l'.2 :=
        fun l' hl' => hsaid l' (List.mem_cons_of_mem _ hl')
      rw [List.map_cons, List.cons_append, readLines, hsaid l List.mem_cons_self, List.length_cons,
        Nat.add_comm ls.length, ← Nat.add_assoc]
      cases hl : l.2 with
      | none =>
          rw [List.filterMap_cons_none hl]
          exact ih _ _ htail rest
      | some p =>
          rw [List.filterMap_cons_some hl, List.foldl_cons]
          exact ih _ _ htail rest

theorem readLines_of_readLine {ls : List (List Char × Option (String × Int))}
    (h : ∀ l ∈ ls, ∀ k, readLine k l.1 = .ok l.2) (symbols : List (String × Int)) (number : Nat) :
    readLines symbols number (ls.map Prod.fst)
      = .ok ((ls.filterMap Prod.snd).foldl (fun t p => SymbolTable.put t p.1 p.2) symbols) := by
  have hall := readLines_append ls symbols number h []
  rw [List.append_nil] at hall
  exact hall

/-! ## The lines of a symbol file -/

/-- The line for a label. -/
def entryLine (s : String × Int) : List Char :=
  s.1.toList ++ ' ' :: '$' :: (Hex.address s.2).toList

/-- The comments before the labels. -/
def headerLines (source : String) : List (List Char) :=
  ["# Symbol table".toList, "# Generated by neoasm".toList]
    ++ if source.isEmpty then [] else ["# Source: ".toList ++ source.toList]

/-- The labels by increasing name. -/
def byName (symbols : List (String × Int)) : List (String × Int) :=
  symbols.mergeSort fun a b => decide (a.1 ≤ b.1)

/-- The lines of a symbol file with what each of them says. -/
def saidLines (source : String) (symbols : List (String × Int)) :
    List (List Char × Option (String × Int)) :=
  (headerLines source).map (·, none)
    ++ (byName symbols).map fun s => (entryLine s, if opensComment s.1 then none else some s)

theorem toList_renderEntry (s : String × Int) :
    (renderEntry s).toList = entryLine s ++ ['\n'] := by
  simp [renderEntry, entryLine]

/-- The lines of the symbol file of a source whose name has characters only. -/
def lineTexts (source : String) (symbols : List (String × Int)) : List String :=
  ((saidLines source symbols).map Prod.fst).map fun l => String.ofList (l ++ ['\n'])

/-- The symbol file of a source whose name has characters only. -/
def text (source : String) (symbols : List (String × Int)) : String :=
  String.join (lineTexts source symbols)

theorem map_fst_saidLines (source : String) (symbols : List (String × Int)) :
    (saidLines source symbols).map Prod.fst
      = headerLines source ++ (byName symbols).map entryLine := by
  simp [saidLines, Function.comp_def]

theorem toList_text (source : String) (symbols : List (String × Int)) :
    (text source symbols).toList
      = ((saidLines source symbols).map Prod.fst).flatMap (· ++ ['\n']) := by
  unfold text lineTexts
  rw [String.toList_join, List.flatMap_map]
  simp only [String.toList_ofList]

theorem sourceLines_ofString (source : String) :
    sourceLines (some source)
      = if source.isEmpty then [] else [RawText.ofString ("# Source: " ++ source ++ "\n")] := by
  by_cases hempty : source.isEmpty = true
  · rw [if_pos hempty, String.isEmpty_iff.mp hempty]
    rfl
  · obtain ⟨c, rest, hsource⟩ : ∃ c rest, RawText.ofString source = c :: rest := by
      apply List.exists_cons_of_ne_nil
      intro hnil
      apply hempty
      rw [String.isEmpty_iff, ← String.toList_eq_nil_iff]
      exact List.map_eq_nil_iff.mp hnil
    rw [if_neg hempty, RawText.ofString_append, RawText.ofString_append, hsource]
    rfl

/-- What is written are these lines. -/
theorem render_ofString (source : String) (symbols : List (String × Int)) :
    render (some source) symbols = (lineTexts source symbols).map RawText.ofString := by
  have hentries : (byName symbols).map (fun entry => RawText.ofString (renderEntry entry))
      = (((byName symbols).map entryLine).map fun l => String.ofList (l ++ ['\n'])).map
        RawText.ofString := by
    rw [List.map_map, List.map_map]
    refine List.map_congr_left fun entry _ => ?_
    show _ = RawText.ofString (String.ofList (entryLine entry ++ ['\n']))
    rw [← toList_renderEntry, String.ofList_toList]
  unfold lineTexts
  rw [map_fst_saidLines, List.map_append, List.map_append, ← hentries]
  show _ ++ sourceLines (some source) ++ _ = _
  rw [sourceLines_ofString, headerLines]
  have hname : String.ofList ("# Source: ".toList ++ source.toList ++ ['\n'])
      = "# Source: " ++ source ++ "\n" := by
    apply String.toList_inj.mp
    simp
  cases source.isEmpty with
  | true => rfl
  | false =>
      rw [← hname]
      rfl

theorem oneLine_entryLine {s : String × Int} (h : FieldName s.1) : Text.OneLine (entryLine s) := by
  refine h.solid.oneLine.append ?_
  intro c hc
  rcases List.mem_cons.mp hc with rfl | hc
  · decide
  rcases List.mem_cons.mp hc with rfl | hc
  · decide
  · exact (Hex.solid_address s.2).oneLine c hc

/-- A label is read back, unless its line is a comment. -/
theorem readLine_entryLine {s : String × Int} (h : FieldName s.1) (number : Nat) :
    readLine number (entryLine s) = .ok (if opensComment s.1 then none else some s) := by
  have hne : s.1.toList ≠ [] := fun hnil => h.nonempty (String.toList_eq_nil_iff.mp hnil)
  cases hhash : opensComment s.1 with
  | true =>
      obtain ⟨c, name, hname⟩ := List.exists_cons_of_ne_nil hne
      have hc : c = '#' := by
        rw [opensComment, hname] at hhash
        simpa using hhash
      rw [entryLine, hname, hc]
      exact readLine_comment (List.forall_mem_nil _) number _
  | false =>
      have hhash' : s.1.toList.head? ≠ some '#' := beq_eq_false_iff_ne.mp hhash
      have haddress : Numeral.read 16 (String.ofList (Hex.address s.2).toList) = .ok s.2 := by
        rw [String.ofList_toList, Numeral.read_address]
      have hread := readLine_entry (List.forall_mem_nil _) (List.forall_mem_nil _) hne h.solid
        hhash' (List.cons_ne_nil ' ' []) (List.forall_mem_singleton.mpr (by decide))
        (Hex.solid_address s.2) haddress number
      rw [List.append_nil, List.nil_append, String.ofList_toList] at hread
      exact hread

theorem readLine_headerLines {source : String} {l : List Char} (hl : l ∈ headerLines source)
    (number : Nat) : readLine number l = .ok none := by
  have hcomment : ∃ cs, l = '#' :: cs := by
    rcases List.mem_append.mp hl with hmem | hmem
    · rcases List.mem_cons.mp hmem with rfl | hmem
      · exact ⟨_, rfl⟩
      · rw [List.mem_singleton.mp hmem]
        exact ⟨_, rfl⟩
    · split at hmem
      · cases hmem
      · rw [List.mem_singleton.mp hmem]
        exact ⟨_, rfl⟩
  obtain ⟨cs, rfl⟩ := hcomment
  exact readLine_comment (List.forall_mem_nil _) number cs

theorem oneLine_headerLines {source : String} (h : Text.OneLine source.toList) {l : List Char}
    (hl : l ∈ headerLines source) : Text.OneLine l := by
  rcases List.mem_append.mp hl with hmem | hmem
  · have hfixed : ∀ l ∈ ["# Symbol table".toList, "# Generated by neoasm".toList],
        Text.OneLine l :=
      List.forall_mem_cons.mpr ⟨by decide, List.forall_mem_singleton.mpr (by decide)⟩
    exact hfixed l hmem
  · split at hmem
    · cases hmem
    · rw [List.mem_singleton.mp hmem]
      have hstart : Text.OneLine "# Source: ".toList := by decide
      exact hstart.append h

section

variable {source : String} {symbols : List (String × Int)}

theorem filterMap_saidLines :
    (saidLines source symbols).filterMap Prod.snd
      = (byName symbols).filter fun s => !opensComment s.1 := by
  have hheader : (headerLines source).filterMap (Prod.snd ∘ (·, none))
      = ([] : List (String × Int)) :=
    List.filterMap_eq_nil_iff.mpr fun _ _ => rfl
  have hentry : (Prod.snd ∘ fun s => (entryLine s, if opensComment s.1 then none else some s))
      = Option.guard fun s : String × Int => !opensComment s.1 := by
    funext s
    cases hs : opensComment s.1 <;> simp [hs, Option.guard]
  rw [saidLines, List.filterMap_append, List.filterMap_map, List.filterMap_map, hheader, hentry,
    List.filterMap_eq_filter, List.nil_append]

theorem readLine_saidLines (hnames : ∀ s ∈ symbols, FieldName s.1) :
    ∀ l ∈ saidLines source symbols, ∀ k, readLine k l.1 = .ok l.2 := by
  intro l hl k
  rcases List.mem_append.mp hl with hmem | hmem
  · obtain ⟨cs, hcs, rfl⟩ := List.mem_map.mp hmem
    exact readLine_headerLines hcs k
  · obtain ⟨s, hs, rfl⟩ := List.mem_map.mp hmem
    exact readLine_entryLine (hnames s (List.mem_mergeSort.mp hs)) k

theorem oneLine_saidLines (hsource : Text.OneLine source.toList)
    (hnames : ∀ s ∈ symbols, FieldName s.1) :
    ∀ l ∈ (saidLines source symbols).map Prod.fst, Text.OneLine l := by
  intro l hl
  obtain ⟨p, hp, rfl⟩ := List.mem_map.mp hl
  rcases List.mem_append.mp hp with hmem | hmem
  · obtain ⟨cs, hcs, rfl⟩ := List.mem_map.mp hmem
    exact oneLine_headerLines hsource hcs
  · obtain ⟨s, hs, rfl⟩ := List.mem_map.mp hmem
    exact oneLine_entryLine (hnames s (List.mem_mergeSort.mp hs))

theorem nodup_filter_byName (hdistinct : (symbols.map Prod.fst).Nodup) :
    (((byName symbols).filter fun s => !opensComment s.1).map Prod.fst).Nodup := by
  have hsorted : ((byName symbols).map Prod.fst).Nodup :=
    ((List.mergeSort_perm symbols _).map Prod.fst).nodup_iff.mpr hdistinct
  exact hsorted.sublist (List.filter_sublist.map Prod.fst)

/-- **The labels whose lines are comments are lost, and no others.** -/
theorem parse_text (hsource : Text.OneLine source.toList)
    (hnames : ∀ s ∈ symbols, FieldName s.1) (hdistinct : (symbols.map Prod.fst).Nodup) :
    parse (text source symbols)
      = .ok ((byName symbols).filter fun s => !opensComment s.1) := by
  unfold parse
  rw [toList_text, Text.lines_flatMap_newline (oneLine_saidLines hsource hnames),
    readLines_of_readLine (readLine_saidLines hnames), filterMap_saidLines]
  exact congrArg Except.ok (SymbolTable.ofList_of_nodup (nodup_filter_byName hdistinct))

/-- Nothing is lost if no line is a comment. -/
theorem filter_byName_perm_iff :
    ((byName symbols).filter fun s => !opensComment s.1).Perm symbols
      ↔ ∀ s ∈ symbols, opensComment s.1 = false := by
  have hsorted : (byName symbols).Perm symbols := List.mergeSort_perm symbols _
  constructor
  · intro hperm s hs
    have hkept := (List.mem_filter.mp (hperm.mem_iff.mpr hs)).2
    rwa [Bool.not_eq_true'] at hkept
  · intro hall
    have hfilter : (byName symbols).filter (fun s => !opensComment s.1) = byName symbols := by
      refine List.filter_eq_self.mpr fun s hs => ?_
      rw [hall s (hsorted.mem_iff.mp hs)]
      rfl
    rw [hfilter]
    exact hsorted

/-- A symbol file has no carriage return, so it is loaded as it was written. -/
theorem load_of_read {d : Disk} {path : Path}
    (hsource : Text.OneLine source.toList) (hnames : ∀ s ∈ symbols, FieldName s.1)
    (hread : d.read path = .ok ⟨Utf8.encode (text source symbols), none⟩) :
    load d path = (parse (text source symbols)).mapError .content := by
  have hreturn : '\r' ∉ (text source symbols).toList := by
    rw [toList_text]
    exact Text.not_mem_flatMap_newline (oneLine_saidLines hsource hnames)
  unfold load
  rw [hread]
  dsimp only
  rw [Utf8.decode_encode]
  dsimp only
  rw [Text.unifyNewlines_of_not_mem hreturn, String.ofList_toList]
  cases parse (text source symbols) <;> rfl

end

end SymbolFile

/-! ## The symbol file of a result -/

theorem fieldName_textOf {bytes rest : List UInt8} (h : Source.Run Source.isSymbol bytes rest) :
    FieldName (Source.textOf bytes) := by
  refine ⟨(labelName_textOf h).nonempty, fun c hc => ?_⟩
  obtain ⟨b, hb, hcb⟩ := exists_byte_of_mem_textOf h hc
  -- symbol bytes are visible, and the first blank above them is far off
  simp only [Source.isSymbol, Bool.and_eq_true, decide_eq_true_eq, UInt8.le_iff_toNat_le] at hb
  have hlow : 0x21 ≤ b.toNat := hb.1.1.1
  have hhigh : b.toNat ≤ 0x7E := hb.1.1.2
  simp only [Text.isBlank, Bool.or_eq_false_iff, Bool.and_eq_false_iff, decide_eq_false_iff_not,
    beq_eq_false_iff_ne]
  omega

namespace Accepted

variable {source : List UInt8} {lexemes : List Lexeme}

theorem fieldName_of_mem (h : Accepted source lexemes) {file : RawText} :
    ∀ s ∈ (buildOf file lexemes).symbols, FieldName s.1 := by
  rintro ⟨name, address⟩ hs
  rw [symbols_buildOf] at hs
  obtain ⟨before, x, after, rfl, hx, -⟩ := mem_symbolsFrom.mp hs
  have hmem : x ∈ before ++ x :: after := List.mem_append_right _ List.mem_cons_self
  obtain ⟨bytes, rest, hrun, rfl⟩ := h.splits.exists_run_of_definition hmem hx
  exact fieldName_textOf hrun

theorem nodup_names (h : Accepted source lexemes) (file : RawText) :
    ((buildOf file lexemes).symbols.map Prod.fst).Nodup := by
  rw [map_fst_symbols]
  exact h.names

end Accepted

namespace Assembler

/-- After a success an assembler holds the build of an accepted source. -/
theorem accepted_of_run {a a' : Assembler} {file : RawText} {source : List UInt8} {image : Image}
    {log : List Event} (h : a.run file (.ofBytes source) = (.ok image, a', log)) :
    ∃ lexemes, Accepted source lexemes ∧ a' = holding a.strict (some (buildOf file lexemes))
      ∧ image = (buildOf file lexemes).image := by
  rw [run_eq] at h
  split at h
  · next b _ hassemble =>
      cases h
      obtain ⟨lexemes, haccepted, rfl⟩ := accepted_of_assemble (congrArg Prod.fst hassemble)
      exact ⟨lexemes, haccepted, rfl, rfl⟩
  · cases h

/-- What a success leaves to be written is a text of characters if the name of the source is. -/
theorem encodeTexts_symbolLines (strict : Bool) {b : Build} (file : String)
    (h : b.source = file) :
    Utf8.encodeTexts (holding strict (some b)).symbolLines
      = (Utf8.encode (SymbolFile.text file b.symbols), none) := by
  show Utf8.encodeTexts (SymbolFile.render (some b.source) b.symbols) = _
  rw [h, SymbolFile.render_ofString, Utf8.encodeTexts_ofString]
  rfl

/-- Texts that have bytes are written as these bytes. -/
theorem write_of_writeSymbols {a : Assembler} {path : Path} {d d' : Disk} {bytes : List UInt8}
    (hbytes : Utf8.encodeTexts a.symbolLines = (bytes, none))
    (h : a.writeSymbols path d = .ok () d') : d.write path bytes = .ok d' := by
  unfold writeSymbols withResult at h
  cases hresult : a.result with
  | error e =>
      rw [hresult] at h
      cases h
  | ok image =>
      rw [hresult] at h
      dsimp only at h
      rw [FileWork.writeTexts_apply, hbytes] at h
      dsimp only at h
      cases hwrite : d.write path bytes with
      | error fault =>
          rw [hwrite] at h
          cases h
      | ok written =>
          rw [hwrite] at h
          cases h
          rfl

/-- **The symbol file of a result is read back, but for the labels that begin with a number sign**:
those are lost, and the table that is read is that of the assembler if and only if there are none
of them. A device may give other bytes than it takes, so the file is to be none. -/
theorem symbols_read_back {a a' : Assembler} {file : String} {source : List UInt8} {image : Image}
    {log : List Event} (hrun : a.run file (.ofBytes source) = (.ok image, a', log))
    (hfile : Text.OneLine file.toList) :
    ∃ bytes text table, a'.result = .ok image ∧ Utf8.encodeTexts a'.symbolLines = (bytes, none)
      ∧ Utf8.decode bytes = .ok text ∧ SymbolFile.parse text = .ok table
      ∧ (table.map Prod.fst).Nodup
      ∧ table.Perm (a'.symbols.filter fun s => !SymbolFile.opensComment s.1)
      ∧ (table.Perm a'.symbols ↔ ∀ s ∈ a'.symbols, SymbolFile.opensComment s.1 = false)
      ∧ ∀ disk path disk', a'.writeSymbols path disk = .ok () disk' →
          (∀ spot, disk.locate path = .ok spot → disk.isDevice spot = false) →
          SymbolFile.load disk' path = .ok table := by
  obtain ⟨lexemes, haccepted, rfl, rfl⟩ := accepted_of_run hrun
  have hnames : ∀ s ∈ (buildOf file lexemes).symbols, FieldName s.1 := haccepted.fieldName_of_mem
  have hparse := SymbolFile.parse_text hfile hnames (haccepted.nodup_names file)
  have hdistinct := haccepted.nodup_names file
  have hsorted : (SymbolFile.byName (buildOf file lexemes).symbols).Perm
      (buildOf file lexemes).symbols := List.mergeSort_perm _ _
  have hlines := encodeTexts_symbolLines a.strict (b := buildOf file lexemes) file rfl
  refine ⟨_, _, _, rfl, hlines, Utf8.decode_encode _, hparse,
    SymbolFile.nodup_filter_byName hdistinct, hsorted.filter _, SymbolFile.filter_byName_perm_iff,
    ?_⟩
  intro disk path disk' hwrite hfree
  have hwritten := write_of_writeSymbols hlines hwrite
  obtain ⟨spot, hspot, -⟩ := Disk.write_eq_ok_iff.mp hwritten
  have hread := Disk.read_of_write hwritten hspot (hfree spot hspot)
  rw [SymbolFile.load_of_read hfile hnames hread, hparse]
  rfl

/-- A number sign inside a label does no harm. -/
theorem symbols_read_back_inside :
    ∃ image a' log, (fresh false).run "p.nasm" (.ofBytes (Source.bytesOf "@a# @b HLT"))
        = (.ok image, a', log)
      ∧ a'.symbols = [("a#", 0x7FFFFF), ("b", 0x7FFFFF)]
      ∧ ∃ table, table.Perm a'.symbols ∧ ∀ disk path disk',
          a'.writeSymbols path disk = .ok () disk' →
          (∀ spot, disk.locate path = .ok spot → disk.isDevice spot = false) →
          SymbolFile.load disk' path = .ok table := by
  obtain ⟨⟨result, a', log⟩, hrun⟩ :
      ∃ r, (fresh false).run "p.nasm" (.ofBytes (Source.bytesOf "@a# @b HLT")) = r := ⟨_, rfl⟩
  have hsymbols : a'.symbols = [("a#", 0x7FFFFF), ("b", 0x7FFFFF)] := by
    rw [show a' = _ from (congrArg (·.2.1) hrun).symm]
    decide +kernel
  have hok : result.isOk = true := by
    rw [show result = _ from (congrArg (·.1) hrun).symm]
    decide +kernel
  cases result with
  | error e => cases hok
  | ok image =>
      obtain ⟨bytes, text, table, -, -, -, -, -, -, hperm, hload⟩ :=
        symbols_read_back hrun (by decide)
      refine ⟨image, a', log, hrun, hsymbols, table, hperm.mpr ?_, hload⟩
      rw [hsymbols]
      decide

/-- A label that begins with a number sign is not read back. -/
theorem symbols_lost_at_start :
    ∃ bytes text,
      ((fresh false).run "p.nasm" (.ofBytes (Source.bytesOf "@#x HLT"))).2.1.symbols
          = [("#x", 0x7FFFFF)]
        ∧ Utf8.encodeTexts
            ((fresh false).run "p.nasm" (.ofBytes (Source.bytesOf "@#x HLT"))).2.1.symbolLines
          = (bytes, none)
        ∧ Utf8.decode bytes = .ok text ∧ SymbolFile.parse text = .ok [] :=
  ⟨Utf8.encode "# Symbol table\n# Generated by neoasm\n# Source: p.nasm\n#x $7FFFFF\n", _,
    by decide +kernel, by decide +kernel, Utf8.decode_encode _, by decide +kernel⟩

end Assembler

end RomKit
