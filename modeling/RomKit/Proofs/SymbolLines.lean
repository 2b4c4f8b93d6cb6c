import RomKit.Proofs.AddressSpellings
import RomKit.Proofs.SymbolFiles

/-!
# Symbol files line by line

A symbol file is read from its lines one at a time. A line of visible characters, spaces and tabs
splits into fields (`Text.HasFields`), and the fields decide what it says: nothing, a label with its
address, or nothing that can be understood. Comments may hold any text.

What the lines say fills a table, in which the last address of a name stands in the place of the
first (`SymbolTable.names_ofList`, `SymbolTable.mem_ofList`). Lines that say nothing are counted all
the same, so an error names the line where it is.
-/

namespace RomKit

/-! ## Fields of a line -/

namespace Text

/-- A printable ASCII character other than the space. -/
def Visible (c : Char) : Prop := 0x21 ≤ c.toNat ∧ c.toNat ≤ 0x7E

instance (c : Char) : Decidable (Visible c) :=
  inferInstanceAs (Decidable (_ ∧ _))

/-- Only visible characters, spaces and tabs. -/
def Plain (l : List Char) : Prop := ∀ c ∈ l, Visible c ∨ c = ' ' ∨ c = '\t'

instance (l : List Char) : Decidable (Plain l) :=
  List.decidableBAll (fun c => Visible c ∨ c = ' ' ∨ c = '\t') l

/-- The fields of a line: words of visible characters, with spaces and tabs around and between
them. -/
inductive HasFields : List Char → List (List Char) → Prop where
  | nil {pad : List Char} : Padding pad → HasFields pad []
  | cons {pad word rest : List Char} {words : List (List Char)} :
      Padding pad → word ≠ [] → (∀ c ∈ word, Visible c) → (∀ c ∈ rest.head?, c = ' ' ∨ c = '\t') →
      HasFields rest words → HasFields (pad ++ (word ++ rest)) (word :: words)

theorem Visible.not_isBlank {c : Char} (h : Visible c) : isBlank c = false := by
  have hlow := h.1
  have hhigh := h.2
  simp only [isBlank, Bool.or_eq_false_iff, Bool.and_eq_false_iff, decide_eq_false_iff_not,
    beq_eq_false_iff_ne]
  omega

theorem exists_hasFields {l : List Char} (h : Plain l) : ∃ words, HasFields l words := by
  induction l with
  | nil => exact ⟨[], .nil (List.forall_mem_nil _)⟩
  | cons c l ih =>
      obtain ⟨hc, hl⟩ := List.forall_mem_cons.mp h
      obtain ⟨words, hwords⟩ := ih hl
      rcases hc with hvisible | hpad
      · cases hwords with
        | nil hl =>
            -- the character is a word of its own
            refine ⟨[[c]], .cons (List.forall_mem_nil _) (List.cons_ne_nil _ _)
              (List.forall_mem_singleton.mpr hvisible) (fun d hd => ?_) (.nil hl)⟩
            exact hl d (List.mem_of_mem_head? hd)
        | @cons pad word rest words hp hne hword hrest hmore =>
            cases pad with
            | nil =>
                -- it is the first of the next word
                exact ⟨(c :: word) :: words, @HasFields.cons [] _ _ _ hp (List.cons_ne_nil _ _)
                  (List.forall_mem_cons.mpr ⟨hvisible, hword⟩) hrest hmore⟩
            | cons d pad =>
                refine ⟨[c] :: word :: words, @HasFields.cons [] _ _ _ (List.forall_mem_nil _)
                  (List.cons_ne_nil _ _) (List.forall_mem_singleton.mpr hvisible) ?_
                  (.cons hp hne hword hrest hmore)⟩
                rintro e ⟨rfl⟩
                exact hp _ List.mem_cons_self
      · cases hwords with
        | nil hl => exact ⟨[], .nil (List.forall_mem_cons.mpr ⟨hpad, hl⟩)⟩
        | @cons pad _ _ _ hp hne hword hrest hmore =>
            exact ⟨_, @HasFields.cons (c :: pad) _ _ _ (List.forall_mem_cons.mpr ⟨hpad, hp⟩) hne
              hword hrest hmore⟩

theorem HasFields.oneLine {l : List Char} {words : List (List Char)} (h : HasFields l words) :
    OneLine l := by
  have hpadding : ∀ {pad}, Padding pad → OneLine pad := by
    intro pad hpad c hc
    rcases hpad c hc with rfl | rfl
    · decide
    · decide
  induction h with
  | nil hpad => exact hpadding hpad
  | cons hpad _ hword _ _ ih =>
      have hsolid : Solid _ := fun c hc => (hword c hc).not_isBlank
      exact (hpadding hpad).append (hsolid.oneLine.append ih)

/-- **Splitting a line gives its fields.** -/
theorem HasFields.fields_eq {l : List Char} {words : List (List Char)} (h : HasFields l words) :
    fields l = words := by
  induction h with
  | nil hpad =>
      have hblank := fields_blanks_append hpad.isBlank []
      rwa [List.append_nil, fields_nil] at hblank
  | cons hpad hne hword hrest _ ih =>
      have hseparated : ∀ c ∈ List.head? _, isBlank c = true := fun c hc =>
        Padding.isBlank (List.forall_mem_singleton.mpr (hrest c hc)) c List.mem_cons_self
      rw [fields_blanks_append hpad.isBlank,
        fields_word hne (fun c hc => (hword c hc).not_isBlank) hseparated, ih]

/-- **Every plain line has fields**, which splitting gives. -/
theorem hasFields_fields {l : List Char} (h : Plain l) : HasFields l (fields l) := by
  obtain ⟨words, hwords⟩ := exists_hasFields h
  rw [hwords.fields_eq]
  exact hwords

/-! ## Trimming keeps fields -/

/-- Trimming drops blanks only. -/
theorem exists_blanks_around (l : List Char) : ∃ left right,
    l = left ++ trim l ++ right
      ∧ (∀ c ∈ left, isBlank c = true) ∧ ∀ c ∈ right, isBlank c = true := by
  refine ⟨l.takeWhile isBlank, ((l.dropWhile isBlank).reverse.takeWhile isBlank).reverse, ?_,
    fun c hc => List.mem_takeWhile_imp hc,
    fun c hc => List.mem_takeWhile_imp (List.mem_reverse.mp hc)⟩
  have hright : trim l ++ ((l.dropWhile isBlank).reverse.takeWhile isBlank).reverse
      = l.dropWhile isBlank := by
    rw [trim, trimBy, ← List.reverse_append, List.takeWhile_append_dropWhile, List.reverse_reverse]
  rw [List.append_assoc, hright, List.takeWhile_append_dropWhile]

/-- Blanks at the end make no field. -/
theorem fields_append_blanks (cs : List Char) {bs : List Char}
    (h : ∀ c ∈ bs, isBlank c = true) : fields (cs ++ bs) = fields cs := by
  fun_induction fields cs with
  | case1 cs hnone =>
      have hcs : ∀ c ∈ cs, isBlank c = true := List.dropWhile_eq_nil_iff.mp hnone
      have hblank := fields_blanks_append (List.forall_mem_append.mpr ⟨hcs, h⟩) []
      rwa [List.append_nil, fields_nil] at hblank
  | case2 cs c rest hsome ih =>
      have hcs : cs = cs.takeWhile isBlank
          ++ (c :: rest.takeWhile (!isBlank ·) ++ rest.dropWhile (!isBlank ·)) := by
        rw [List.cons_append, List.takeWhile_append_dropWhile, ← hsome,
          List.takeWhile_append_dropWhile]
      have hword : Solid (c :: rest.takeWhile (!isBlank ·)) := by
        refine List.forall_mem_cons.mpr ⟨?_, fun d hd => by simpa using List.mem_takeWhile_imp hd⟩
        have hhead := List.head?_dropWhile_not isBlank cs
        rw [hsome] at hhead
        simpa using hhead
      have hnext : ∀ d ∈ (rest.dropWhile (!isBlank ·) ++ bs).head?, isBlank d = true := by
        intro d hd
        have hhead := List.head?_dropWhile_not (!isBlank ·) rest
        cases hlater : rest.dropWhile (!isBlank ·) with
        | nil =>
            rw [hlater, List.nil_append] at hd
            exact h d (List.mem_of_mem_head? hd)
        | cons e later =>
            rw [hlater] at hd hhead
            cases hd
            simpa using hhead
      rw [hcs, List.append_assoc, fields_blanks_append fun d hd => List.mem_takeWhile_imp hd,
        List.append_assoc, fields_word (List.cons_ne_nil _ _) hword hnext, ih]

theorem fields_trim (l : List Char) : fields (trim l) = fields l := by
  obtain ⟨left, right, hl, hleft, hright⟩ := exists_blanks_around l
  rw [← fields_append_blanks (trim l) hright, ← fields_blanks_append hleft, ← List.append_assoc,
    ← hl]

end Text

/-! ## Tables of names -/

namespace SymbolTable

variable {symbols pairs : List (String × Int)} {name : String} {address : Int}

theorem map_fst_put (symbols : List (String × Int)) (name : String) (address : Int) :
    (put symbols name address).map Prod.fst
      = if name ∈ symbols.map Prod.fst then symbols.map Prod.fst
        else symbols.map Prod.fst ++ [name] := by
  by_cases hknown : name ∈ symbols.map Prod.fst
  · have hany : symbols.any (fun p => p.1 == name) = true := by
      obtain ⟨p, hp, hname⟩ := List.mem_map.mp hknown
      exact List.any_eq_true.mpr ⟨p, hp, beq_iff_eq.mpr hname⟩
    rw [put, if_pos hany, if_pos hknown, List.map_map]
    refine List.map_congr_left fun p hp => ?_
    by_cases hname : p.1 = name <;> simp [hname]
  · rw [put_of_not_mem hknown, if_neg hknown, List.map_append, List.map_singleton]

/-- Setting a name replaces its address and leaves the others. -/
theorem mem_put {p : String × Int} :
    p ∈ put symbols name address ↔ p = (name, address) ∨ (p.1 ≠ name ∧ p ∈ symbols) := by
  by_cases hknown : name ∈ symbols.map Prod.fst
  · obtain ⟨q, hq, hname⟩ := List.mem_map.mp hknown
    have hany : symbols.any (fun p => p.1 == name) = true :=
      List.any_eq_true.mpr ⟨q, hq, beq_iff_eq.mpr hname⟩
    rw [put, if_pos hany, List.mem_map]
    constructor
    · rintro ⟨r, hr, rfl⟩
      by_cases hsame : r.1 = name
      · left; simp [hsame]
      · right; simp [hsame, hr]
    · rintro (rfl | ⟨hother, hp⟩)
      · exact ⟨q, hq, by simp [hname]⟩
      · exact ⟨p, hp, by simp [hother]⟩
  · rw [put_of_not_mem hknown, List.mem_append, List.mem_singleton]
    constructor
    · rintro (hp | rfl)
      · exact Or.inr ⟨fun hname => hknown (hname ▸ List.mem_map_of_mem hp), hp⟩
      · exact Or.inl rfl
    · rintro (rfl | ⟨-, hp⟩)
      · exact Or.inr rfl
      · exact Or.inl hp

theorem ofList_snoc (pairs : List (String × Int)) (p : String × Int) :
    ofList (pairs ++ [p]) = put (ofList pairs) p.1 p.2 := by
  rw [ofList, List.foldl_append]
  rfl

/-- **Names stand in the order of their first lines.** -/
theorem names_ofList (pairs : List (String × Int)) :
    (ofList pairs).map Prod.fst = (pairs.map Prod.fst).eraseDups := by
  induction pairs using List.reverseRecOn with
  | nil => rfl
  | append_singleton pairs p ih =>
      rw [ofList_snoc, map_fst_put, ih, List.map_append, List.map_singleton, List.eraseDups_append]
      by_cases hknown : p.1 ∈ pairs.map Prod.fst
      · rw [if_pos (List.mem_eraseDups.mpr hknown)]
        simp [List.removeAll, hknown]
      · have hnew : [p.1].removeAll (pairs.map Prod.fst) = [p.1] := by
          simp [List.removeAll, hknown]
        rw [if_neg fun hmem => hknown (List.mem_eraseDups.mp hmem), hnew]
        rfl

/-- **The last line of a name decides its address.** -/
theorem mem_ofList :
    (name, address) ∈ ofList pairs
      ↔ ∃ earlier later, pairs = earlier ++ (name, address) :: later
        ∧ name ∉ later.map Prod.fst := by
  induction pairs using List.reverseRecOn with
  | nil => simp [ofList]
  | append_singleton pairs p ih =>
      rw [ofList_snoc, mem_put, ih]
      constructor
      · rintro (hlast | ⟨hother, earlier, later, rfl, hlater⟩)
        · exact ⟨pairs, [], by rw [hlast], List.not_mem_nil⟩
        · refine ⟨earlier, later ++ [p], by simp, ?_⟩
          rw [List.map_append, List.mem_append, List.map_singleton, List.mem_singleton]
          rintro (hmem | hsame)
          · exact hlater hmem
          · exact hother hsame
      · rintro ⟨earlier, later, hsplit, hlater⟩
        rcases later.eq_nil_or_concat' with rfl | ⟨later, q, rfl⟩
        · obtain ⟨-, hlast⟩ := List.append_inj' hsplit rfl
          exact Or.inl (List.cons.inj hlast).1.symm
        · rw [← List.cons_append, ← List.append_assoc] at hsplit
          obtain ⟨hbefore, hlast⟩ := List.append_inj' hsplit rfl
          rw [(List.cons.inj hlast).1]
          rw [List.map_append, List.mem_append, not_or, List.map_singleton, List.mem_singleton]
            at hlater
          exact Or.inr ⟨hlater.2, earlier, later, hbefore, hlater.1⟩

end SymbolTable

/-! ## Reading lines -/

namespace SymbolFile

open Text

/-- What a line says: nothing if it is blank or a comment, else a label with its address, written
in hexadecimal behind a dollar sign. -/
inductive Says : List Char → Option (String × Int) → Prop where
  | blank {l : List Char} : HasFields l [] → Says l none
  | comment {pad text : List Char} :
      Padding pad → OneLine text → Says (pad ++ '#' :: text) none
  | entry {l name digits : List Char} {n : Nat} :
      HasFields l [name, '$' :: digits] → name.head? ≠ some '#' → Numeral.Writes 16 n digits →
      Says l (some (String.ofList name, n))

/-- A line that says nothing that can be understood: it has a field, it is no comment, and it is not
a name followed by a dollar sign and whatever comes behind. -/
structure Malformed (l : List Char) : Prop where
  plain : Plain l
  fields : ∀ words, HasFields l words → ∃ first others, words = first :: others
    ∧ first.head? ≠ some '#' ∧ ∀ digits, others ≠ ['$' :: digits]

/-- Lines as the text of a file. -/
def ofLines (ls : List (List Char)) : String :=
  String.ofList (['\n'].intercalate ls)

theorem Says.oneLine {l : List Char} {said : Option (String × Int)} (h : Says l said) :
    OneLine l := by
  cases h with
  | blank hfields => exact hfields.oneLine
  | comment hpad htext =>
      refine (HasFields.nil hpad).oneLine.append ?_
      exact List.forall_mem_cons.mpr ⟨by decide, htext⟩
  | entry hfields _ _ => exact hfields.oneLine

/-- **A line is read as what it says.** -/
theorem Says.readLine_eq {l : List Char} {said : Option (String × Int)} (h : Says l said)
    (number : Nat) : readLine number l = .ok said := by
  cases h with
  | blank hfields =>
      cases hfields with
      | nil hpad =>
          have htrim := @trim_padded l [] [] hpad (List.forall_mem_nil _) (List.forall_mem_nil _)
          rw [List.append_nil, List.append_nil] at htrim
          unfold readLine
          rw [htrim]
          rfl
  | comment hpad _ => exact readLine_comment hpad.isBlank number _
  | @entry _ name digits n hfields hhash hdigits =>
      -- two fields: padding, the name, a gap, the address, and padding again
      cases hfields with
      | @cons left _ rest _ hleft hne hname hrest hfields =>
          cases hfields with
          | @cons gap _ right _ hgap _ _ _ hfields =>
              cases hfields with
              | nil hright =>
                  have hsome : gap ≠ [] := by
                    rintro rfl
                    rcases hrest '$' rfl with heq | heq <;> cases heq
                  have hread := readLine_entry hleft.isBlank hright.isBlank hne
                    (fun c hc => (hname c hc).not_isBlank) hhash hsome hgap.isBlank
                    (hdigits.solid (by decide) (Nat.le_refl 16))
                    (Numeral.read_of_writes hdigits (by decide) (Nat.le_refl 16)
                      fun hten => absurd hten (by decide)) number
                  rw [← hread]
                  simp only [List.append_assoc, List.cons_append]

theorem Malformed.oneLine {l : List Char} (h : Malformed l) : OneLine l :=
  (hasFields_fields h.plain).oneLine

/-- **A malformed line is refused**, with its number. -/
theorem Malformed.readLine_eq {l : List Char} (h : Malformed l) (number : Nat) :
    readLine number l = .error (.badLine number (String.ofList (trim l))) := by
  have hwords := hasFields_fields h.plain
  obtain ⟨first, others, hsplit, hhash, hothers⟩ := h.fields _ hwords
  rw [hsplit] at hwords
  have hfields : Text.fields (trim l) = first :: others := by
    rw [fields_trim, hsplit]
  have hhead : (trim l).head? = first.head? := by
    cases hwords with
    | cons hpad hne hword _ _ =>
        obtain ⟨c, first, rfl⟩ := List.exists_cons_of_ne_nil hne
        exact head?_trimBy hpad.isBlank (hword c List.mem_cons_self).not_isBlank
  have hsome : (trim l).isEmpty = false := by
    cases htrim : trim l with
    | nil =>
        rw [htrim, fields_nil] at hfields
        cases hfields
    | cons _ _ => rfl
  unfold readLine
  dsimp only
  rw [hsome, hhead, hfields, Bool.false_or, if_neg (by simpa using hhash)]
  split
  · next name digits heq =>
      cases heq
      exact absurd rfl (hothers _)
  · rfl

theorem lines_of_oneLine {l : List Char} (h : OneLine l) (hne : l ≠ []) : lines l = [l] := by
  induction l with
  | nil => exact absurd rfl hne
  | cons c l ih =>
      obtain ⟨hc, hl⟩ := List.forall_mem_cons.mp h
      rw [lines_cons_of_not_isLineEnd hc]
      by_cases hend : l = []
      · rw [hend]
        rfl
      · rw [ih hl hend]
        rfl

/-- Lines are read from a file as they are. Only a last line that is empty may get lost, and it
says nothing. -/
theorem readLines_lines_intercalate {ls : List (List Char)} (h : ∀ l ∈ ls, OneLine l) :
    ∀ (symbols : List (String × Int)) (number : Nat),
      readLines symbols number (lines (['\n'].intercalate ls)) = readLines symbols number ls := by
  induction ls with
  | nil => intro symbols number; rfl
  | cons l ls ih =>
      obtain ⟨hl, hls⟩ := List.forall_mem_cons.mp h
      intro symbols number
      cases ls with
      | nil =>
          rw [List.intercalate_singleton]
          by_cases hend : l = []
          · rw [hend]
            rfl
          · rw [lines_of_oneLine hl hend]
      | cons l' ls =>
          rw [List.intercalate_cons_cons, List.append_assoc, List.singleton_append,
            lines_append_newline hl, readLines, readLines]
          split
          · rfl
          · exact ih hls _ _
          · exact ih hls _ _

theorem parse_ofLines {ls : List (List Char)} (h : ∀ l ∈ ls, OneLine l) :
    parse (ofLines ls) = readLines [] 1 ls := by
  unfold parse ofLines
  rw [String.toList_ofList]
  exact readLines_lines_intercalate h [] 1

/--
**A symbol file is read line by line.** For every list of lines that each say something or nothing:
the table that is read has the names of the labels in the order of their first lines, each with the
address on its last line, and nothing else. If any one line is replaced by a malformed one, reading
fails, and the error names the number of that line. Every run of hexadecimal digits writes an
address, in either letter case and with any zeros in front.
-/
theorem parse_line_by_line {ls : List (List Char × Option (String × Int))}
    (h : ∀ l ∈ ls, Says l.1 l.2) :
    (∃ table, parse (ofLines (ls.map Prod.fst)) = .ok table
        ∧ table.map Prod.fst = ((ls.filterMap Prod.snd).map Prod.fst).eraseDups
        ∧ ∀ name address, (name, address) ∈ table ↔ ∃ earlier later,
            ls.filterMap Prod.snd = earlier ++ (name, address) :: later
              ∧ name ∉ later.map Prod.fst)
      ∧ (∀ before l after bad, ls = before ++ l :: after → Malformed bad →
          parse (ofLines (before.map Prod.fst ++ bad :: after.map Prod.fst))
            = .error (.badLine (before.length + 1) (String.ofList (trim bad))))
      ∧ (∀ number line, ∃ rest, (SymbolFileError.badLine number line).message
          = "line " ++ toString number ++ ": " ++ rest)
      ∧ ∀ digits, digits ≠ [] → (∀ c ∈ digits, Numeral.isDigit 16 c = true) →
          ∃ n, Numeral.Writes 16 n digits := by
  refine ⟨⟨SymbolTable.ofList (ls.filterMap Prod.snd), ?_, SymbolTable.names_ofList _,
    fun name address => SymbolTable.mem_ofList⟩, ?_, fun number line => ?_,
    fun digits hne hdigits => ?_⟩
  · rw [parse_ofLines fun l hl => ?_]
    · exact readLines_of_readLine (fun l hl => (h l hl).readLine_eq) [] 1
    · obtain ⟨p, hp, rfl⟩ := List.mem_map.mp hl
      exact (h p hp).oneLine
  · rintro before l after bad rfl hbad
    have hbefore : ∀ l ∈ before, Says l.1 l.2 := fun l hl => h l (List.mem_append_left _ hl)
    rw [parse_ofLines fun l hl => ?_]
    · rw [readLines_append before [] 1 (fun l hl => (hbefore l hl).readLine_eq), readLines,
        hbad.readLine_eq, Nat.add_comm]
    · rcases List.mem_append.mp hl with hl | hl
      · obtain ⟨p, hp, rfl⟩ := List.mem_map.mp hl
        exact (hbefore p hp).oneLine
      · rcases List.mem_cons.mp hl with rfl | hl
        · exact hbad.oneLine
        · obtain ⟨p, hp, rfl⟩ := List.mem_map.mp hl
          exact (h p (List.mem_append_right _ (List.mem_cons_of_mem _ hp))).oneLine
  · refine ⟨"expected 'name $ADDRESS', got " ++ quoted line, ?_⟩
    have hstart : ": expected 'name $ADDRESS', got "
        = ": " ++ "expected 'name $ADDRESS', got " := by
      decide
    rw [SymbolFileError.message, hstart]
    simp only [String.append_assoc]
  · exact ⟨_, (Numeral.writes_iff (by decide) (Nat.le_refl 16)).mpr ⟨hne, hdigits, rfl⟩⟩

/-- A comment, a label, an empty line, and the label again. -/
def repeatedLabel : List (List Char × Option (String × Int)) :=
  [(['#', 'x'], none), (['a', ' ', '$', '1'], some ("a", 1)), ([], none),
    (['a', '\t', '$', '0', 'f', 'F'], some ("a", 255))]

/-- The label stands once, with its last address. Two words in place of the empty line are refused:
the line is the third of the file. -/
theorem parse_line_by_line_repeatedLabel :
    (∃ table, parse (ofLines (repeatedLabel.map Prod.fst)) = .ok table
        ∧ table.map Prod.fst = ["a"] ∧ ("a", 255) ∈ table)
      ∧ parse (ofLines ((repeatedLabel.take 2).map Prod.fst
          ++ ['c', ' ', 'd'] :: (repeatedLabel.drop 3).map Prod.fst))
        = .error (.badLine 3 (String.ofList (trim ['c', ' ', 'd']))) := by
  have hone := hasFields_fields (by decide : Plain ['a', ' ', '$', '1'])
  have hlast := hasFields_fields (by decide : Plain ['a', '\t', '$', '0', 'f', 'F'])
  rw [show fields _ = [['a'], ['$', '1']] by decide +kernel] at hone
  rw [show fields _ = [['a'], ['$', '0', 'f', 'F']] by decide +kernel] at hlast
  have hsays : ∀ l ∈ repeatedLabel, Says l.1 l.2 := by
    intro l hl
    simp only [repeatedLabel, List.mem_cons, List.not_mem_nil, or_false] at hl
    rcases hl with rfl | rfl | rfl | rfl
    · exact @Says.comment [] ['x'] (List.forall_mem_nil _) (by decide)
    · exact @Says.entry _ ['a'] ['1'] 1 hone (by decide) ⟨0, by decide⟩
    · exact .blank (.nil (List.forall_mem_nil _))
    · exact @Says.entry _ ['a'] ['0', 'f', 'F'] 255 hlast (by decide) ⟨1, by decide⟩
  have hbad : Malformed ['c', ' ', 'd'] := by
    refine ⟨by decide, fun words hwords => ⟨['c'], [['d']], ?_, by decide, fun digits hd => ?_⟩⟩
    · rw [← hwords.fields_eq]
      decide +kernel
    · cases hd
  obtain ⟨⟨table, hparse, hnames, hmem⟩, hrefused, -⟩ := parse_line_by_line hsays
  exact ⟨⟨table, hparse, hnames, (hmem "a" 255).mpr ⟨[("a", 1)], [], rfl, List.not_mem_nil⟩⟩,
    hrefused _ _ _ _ rfl hbad⟩

end SymbolFile

end RomKit
