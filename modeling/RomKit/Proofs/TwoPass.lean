import Mathlib.Data.List.Basic
import RomKit.Proofs.Acceptance

/-!
# One pass with backpatching is as good as two passes

A two-pass assembler first lays out the items of a source, which tells where
every label lies and how long the image is, and then emits every item with the
addresses at hand. `TwoPass` is that assembler, and nothing in it is ever
overwritten.

The assembler proper emits zeros for every address, records where they stand, and
overwrites them at the end. In between the image is described by its *rooms*: the
four bytes behind the control byte of each reference. Overwriting changes one
room at a time (`overwrite_slots`), and in the end each room holds what the two
passes put there (`rooms_final`).
-/

namespace RomKit

/-! ## The reference assembler -/

namespace TwoPass

/-- The length of the image of some items. -/
def length (items : List Item) : Nat :=
  Token.sizeOfAll (items.map Item.token)

/-- The address of an offset: the image ends at the top of memory. -/
def address (items : List Item) (offset : Nat) : Int :=
  addressSpace - (length items : Int) + offset

/-- The four bytes of the address of a label, or zeros if no item defines it. -/
def addressBytes (items : List Item) (name : String) : List UInt8 :=
  match items.find? fun i => i.token.defines? == some name with
  | some i => Image.bigEndian (address items i.offset).toNat
  | none => [0, 0, 0, 0]

/-- The image: the bytes of one item after another. -/
def image (items : List Item) : List UInt8 :=
  items.flatMap fun i => i.token.emit (addressBytes items)

/-- The address of each label, in the order of the source. -/
def symbols (items : List Item) : List (String × Int) :=
  items.filterMap fun i => i.token.defines?.map fun name => (name, address items i.offset)

/-- Some item refers to the name. -/
def mentions (items : List Item) (name : String) : Bool :=
  items.any fun i => i.token.refersTo? == some name

/-- A warning for each label that no item refers to, in the order of the source. -/
def warnings (items : List Item) : List RawText :=
  items.filterMap fun i => i.token.defines?.bind fun name =>
    if mentions items name then none
    else some (i.place.text ++ ": warning: label '" ++ name ++ "' is unused")

end TwoPass

/-! ## Items in a row -/

/-- The items stand one after another, the first at an offset. -/
def Laid : Nat → List Item → Prop
  | _, [] => True
  | offset, i :: items => i.offset = offset ∧ Laid (offset + i.token.size) items

theorem laid_layOut (file : RawText) (lexemes : List Lexeme) :
    ∀ (before : List UInt8) (offset : Nat), Laid offset (layOut file before offset lexemes) := by
  induction lexemes with
  | nil => intro before offset; trivial
  | cons x xs ih => intro before offset; exact ⟨rfl, ih _ _⟩

theorem length_layOut (file : RawText) (lexemes : List Lexeme) (before : List UInt8) (offset : Nat) :
    TwoPass.length (layOut file before offset lexemes) = totalSize lexemes :=
  congrArg Token.sizeOfAll (map_token_layOut file lexemes before offset)

theorem le_offset_of_laid {items : List Item} : ∀ {offset : Nat}, Laid offset items →
    ∀ i ∈ items, offset ≤ i.offset := by
  induction items with
  | nil => intro offset _ i hi; cases hi
  | cons j items ih =>
      intro offset h i hi
      rcases List.mem_cons.mp hi with rfl | hi'
      · exact Nat.le_of_eq h.1.symm
      · have := ih h.2 i hi'
        omega

theorem Token.emit_congr {f g : String → List UInt8} {t : Token}
    (h : ∀ name, t.refersTo? = some name → f name = g name) : t.emit f = t.emit g := by
  cases t with
  | reference name => rw [Token.emit, Token.emit, h name rfl]
  | _ => rfl

/-! ## Rooms -/

/-- The image of some items whose rooms hold given bytes. -/
def slots (room : Nat → List UInt8) (items : List Item) : List UInt8 :=
  items.flatMap fun i => i.token.emit fun _ => room (i.offset + 1)

/-- The rooms after one of them is changed. -/
def setRoom (room : Nat → List UInt8) (place : Nat) (bytes : List UInt8) : Nat → List UInt8 :=
  fun k => if k = place then bytes else room k

/-- The rooms after some writes. -/
def rooms (room : Nat → List UInt8) (ws : List Write) : Nat → List UInt8 :=
  ws.foldl (fun room w => setRoom room w.offset.toNat (Image.bigEndian w.address.toNat)) room

theorem rooms_cons (room : Nat → List UInt8) (w : Write) (ws : List Write) :
    rooms room (w :: ws)
      = rooms (setRoom room w.offset.toNat (Image.bigEndian w.address.toNat)) ws := rfl

theorem slots_cons (room : Nat → List UInt8) (i : Item) (items : List Item) :
    slots room (i :: items) = (i.token.emit fun _ => room (i.offset + 1)) ++ slots room items := by
  simp [slots]

theorem slots_congr {room room' : Nat → List UInt8} {items : List Item}
    (h : ∀ i ∈ items, ∀ name, i.token.refersTo? = some name →
      room (i.offset + 1) = room' (i.offset + 1)) : slots room items = slots room' items :=
  List.flatMap_congr fun i hi => Token.emit_congr fun name hname => h i hi name hname

/-- **Overwriting the room of a reference changes that room and nothing else.** -/
theorem overwrite_slots {i : Item} {name : String} {bytes : List UInt8} {room : Nat → List UInt8}
    (hroom : ∀ k, (room k).length = 4) (hbytes : bytes.length = 4)
    (hi : i.token = .reference name) {items : List Item} :
    ∀ {offset : Nat} (pre : List UInt8), Laid offset items → pre.length = offset → i ∈ items →
      Image.overwrite (pre ++ slots room items).toArray (i.offset + 1) bytes
        = (pre ++ slots (setRoom room (i.offset + 1) bytes) items).toArray := by
  induction items with
  | nil => intro offset pre _ _ hmem; cases hmem
  | cons j items ih =>
      intro offset pre hlaid hpre hmem
      rw [slots_cons, slots_cons]
      rcases List.mem_cons.mp hmem with rfl | hmem'
      · -- the room of this item; the later items lie behind it
        have hlater : slots (setRoom room (i.offset + 1) bytes) items = slots room items := by
          refine slots_congr fun k hk _ _ => ?_
          have hle := le_offset_of_laid hlaid.2 k hk
          have hsize : i.token.size = 5 := by rw [hi]; rfl
          have hoff := hlaid.1
          exact if_neg (by omega)
        have hplace : i.offset + 1 = (pre ++ [0x60]).length := by
          rw [List.length_append, hpre, hlaid.1]
          rfl
        have hover := Image.overwrite_middle bytes (room (i.offset + 1)) (pre ++ [0x60])
          (slots room items) (by rw [hroom, hbytes])
        rw [← hplace] at hover
        rw [hlater, hi, setRoom, if_pos rfl]
        simpa [Token.emit] using hover
      · -- the room of a later item; this one has no room or another one
        have hsame : (j.token.emit fun _ => setRoom room (i.offset + 1) bytes (j.offset + 1))
            = j.token.emit fun _ => room (j.offset + 1) := by
          refine Token.emit_congr fun name' hname' => ?_
          have hle := le_offset_of_laid hlaid.2 i hmem'
          have hsize : j.token.size = 5 := by rw [Token.refersTo?_eq_some.mp hname']; rfl
          have hoff := hlaid.1
          exact if_neg (by omega)
        have hlen : (pre ++ j.token.emit fun _ => room (j.offset + 1)).length
            = offset + j.token.size := by
          rw [List.length_append, hpre, Token.length_emit fun _ => hroom _]
        have hover := ih (pre ++ j.token.emit fun _ => room (j.offset + 1)) hlaid.2 hlen hmem'
        rw [hsame, ← List.append_assoc, ← List.append_assoc]
        exact hover

/-- Writes into rooms change the rooms. -/
theorem applyAll_slots {items : List Item} (hlaid : Laid 0 items) (ws : List Write) :
    ∀ room : Nat → List UInt8, (∀ k, (room k).length = 4) →
      (∀ w ∈ ws, ∃ i ∈ items, ∃ name, i.token = .reference name ∧ w.offset = i.offset + 1) →
      Write.applyAll (slots room items).toArray ws = (slots (rooms room ws) items).toArray := by
  induction ws with
  | nil => intro room _ _; rfl
  | cons w ws ih =>
      intro room hroom hws
      obtain ⟨i, hi, name, hname, hoff⟩ := hws w List.mem_cons_self
      have hplace : w.offset.toNat = i.offset + 1 := by omega
      have hbytes : (Image.bigEndian w.address.toNat).length = 4 := rfl
      have hfirst : w.apply (slots room items).toArray
          = (slots (setRoom room w.offset.toNat (Image.bigEndian w.address.toNat))
              items).toArray := by
        rw [Write.apply, hplace]
        exact overwrite_slots hroom hbytes hname [] hlaid rfl hi
      rw [Write.applyAll, List.foldl_cons, hfirst, rooms_cons]
      refine ih _ (fun k => ?_) fun w' hw' => hws w' (List.mem_cons_of_mem _ hw')
      unfold setRoom
      split
      · rfl
      · exact hroom k

/-- A room holds what the writes into it agree on. -/
theorem rooms_eq {k : Nat} {x : List UInt8} (ws : List Write) : ∀ room : Nat → List UInt8,
    (∀ w ∈ ws, w.offset.toNat = k → Image.bigEndian w.address.toNat = x) →
    ((∃ w ∈ ws, w.offset.toNat = k) ∨ room k = x) → rooms room ws k = x := by
  induction ws with
  | nil =>
      intro room _ hex
      rcases hex with ⟨w, hw, -⟩ | h
      · cases hw
      · exact h
  | cons w ws ih =>
      intro room hagree hex
      rw [rooms_cons]
      -- the room holds the value after this write, or a later one is still to come
      refine ih _ (fun w' hw' => hagree w' (List.mem_cons_of_mem _ hw')) ?_
      by_cases hk : k = w.offset.toNat
      · right
        rw [setRoom, if_pos hk]
        exact hagree w List.mem_cons_self hk.symm
      · rcases hex with ⟨w', hw', hk'⟩ | h
        · rcases List.mem_cons.mp hw' with rfl | hmem
          · exact absurd hk'.symm hk
          · exact Or.inl ⟨w', hmem, hk'⟩
        · right
          rw [setRoom, if_neg hk]
          exact h

/-! ## What the writes put into the rooms -/

namespace Draft

/-- A name has one definition. -/
theorem Sound.definition_unique {d : Draft} (h : d.Sound) {x y : Definition}
    (hx : x ∈ d.labels.definitions) (hy : y ∈ d.labels.definitions) (hname : x.name = y.name) :
    x = y := by
  have hne : d.labels.definitions.Pairwise fun x y => x.name ≠ y.name :=
    List.pairwise_map.mp h.unique
  rcases pairwise_of_mem hne hx hy with heq | hlt | hlt
  · exact heq
  · exact absurd hname hlt
  · exact absurd hname.symm hlt

/-- An offset is the room of one reference. -/
theorem Sound.reference_unique {d : Draft} (h : d.Sound) {a b : Reference}
    (ha : a ∈ d.labels.references) (hb : b ∈ d.labels.references) (hoff : a.offset = b.offset) :
    a = b := by
  rcases pairwise_of_mem h.apart ha hb with heq | hlt | hlt
  · exact heq
  · omega
  · omega

/-- The items that define a name all lie at one offset. -/
theorem Sound.offset_unique {items : List Item} (h : (Draft.empty.addAll items).Sound)
    {i j : Item} (hi : i ∈ items) (hj : j ∈ items) {name : String}
    (hiname : i.token.defines? = some name) (hjname : j.token.defines? = some name) :
    i.offset = j.offset := by
  have hsame := h.definition_unique (definition_mem_addAll hi hiname)
    (definition_mem_addAll hj hjname) rfl
  exact Int.ofNat.inj (Definition.mk.inj hsame).2.1

end Draft

/-- The bytes for a label are those of the address where it is defined. -/
theorem addressBytes_of_defines {items : List Item} (hsound : (Draft.empty.addAll items).Sound)
    (hlen : (Draft.empty.addAll items).image.size = TwoPass.length items)
    (hsize : TwoPass.length items ≤ addressSpace) {i : Item} (hi : i ∈ items) {name : String}
    (hname : i.token.defines? = some name) :
    (TwoPass.addressBytes items name).length = 4
      ∧ (Image.ofBigEndian (TwoPass.addressBytes items name) : Int)
          = TwoPass.address items i.offset := by
  unfold TwoPass.addressBytes
  cases hfind : items.find? fun i => i.token.defines? == some name with
  | none => exact absurd (beq_iff_eq.mpr hname) (List.find?_eq_none.mp hfind i hi)
  | some j =>
      have hj := List.mem_of_find?_eq_some hfind
      have hjname : j.token.defines? = some name := by simpa using List.find?_some hfind
      have hoff := hsound.offset_unique hi hj hname hjname
      -- the label lies in the image, so its address lies in memory
      have hplaced := (hsound.placed _ (Draft.definition_mem_addAll hj hjname)).2
      rw [hlen] at hplaced
      dsimp only at hplaced ⊢
      unfold TwoPass.address
      unfold addressSpace at hsize ⊢
      refine ⟨rfl, ?_⟩
      rw [Image.ofBigEndian_bigEndian (by omega), hoff]
      omega

/-- **In the end every room holds what two passes put there.** -/
theorem rooms_final {items : List Item} (hsound : (Draft.empty.addAll items).Sound)
    {i : Item} (hi : i ∈ items) {name : String} (hname : i.token = .reference name) :
    rooms (fun _ => Image.bigEndian 0)
        ((Draft.empty.addAll items).labels.writes (TwoPass.length items)) (i.offset + 1)
      = TwoPass.addressBytes items name := by
  have hsite := Draft.reference_mem_addAll hi (Token.refersTo?_eq_some.mpr hname)
  -- whatever is written into this room is the address of a label with this name
  have hwrites : ∀ w ∈ (Draft.empty.addAll items).labels.writes (TwoPass.length items),
      w.offset.toNat = i.offset + 1 → ∃ j ∈ items, j.token.defines? = some name
        ∧ w.address = TwoPass.address items j.offset := by
    intro w hw hoff
    obtain ⟨x, hx, r, hr, hrx, rfl⟩ := Labels.mem_writes.mp hw
    have hpos := (hsound.inside r hr).1
    have heq := hsound.reference_unique hr hsite (by simp only at hoff ⊢; omega)
    obtain ⟨j, hj, hjx⟩ := Draft.mem_definitions_addAll.mp hx
    obtain ⟨name', hname', rfl⟩ := Option.map_eq_some_iff.mp hjx
    have hnn : name' = name := by
      rw [heq] at hrx
      exact hrx.symm
    rw [hnn] at hname'
    exact ⟨j, hj, hname', rfl⟩
  unfold TwoPass.addressBytes
  cases hfind : items.find? fun i => i.token.defines? == some name with
  | none =>
      -- no label has the name, so the zeros stay
      refine rooms_eq _ _ (fun w hw hoff => ?_) (Or.inr rfl)
      obtain ⟨j, hj, hjname, -⟩ := hwrites w hw hoff
      exact absurd (beq_iff_eq.mpr hjname) (List.find?_eq_none.mp hfind j hj)
  | some j =>
      have hj := List.mem_of_find?_eq_some hfind
      have hjname : j.token.defines? = some name := by simpa using List.find?_some hfind
      have hdef := Draft.definition_mem_addAll hj hjname
      refine rooms_eq _ _ (fun w hw hoff => ?_) (Or.inl ?_)
      · obtain ⟨j', hj', hjname', haddr⟩ := hwrites w hw hoff
        rw [haddr, hsound.offset_unique hj' hj hjname' hjname]
      · refine ⟨_, Labels.mem_writes.mpr ⟨_, hdef, _, hsite, rfl, rfl⟩, ?_⟩
        simp only
        omega

/-- **The overwritten image is the image of two passes.** -/
theorem toList_applyAll {items : List Item} (hlaid : Laid 0 items)
    (hsound : (Draft.empty.addAll items).Sound) :
    (Write.applyAll (Draft.empty.addAll items).image
        ((Draft.empty.addAll items).labels.writes (TwoPass.length items))).toList
      = TwoPass.image items := by
  have hdraft : (Draft.empty.addAll items).image
      = (slots (fun _ => Image.bigEndian 0) items).toArray :=
    Array.ext' (by rw [Draft.toList_image_addAll]; rfl)
  rw [hdraft, applyAll_slots hlaid _ _ (fun _ => rfl)]
  · refine List.flatMap_congr fun i hi => Token.emit_congr fun name hname => ?_
    exact rooms_final hsound hi (Token.refersTo?_eq_some.mp hname)
  · intro w hw
    obtain ⟨x, hx, r, hr, -, rfl⟩ := Labels.mem_writes.mp hw
    obtain ⟨i, hi, hir⟩ := Draft.mem_references_addAll.mp hr
    obtain ⟨name, hname, rfl⟩ := Option.map_eq_some_iff.mp hir
    exact ⟨i, hi, name, Token.refersTo?_eq_some.mp hname, rfl⟩

/-! ## Symbols and warnings -/

theorem isUnused_addAll (items : List Item) (x : Definition) :
    (Draft.empty.addAll items).labels.isUnused x = !TwoPass.mentions items x.name := by
  rw [Bool.eq_iff_iff]
  unfold Labels.isUnused Labels.sites TwoPass.mentions
  simp only [List.isEmpty_iff, List.filter_eq_nil_iff, beq_iff_eq, Bool.not_eq_true',
    List.any_eq_false]
  constructor
  · intro h i hi hname
    exact h _ (Draft.reference_mem_addAll hi hname) rfl
  · intro h r hr hname
    obtain ⟨i, hi, hir⟩ := Draft.mem_references_addAll.mp hr
    obtain ⟨name, hin, rfl⟩ := Option.map_eq_some_iff.mp hir
    exact h i hi (by rw [hin]; exact congrArg some hname)

theorem addresses_addAll (items : List Item) :
    (Draft.empty.addAll items).labels.addresses (TwoPass.length items)
      = TwoPass.symbols items := by
  unfold Labels.addresses TwoPass.symbols
  rw [Draft.definitions_addAll]
  show ([] ++ _).map _ = _
  rw [List.nil_append, List.map_filterMap]
  refine List.filterMap_congr fun i _ => ?_
  rw [Item.definition?, Option.map_map]
  rfl

theorem unusedWarning_located (name : String) (offset : Int) (place : Location) :
    Definition.unusedWarning ⟨name, offset, some place⟩
      = place.text ++ ": warning: label '" ++ name ++ "' is unused" := by
  have hopen : ": warning: label " ++ "'" = ": warning: label '" := by decide
  have hclose : "'" ++ " is unused" = "' is unused" := by decide
  rw [← hopen, ← hclose]
  simp only [Definition.unusedWarning, Location.textOf, inQuotes, RawText.ofString_append,
    List.append_assoc]

theorem warnings_addAll (items : List Item) :
    (Draft.empty.addAll items).labels.unused.map Definition.unusedWarning
      = TwoPass.warnings items := by
  unfold Labels.unused TwoPass.warnings
  rw [Draft.definitions_addAll]
  show (([] ++ _).filter _).map _ = _
  rw [List.nil_append, List.filter_filterMap, List.map_filterMap]
  refine List.filterMap_congr fun i _ => ?_
  unfold Item.definition?
  cases i.token.defines? with
  | none => rfl
  | some name =>
      simp only [Option.map_some, Option.bind_some, Option.filter_some, isUnused_addAll]
      by_cases hm : TwoPass.mentions items name = true
      · simp [hm]
      · simp [hm, unusedWarning_located]

/--
**One pass with backpatching equals two passes.** Whatever source is assembled without strict mode,
it has one sequence of lexemes; the image, the addresses of the labels and the warnings are those
that the two-pass assembler makes of these, and the four bytes of a label are its address.
-/
theorem generate_eq_twoPass {file : RawText} {source : List UInt8} {p p' : Pass} {image : Image}
    (hstart : Pass.start file (.ofBytes source) false addressSpace = .ok p)
    (hgen : p.generate = .ok image p') :
    ∃ lexemes, (∀ xs, Splits source xs ↔ xs = lexemes)
      ∧ (definedNames lexemes).Nodup
      ∧ image.size = TwoPass.length (layOut file [] 0 lexemes)
      ∧ image.toList = TwoPass.image (layOut file [] 0 lexemes)
      ∧ (∀ i ∈ layOut file [] 0 lexemes, ∀ name, i.token.defines? = some name →
          (TwoPass.addressBytes (layOut file [] 0 lexemes) name).length = 4
          ∧ (Image.ofBigEndian (TwoPass.addressBytes (layOut file [] 0 lexemes) name) : Int)
            = TwoPass.address (layOut file [] 0 lexemes) i.offset)
      ∧ p'.symbols = TwoPass.symbols (layOut file [] 0 lexemes)
      ∧ p'.unused.map Definition.unusedWarning = TwoPass.warnings (layOut file [] 0 lexemes) := by
  rw [Pass.start_ofBytes] at hstart
  cases hstart
  obtain ⟨lexemes, hsplits, hnames, hsize⟩ := Pass.splits_of_generate hgen
  obtain ⟨p₁, hgen₁, hlabels, hlen, hunused⟩ := Pass.generate_of_splits file hsplits hnames hsize
    fun hstrict : false = true => Bool.noConfusion hstrict
  rw [hgen] at hgen₁
  cases hgen₁
  have hlaid := laid_layOut file lexemes [] 0
  have hsound := Pass.sound_draftOf file hsplits hnames
  have htotal := length_layOut file lexemes [] 0
  rw [← htotal] at hlen
  refine ⟨lexemes, fun xs => ⟨fun hxs => splits_unique hxs hsplits, fun h => h ▸ hsplits⟩,
    hnames, ?_, ?_, ?_, ?_, ?_⟩
  · rw [Write.size_applyAll, size_draftOf, htotal]
  · rw [← htotal]
    exact toList_applyAll hlaid hsound
  · intro i hi name hname
    exact addressBytes_of_defines hsound (by rw [htotal]; exact size_draftOf file lexemes)
      (by rw [htotal]; exact hsize) hi hname
  · unfold Pass.symbols
    rw [hlabels, hlen]
    exact addresses_addAll _
  · rw [hunused]
    exact warnings_addAll _

/-- A label met before and behind its definition, one that is never defined, and an unused one. -/
theorem generate_eq_twoPass_crossing :
    ∃ p image p',
      Pass.start "" (.ofBytes (Source.bytesOf ";b @a ;c @b ;b")) false addressSpace = .ok p
      ∧ p.generate = .ok image p'
      ∧ image.toList
          = [0x60, 0x00, 0x7F, 0xFF, 0xFB, 0x60, 0, 0, 0, 0, 0x60, 0x00, 0x7F, 0xFF, 0xFB]
      ∧ ∃ lexemes, Splits (Source.bytesOf ";b @a ;c @b ;b") lexemes
        ∧ image.toList = TwoPass.image (layOut "" [] 0 lexemes)
        ∧ p'.symbols = TwoPass.symbols (layOut "" [] 0 lexemes)
        ∧ p'.unused.map Definition.unusedWarning = TwoPass.warnings (layOut "" [] 0 lexemes) := by
  have hstart := Pass.start_ofBytes "" (Source.bytesOf ";b @a ;c @b ;b") false
  have hrun : (match (Pass.fresh "" (Source.bytesOf ";b @a ;c @b ;b") false).generate with
      | .ok image _ => some image.toList
      | .error _ _ => none)
      = some [0x60, 0x00, 0x7F, 0xFF, 0xFB, 0x60, 0, 0, 0, 0, 0x60, 0x00, 0x7F, 0xFF, 0xFB] := by
    decide +kernel
  cases hgen : (Pass.fresh "" (Source.bytesOf ";b @a ;c @b ;b") false).generate with
  | error e p' =>
      rw [hgen] at hrun
      cases hrun
  | ok image p' =>
      rw [hgen] at hrun
      obtain ⟨lexemes, hsplits, -, -, himage, -, hsymbols, hwarnings⟩ :=
        generate_eq_twoPass hstart hgen
      exact ⟨_, image, p', hstart, hgen, Option.some.inj hrun, lexemes, (hsplits lexemes).mpr rfl,
        himage, hsymbols, hwarnings⟩

end RomKit
