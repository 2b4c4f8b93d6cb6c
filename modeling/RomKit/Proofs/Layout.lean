import RomKit.Assembly.Pass
import RomKit.Proofs.Grammar
import RomKit.Proofs.Reading

/-!
# Where tokens are put

A token that is put down becomes an item: it starts at an offset of the image
and at a place of the source. This module says once what putting down an item
does to a draft (`Draft.add`), so that nothing later looks into `Draft.put`: the
image grows by what the token emits, and a label is recorded or nothing is.

The only token that cannot be put down is a second definition of a name
(`put_cases`).
-/

namespace RomKit

namespace Token

/-- The number of bytes that a token takes in the image. -/
def size : Token → Nat
  | .blank _ | .comment _ | .definition _ => 0
  | .reference _ => 5
  | .string bytes | .data bytes => bytes.length
  | .literal payload => 1 + payload.length
  | .instruction _ => 1

/-- The number of bytes that tokens take together. -/
def sizeOfAll : List Token → Nat
  | [] => 0
  | t :: ts => t.size + sizeOfAll ts

/-- The bytes that a token stands for, given the four bytes of the address of each label. -/
def emit (address : String → List UInt8) : Token → List UInt8
  | .blank _ | .comment _ | .definition _ => []
  | .reference name => 0x60 :: address name
  | .string bytes | .data bytes => bytes
  | .literal payload => (⟨.lit, false, .ofLength payload.length⟩ : Instruction).control :: payload
  | .instruction i => [i.control]

/-- The name that a token defines. -/
def defines? : Token → Option String
  | .definition name => some name
  | _ => none

/-- The name that a token refers to. -/
def refersTo? : Token → Option String
  | .reference name => some name
  | _ => none

theorem defines?_eq_some {t : Token} {name : String} :
    t.defines? = some name ↔ t = .definition name := by
  cases t <;> simp [defines?]

theorem refersTo?_eq_some {t : Token} {name : String} :
    t.refersTo? = some name ↔ t = .reference name := by
  cases t <;> simp [refersTo?]

theorem length_emit {address : String → List UInt8} (h : ∀ name, (address name).length = 4)
    (t : Token) : (t.emit address).length = t.size := by
  cases t with
  | literal payload => simp [emit, size]; omega
  | reference name => simp [emit, size, h]
  | _ => rfl

end Token

/-- Zeros in place of an address that is not known yet. -/
def noAddress (_ : String) : List UInt8 :=
  Image.bigEndian 0

theorem length_noAddress (name : String) : (noAddress name).length = 4 := rfl

/-- A token at an offset of the image and a place of the source. -/
structure Item where
  token : Token
  offset : Nat
  place : Location
deriving DecidableEq, Repr

namespace Item

/-- The definition that an item records. -/
def definition? (i : Item) : Option Definition :=
  i.token.defines?.map fun name => ⟨name, i.offset, some i.place⟩

/-- The reference that an item records: its address stands after the control byte. -/
def reference? (i : Item) : Option Reference :=
  i.token.refersTo?.map fun name => ⟨name, i.offset + 1, some i.place⟩

/-- What is told about an item. -/
def event? (i : Item) : Option Event :=
  i.token.defines?.map fun name => .labelDefined name i.offset

end Item

namespace Draft

/-- The draft after an item is put down. -/
def add (d : Draft) (i : Item) : Draft where
  image := d.image ++ i.token.emit noAddress
  labels :=
    { definitions := d.labels.definitions ++ i.definition?.toList
      references := d.labels.references ++ i.reference?.toList }
  log := d.log ++ i.event?.toList

/-- The draft after several items are put down. -/
def addAll (d : Draft) (items : List Item) : Draft :=
  items.foldl add d

/-- The names that are defined. -/
def names (d : Draft) : List String :=
  d.labels.definitions.map Definition.name

theorem find?_eq_none_iff {d : Draft} {name : String} :
    d.labels.find? name = none ↔ name ∉ d.names := by
  unfold Labels.find? names
  rw [List.find?_eq_none]
  simp only [beq_iff_eq, List.mem_map, not_exists, not_and]

theorem control_reference : (pushOf (Image.bigEndian 0).length).control = 0x60 := rfl

/-- A token that defines no known name is put down. -/
theorem put_of_fresh {d : Draft} {t : Token} (start : Location)
    (h : ∀ name, t.defines? = some name → name ∉ d.names) :
    d.put start t = .ok () (d.add ⟨t, d.image.size, start⟩) := by
  cases t with
  | definition name =>
      have hfind : d.labels.find? name = none := find?_eq_none_iff.mpr (h name rfl)
      unfold put
      dsimp only
      rw [Labels.define_of_new hfind]
      simp [add, Token.emit, Item.definition?, Item.reference?, Item.event?, Token.defines?,
        Token.refersTo?]
  | reference name =>
      simp [put, appendPush, append, add, Token.emit, Item.definition?, Item.reference?,
        Item.event?, Token.defines?, Token.refersTo?, Labels.refer, control_reference,
        noAddress]
  | literal payload =>
      simp [put, appendPush, append, add, Token.emit, Item.definition?, Item.reference?,
        Item.event?, Token.defines?, Token.refersTo?, pushOf]
  | _ =>
      simp [put, append, add, Token.emit, Item.definition?, Item.reference?, Item.event?,
        Token.defines?, Token.refersTo?]

/-- A second definition of a name is refused, and the draft stays as it is. -/
theorem put_of_known {d : Draft} {t : Token} {name : String} {first : Definition}
    (start : Location) (ht : t.defines? = some name) (hfind : d.labels.find? name = some first) :
    d.put start t = .error ⟨.duplicateLabel name first.location, some start⟩ d := by
  cases t with
  | definition name' =>
      cases ht
      unfold put
      dsimp only
      rw [Labels.define_of_known hfind]
  | _ => cases ht

/-- **A token is put down unless it defines a name again.** -/
theorem put_cases (d : Draft) (start : Location) (t : Token) :
    (∀ name, t.defines? = some name → name ∉ d.names)
        ∧ d.put start t = .ok () (d.add ⟨t, d.image.size, start⟩)
      ∨ ∃ name first, t.defines? = some name ∧ d.labels.find? name = some first
        ∧ d.put start t = .error ⟨.duplicateLabel name first.location, some start⟩ d := by
  by_cases hfresh : ∀ name, t.defines? = some name → name ∉ d.names
  · exact Or.inl ⟨hfresh, put_of_fresh start hfresh⟩
  · right
    simp only [Classical.not_forall, Classical.not_not] at hfresh
    obtain ⟨name, ht, hmem⟩ := hfresh
    cases hfind : d.labels.find? name with
    | none => exact absurd hmem (find?_eq_none_iff.mp hfind)
    | some first => exact ⟨name, first, ht, hfind, put_of_known start ht hfind⟩

/-! ## Several items -/

theorem toList_image_add (d : Draft) (i : Item) :
    (d.add i).image.toList = d.image.toList ++ i.token.emit noAddress :=
  Array.toList_appendList

theorem size_add (d : Draft) (i : Item) :
    (d.add i).image.size = d.image.size + i.token.size := by
  rw [← Array.length_toList, toList_image_add, List.length_append,
    Token.length_emit length_noAddress, Array.length_toList]

theorem toList_image_addAll (items : List Item) : ∀ d : Draft,
    (d.addAll items).image.toList
      = d.image.toList ++ items.flatMap fun i => i.token.emit noAddress := by
  induction items with
  | nil => intro d; simp [addAll]
  | cons i items ih =>
      intro d
      show ((d.add i).addAll items).image.toList = _
      rw [ih, toList_image_add, List.append_assoc, List.flatMap_cons]

theorem definitions_addAll (items : List Item) : ∀ d : Draft,
    (d.addAll items).labels.definitions
      = d.labels.definitions ++ items.filterMap Item.definition? := by
  induction items with
  | nil => intro d; simp [addAll]
  | cons i items ih =>
      intro d
      show ((d.add i).addAll items).labels.definitions = _
      rw [ih]
      cases hi : i.definition? with
      | none => simp [add, hi]
      | some x => simp [add, hi]

theorem references_addAll (items : List Item) : ∀ d : Draft,
    (d.addAll items).labels.references
      = d.labels.references ++ items.filterMap Item.reference? := by
  induction items with
  | nil => intro d; simp [addAll]
  | cons i items ih =>
      intro d
      show ((d.add i).addAll items).labels.references = _
      rw [ih]
      cases hi : i.reference? with
      | none => simp [add, hi]
      | some x => simp [add, hi]

theorem mem_references_addAll {items : List Item} {r : Reference} :
    r ∈ (Draft.empty.addAll items).labels.references ↔ ∃ i ∈ items, i.reference? = some r := by
  rw [references_addAll]
  show r ∈ [] ++ _ ↔ _
  rw [List.nil_append, List.mem_filterMap]

theorem mem_definitions_addAll {items : List Item} {x : Definition} :
    x ∈ (Draft.empty.addAll items).labels.definitions
      ↔ ∃ i ∈ items, i.definition? = some x := by
  rw [definitions_addAll]
  show x ∈ [] ++ _ ↔ _
  rw [List.nil_append, List.mem_filterMap]

theorem reference_mem_addAll {items : List Item} {i : Item} (hi : i ∈ items) {name : String}
    (hname : i.token.refersTo? = some name) :
    ⟨name, i.offset + 1, some i.place⟩ ∈ (Draft.empty.addAll items).labels.references := by
  refine mem_references_addAll.mpr ⟨i, hi, ?_⟩
  rw [Item.reference?, hname]
  rfl

theorem definition_mem_addAll {items : List Item} {i : Item} (hi : i ∈ items) {name : String}
    (hname : i.token.defines? = some name) :
    ⟨name, i.offset, some i.place⟩ ∈ (Draft.empty.addAll items).labels.definitions := by
  refine mem_definitions_addAll.mpr ⟨i, hi, ?_⟩
  rw [Item.definition?, hname]
  rfl

theorem names_add (d : Draft) (i : Item) :
    (d.add i).names = d.names ++ i.token.defines?.toList := by
  unfold names add Item.definition?
  cases i.token.defines? with
  | none => simp
  | some name => simp

theorem names_addAll (items : List Item) : ∀ d : Draft,
    (d.addAll items).names = d.names ++ items.filterMap fun i => i.token.defines? := by
  induction items with
  | nil => intro d; simp [addAll]
  | cons i items ih =>
      intro d
      show ((d.add i).addAll items).names = _
      rw [ih, names_add]
      cases hi : i.token.defines? with
      | none => simp [hi]
      | some name => simp [hi]

theorem nodup_names_add {d : Draft} {i : Item} (h : d.names.Nodup)
    (hfresh : ∀ name, i.token.defines? = some name → name ∉ d.names) :
    (d.add i).names.Nodup := by
  rw [names_add, List.nodup_append]
  refine ⟨h, ?_, ?_⟩
  · cases i.token.defines? with
    | none => exact List.Pairwise.nil
    | some name => exact List.pairwise_singleton _ _
  · intro a ha b hb hab
    exact hfresh b (Option.mem_toList.mp hb) (hab ▸ ha)

/-- A name that is defined again would stand in the list of names twice. -/
theorem fresh_of_nodup {d : Draft} {t : Token} {later : List String}
    (h : (d.names ++ t.defines?.toList ++ later).Nodup) :
    ∀ name, t.defines? = some name → name ∉ d.names := by
  intro name hname hmem
  exact (List.nodup_append.mp (List.nodup_append.mp h).1).2.2 name hmem name
    (Option.mem_toList.mpr hname) rfl

end Draft

/-! ## The items of a source -/

/-- The items of lexemes that stand after the bytes `before`, from an offset on. -/
def layOut (file : RawText) (before : List UInt8) (offset : Nat) : List Lexeme → List Item
  | [] => []
  | x :: xs =>
    ⟨x.token, offset, Source.placeAfter file before⟩
      :: layOut file (before ++ x.text) (offset + x.token.size) xs

theorem map_token_layOut (file : RawText) (lexemes : List Lexeme) :
    ∀ (before : List UInt8) (offset : Nat),
      (layOut file before offset lexemes).map Item.token = lexemes.map Lexeme.token := by
  induction lexemes with
  | nil => intro before offset; rfl
  | cons x xs ih => intro before offset; exact congrArg (x.token :: ·) (ih _ _)

/-- An item of some lexemes stands for one of them, at the place where its text begins. -/
theorem exists_lexeme_of_mem_layOut {file : RawText} {lexemes : List Lexeme} {i : Item} :
    ∀ {before : List UInt8} {offset : Nat}, i ∈ layOut file before offset lexemes →
      ∃ earlier x later, lexemes = earlier ++ x :: later ∧ i.token = x.token
        ∧ i.place = Source.placeAfter file (before ++ earlier.flatMap Lexeme.text) := by
  induction lexemes with
  | nil => intro before offset h; cases h
  | cons y ys ih =>
      intro before offset h
      rcases List.mem_cons.mp h with rfl | hmem
      · refine ⟨[], y, ys, rfl, rfl, ?_⟩
        rw [List.flatMap_nil, List.append_nil]
      · obtain ⟨earlier, x, later, rfl, htoken, hplace⟩ := ih hmem
        refine ⟨y :: earlier, x, later, rfl, htoken, ?_⟩
        rw [List.flatMap_cons, ← List.append_assoc]
        exact hplace

/-- The names that lexemes define. -/
def definedNames (lexemes : List Lexeme) : List String :=
  lexemes.filterMap fun x => x.token.defines?

theorem definedNames_cons (x : Lexeme) (xs : List Lexeme) :
    definedNames (x :: xs) = x.token.defines?.toList ++ definedNames xs := by
  unfold definedNames
  cases hx : x.token.defines? with
  | none => simp [hx]
  | some name => simp [hx]

theorem definedNames_append (xs ys : List Lexeme) :
    definedNames (xs ++ ys) = definedNames xs ++ definedNames ys :=
  List.filterMap_append

/-- The number of bytes that lexemes take in the image. -/
def totalSize (lexemes : List Lexeme) : Nat :=
  Token.sizeOfAll (lexemes.map Lexeme.token)

theorem totalSize_cons (x : Lexeme) (xs : List Lexeme) :
    totalSize (x :: xs) = x.token.size + totalSize xs := rfl

theorem totalSize_append (xs ys : List Lexeme) :
    totalSize (xs ++ ys) = totalSize xs + totalSize ys := by
  induction xs with
  | nil => exact (Nat.zero_add _).symm
  | cons x xs ih => rw [List.cons_append, totalSize_cons, totalSize_cons, ih, Nat.add_assoc]

/-- Lexemes behind others are laid out where these end, in the image and in the source. -/
theorem layOut_append (file : RawText) (xs ys : List Lexeme) :
    ∀ (before : List UInt8) (offset : Nat),
      layOut file before offset (xs ++ ys) = layOut file before offset xs
        ++ layOut file (before ++ xs.flatMap Lexeme.text) (offset + totalSize xs) ys := by
  induction xs with
  | nil => intro before offset; simp [layOut, totalSize, Token.sizeOfAll]
  | cons x xs ih =>
      intro before offset
      rw [List.cons_append, layOut, layOut, ih, totalSize_cons, List.flatMap_cons,
        List.append_assoc, Nat.add_assoc, List.cons_append]

/-- The draft of lexemes that have all been put down. -/
def draftOf (file : RawText) (lexemes : List Lexeme) : Draft :=
  Draft.empty.addAll (layOut file [] 0 lexemes)

theorem image_draftOf (file : RawText) (lexemes : List Lexeme) :
    (draftOf file lexemes).image
      = (lexemes.flatMap fun x => x.token.emit noAddress).toArray := by
  have hmap := congrArg (fun ts => ts.flatMap (Token.emit noAddress))
    (map_token_layOut file lexemes [] 0)
  refine Array.ext' ?_
  rw [draftOf, Draft.toList_image_addAll]
  simpa [List.flatMap_map, Draft.empty] using hmap

theorem names_draftOf (file : RawText) (lexemes : List Lexeme) :
    (draftOf file lexemes).names = definedNames lexemes := by
  have hmap := congrArg (fun ts => ts.filterMap Token.defines?) (map_token_layOut file lexemes [] 0)
  simp only [List.filterMap_map] at hmap
  rw [draftOf, Draft.names_addAll]
  exact hmap

theorem size_draftOf (file : RawText) (lexemes : List Lexeme) :
    (draftOf file lexemes).image.size = totalSize lexemes := by
  rw [image_draftOf, List.size_toArray]
  induction lexemes with
  | nil => rfl
  | cons x xs ih =>
      rw [List.flatMap_cons, List.length_append, Token.length_emit length_noAddress, ih]
      rfl

end RomKit
