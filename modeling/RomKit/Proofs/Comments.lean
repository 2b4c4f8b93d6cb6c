import Mathlib.Data.List.Nodup
import RomKit.Listing.Entry
import RomKit.Proofs.Builds

/-!
# What comments tell

A comment marks the address of an entry with its name and shows the name of the
address that the entry pushes. Names of labels contain neither blanks nor marks, so
a comment can be read in one way only (`markedWith_unique`), and it is marked with
the name of the address if there is one (`markedWith_ofCode`).

With the symbols of an image at hand, an address has the name of the label that lies
there, provided that no two labels share an address (`name?_insertSymbols`).
-/

namespace RomKit

open Source Token

/-! ## Names of labels -/

/-- A name that nothing in a comment can be mistaken for. -/
structure LabelName (name : String) : Prop where
  nonempty : name ≠ ""
  unmarked : '@' ∉ name.toList
  unbroken : ' ' ∉ name.toList

theorem exists_byte_of_mem_textOf {bytes rest : List UInt8} (h : Source.Run isSymbol bytes rest)
    {c : Char} (hc : c ∈ (textOf bytes).toList) :
    ∃ b : UInt8, isSymbol b = true ∧ c.toNat = b.toNat := by
  rw [textOf, String.toList_ofList] at hc
  obtain ⟨b, hb, rfl⟩ := List.mem_map.mp hc
  exact ⟨b, h.inside b hb, toNat_charOf b⟩

theorem labelName_textOf {bytes rest : List UInt8} (h : Source.Run isSymbol bytes rest) :
    LabelName (textOf bytes) := by
  have habsent : ∀ c : Char, isSymbol (UInt8.ofNat c.toNat) = false →
      c ∉ (textOf bytes).toList := by
    intro c hno hc
    obtain ⟨b, hb, hcb⟩ := exists_byte_of_mem_textOf h hc
    rw [hcb, UInt8.ofNat_toNat, hb] at hno
    cases hno
  refine ⟨?_, habsent '@' (by decide), habsent ' ' (by decide)⟩
  intro hempty
  have hlist := congrArg String.toList hempty
  rw [textOf, String.toList_ofList] at hlist
  exact h.nonempty (List.map_eq_nil_iff.mp hlist)

/-- A label is spelled by a run of symbol bytes. -/
theorem Splits.exists_run_of_definition {source : List UInt8} {xs : List Lexeme}
    (h : Splits source xs) {x : Lexeme} (hx : x ∈ xs) {name : String}
    (hname : x.token = .definition name) :
    ∃ bytes rest, Source.Run isSymbol bytes rest ∧ name = textOf bytes := by
  induction h with
  | nil => cases hx
  | cons hspells _ ih =>
      rcases List.mem_cons.mp hx with rfl | hmem
      · cases hname
        cases hspells with
        | definition hrun => exact ⟨_, _, hrun, rfl⟩
      · exact ih hmem

theorem Splits.labelName {source : List UInt8} {xs : List Lexeme} (h : Splits source xs)
    {x : Lexeme} (hx : x ∈ xs) {name : String} (hname : x.token = .definition name) :
    LabelName name := by
  obtain ⟨bytes, rest, hrun, rfl⟩ := h.exists_run_of_definition hx hname
  exact labelName_textOf hrun

/-! ## Names of addresses -/

namespace SymbolMap

theorem entries_insertAll (pairs : List (Int × String)) : ∀ m : SymbolMap,
    (m.insertAll pairs).entries = pairs.reverse ++ m.entries := by
  induction pairs with
  | nil => intro m; rfl
  | cons p pairs ih =>
      intro m
      show ((m.insert p.1 p.2).insertAll pairs).entries = _
      rw [ih, List.reverse_cons, List.append_assoc]
      rfl

/-- **An address has the name of the label that lies there.** -/
theorem name?_insertSymbols {symbols : List (String × Int)}
    (hdistinct : (symbols.map Prod.snd).Nodup) (hnames : ∀ s ∈ symbols, s.1 ≠ "")
    {a : Int} {name : String} :
    (empty.insertSymbols symbols).name? a = some name ↔ (name, a) ∈ symbols := by
  have hentries : (empty.insertSymbols symbols).entries
      = (symbols.map fun p => (p.2, p.1)).reverse := by
    rw [insertSymbols, entries_insertAll]
    exact List.append_nil _
  have hkeys : ((empty.insertSymbols symbols).entries.map Prod.fst).Nodup := by
    rw [hentries, List.map_reverse, List.nodup_reverse, List.map_map]
    exact hdistinct
  have hmem : ∀ n, (a, n) ∈ (empty.insertSymbols symbols).entries ↔ (n, a) ∈ symbols := by
    intro n
    rw [hentries, List.mem_reverse, List.mem_map]
    constructor
    · rintro ⟨s, hs, heq⟩
      cases heq
      exact hs
    · intro hs
      exact ⟨_, hs, rfl⟩
  unfold name?
  cases hlookup : (empty.insertSymbols symbols).entries.lookup a with
  | none =>
      constructor
      · intro h
        cases h
      · intro hs
        rw [(lookup_eq_some_iff_mem hkeys).mpr ((hmem name).mpr hs)] at hlookup
        cases hlookup
  | some n =>
      have hn := (hmem n).mp ((lookup_eq_some_iff_mem hkeys).mp hlookup)
      have hne : n.isEmpty = false := String.isEmpty_eq_false_iff.mpr (hnames _ hn)
      dsimp only
      rw [hne, if_neg (by decide)]
      constructor
      · intro h
        cases h
        exact hn
      · intro hs
        rw [(lookup_eq_some_iff_mem hkeys).mpr ((hmem name).mpr hs)] at hlookup
        exact hlookup.symm

end SymbolMap

/-! ## Comments -/

/-- A comment marks an address with a name, and may show a target behind it. -/
def MarkedWith (comment name : String) : Prop :=
  comment = "@" ++ name ∨ ∃ target, comment = "@" ++ name ++ " -> " ++ target

/-- A comment shows the name of a target, and may mark the address before it. -/
def PointsAt (comment name : String) : Prop :=
  comment = name ∨ ∃ label, comment = "@" ++ label ++ " -> " ++ name

theorem MarkedWith.mem {comment name : String} (h : MarkedWith comment name) :
    '@' ∈ comment.toList := by
  rcases h with rfl | ⟨target, rfl⟩ <;> simp [String.toList_append]

/-- The name in a comment ends at the first blank. -/
theorem MarkedWith.takeWhile {comment name : String} (h : MarkedWith comment name)
    (hname : ' ' ∉ name.toList) :
    (comment.toList.drop 1).takeWhile (fun c => c != ' ') = name.toList := by
  have hall : ∀ c ∈ name.toList, (c != ' ') = true :=
    fun c hc => bne_iff_ne.mpr fun heq => hname (heq ▸ hc)
  rcases h with rfl | ⟨target, rfl⟩
  · have hlist : ("@" ++ name).toList = '@' :: name.toList := String.toList_append
    rw [hlist, List.drop_one, List.tail_cons, ← List.append_nil name.toList,
      List.takeWhile_append_of_pos hall]
    rfl
  · have hlist : ("@" ++ name ++ " -> " ++ target).toList
        = '@' :: (name.toList ++ ' ' :: ("-> " ++ target).toList) := by
      simp [String.toList_append]
    rw [hlist, List.drop_one, List.tail_cons, List.takeWhile_append_of_pos hall,
      List.takeWhile_cons_of_neg (by decide), List.append_nil]

theorem markedWith_unique {comment name name' : String} (h : MarkedWith comment name)
    (h' : MarkedWith comment name') (hname : ' ' ∉ name.toList) (hname' : ' ' ∉ name'.toList) :
    name = name' := by
  rw [← String.toList_inj, ← h.takeWhile hname, h'.takeWhile hname']

namespace Entry

variable {symbols : SymbolMap} {a : Int} {bytes payload : List UInt8} {i : Instruction}

/-- The target of an entry has the name of a label or none. -/
theorem targetMark_cases (hnames : ∀ a name, symbols.name? a = some name → LabelName name)
    (i : Instruction) (payload : List UInt8) :
    targetMark symbols i payload = "" ∨ LabelName (targetMark symbols i payload) := by
  unfold targetMark
  split
  · cases hname : symbols.name? (Image.ofBigEndian payload) with
    | none => exact Or.inl rfl
    | some name => exact Or.inr (hnames _ name hname)
  · exact Or.inl rfl

theorem joinComment_nil (link right : String) : joinComment link "" right = right :=
  if_pos rfl

theorem joinComment_marked (link name right : String) :
    joinComment link ("@" ++ name) right
      = if right.isEmpty then "@" ++ name else "@" ++ name ++ link ++ right := by
  have hmarked : ("@" ++ name).isEmpty = false := by
    rw [String.isEmpty_eq_false_iff]
    simp
  rw [joinComment, hmarked, if_neg (by decide)]

/-- **The comment of an instruction is marked with the name of its address**, and with no other. -/
theorem markedWith_ofCode (hnames : ∀ a name, symbols.name? a = some name → LabelName name)
    {name : String} (hname : ' ' ∉ name.toList) :
    MarkedWith (ofCode symbols a bytes i payload).comment name ↔ symbols.name? a = some name := by
  show MarkedWith (joinComment " -> " (labelMark symbols a) (targetMark symbols i payload)) name ↔ _
  unfold labelMark
  cases hlabel : symbols.name? a with
  | none =>
      dsimp only
      rw [joinComment_nil]
      constructor
      · intro hmarked
        rcases targetMark_cases hnames i payload with hempty | htarget
        · rw [hempty] at hmarked
          cases hmarked.mem
        · exact absurd hmarked.mem htarget.unmarked
      · intro h
        cases h
  | some label =>
      have hmarked : MarkedWith
          (joinComment " -> " ("@" ++ label) (targetMark symbols i payload)) label := by
        rw [joinComment_marked]
        split
        · exact Or.inl rfl
        · exact Or.inr ⟨_, rfl⟩
      dsimp only
      constructor
      · intro hother
        exact congrArg some
          (markedWith_unique hmarked hother (hnames a label hlabel).unbroken hname)
      · intro h
        cases h
        exact hmarked

/-- The comment of a pushed address points at the label that lies there. -/
theorem pointsAt_ofCode {name : String}
    (hpayload : symbols.name? (Image.ofBigEndian payload) = some name) (hname : name ≠ "") :
    PointsAt (ofCode symbols a bytes ⟨.lit, false, .four⟩ payload).comment name := by
  show PointsAt (joinComment " -> " (labelMark symbols a) (targetMark symbols _ payload)) name
  have htarget : targetMark symbols ⟨.lit, false, .four⟩ payload = name := by
    rw [targetMark, if_pos ⟨rfl, rfl⟩, hpayload]
    rfl
  rw [htarget]
  unfold labelMark
  cases symbols.name? a with
  | none => exact Or.inl (joinComment_nil _ _)
  | some label =>
      dsimp only
      rw [joinComment_marked, String.isEmpty_eq_false_iff.mpr hname, if_neg (by decide)]
      exact Or.inr ⟨label, rfl⟩

end Entry

end RomKit
