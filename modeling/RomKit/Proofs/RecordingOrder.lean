import Mathlib.Data.List.Perm.Basic
import RomKit.Proofs.StrictMode

/-!
# The order of recording

A label table keeps its definitions and references in the order in which they
were recorded, and resolving goes through them in that order. The order leaves no
trace in the image: rooms that share no byte can be filled in any order, and every
room gets the address of the one definition of its name.

In strict mode one undefined reference is picked, together with the names that
resemble its name. The pick is the reference with the smallest offset, and
suggestions are sorted by a total order on the names, so neither depends on the
order of recording.
-/

namespace RomKit

/-! ## Suggestions do not depend on the order of the words -/

namespace Resemblance

namespace Score

/-- The share of the characters that are common, as a fraction. -/
def share (s : Score) : Nat × Nat :=
  if s.total = 0 then (1, 2) else (s.common, s.total)

theorem share_pos (s : Score) : 0 < s.share.2 := by
  unfold share
  split
  · exact Nat.zero_lt_two
  · omega

/-- A score precedes another if its share is larger, or is equal and its word comes later. -/
theorem precedes_iff {a b : Score} : a.precedes b = true ↔
    b.share.1 * a.share.2 ≤ a.share.1 * b.share.2
      ∧ (a.share.1 * b.share.2 = b.share.1 * a.share.2 → b.word ≤ a.word) := by
  show (if a.share.1 * b.share.2 = b.share.1 * a.share.2 then decide (b.word ≤ a.word)
    else decide (b.share.1 * a.share.2 < a.share.1 * b.share.2)) = true ↔ _
  split
  · next heq =>
      rw [decide_eq_true_eq]
      exact ⟨fun h => ⟨Nat.le_of_eq heq.symm, fun _ => h⟩, fun h => h.2 heq⟩
  · next hne =>
      rw [decide_eq_true_eq]
      exact ⟨fun h => ⟨Nat.le_of_lt h, fun heq => absurd heq hne⟩,
        fun h => Nat.lt_of_le_of_ne h.1 (Ne.symm hne)⟩

theorem precedes_total (a b : Score) : (a.precedes b || b.precedes a) = true := by
  rw [Bool.or_eq_true, precedes_iff, precedes_iff]
  rcases Nat.lt_trichotomy (a.share.1 * b.share.2) (b.share.1 * a.share.2) with hlt | heq | hgt
  · exact Or.inr ⟨by omega, by omega⟩
  · rcases String.le_total a.word b.word with hle | hle
    · exact Or.inr ⟨by omega, fun _ => hle⟩
    · exact Or.inl ⟨by omega, fun _ => hle⟩
  · exact Or.inl ⟨by omega, by omega⟩

theorem precedes_trans (a b c : Score) (hab : a.precedes b = true) (hbc : b.precedes c = true) :
    a.precedes c = true := by
  rw [precedes_iff] at hab hbc ⊢
  -- the three fractions over a common denominator
  have hle₁ := Nat.mul_le_mul_right c.share.2 hab.1
  have hle₂ := Nat.mul_le_mul_right a.share.2 hbc.1
  have ha : a.share.1 * b.share.2 * c.share.2 = a.share.1 * c.share.2 * b.share.2 :=
    Nat.mul_right_comm _ _ _
  have hb : b.share.1 * a.share.2 * c.share.2 = b.share.1 * c.share.2 * a.share.2 :=
    Nat.mul_right_comm _ _ _
  have hc : c.share.1 * b.share.2 * a.share.2 = c.share.1 * a.share.2 * b.share.2 :=
    Nat.mul_right_comm _ _ _
  refine ⟨Nat.le_of_mul_le_mul_right (by omega) b.share_pos, fun heq => ?_⟩
  -- if the outer ones are equal, so is the one between
  have hscaled : a.share.1 * c.share.2 * b.share.2 = c.share.1 * a.share.2 * b.share.2 := by
    rw [heq]
  have heq₁ : a.share.1 * b.share.2 = b.share.1 * a.share.2 :=
    Nat.eq_of_mul_eq_mul_right c.share_pos (by omega)
  have heq₂ : b.share.1 * c.share.2 = c.share.1 * b.share.2 :=
    Nat.eq_of_mul_eq_mul_right a.share_pos (by omega)
  exact String.le_trans (hbc.2 heq₂) (hab.2 heq₁)

/-- Scores that precede each other are for one word. -/
theorem word_eq_of_precedes {a b : Score} (hab : a.precedes b = true)
    (hba : b.precedes a = true) : a.word = b.word := by
  rw [precedes_iff] at hab hba
  have heq := Nat.le_antisymm hba.1 hab.1
  exact String.le_antisymm (hba.2 heq.symm) (hab.2 heq)

end Score

/-- **The suggestions for a word are the same for the same words in any order.** -/
theorem closest_eq_of_perm (target : String) {words words' : List String}
    (h : words.Perm words') : closest target words = closest target words' := by
  have hscores := (h.map (score target)).filter Score.isClose
  have hsorted : ∀ l : List Score,
      (l.mergeSort Score.precedes).Pairwise fun a b => a.precedes b = true :=
    List.pairwise_mergeSort Score.precedes_trans Score.precedes_total
  have hsame : ((words.map (score target)).filter Score.isClose).mergeSort Score.precedes
      = ((words'.map (score target)).filter Score.isClose).mergeSort Score.precedes := by
    refine List.Perm.eq_of_pairwise ?_ (hsorted _) (hsorted _)
      (((List.mergeSort_perm _ _).trans hscores).trans (List.mergeSort_perm _ _).symm)
    -- a score is determined by its word
    intro a b ha hb hab hba
    obtain ⟨v, -, rfl⟩ := List.mem_map.mp (List.mem_filter.mp (List.mem_mergeSort.mp ha)).1
    obtain ⟨w, -, rfl⟩ := List.mem_map.mp (List.mem_filter.mp (List.mem_mergeSort.mp hb)).1
    exact congrArg (score target) (Score.word_eq_of_precedes hab hba)
  unfold closest
  rw [hsame]

end Resemblance

/-! ## Writes that share no byte -/

namespace Image

theorem overwrite_setIfInBounds {k : Nat} {b : UInt8} : ∀ (bytes : List UInt8) (image : Image)
    (n : Nat), k < n ∨ n + bytes.length ≤ k →
    overwrite (image.setIfInBounds k b) n bytes = (image.overwrite n bytes).setIfInBounds k b := by
  intro bytes
  induction bytes with
  | nil => intro image n _; rfl
  | cons a as ih =>
      intro image n hk
      rw [List.length_cons] at hk
      rw [overwrite, overwrite, Array.setIfInBounds_comm _ _ (by omega), ih _ _ (by omega)]

/-- Overwriting two parts that share no byte can be done in either order. -/
theorem overwrite_comm {m : Nat} {other : List UInt8} : ∀ (bytes : List UInt8) (image : Image)
    (n : Nat), n + bytes.length ≤ m ∨ m + other.length ≤ n →
    (image.overwrite n bytes).overwrite m other = (image.overwrite m other).overwrite n bytes := by
  intro bytes
  induction bytes with
  | nil => intro image n _; rfl
  | cons b bs ih =>
      intro image n h
      rw [List.length_cons] at h
      rw [overwrite, overwrite, ih _ _ (by omega), overwrite_setIfInBounds _ _ _ (by omega)]

/-- The overwritten part holds the new bytes. -/
theorem take_drop_overwrite {image : Image} {n : Nat} {bytes : List UInt8}
    (h : n + bytes.length ≤ image.size) :
    ((image.overwrite n bytes).toList.drop n).take bytes.length = bytes := by
  rw [← Array.length_toList] at h
  have hpre : (image.toList.take n).length = n := by rw [List.length_take]; omega
  have hold : ((image.toList.drop n).take bytes.length).length = bytes.length := by
    rw [List.length_take, List.length_drop]; omega
  have hover := overwrite_middle bytes _ (image.toList.take n)
    ((image.toList.drop n).drop bytes.length) hold
  rw [hpre, List.append_assoc, List.take_append_drop, List.take_append_drop,
    Array.toArray_toList] at hover
  rw [hover, List.append_assoc, List.drop_left' hpre, List.take_left' rfl]

end Image

namespace Write

/-- Two writes share no byte. -/
def Apart (v w : Write) : Prop :=
  v.offset + 4 ≤ w.offset ∨ w.offset + 4 ≤ v.offset

theorem apply_comm {v w : Write} (hv : 0 ≤ v.offset) (hw : 0 ≤ w.offset) (h : v.Apart w)
    (image : Image) : w.apply (v.apply image) = v.apply (w.apply image) := by
  refine Image.overwrite_comm _ _ _ ?_
  show v.offset.toNat + 4 ≤ w.offset.toNat ∨ w.offset.toNat + 4 ≤ v.offset.toNat
  unfold Apart at h
  omega

/-- **Writes that share no byte can be made in any order.** -/
theorem applyAll_eq_of_perm {ws ws' : List Write} (hperm : ws.Perm ws')
    (hnonneg : ∀ w ∈ ws, 0 ≤ w.offset) (hapart : ∀ v ∈ ws, ∀ w ∈ ws, v = w ∨ v.Apart w)
    (image : Image) : applyAll image ws = applyAll image ws' := by
  refine hperm.foldl_eq' (fun v hv w hw image => ?_) image
  rcases hapart v hv w hw with rfl | h
  · rfl
  · exact apply_comm (hnonneg v hv) (hnonneg w hw) h image

/-- After writes that share no byte, what each one wrote is there. -/
theorem take_drop_applyAll {ws : List Write} {image : Image} {w : Write}
    (hfits : ∀ v ∈ ws, v.Fits image.size) (hapart : ∀ u ∈ ws, ∀ v ∈ ws, u = v ∨ u.Apart v)
    (hw : w ∈ ws) :
    ((applyAll image ws).toList.drop w.offset.toNat).take 4
      = Image.bigEndian w.address.toNat := by
  -- it might as well have been the last one
  have hperm : ws.Perm (ws.erase w ++ [w]) :=
    (List.perm_cons_erase hw).trans (List.perm_append_singleton w _).symm
  have hlast : applyAll image (ws.erase w ++ [w]) = w.apply (applyAll image (ws.erase w)) := by
    unfold applyAll
    rw [List.foldl_append, List.foldl_cons, List.foldl_nil]
  have hin : w.offset.toNat + (Image.bigEndian w.address.toNat).length
      ≤ (applyAll image (ws.erase w)).size := by
    have hnonneg := (hfits w hw).nonneg
    have hinside := (hfits w hw).inside
    rw [size_applyAll]
    show w.offset.toNat + 4 ≤ image.size
    omega
  rw [applyAll_eq_of_perm hperm (fun v hv => (hfits v hv).nonneg) hapart, hlast, apply]
  exact Image.take_drop_overwrite hin

end Write

/-! ## Tables in another order -/

namespace Labels

variable {t t' : Labels}

/-- What resolving asks of a table: each name has one definition, and labels and rooms for
addresses lie in an image of a given size, where no two rooms share a byte. -/
structure Resolvable (t : Labels) (size : Nat) : Prop where
  unique : (t.definitions.map Definition.name).Nodup
  placed : ∀ d ∈ t.definitions, 0 ≤ d.offset ∧ d.offset ≤ size
  inside : ∀ r ∈ t.references, 0 ≤ r.offset ∧ r.offset + 4 ≤ size
  apart : t.references.Pairwise fun r s => r.offset + 4 ≤ s.offset ∨ s.offset + 4 ≤ r.offset

/-- The writes of a table share no byte, as each room is for one name. -/
theorem Resolvable.writes_apart {size : Nat} (h : t.Resolvable size) :
    ∀ v ∈ t.writes size, ∀ w ∈ t.writes size, v = w ∨ v.Apart w := by
  intro v hv w hw
  obtain ⟨d, hd, r, hr, hname, rfl⟩ := mem_writes.mp hv
  obtain ⟨e, he, s, hs, hname', rfl⟩ := mem_writes.mp hw
  rcases Draft.pairwise_of_mem h.apart hr hs with rfl | hrs | hsr
  · have hde : d = e := List.inj_on_of_nodup_map h.unique hd he (hname.symm.trans hname')
    exact Or.inl (by rw [hde])
  · exact Or.inr hrs
  · exact Or.inr hsr.symm

/-- The same definitions and the same references, each in any order. -/
structure Reordered (t t' : Labels) : Prop where
  definitions : t.definitions.Perm t'.definitions
  references : t.references.Perm t'.references

namespace Reordered

theorem writes (h : t.Reordered t') (length : Int) :
    (t.writes length).Perm (t'.writes length) :=
  h.definitions.flatMap fun _ _ => (h.references.filter _).map _

theorem unused (h : t.Reordered t') : t.unused.Perm t'.unused := by
  have hsame : t.isUnused = t'.isUnused := by
    funext d
    exact (h.references.filter fun r => r.name == d.name).isEmpty_eq
  unfold Labels.unused
  rw [hsame]
  exact h.definitions.filter _

theorem lacks (h : t.Reordered t') (name : String) : t.lacks name = t'.lacks name := by
  rw [Bool.eq_iff_iff, lacks_iff, lacks_iff]
  simp only [h.definitions.mem_iff]

theorem mem_undefined (h : t.Reordered t') {r : Reference} :
    r ∈ t.undefined ↔ r ∈ t'.undefined := by
  rw [Labels.mem_undefined, Labels.mem_undefined, h.references.mem_iff, h.lacks]

/-- **The undefined reference that is picked is the same.** Two rooms do not have one offset. -/
theorem head?_undefined (h : t.Reordered t') {size : Nat} (ht : t.Resolvable size) :
    t.undefined.head? = t'.undefined.head? := by
  cases hfirst : t.undefined.head? with
  | none =>
      have hnone : t'.undefined = [] := List.eq_nil_iff_forall_not_mem.mpr fun r hr => by
        rw [← h.mem_undefined, List.head?_eq_none_iff.mp hfirst] at hr
        cases hr
      rw [hnone]
      rfl
  | some r =>
      have hr := List.mem_of_mem_head? hfirst
      cases hfirst' : t'.undefined.head? with
      | none =>
          rw [h.mem_undefined, List.head?_eq_none_iff.mp hfirst'] at hr
          cases hr
      | some s =>
          have hs := h.mem_undefined.mpr (List.mem_of_mem_head? hfirst')
          have hle := offset_le_of_mem_undefined hfirst hs
          have hge := offset_le_of_mem_undefined hfirst' (h.mem_undefined.mp hr)
          rcases Draft.pairwise_of_mem ht.apart (Labels.mem_undefined.mp hr).1
            (Labels.mem_undefined.mp hs).1 with rfl | hrs | hsr
          · rfl
          · omega
          · omega

theorem undefinedError (h : t.Reordered t') (r : Reference) :
    t.undefinedError r = t'.undefinedError r := by
  unfold Labels.undefinedError
  rw [Resemblance.closest_eq_of_perm _ (h.definitions.map Definition.name)]

theorem lookup_addresses (h : t.Reordered t') {size : Nat} (ht : t.Resolvable size)
    (length : Int) (name : String) :
    (t.addresses length).lookup name = (t'.addresses length).lookup name := by
  have hperm : (t.addresses length).Perm (t'.addresses length) := h.definitions.map _
  have hkeys : ((t.addresses length).map Prod.fst).Nodup := by
    unfold addresses
    rw [List.map_map]
    exact ht.unique
  have hkeys' := (hperm.map Prod.fst).nodup_iff.mp hkeys
  ext address
  rw [lookup_eq_some_iff_mem hkeys, lookup_eq_some_iff_mem hkeys', hperm.mem_iff]

theorem resolvable (h : t.Reordered t') {size : Nat} (ht : t.Resolvable size) :
    t'.Resolvable size where
  unique := (h.definitions.map Definition.name).nodup_iff.mp ht.unique
  placed d hd := ht.placed d (h.definitions.mem_iff.mpr hd)
  inside r hr := ht.inside r (h.references.mem_iff.mpr hr)
  apart := (h.references.pairwise_iff Or.symm).mp ht.apart

/-- **Tables in different orders are resolved alike.** -/
theorem resolve (h : t.Reordered t') {image : Image} (ht : t.Resolvable image.size)
    (hsize : image.size ≤ addressSpace) (strict : Bool) :
    (strict = true ∧ ∃ r, t.undefined.head? = some r
        ∧ t.resolve strict image = .error (.diagnostic (t.undefinedError r)) ⟨image, [], #[]⟩
        ∧ t'.resolve strict image = .error (.diagnostic (t.undefinedError r)) ⟨image, [], #[]⟩)
      ∨ (strict = true → t.undefined = [])
        ∧ ∃ log log', t.resolve strict image
            = .ok t.unused ⟨Write.applyAll image (t.writes image.size), t.unused, log⟩
          ∧ t'.resolve strict image
            = .ok t'.unused ⟨Write.applyAll image (t.writes image.size), t'.unused, log'⟩ := by
  have ht' := h.resolvable ht
  have hfits := fits_of_inside hsize ht.inside ht.placed
  have hwrites : Write.applyAll image (t.writes image.size)
      = Write.applyAll image (t'.writes image.size) :=
    Write.applyAll_eq_of_perm (h.writes _) (fun w hw => (hfits w hw).nonneg) ht.writes_apart image
  have hhead := h.head?_undefined ht
  rcases resolve_cases_both hfits (fits_of_inside hsize ht'.inside ht'.placed)
    (rfl : strict = strict) (by rw [hhead]) with
    ⟨hstrict, r, s, hr, hs, hfail, hfail'⟩ | ⟨hnone, log, log', hok, hok'⟩
  · have hrs : s = r := Option.some.inj (hs.symm.trans (hhead.symm.trans hr))
    rw [hrs, ← h.undefinedError] at hfail'
    exact Or.inl ⟨hstrict, r, hr, hfail, hfail'⟩
  · rw [← hwrites] at hok'
    exact Or.inr ⟨hnone, log, log', hok, hok'⟩

end Reordered

end Labels

/-! ## Sequences of recordings -/

/-- A label is defined or referred to. -/
inductive Recording where
  | define (definition : Definition)
  | refer (reference : Reference)
deriving DecidableEq, Repr

namespace Recording

/-- What is defined. -/
def definition? : Recording → Option Definition
  | .define d => some d
  | .refer _ => none

/-- What is referred to. -/
def reference? : Recording → Option Reference
  | .define _ => none
  | .refer r => some r

theorem definition?_eq_some {x : Recording} {d : Definition} :
    x.definition? = some d ↔ x = .define d := by
  cases x <;> simp [definition?]

theorem reference?_eq_some {x : Recording} {r : Reference} :
    x.reference? = some r ↔ x = .refer r := by
  cases x <;> simp [reference?]

end Recording

namespace Labels

/-- Records a definition or a reference. -/
def record (t : Labels) : Recording → Except Diagnostic Labels
  | .define d =>
    match define d t with
    | .ok _ t' => .ok t'
    | .error e _ => .error e
  | .refer r => .ok (t.refer r)

/-- Records definitions and references one after another. -/
def recordAll (t : Labels) : List Recording → Except Diagnostic Labels
  | [] => .ok t
  | x :: xs => do
    let t' ← t.record x
    t'.recordAll xs

/-- The table of all definitions and references of a sequence. -/
def ofRecordings (xs : List Recording) : Labels :=
  ⟨xs.filterMap Recording.definition?, xs.filterMap Recording.reference?⟩

/-- Recording succeeds when no name is defined twice. -/
theorem recordAll_of_nodup (xs : List Recording) : ∀ t : Labels,
    ((t.definitions ++ xs.filterMap Recording.definition?).map Definition.name).Nodup →
    t.recordAll xs = .ok ⟨t.definitions ++ xs.filterMap Recording.definition?,
      t.references ++ xs.filterMap Recording.reference?⟩ := by
  induction xs with
  | nil =>
      intro t _
      rw [List.filterMap_nil, List.filterMap_nil, List.append_nil, List.append_nil]
      rfl
  | cons x xs ih =>
      intro t hnodup
      cases x with
      | define d =>
          have hsplit : t.definitions ++ (Recording.define d :: xs).filterMap Recording.definition?
              = (t.definitions ++ [d]) ++ xs.filterMap Recording.definition? := by
            simp [Recording.definition?]
          rw [hsplit] at hnodup ⊢
          -- the name is new, since it stands behind the recorded ones
          have hnew : t.find? d.name = none := by
            refine List.find?_eq_none.mpr fun e he heq => ?_
            rw [List.append_assoc, List.map_append] at hnodup
            exact List.disjoint_of_nodup_append hnodup (List.mem_map_of_mem he)
              (by rw [beq_iff_eq.mp heq]; simp)
          have hrecord : t.record (.define d) = .ok ⟨t.definitions ++ [d], t.references⟩ := by
            unfold record
            dsimp only
            rw [define_of_new hnew]
          show (t.record (.define d) >>= fun t' => t'.recordAll xs) = _
          rw [hrecord]
          exact ih _ hnodup
      | refer r =>
          have hsplit : t.references ++ (Recording.refer r :: xs).filterMap Recording.reference?
              = (t.references ++ [r]) ++ xs.filterMap Recording.reference? := by
            simp [Recording.reference?]
          rw [hsplit]
          exact ih _ hnodup

theorem reordered_ofRecordings {xs xs' : List Recording} (h : xs.Perm xs') :
    (ofRecordings xs).Reordered (ofRecordings xs') :=
  ⟨h.filterMap _, h.filterMap _⟩

theorem mem_definitions_ofRecordings {xs : List Recording} {d : Definition} :
    d ∈ (ofRecordings xs).definitions ↔ .define d ∈ xs := by
  unfold ofRecordings
  simp [List.mem_filterMap, Recording.definition?_eq_some]

theorem mem_references_ofRecordings {xs : List Recording} {r : Reference} :
    r ∈ (ofRecordings xs).references ↔ .refer r ∈ xs := by
  unfold ofRecordings
  simp [List.mem_filterMap, Recording.reference?_eq_some]

end Labels

/--
**Resolving does not depend on the order of recording.** Two sequences with the same definitions
and references, no name defined twice, are both recorded. In an image that holds the labels and the
rooms, where no two rooms share a byte, both tables have the same addresses. In strict mode a
reference without definition is reported, the same one with the same suggestions. Otherwise the
images come out equal, with the address of the label at every reference to a defined one, and the
same labels are found unused.
-/
theorem resolve_of_recordings_perm {xs xs' : List Recording} {image : Image}
    (hperm : xs.Perm xs')
    (hunique : ((xs.filterMap Recording.definition?).map Definition.name).Nodup)
    (hsize : image.size ≤ addressSpace)
    (hplaced : ∀ d : Definition, .define d ∈ xs → 0 ≤ d.offset ∧ d.offset ≤ image.size)
    (hinside : ∀ r : Reference, .refer r ∈ xs → 0 ≤ r.offset ∧ r.offset + 4 ≤ image.size)
    (hapart : (xs.filterMap Recording.reference?).Pairwise fun r s =>
      r.offset + 4 ≤ s.offset ∨ s.offset + 4 ≤ r.offset) :
    ∃ t t', Labels.empty.recordAll xs = .ok t ∧ Labels.empty.recordAll xs' = .ok t'
      ∧ (∀ name, (t.addresses image.size).lookup name = (t'.addresses image.size).lookup name)
      ∧ ∀ strict,
        (∃ r similar, strict = true ∧ .refer r ∈ xs ∧ (∀ d, .define d ∈ xs → d.name ≠ r.name)
            ∧ t.resolve strict image
              = .error (.diagnostic ⟨.undefinedLabel r.name similar, r.location⟩) ⟨image, [], #[]⟩
            ∧ t'.resolve strict image
              = .error (.diagnostic ⟨.undefinedLabel r.name similar, r.location⟩) ⟨image, [], #[]⟩)
          ∨ ∃ unused unused' done done', t.resolve strict image = .ok unused done
            ∧ t'.resolve strict image = .ok unused' done'
            ∧ done.image = done'.image ∧ unused.Perm unused'
            ∧ (strict = true → ∀ r, .refer r ∈ xs → ∃ d, .define d ∈ xs ∧ d.name = r.name)
            ∧ ∀ d r, .define d ∈ xs → .refer r ∈ xs → r.name = d.name →
              (done.image.toList.drop r.offset.toNat).take 4
                = Image.bigEndian (placedAddress d.offset image.size).toNat := by
  have hresolvable : (Labels.ofRecordings xs).Resolvable image.size :=
    ⟨hunique, fun d hd => hplaced d (Labels.mem_definitions_ofRecordings.mp hd),
      fun r hr => hinside r (Labels.mem_references_ofRecordings.mp hr), hapart⟩
  have hreordered := Labels.reordered_ofRecordings hperm
  have hfits := Labels.fits_of_inside hsize hresolvable.inside hresolvable.placed
  refine ⟨_, _, Labels.recordAll_of_nodup xs .empty hunique,
    Labels.recordAll_of_nodup xs' .empty (hreordered.resolvable hresolvable).unique,
    hreordered.lookup_addresses hresolvable _, fun strict => ?_⟩
  rcases hreordered.resolve hresolvable hsize strict with
    ⟨hstrict, r, hr, hfail, hfail'⟩ | ⟨hnone, log, log', hok, hok'⟩
  · obtain ⟨hmem, hlacks⟩ := Labels.mem_undefined.mp (List.mem_of_mem_head? hr)
    refine Or.inl ⟨r, _, hstrict, Labels.mem_references_ofRecordings.mp hmem, fun d hd => ?_,
      hfail, hfail'⟩
    exact Labels.lacks_iff.mp hlacks d (Labels.mem_definitions_ofRecordings.mpr hd)
  · refine Or.inr ⟨_, _, _, _, hok, hok', rfl, hreordered.unused, fun hstrict r hr => ?_,
      fun d r hd hr hname => ?_⟩
    · by_contra hnot
      have hundefined : r ∈ (Labels.ofRecordings xs).undefined :=
        Labels.mem_undefined.mpr ⟨Labels.mem_references_ofRecordings.mpr hr,
          Labels.lacks_iff.mpr fun d hd heq =>
            hnot ⟨d, Labels.mem_definitions_ofRecordings.mp hd, heq⟩⟩
      rw [hnone hstrict] at hundefined
      cases hundefined
    · exact Write.take_drop_applyAll hfits hresolvable.writes_apart
        (Labels.mem_writes.mpr ⟨d, Labels.mem_definitions_ofRecordings.mpr hd, r,
          Labels.mem_references_ofRecordings.mpr hr, hname, rfl⟩)

/-- A label that is referred to before and after its definition, and one that nothing refers to. -/
def aroundLoop : List Recording :=
  [.refer ⟨"loop", 1, none⟩, .define ⟨"loop", 5, none⟩, .refer ⟨"loop", 6, none⟩,
    .define ⟨"end", 10, none⟩]

theorem resolve_of_recordings_perm_aroundLoop :
    ∃ t t' unused unused' done done', Labels.empty.recordAll aroundLoop = .ok t
      ∧ Labels.empty.recordAll aroundLoop.reverse = .ok t'
      ∧ t.resolve false (Array.replicate 10 0) = .ok unused done
      ∧ t'.resolve false (Array.replicate 10 0) = .ok unused' done'
      ∧ done.image = done'.image ∧ unused.Perm unused'
      ∧ (done.image.toList.drop 1).take 4 = [0x00, 0x7f, 0xff, 0xfb]
      ∧ (done.image.toList.drop 6).take 4 = [0x00, 0x7f, 0xff, 0xfb] := by
  have hplaced : ∀ d : Definition, .define d ∈ aroundLoop →
      0 ≤ d.offset ∧ d.offset ≤ (Array.replicate 10 (0 : UInt8)).size := by
    intro d hd
    simp only [aroundLoop, List.mem_cons, reduceCtorEq, Recording.define.injEq, List.not_mem_nil,
      false_or, or_false] at hd
    rcases hd with rfl | rfl
    · simp
    · simp
  have hinside : ∀ r : Reference, .refer r ∈ aroundLoop →
      0 ≤ r.offset ∧ r.offset + 4 ≤ (Array.replicate 10 (0 : UInt8)).size := by
    intro r hr
    simp only [aroundLoop, List.mem_cons, reduceCtorEq, Recording.refer.injEq, List.not_mem_nil,
      false_or, or_false] at hr
    rcases hr with rfl | rfl
    · simp
    · simp
  have haddress : Image.bigEndian (placedAddress 5 10).toNat = [0x00, 0x7f, 0xff, 0xfb] := by
    decide
  obtain ⟨t, t', ht, ht', -, hresolve⟩ := resolve_of_recordings_perm
    (List.reverse_perm aroundLoop).symm (by decide) (by decide) hplaced hinside (by decide)
  rcases hresolve false with
    ⟨r, similar, hstrict, -⟩ | ⟨unused, unused', done, done', hok, hok', himage, hunused, -, hat⟩
  · cases hstrict
  · have hearly := hat ⟨"loop", 5, none⟩ ⟨"loop", 1, none⟩ (by decide) (by decide) rfl
    have hlate := hat ⟨"loop", 5, none⟩ ⟨"loop", 6, none⟩ (by decide) (by decide) rfl
    rw [Array.size_replicate] at hearly hlate
    exact ⟨t, t', unused, unused', done, done', ht, ht', hok, hok', himage, hunused,
      hearly.trans haddress, hlate.trans haddress⟩

end RomKit
