import RomKit.Label.Resolution

/-!
# What resolving writes

Resolving labels is a sequence of writes of four bytes each: for every defined
label, in the order of definition, one write at each of its sites
(`Labels.writes`). A write fails only where the image or the address is out of
bounds. When all of them fit, resolving is these writes in this order
(`resolveEach_of_fits`), and a byte that none of them covers stays as it is
(`getElem?_applyAll`).
-/

namespace RomKit

/-- An address that is to be written at an offset. -/
structure Write where
  offset : Int
  address : Int
deriving DecidableEq, Repr

namespace Write

/-- The four bytes at the offset lie in an image of a given size, and the address has 32 bits. -/
structure Fits (size : Nat) (w : Write) : Prop where
  nonneg : 0 ≤ w.offset
  inside : w.offset + 4 ≤ size
  narrow : w.offset < 0x8000000000000000
  address_nonneg : 0 ≤ w.address
  address_lt : w.address < 0x100000000

/-- The image after a write that fits. -/
def apply (image : Image) (w : Write) : Image :=
  image.overwrite w.offset.toNat (Image.bigEndian w.address.toNat)

/-- The image after writes that fit. -/
def applyAll (image : Image) (ws : List Write) : Image :=
  ws.foldl apply image

end Write

namespace Image

/-- The four bytes of a number stand for it. -/
theorem ofBigEndian_bigEndian {n : Nat} (h : n < 0x100000000) :
    ofBigEndian (bigEndian n) = n := by
  simp only [ofBigEndian, bigEndian, List.foldl_cons, List.foldl_nil, UInt8.toNat_ofNat']
  omega

/-! ## Overwriting -/

/-- Bytes outside the overwritten ones stay as they are. -/
theorem getElem?_overwrite {k : Nat} : ∀ (bytes : List UInt8) (image : Image) (n : Nat),
    k < n ∨ n + bytes.length ≤ k → (image.overwrite n bytes)[k]? = image[k]? := by
  intro bytes
  induction bytes with
  | nil => intro image n _; rfl
  | cons b bs ih =>
      intro image n hk
      simp only [List.length_cons] at hk
      rw [overwrite, ih _ _ (by omega), Array.getElem?_setIfInBounds_ne (by omega)]

/-- Overwriting replaces a part of the image by as many other bytes. -/
theorem overwrite_middle : ∀ (new old pre post : List UInt8), old.length = new.length →
    overwrite (pre ++ old ++ post).toArray pre.length new = (pre ++ new ++ post).toArray := by
  intro new
  induction new with
  | nil =>
      intro old pre post hlen
      rw [List.length_eq_zero_iff.mp hlen]
      rfl
  | cons b bs ih =>
      intro old pre post hlen
      cases old with
      | nil => simp at hlen
      | cons a as =>
          -- the byte that is written joins what stands before
          have hset : (pre ++ a :: as ++ post).toArray.setIfInBounds pre.length b
              = ((pre ++ [b]) ++ as ++ post).toArray := by
            simp
          rw [overwrite, hset, show pre.length + 1 = (pre ++ [b]).length by simp,
            ih as (pre ++ [b]) post (by simpa using hlen)]
          simp

/-! ## Writes -/

theorem patch_of_fits {image : Image} {w : Write} (h : w.Fits image.size) :
    patch w.offset w.address image = .ok () (w.apply image) := by
  have hinside := h.inside
  have hplace : place image.size w.offset = .ok w.offset.toNat := by
    unfold place
    rw [if_neg (by have := h.nonneg; have := h.narrow; omega),
      if_neg (by have := h.nonneg; omega), if_neg (by unfold addressSize; omega)]
  have hbits : addressBits w.address = .ok w.address.toNat := by
    unfold addressBits
    rw [if_neg (by have := h.address_nonneg; have := h.address_lt; omega),
      if_neg (by have := h.address_lt; omega)]
  unfold patch
  rw [hplace]
  dsimp only
  rw [hbits]
  rfl

/-- Writes one after another; the first one that fails stops them. -/
def patchAll : List Write → EStateM PatchError Image Unit
  | [] => pure ()
  | w :: ws => do
    patch w.offset w.address
    patchAll ws

end Image

namespace Write

open Image

theorem size_apply (image : Image) (w : Write) : (w.apply image).size = image.size :=
  size_overwrite _ _ _

theorem size_applyAll (ws : List Write) : ∀ image : Image,
    (applyAll image ws).size = image.size := by
  induction ws with
  | nil => intro image; rfl
  | cons w ws ih =>
      intro image
      show (applyAll (w.apply image) ws).size = image.size
      rw [ih, size_apply]

/-- A byte that no write covers stays as it is. -/
theorem getElem?_applyAll {k : Nat} (ws : List Write) : ∀ image : Image,
    (∀ w ∈ ws, k < w.offset.toNat ∨ w.offset.toNat + 4 ≤ k) →
    (applyAll image ws)[k]? = image[k]? := by
  induction ws with
  | nil => intro image _; rfl
  | cons w ws ih =>
      intro image h
      show (applyAll (w.apply image) ws)[k]? = image[k]?
      rw [ih _ fun w' hw' => h w' (List.mem_cons_of_mem _ hw')]
      exact getElem?_overwrite _ _ _ (h w List.mem_cons_self)

/-- Writes that fit all succeed. -/
theorem patchAll_of_fits (ws : List Write) : ∀ image : Image,
    (∀ w ∈ ws, w.Fits image.size) → patchAll ws image = .ok () (applyAll image ws) := by
  induction ws with
  | nil => intro image _; rfl
  | cons w ws ih =>
      intro image h
      have hw := patch_of_fits (h w List.mem_cons_self)
      show EStateM.bind (patch w.offset w.address) (fun _ => patchAll ws) image = _
      unfold EStateM.bind
      rw [hw]
      exact ih _ fun w' hw' => by
        rw [size_apply]
        exact h w' (List.mem_cons_of_mem _ hw')

end Write

/-! ## Resolving is writing -/

namespace Labels

open Image

/-- Nothing refers to the label. -/
def isUnused (t : Labels) (d : Definition) : Bool :=
  (t.sites d.name).isEmpty

/-- The labels that nothing refers to. -/
def unused (t : Labels) : List Definition :=
  t.definitions.filter t.isUnused

/-- The writes for one label: its address at each of its sites. -/
def writesFor (t : Labels) (length : Int) (d : Definition) : List Write :=
  (t.sites d.name).map fun r => ⟨r.offset, placedAddress d.offset length⟩

/-- The writes for all labels, in the order of definition. -/
def writes (t : Labels) (length : Int) : List Write :=
  t.definitions.flatMap (t.writesFor length)

theorem mem_writes {t : Labels} {length : Int} {w : Write} :
    w ∈ t.writes length ↔ ∃ d ∈ t.definitions, ∃ r ∈ t.references, r.name = d.name
      ∧ w = ⟨r.offset, placedAddress d.offset length⟩ := by
  unfold writes writesFor sites
  simp only [List.mem_flatMap, List.mem_map, List.mem_filter, beq_iff_eq]
  constructor
  · rintro ⟨d, hd, r, ⟨hr, hname⟩, rfl⟩
    exact ⟨d, hd, r, hr, hname, rfl⟩
  · rintro ⟨d, hd, r, hr, hname, rfl⟩
    exact ⟨d, hd, r, ⟨hr, hname⟩, rfl⟩

/-- Writes fit if the references and the definitions lie in an image that fits into memory. -/
theorem fits_of_inside {t : Labels} {size : Nat} (hsize : size ≤ addressSpace)
    (hinside : ∀ r ∈ t.references, 0 ≤ r.offset ∧ r.offset + 4 ≤ size)
    (hplaced : ∀ d ∈ t.definitions, 0 ≤ d.offset ∧ d.offset ≤ size) :
    ∀ w ∈ t.writes size, w.Fits size := by
  intro w hw
  obtain ⟨d, hd, r, hr, -, rfl⟩ := mem_writes.mp hw
  have hin := hinside r hr
  have hoffset := hplaced d hd
  unfold addressSpace at hsize
  refine ⟨?_, ?_, ?_, ?_, ?_⟩ <;> simp only [placedAddress, addressSpace] <;> omega

theorem patchSites_eq (address : Int) (sites : List Reference) :
    patchSites address sites = patchAll (sites.map fun r => ⟨r.offset, address⟩) := by
  induction sites with
  | nil => rfl
  | cons r rs ih => rw [patchSites, ih]; rfl

/-- Resolving one label changes the image by the writes for it. -/
theorem resolveOne_of_fits {t : Labels} {length : Int} {d : Definition} {r : Resolution}
    (h : ∀ w ∈ t.writesFor length d, w.Fits r.image.size) :
    ∃ log, resolveOne t length d r = .ok () ⟨Write.applyAll r.image (t.writesFor length d),
      r.unused ++ [d].filter t.isUnused, log⟩ := by
  unfold resolveOne
  dsimp only
  by_cases hsites : t.isUnused d = true
  · -- without a site there is nothing to write
    have hnone : t.writesFor length d = [] := by
      unfold writesFor
      rw [List.isEmpty_iff.mp hsites]
      rfl
    rw [if_pos (show (t.sites d.name).isEmpty = true from hsites), hnone,
      List.filter_cons_of_pos hsites]
    exact ⟨_, rfl⟩
  · rw [if_neg (show ¬(t.sites d.name).isEmpty = true from hsites),
      List.filter_cons_of_neg hsites, patchSites_eq]
    have hpatch := Write.patchAll_of_fits _ r.image h
    unfold writesFor at hpatch ⊢
    rw [hpatch, List.filter_nil, List.append_nil]
    exact ⟨_, rfl⟩

/-- Resolving labels one after another changes the image by the writes for them. -/
theorem resolveEach_of_fits {t : Labels} {length : Int} : ∀ (ds : List Definition) (r : Resolution),
    (∀ w ∈ ds.flatMap (t.writesFor length), w.Fits r.image.size) →
    ∃ log, resolveEach t length ds r
      = .ok () ⟨Write.applyAll r.image (ds.flatMap (t.writesFor length)),
          r.unused ++ ds.filter t.isUnused, log⟩ := by
  intro ds
  induction ds with
  | nil =>
      intro r _
      rw [List.filter_nil, List.append_nil]
      exact ⟨r.log, rfl⟩
  | cons d ds ih =>
      intro r h
      rw [List.flatMap_cons] at h ⊢
      obtain ⟨log₁, h₁⟩ := resolveOne_of_fits fun w hw => h w (List.mem_append_left _ hw)
      -- writes keep the size of the image, so the later ones still fit
      have hrest : ∀ w ∈ ds.flatMap (t.writesFor length),
          w.Fits (Write.applyAll r.image (t.writesFor length d)).size := by
        intro w hw
        rw [Write.size_applyAll]
        exact h w (List.mem_append_right _ hw)
      obtain ⟨log₂, h₂⟩ := ih ⟨Write.applyAll r.image (t.writesFor length d),
        r.unused ++ [d].filter t.isUnused, log₁⟩ hrest
      refine ⟨log₂, ?_⟩
      show EStateM.bind (resolveOne t length d) (fun _ => resolveEach t length ds) r = _
      unfold EStateM.bind
      rw [h₁]
      refine h₂.trans ?_
      rw [Write.applyAll, Write.applyAll, Write.applyAll, List.foldl_append, List.append_assoc,
        ← List.filter_append, List.singleton_append]

/-- **When every write fits, resolving succeeds** unless strict mode finds a label without
definition. -/
theorem resolve_cases {t : Labels} (strict : Bool) {image : Image}
    (h : ∀ w ∈ t.writes image.size, w.Fits image.size) :
    (strict = true ∧ ∃ r, t.undefined.head? = some r
        ∧ t.resolve strict image = .error (.diagnostic (t.undefinedError r)) ⟨image, [], #[]⟩)
      ∨ (strict = true → t.undefined = [])
        ∧ ∃ log, t.resolve strict image
          = .ok t.unused ⟨Write.applyAll image (t.writes image.size), t.unused, log⟩ := by
  unfold resolve
  dsimp only
  cases hfirst : (if strict = true then t.undefined.head? else none) with
  | some r =>
      left
      split at hfirst
      · next hs => exact ⟨hs, r, hfirst, rfl⟩
      · cases hfirst
  | none =>
      right
      constructor
      · intro hs
        rw [if_pos hs] at hfirst
        exact List.head?_eq_none_iff.mp hfirst
      · obtain ⟨log, hlog⟩ := resolveEach_of_fits t.definitions ⟨image, [], #[]⟩ h
        dsimp only
        rw [hlog]
        exact ⟨log, rfl⟩

/-- Of two tables in one mode, both are resolved or neither is, if both or neither refer to a
label without definition. -/
theorem resolve_cases_both {t t' : Labels} {strict strict' : Bool} {image image' : Image}
    (h : ∀ w ∈ t.writes image.size, w.Fits image.size)
    (h' : ∀ w ∈ t'.writes image'.size, w.Fits image'.size) (hmode : strict' = strict)
    (hboth : t.undefined.head?.isSome = t'.undefined.head?.isSome) :
    (strict = true ∧ ∃ r r', t.undefined.head? = some r ∧ t'.undefined.head? = some r'
        ∧ t.resolve strict image = .error (.diagnostic (t.undefinedError r)) ⟨image, [], #[]⟩
        ∧ t'.resolve strict' image'
          = .error (.diagnostic (t'.undefinedError r')) ⟨image', [], #[]⟩)
      ∨ (strict = true → t.undefined = [])
        ∧ ∃ log log', t.resolve strict image
            = .ok t.unused ⟨Write.applyAll image (t.writes image.size), t.unused, log⟩
          ∧ t'.resolve strict' image'
            = .ok t'.unused ⟨Write.applyAll image' (t'.writes image'.size), t'.unused, log'⟩ := by
  subst hmode
  rcases resolve_cases strict' h with ⟨hstrict, r, hr, hfail⟩ | ⟨hnone, log, hok⟩
  · rcases resolve_cases strict' h' with ⟨-, r', hr', hfail'⟩ | ⟨hnone', -⟩
    · exact Or.inl ⟨hstrict, r, r', hr, hr', hfail, hfail'⟩
    · rw [hr, hnone' hstrict] at hboth
      cases hboth
  · rcases resolve_cases strict' h' with ⟨hstrict, r', hr', -⟩ | ⟨-, log', hok'⟩
    · rw [hr', hnone hstrict] at hboth
      cases hboth
    · exact Or.inr ⟨hnone, log, log', hok, hok'⟩

end Labels

end RomKit
