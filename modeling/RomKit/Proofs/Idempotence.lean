import RomKit.Proofs.PassInvariant

/-!
# Resolving again

Resolving labels is a sequence of writes, and where they overlap the last one wins. Still, doing it
all again changes nothing. The reason is that a write does not look at the bytes in its way: for
every byte of the image, a sequence of writes either decides it, whatever was there, or leaves it
alone (`Image.Settles`). What is done a second time therefore finds every byte as it will be.

A pass that has succeeded stands at the end of its source, so taking it up again is resolving its
labels again.
-/

namespace RomKit

namespace Image

/-- A change of images of one size, which decides every byte without looking at it or leaves it
alone. -/
structure Settles (size : Nat) (f : Image → Image) : Prop where
  size_eq : ∀ image, image.size = size → (f image).size = size
  byte : ∀ k : Nat,
    (∀ image image', image.size = size → image'.size = size → (f image)[k]? = (f image')[k]?)
      ∨ ∀ image, image.size = size → (f image)[k]? = image[k]?

namespace Settles

variable {size : Nat} {f g : Image → Image}

theorem id : Settles size fun image => image where
  size_eq := fun _ h => h
  byte := fun _ => Or.inr fun _ _ => rfl

/-- Of two changes, the later one decides first. -/
theorem comp (hg : Settles size g) (hf : Settles size f) :
    Settles size fun image => g (f image) where
  size_eq := fun image h => hg.size_eq _ (hf.size_eq image h)
  byte := by
    intro k
    rcases hg.byte k with hdecided | hleft
    · exact Or.inl fun image image' h h' =>
        hdecided _ _ (hf.size_eq image h) (hf.size_eq image' h')
    · rcases hf.byte k with hdecided | hleft'
      · refine Or.inl fun image image' h h' => ?_
        rw [hleft _ (hf.size_eq image h), hleft _ (hf.size_eq image' h')]
        exact hdecided image image' h h'
      · refine Or.inr fun image h => ?_
        rw [hleft _ (hf.size_eq image h)]
        exact hleft' image h

theorem set (size n : Nat) (b : UInt8) : Settles size fun image => image.setIfInBounds n b where
  size_eq := fun image h => by rw [Array.size_setIfInBounds, h]
  byte := by
    intro k
    by_cases hk : n = k
    · refine Or.inl fun image image' h h' => ?_
      rw [Array.getElem?_setIfInBounds, Array.getElem?_setIfInBounds, if_pos hk, if_pos hk, h, h']
    · exact Or.inr fun image _ => Array.getElem?_setIfInBounds_ne hk

theorem overwrite (size : Nat) (bytes : List UInt8) : ∀ n : Nat,
    Settles size fun image => image.overwrite n bytes := by
  induction bytes with
  | nil => intro n; exact id
  | cons b bytes ih => intro n; exact (ih (n + 1)).comp (set size n b)

/-- **What is settled stays as it is.** -/
theorem idempotent (hf : Settles size f) {image : Image} (h : image.size = size) :
    f (f image) = f image := by
  refine Array.ext_getElem? fun k => ?_
  rcases hf.byte k with hdecided | hleft
  · exact hdecided _ _ (hf.size_eq image h) h
  · exact hleft _ (hf.size_eq image h)

end Settles

end Image

/-! ## Resolving settles the image -/

/-- Two computations in a row succeed if the first does, and the second from where it ends. -/
theorem bind_eq_ok_iff {ε σ α β : Type} {x : EStateM ε σ α} {f : α → EStateM ε σ β} {s s' : σ}
    {b : β} : (x >>= f) s = .ok b s' ↔ ∃ a s₁, x s = .ok a s₁ ∧ f a s₁ = .ok b s' := by
  show EStateM.bind x f s = .ok b s' ↔ _
  unfold EStateM.bind
  cases x s with
  | error e s₁ =>
      refine ⟨fun h => (by cases h), ?_⟩
      rintro ⟨a, s₂, hx, -⟩
      cases hx
  | ok a s₁ =>
      refine ⟨fun h => ⟨a, s₁, rfl, h⟩, ?_⟩
      rintro ⟨a', s₂, hx, hf⟩
      cases hx
      exact hf

namespace Labels

open Image

/-- A write that succeeds does so on every image of the size, and settles it. -/
theorem patch_repeats {offset address : Int} {image image' : Image}
    (h : patch offset address image = .ok () image') :
    ∃ f, Settles image.size f ∧ ∀ other, other.size = image.size →
      patch offset address other = .ok () (f other) := by
  unfold patch at h
  cases hplace : place image.size offset with
  | error e =>
      rw [hplace] at h
      cases h
  | ok n =>
      rw [hplace] at h
      cases hbits : addressBits address with
      | error e =>
          rw [hbits] at h
          cases h
      | ok bits =>
          refine ⟨fun image => image.overwrite n (bigEndian bits), .overwrite _ _ _, ?_⟩
          intro other hsize
          unfold patch
          rw [hsize, hplace, hbits]

theorem patchSites_repeats {address : Int} {sites : List Reference} : ∀ {image image' : Image},
    patchSites address sites image = .ok () image' →
    ∃ f, Settles image.size f ∧ ∀ other, other.size = image.size →
      patchSites address sites other = .ok () (f other) := by
  induction sites with
  | nil => intro image image' _; exact ⟨_, .id, fun _ _ => rfl⟩
  | cons r sites ih =>
      intro image image' h
      rw [patchSites] at h
      obtain ⟨⟨⟩, image₁, hfirst, hlater⟩ := bind_eq_ok_iff.mp h
      obtain ⟨f, hf, hpatch⟩ := patch_repeats hfirst
      have hsize : image₁.size = image.size := by
        have heq := hpatch image rfl
        rw [hfirst] at heq
        cases heq
        exact hf.size_eq image rfl
      obtain ⟨g, hg, hrest⟩ := ih hlater
      rw [hsize] at hg hrest
      refine ⟨_, hg.comp hf, fun other hother => ?_⟩
      rw [patchSites]
      exact bind_eq_ok_iff.mpr
        ⟨(), f other, hpatch other hother, hrest _ (hf.size_eq other hother)⟩

/-- What resolving does to an image of a size: it settles the bytes, and what it finds unused and
tells does not depend on them. -/
def Repeats (size : Nat) (m : EStateM PatchError Resolution Unit) : Prop :=
  ∃ f unused log, Settles size f ∧ ∀ r : Resolution, r.image.size = size →
    m r = .ok () ⟨f r.image, r.unused ++ unused, r.log ++ log⟩

variable {t : Labels} {length : Int}

theorem Repeats.size_eq {size : Nat} {m : EStateM PatchError Resolution Unit} {r r' : Resolution}
    (h : Repeats size m) (hsize : r.image.size = size) (hr : m r = .ok () r') :
    r'.image.size = size := by
  obtain ⟨f, unused, log, hf, hm⟩ := h
  rw [hm r hsize] at hr
  cases hr
  exact hf.size_eq _ hsize

theorem resolveOne_repeats {d : Definition} {r r' : Resolution}
    (h : resolveOne t length d r = .ok () r') :
    Repeats r.image.size (resolveOne t length d) := by
  unfold resolveOne at h
  dsimp only at h
  by_cases hsites : (t.sites d.name).isEmpty = true
  · refine ⟨_, [d], #[.labelUnused d], .id, fun other hother => ?_⟩
    unfold resolveOne
    dsimp only
    rw [if_pos hsites]
    rfl
  · rw [if_neg hsites] at h
    cases hpatch : patchSites (placedAddress d.offset length) (t.sites d.name) r.image with
    | error e image =>
        rw [hpatch] at h
        cases h
    | ok _ image =>
        obtain ⟨f, hf, hsame⟩ := patchSites_repeats hpatch
        refine ⟨f, [], #[.labelResolved d.name (placedAddress d.offset length)
          (t.sites d.name).length], hf, fun other hother => ?_⟩
        unfold resolveOne
        dsimp only
        rw [if_neg hsites, hsame _ hother, List.append_nil]
        rfl

theorem resolveEach_repeats {ds : List Definition} : ∀ {r r' : Resolution},
    resolveEach t length ds r = .ok () r' → Repeats r.image.size (resolveEach t length ds) := by
  induction ds with
  | nil =>
      intro r r' _
      refine ⟨_, [], #[], .id, fun other _ => ?_⟩
      rw [List.append_nil, Array.append_empty]
      rfl
  | cons d ds ih =>
      intro r r' h
      rw [resolveEach] at h
      obtain ⟨⟨⟩, r₁, hfirst, hlater⟩ := bind_eq_ok_iff.mp h
      have hone := resolveOne_repeats hfirst
      have hrest := ih hlater
      rw [hone.size_eq rfl hfirst] at hrest
      obtain ⟨f, unused, log, hf, hone⟩ := hone
      obtain ⟨g, unused', log', hg, hrest⟩ := hrest
      refine ⟨_, unused ++ unused', log ++ log', hg.comp hf, fun other hother => ?_⟩
      rw [resolveEach]
      refine bind_eq_ok_iff.mpr ⟨(), _, hone other hother, ?_⟩
      rw [hrest _ (hf.size_eq _ hother), List.append_assoc, Array.append_assoc]

/-- **Labels that are resolved can be resolved again**, with the same outcome in every respect. -/
theorem resolve_again {strict : Bool} {image : Image} {unused : List Definition} {r : Resolution}
    (h : t.resolve strict image = .ok unused r) :
    t.resolve strict r.image = .ok unused r ∧ r.image.size = image.size := by
  unfold resolve at h ⊢
  dsimp only at h ⊢
  cases hfirst : (if strict = true then t.undefined.head? else none) with
  | some missing =>
      rw [hfirst] at h
      cases h
  | none =>
      rw [hfirst] at h
      dsimp only at h ⊢
      cases heach : resolveEach t image.size t.definitions ⟨image, [], #[]⟩ with
      | error e done =>
          rw [heach] at h
          cases h
      | ok _ done =>
          rw [heach] at h
          cases h
          obtain ⟨f, more, log, hf, hsame⟩ := resolveEach_repeats heach
          have hdone := hsame ⟨image, [], #[]⟩ rfl
          rw [heach] at hdone
          cases hdone
          have hsize := hf.size_eq image rfl
          dsimp only at hsize ⊢
          rw [hsize, hsame ⟨f image, [], #[]⟩ hsize]
          dsimp only
          rw [hf.idempotent rfl]
          exact ⟨rfl, rfl⟩

end Labels

/-! ## Passes that are taken up again -/

namespace Pass

/-- Reading at the end of the source does nothing. -/
theorem scan_of_atEnd {p : Pass} (h : p.cursor.current = none) : p.scan = .ok () p := by
  rw [scan_eq, step_of_atEnd h]

/-- The pass has succeeded: its source is read, and its labels are resolved in an image that is
not too large. -/
structure Finished (p : Pass) : Prop where
  atEnd : p.cursor.current = none
  fits : (p.draft.image.size : Int) ≤ p.limit
  resolved : ∃ r, r.image = p.draft.image
    ∧ p.draft.labels.resolve p.strict p.draft.image = .ok p.unused r

/-- A pass with something else told. -/
def withLog (p : Pass) (log : Array Event) : Pass :=
  { p with draft := { p.draft with log := log } }

theorem Finished.withLog {p : Pass} (h : p.Finished) (log : Array Event) :
    (p.withLog log).Finished :=
  ⟨h.atEnd, h.fits, h.resolved⟩

/-- A run that succeeds finishes the pass. -/
theorem finished_of_generate {p p' : Pass} {image : Image} (h : p.generate = .ok image p') :
    p'.Finished ∧ p'.draft.image = image := by
  rcases p.generate_cases with ⟨_, _, -, hg⟩ | ⟨_, -, -, hg⟩ | ⟨q, hscan, hfits, hg⟩
  · rw [hg] at h
    cases h
  · rw [hg] at h
    cases h
  · rw [hg] at h
    unfold finish at h
    split at h
    · cases h
    · next unused r hres =>
        cases h
        have hend := current_of_scan hscan
        obtain ⟨hagain, hsize⟩ := Labels.resolve_again hres
        refine ⟨⟨hend, ?_, r, rfl, hagain⟩, rfl⟩
        show (r.image.size : Int) ≤ q.limit
        rw [hsize]
        exact hfits

/-- **A finished pass that is taken up again** gives its image again and only tells more. -/
theorem Finished.generate {p : Pass} (h : p.Finished) :
    ∃ log, p.generate = .ok p.draft.image (p.withLog log) := by
  obtain ⟨r, himage, hres⟩ := h.resolved
  have hfits := h.fits
  unfold Pass.generate
  rw [scan_of_atEnd h.atEnd]
  dsimp only
  rw [if_neg (by omega)]
  unfold finish
  rw [hres]
  dsimp only
  rw [himage]
  exact ⟨_, rfl⟩

/-- Taken up again by any number of whole runs, be they successes or not. -/
inductive Rerun (p : Pass) : Pass → Prop where
  | refl : Rerun p p
  | again {q : Pass} : Rerun p q → Rerun p (settled q.generate)

theorem Finished.rerun {p q : Pass} (h : p.Finished) (hq : Rerun p q) :
    ∃ log, q = p.withLog log := by
  induction hq with
  | refl => exact ⟨p.draft.log, rfl⟩
  | again _ ih =>
      obtain ⟨log, rfl⟩ := ih
      obtain ⟨log', hgen⟩ := (h.withLog log).generate
      rw [hgen]
      exact ⟨log', rfl⟩

end Pass

/--
**Resolving is idempotent.** For every label table, whatever its definitions and references are and
wherever they overlap, every image and both modes: if resolving succeeds, resolving again in the
image that it leaves succeeds with the same outcome, and leaves the image as it is. Hence, whatever
the stream of a pass is and whatever happened to it before: after a run that succeeds, every further
run gives the same image and warnings, and leaves the definitions, the references and the symbols
as they are.
-/
theorem resolving_is_idempotent :
    (∀ (t : Labels) (strict : Bool) (image : Image) (unused : List Definition) (r : Resolution),
        t.resolve strict image = .ok unused r → t.resolve strict r.image = .ok unused r)
      ∧ ∀ (p p' : Pass) (image : Image), p.generate = .ok image p' → ∀ q, p'.Rerun q →
          ∃ q', q.generate = .ok image q' ∧ q'.unused = p'.unused
            ∧ q'.draft.labels.definitions = p'.draft.labels.definitions
            ∧ q'.draft.labels.references = p'.draft.labels.references
            ∧ q'.symbols = p'.symbols := by
  refine ⟨fun t strict image unused r h => (Labels.resolve_again h).1,
    fun p p' image hgen q hq => ?_⟩
  obtain ⟨hfinished, rfl⟩ := Pass.finished_of_generate hgen
  obtain ⟨log, rfl⟩ := hfinished.rerun hq
  obtain ⟨log', hagain⟩ := (hfinished.withLog log).generate
  exact ⟨_, hagain, rfl, rfl, rfl, rfl⟩

/-- Two rooms that share two bytes, one of them counted from the end, and a label without rooms. -/
def sharedRooms : Labels :=
  ⟨[⟨"a", 0, none⟩, ⟨"b", 1, none⟩, ⟨"c", 2, none⟩], [⟨"a", 0, none⟩, ⟨"b", -4, none⟩]⟩

/-- A pass over the source `;a @a`. The stream would go on behind its first empty read. -/
def loopPass : Pass :=
  ⟨⟨"", 1, 1, some 0x3B, some 0x61, false,
    ⟨[.byte 0x20, .byte 0x40, .byte 0x61, .nothing, .byte 0x40], none⟩⟩, .empty, true,
    addressSpace, []⟩

theorem resolving_is_idempotent_sharedRooms :
    (∃ r, sharedRooms.resolve false #[0, 0, 0, 0, 0, 0] = .ok [⟨"c", 2, none⟩] r
        ∧ r.image = #[0x00, 0x7f, 0x00, 0x7f, 0xff, 0xfb]
        ∧ sharedRooms.resolve false r.image = .ok [⟨"c", 2, none⟩] r)
      ∧ ∃ image p', loopPass.generate = .ok image p'
        ∧ image = #[0x60, 0x00, 0x80, 0x00, 0x00]
        ∧ ∃ q', p'.generate = .ok image q' ∧ q'.symbols = p'.symbols := by
  obtain ⟨hresolve, hrun⟩ := resolving_is_idempotent
  constructor
  · have hfirst : sharedRooms.resolve false #[0, 0, 0, 0, 0, 0] = .ok [⟨"c", 2, none⟩]
        ⟨#[0x00, 0x7f, 0x00, 0x7f, 0xff, 0xfb], [⟨"c", 2, none⟩],
          #[.labelResolved "a" 0x7ffffa 1, .labelResolved "b" 0x7ffffb 1,
            .labelUnused ⟨"c", 2, none⟩]⟩ := by
      rfl
    exact ⟨_, hfirst, rfl, hresolve _ _ _ _ _ hfirst⟩
  · have hsome : EStateM.run' Pass.generate loopPass = some #[0x60, 0x00, 0x80, 0x00, 0x00] := by
      decide +kernel
    unfold EStateM.run' EStateM.run at hsome
    cases hgen : loopPass.generate with
    | error e p' =>
        rw [hgen] at hsome
        cases hsome
    | ok image p' =>
        rw [hgen] at hsome
        obtain ⟨q', hagain, -, -, -, hsymbols⟩ := hrun _ _ _ hgen p' .refl
        exact ⟨image, p', rfl, Option.some.inj hsome, q', hagain, hsymbols⟩

end RomKit
