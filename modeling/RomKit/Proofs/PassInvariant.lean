import RomKit.Proofs.Backpatching
import RomKit.Proofs.Layout

/-!
# What holds of every pass, whatever its stream does

A pass may be taken up again after a read fault, a malformed token or a refused
definition, and after a success. In all of its states the image, the definitions
and the references fit together: each reference owns five bytes of the image,
the control byte `0x60` and room for an address, and no two references share a
byte.

Four-byte rooms that are disjoint would not be enough for resolving: an address
that is written into one room must not hit the control byte of another. The
invariant therefore keeps references five bytes apart.
-/

namespace RomKit

/-- The state that a computation ends in, be it a success or not. -/
def settled {ε σ α : Type} : EStateM.Result ε σ α → σ
  | .ok _ s => s
  | .error _ s => s

/-- No token is found only where nothing is current, and the cursor stays there. -/
theorem Token.scan_eq_none_iff {c c' : Cursor} :
    Token.scan c = .ok none c' ↔ c.current = none ∧ c' = c := by
  unfold Token.scan
  cases hc : c.current with
  | none =>
      constructor
      · intro h
        cases h
        exact ⟨rfl, rfl⟩
      · rintro ⟨-, rfl⟩
        rfl
  | some b =>
      constructor
      · intro h
        dsimp only at h
        split at h
        · cases h
        · cases h
      · rintro ⟨h, -⟩
        cases h

namespace Pass

/-! ## What a step can do -/

/-- **Everything a step can do.** It cannot read a token, or finds the end, or reads a definition
of a known name, or puts down a token. Only the last changes the draft. -/
theorem step_cases (p : Pass) :
    (∃ e c, Token.scan p.cursor = .error e c ∧ p.step = .error e { p with cursor := c })
      ∨ (∃ c, Token.scan p.cursor = .ok none c ∧ p.step = .ok false { p with cursor := c })
      ∨ (∃ t c name first, Token.scan p.cursor = .ok (some t) c ∧ t.defines? = some name
        ∧ p.draft.labels.find? name = some first
        ∧ p.step = .error ⟨.duplicateLabel name first.location, some p.cursor.location⟩
            { p with cursor := c })
      ∨ ∃ t c, Token.scan p.cursor = .ok (some t) c
        ∧ (∀ name, t.defines? = some name → name ∉ p.draft.names)
        ∧ p.step = .ok true { p with
            cursor := c
            draft := p.draft.add ⟨t, p.draft.image.size, p.cursor.location⟩ } := by
  obtain ⟨cursor, draft, strict, limit, unused⟩ := p
  rw [step_eq]
  dsimp only
  cases hscan : Token.scan cursor with
  | error e c => exact Or.inl ⟨e, c, rfl, rfl⟩
  | ok found c =>
      cases found with
      | none => exact Or.inr (Or.inl ⟨c, rfl, rfl⟩)
      | some t =>
          dsimp only
          rcases draft.put_cases cursor.location t with
            ⟨hfresh, hput⟩ | ⟨name, first, ht, hfirst, hput⟩
          · rw [hput]
            exact Or.inr (Or.inr (Or.inr ⟨t, c, rfl, hfresh, rfl⟩))
          · rw [hput]
            exact Or.inr (Or.inr (Or.inl ⟨t, c, name, first, rfl, ht, hfirst, rfl⟩))

/-- At the end of the source a step does nothing. -/
theorem step_of_atEnd {p : Pass} (h : p.cursor.current = none) : p.step = .ok false p := by
  have hscan := Token.scan_eq_none_iff.mpr ⟨h, rfl⟩
  rw [step_eq, hscan]

theorem step_eq_false {p q : Pass} (h : p.step = .ok false q) :
    p.cursor.current = none ∧ q = p := by
  rcases p.step_cases with ⟨_, _, -, hs⟩ | ⟨c, hread, hs⟩ | ⟨_, _, _, _, -, -, -, hs⟩ |
    ⟨_, _, -, -, hs⟩
  · rw [hs] at h
    cases h
  · obtain ⟨hnone, rfl⟩ := Token.scan_eq_none_iff.mp hread
    rw [hs] at h
    cases h
    exact ⟨hnone, rfl⟩
  · rw [hs] at h
    cases h
  · rw [hs] at h
    cases h

/-- A step that goes on has read a token and put it down. -/
theorem step_eq_true {p q : Pass} (h : p.step = .ok true q) :
    ∃ t c, Token.scan p.cursor = .ok (some t) c
      ∧ q = { p with
          cursor := c
          draft := p.draft.add ⟨t, p.draft.image.size, p.cursor.location⟩ } := by
  rcases p.step_cases with ⟨_, _, -, hs⟩ | ⟨_, -, hs⟩ | ⟨_, _, _, _, -, -, -, hs⟩ |
    ⟨t, c, hread, -, hs⟩
  · rw [hs] at h
    cases h
  · rw [hs] at h
    cases h
  · rw [hs] at h
    cases h
  · rw [hs] at h
    cases h
    exact ⟨t, c, hread, rfl⟩

theorem scan_eq (p : Pass) : p.scan = match p.step with
    | .error e p' => .error e p'
    | .ok false p' => .ok () p'
    | .ok true p' => p'.scan := by
  rw [scan.eq_def]
  split
  · next h => rw [h]
  · next h => rw [h]
  · next h => rw [h]

/-- What every step keeps, reading to the end keeps. -/
theorem scan_keeps {P : Pass → Prop} (hstep : ∀ p, P p → P (settled p.step)) :
    ∀ p, P p → P (settled p.scan) := by
  intro p
  -- the induction follows the recursion: a failing step, the end of the source, one more token
  induction p using scan.induct with
  | case1 p e p' h =>
      intro hp
      have hp' := hstep p hp
      rw [h] at hp'
      rw [scan_eq, h]
      exact hp'
  | case2 p p' h =>
      intro hp
      have hp' := hstep p hp
      rw [h] at hp'
      rw [scan_eq, h]
      exact hp'
  | case3 p p' h ih =>
      intro hp
      have hp' := hstep p hp
      rw [h] at hp'
      rw [scan_eq, h]
      exact ih hp'

/-- Reading to the end ends with nothing in sight. -/
theorem current_of_scan {p p' : Pass} (h : p.scan = .ok () p') : p'.cursor.current = none := by
  induction p using scan.induct with
  | case1 p e p₁ hs =>
      rw [scan_eq, hs] at h
      cases h
  | case2 p p₁ hs =>
      rw [scan_eq, hs] at h
      cases h
      obtain ⟨hnone, rfl⟩ := step_eq_false hs
      exact hnone
  | case3 p p₁ hs ih =>
      rw [scan_eq, hs] at h
      exact ih h

end Pass

/-! ## The invariant -/

/-- The image, the definitions and the references of a draft fit together. -/
structure Draft.Sound (d : Draft) : Prop where
  /-- A reference has room for an address behind its control byte. -/
  inside : ∀ r ∈ d.labels.references, 1 ≤ r.offset ∧ r.offset + 4 ≤ d.image.size
  /-- Before the room stands the control byte. -/
  marked : ∀ r ∈ d.labels.references, d.image[(r.offset - 1).toNat]? = some 0x60
  /-- No reference reaches into the control byte or the room of a later one. -/
  apart : d.labels.references.Pairwise fun a b => a.offset + 5 ≤ b.offset
  /-- A definition lies in the image or at its end. -/
  placed : ∀ x ∈ d.labels.definitions, 0 ≤ x.offset ∧ x.offset ≤ d.image.size
  /-- No name is defined twice. -/
  unique : d.names.Nodup
  /-- Definitions lie in the order of the image. -/
  ordered : d.labels.definitions.Pairwise fun x y => x.offset ≤ y.offset

namespace Draft

theorem sound_empty : Draft.empty.Sound where
  inside := by intro r hr; cases hr
  marked := by intro r hr; cases hr
  apart := List.Pairwise.nil
  placed := by intro x hx; cases hx
  unique := List.Pairwise.nil
  ordered := List.Pairwise.nil

theorem getElem?_add_of_lt {d : Draft} {i : Item} {k : Nat} (h : k < d.image.size) :
    (d.add i).image[k]? = d.image[k]? := by
  rw [← Array.getElem?_toList, toList_image_add, List.getElem?_append_left (by simpa using h),
    Array.getElem?_toList]

/-- The item that records a reference begins with the control byte. -/
theorem getElem?_add_reference {d : Draft} {i : Item} {r : Reference}
    (h : i.reference? = some r) : (d.add i).image[d.image.size]? = some 0x60 := by
  obtain ⟨name, hname, -⟩ := Option.map_eq_some_iff.mp h
  rw [← Array.getElem?_toList, toList_image_add, List.getElem?_append_right (by simp),
    Token.refersTo?_eq_some.mp hname]
  simp [Token.emit]

theorem mem_references_add {d : Draft} {i : Item} {r : Reference} :
    r ∈ (d.add i).labels.references ↔ r ∈ d.labels.references ∨ i.reference? = some r := by
  show r ∈ d.labels.references ++ i.reference?.toList ↔ _
  rw [List.mem_append, Option.mem_toList]

theorem mem_definitions_add {d : Draft} {i : Item} {x : Definition} :
    x ∈ (d.add i).labels.definitions ↔ x ∈ d.labels.definitions ∨ i.definition? = some x := by
  show x ∈ d.labels.definitions ++ i.definition?.toList ↔ _
  rw [List.mem_append, Option.mem_toList]

/-- The room that a new reference takes is inside the grown image. -/
theorem room_of_reference? {i : Item} {r : Reference} (h : i.reference? = some r) :
    r.offset = i.offset + 1 ∧ i.token.size = 5 := by
  obtain ⟨name, hname, rfl⟩ := Option.map_eq_some_iff.mp h
  rw [Token.refersTo?_eq_some.mp hname]
  exact ⟨rfl, rfl⟩

/-- **Putting down a token keeps the invariant.** -/
theorem Sound.add {d : Draft} (h : d.Sound) {t : Token} {start : Location}
    (hfresh : ∀ name, t.defines? = some name → name ∉ d.names) :
    (d.add ⟨t, d.image.size, start⟩).Sound where
  inside := by
    intro r hr
    rw [size_add]
    rcases mem_references_add.mp hr with hold | hnew
    · have := h.inside r hold
      omega
    · obtain ⟨hoff, hsize⟩ := room_of_reference? hnew
      simp only at hoff hsize
      simp only
      omega
  marked := by
    intro r hr
    rcases mem_references_add.mp hr with hold | hnew
    · -- the image only grows at its end
      have hin := h.inside r hold
      rw [getElem?_add_of_lt (by omega)]
      exact h.marked r hold
    · obtain ⟨hoff, -⟩ := room_of_reference? hnew
      simp only at hoff
      rw [show (r.offset - 1).toNat = d.image.size by omega]
      exact getElem?_add_reference hnew
  apart := by
    show (d.labels.references ++ _).Pairwise _
    rw [List.pairwise_append]
    refine ⟨h.apart, ?_, ?_⟩
    · cases (⟨t, d.image.size, start⟩ : Item).reference? with
      | none => exact List.Pairwise.nil
      | some r => exact List.pairwise_singleton _ _
    · -- an older reference ends inside the old image, and the new item begins where that ends
      intro a ha b hb
      have hin := h.inside a ha
      obtain ⟨hoff, -⟩ := room_of_reference? (Option.mem_toList.mp hb)
      simp only at hoff
      omega
  placed := by
    intro x hx
    rw [size_add]
    rcases mem_definitions_add.mp hx with hold | hnew
    · have := h.placed x hold
      omega
    · obtain ⟨name, -, rfl⟩ := Option.map_eq_some_iff.mp hnew
      simp only
      omega
  unique := nodup_names_add h.unique hfresh
  ordered := by
    show (d.labels.definitions ++ _).Pairwise _
    rw [List.pairwise_append]
    refine ⟨h.ordered, ?_, ?_⟩
    · cases (⟨t, d.image.size, start⟩ : Item).definition? with
      | none => exact List.Pairwise.nil
      | some x => exact List.pairwise_singleton _ _
    · intro x hx y hy
      obtain ⟨name, -, rfl⟩ := Option.map_eq_some_iff.mp (Option.mem_toList.mp hy)
      exact (h.placed x hx).2

/-! ## Resolving keeps it -/

theorem pairwise_of_mem {α : Type} {R : α → α → Prop} {l : List α} (h : l.Pairwise R) {a b : α}
    (ha : a ∈ l) (hb : b ∈ l) : a = b ∨ R a b ∨ R b a :=
  List.Pairwise.forall_of_forall_of_flip (R := fun a b => a = b ∨ R a b ∨ R b a)
    (fun _ _ => Or.inl rfl) (h.imp fun hr => Or.inr (Or.inl hr))
    (h.imp fun hr => Or.inr (Or.inr hr)) ha hb

/-- The address of a label lies between the start of the image and the top of memory. -/
theorem Sound.address {d : Draft} (h : d.Sound) {x : Definition}
    (hx : x ∈ d.labels.definitions) :
    addressSpace - (d.image.size : Int) ≤ placedAddress x.offset d.image.size
      ∧ placedAddress x.offset d.image.size ≤ addressSpace := by
  have := h.placed x hx
  unfold placedAddress
  omega

/-- An image that fits into memory has room for every address. -/
theorem Sound.fits {d : Draft} (h : d.Sound) (hsize : d.image.size ≤ addressSpace) :
    ∀ w ∈ d.labels.writes d.image.size, w.Fits d.image.size := by
  refine Labels.fits_of_inside hsize (fun r hr => ?_) h.placed
  have hin := h.inside r hr
  omega

theorem Sound.withLog {d : Draft} (h : d.Sound) (log : Array Event) :
    Draft.Sound ⟨d.image, d.labels, log⟩ :=
  ⟨h.inside, h.marked, h.apart, h.placed, h.unique, h.ordered⟩

/-- **Writing the addresses keeps the invariant.** -/
theorem Sound.patched {d : Draft} (h : d.Sound) (log : Array Event) :
    Draft.Sound ⟨Write.applyAll d.image (d.labels.writes d.image.size), d.labels, log⟩ where
  inside := by
    intro r hr
    rw [Write.size_applyAll]
    exact h.inside r hr
  marked := by
    intro r hr
    rw [Write.getElem?_applyAll]
    · exact h.marked r hr
    · -- a write goes into the room of some reference, five bytes away or more
      intro w hw
      obtain ⟨x, hx, r', hr', -, rfl⟩ := Labels.mem_writes.mp hw
      have hin := h.inside r hr
      have hin' := h.inside r' hr'
      simp only
      rcases pairwise_of_mem h.apart hr hr' with rfl | hlt | hlt
      · omega
      · omega
      · omega
  apart := h.apart
  placed := by
    intro x hx
    rw [Write.size_applyAll]
    exact h.placed x hx
  unique := h.unique
  ordered := h.ordered

end Draft

/-! ## Every reachable pass -/

namespace Pass

/-- The states of a pass over a stream: its start, and whatever a step or a whole run leaves
behind, be it a success or not. -/
inductive Reachable (file : RawText) (stream : Stream) (strict : Bool) : Pass → Prop where
  | start {p : Pass} :
      Pass.start file stream strict addressSpace = .ok p → Reachable file stream strict p
  | step {p : Pass} :
      Reachable file stream strict p → Reachable file stream strict (settled p.step)
  | generate {p : Pass} :
      Reachable file stream strict p → Reachable file stream strict (settled p.generate)

/-- The draft fits together, and the pass is bound by the size of memory. -/
structure Sound (p : Pass) : Prop where
  draft : p.draft.Sound
  limit : p.limit = addressSpace

theorem sound_start {file : RawText} {stream : Stream} {strict : Bool} {p : Pass}
    (h : Pass.start file stream strict addressSpace = .ok p) : p.Sound := by
  unfold Pass.start at h
  split at h
  · cases h
  · cases h
    exact ⟨Draft.sound_empty, rfl⟩

theorem sound_step (p : Pass) (h : p.Sound) : (settled p.step).Sound := by
  rcases p.step_cases with ⟨e, c, -, hs⟩ | ⟨c, -, hs⟩ | ⟨_, c, _, _, -, -, -, hs⟩ |
    ⟨t, c, -, hfresh, hs⟩
  · rw [hs]
    exact ⟨h.draft, h.limit⟩
  · rw [hs]
    exact ⟨h.draft, h.limit⟩
  · rw [hs]
    exact ⟨h.draft, h.limit⟩
  · rw [hs]
    exact ⟨h.draft.add hfresh, h.limit⟩

/-- A source that is read to the end leaves a sound pass. -/
theorem Sound.scanned {p p' : Pass} (h : p.Sound) (hs : p.scan = .ok () p') : p'.Sound := by
  have hkept := scan_keeps sound_step p h
  rw [hs] at hkept
  exact hkept

theorem sound_finish {p : Pass} (h : p.Sound) (hsize : p.draft.image.size ≤ addressSpace) :
    (settled p.finish).Sound := by
  unfold finish
  rcases Labels.resolve_cases p.strict (h.draft.fits hsize) with
    ⟨-, r, -, hres⟩ | ⟨-, log, hres⟩
  · -- strict mode stops before anything is written
    rw [hres]
    exact ⟨h.draft.withLog _, h.limit⟩
  · rw [hres]
    exact ⟨h.draft.patched _, h.limit⟩

/-- A run ends while reading, at the size of the image, or in resolving the labels. -/
theorem generate_cases (p : Pass) :
    (∃ e p', p.scan = .error e p' ∧ p.generate = .error (.diagnostic e) p')
      ∨ (∃ p', p.scan = .ok () p' ∧ p'.limit < p'.draft.image.size
        ∧ p.generate = .error
            (.diagnostic ⟨.imageTooLarge p'.draft.image.size p'.limit, none⟩) p')
      ∨ ∃ p', p.scan = .ok () p' ∧ (p'.draft.image.size : Int) ≤ p'.limit
        ∧ p.generate = p'.finish := by
  unfold generate
  cases hscan : p.scan with
  | error e p' => exact Or.inl ⟨e, p', rfl, rfl⟩
  | ok _ p' =>
      dsimp only
      by_cases hbig : p'.limit < p'.draft.image.size
      · rw [if_pos hbig]
        exact Or.inr (Or.inl ⟨p', rfl, hbig, rfl⟩)
      · rw [if_neg hbig]
        exact Or.inr (Or.inr ⟨p', rfl, by omega, rfl⟩)

theorem sound_generate {p : Pass} (h : p.Sound) : (settled p.generate).Sound := by
  rcases p.generate_cases with ⟨e, p', hs, hg⟩ | ⟨p', hs, -, hg⟩ | ⟨p', hs, hle, hg⟩
  · -- whole tokens were put down before the one that failed
    have hkept := scan_keeps sound_step p h
    rw [hs] at hkept
    rw [hg]
    exact hkept
  · rw [hg]
    exact h.scanned hs
  · have hp' := h.scanned hs
    rw [hp'.limit] at hle
    rw [hg]
    exact sound_finish hp' (Int.ofNat_le.mp hle)

theorem Reachable.sound {file : RawText} {stream : Stream} {strict : Bool} {p : Pass}
    (h : Reachable file stream strict p) : p.Sound := by
  induction h with
  | start hp => exact sound_start hp
  | step _ ih => exact sound_step _ ih
  | generate _ ih => exact sound_generate ih

/-- Resolving a draft that fits into memory is stopped by strict mode or not at all. -/
theorem Sound.resolve_error {p : Pass} (h : p.Sound) (hsize : p.draft.image.size ≤ addressSpace)
    {e : Failure} {r : Resolution}
    (he : p.draft.labels.resolve p.strict p.draft.image = .error e r) :
    p.strict = true ∧ ∃ d, e = .diagnostic d ∧ d.cause.category = .undefinedLabel := by
  rcases Labels.resolve_cases p.strict (h.draft.fits hsize) with
    ⟨hs, first, -, hres⟩ | ⟨-, log, hres⟩
  · rw [hres] at he
    cases he
    exact ⟨hs, _, rfl, rfl⟩
  · rw [hres] at he
    cases he

theorem Sound.generate_ne_patch {p : Pass} (h : p.Sound) (e : PatchError) (p₁ : Pass) :
    p.generate ≠ .error (.patch e) p₁ := by
  intro hgen
  rcases p.generate_cases with ⟨_, p', -, hg⟩ | ⟨p', -, -, hg⟩ | ⟨p', hs, hle, hg⟩
  · rw [hg] at hgen
    cases hgen
  · rw [hg] at hgen
    cases hgen
  · have hsound := h.scanned hs
    rw [hsound.limit] at hle
    rw [hg] at hgen
    unfold finish at hgen
    split at hgen
    · next hres =>
      obtain ⟨-, d, rfl, -⟩ := hsound.resolve_error (Int.ofNat_le.mp hle) hres
      cases hgen
    · cases hgen

/--
**In every state of a pass the image, the definitions and the references fit together**, whatever
its stream does and however often it is taken up again. Hence, once the image is known to fit into
memory, every address can be written: only strict mode can stop the resolving of labels.
-/
theorem reachable_passes_fit_together {file : RawText} {stream : Stream} {strict : Bool} {p : Pass}
    (h : Reachable file stream strict p) :
    (∀ r ∈ p.draft.labels.references, 1 ≤ r.offset ∧ r.offset + 4 ≤ p.draft.image.size
        ∧ p.draft.image[(r.offset - 1).toNat]? = some 0x60)
      ∧ (p.draft.labels.references.Pairwise fun a b =>
          a.offset + 4 ≤ b.offset ∨ b.offset + 4 ≤ a.offset)
      ∧ (∀ x ∈ p.draft.labels.definitions, 0 ≤ x.offset ∧ x.offset ≤ p.draft.image.size)
      ∧ (p.draft.labels.definitions.map Definition.name).Nodup
      ∧ (p.draft.labels.definitions.Pairwise fun x y => x.offset ≤ y.offset)
      ∧ (∀ p', p.scan = .ok () p' → p'.draft.image.size ≤ addressSpace →
          (∀ x ∈ p'.draft.labels.definitions,
            addressSpace - (p'.draft.image.size : Int)
                ≤ placedAddress x.offset p'.draft.image.size
              ∧ placedAddress x.offset p'.draft.image.size ≤ addressSpace
              ∧ placedAddress x.offset p'.draft.image.size < 0x100000000)
          ∧ ∀ e r, p'.draft.labels.resolve p'.strict p'.draft.image = .error e r →
              p'.strict = true ∧ ∃ d, e = .diagnostic d ∧ d.cause.category = .undefinedLabel)
      ∧ ∀ e p', p.generate ≠ .error (.patch e) p' := by
  have hsound := h.sound
  have hd := hsound.draft
  refine ⟨fun r hr => ⟨(hd.inside r hr).1, (hd.inside r hr).2, hd.marked r hr⟩, ?_, hd.placed,
    hd.unique, hd.ordered, ?_, hsound.generate_ne_patch⟩
  · exact hd.apart.imp fun hab => Or.inl (by omega)
  · intro p' hscan hsize
    have hsound' := hsound.scanned hscan
    refine ⟨fun x hx => ?_, fun e r => hsound'.resolve_error hsize⟩
    have haddr := hsound'.draft.address hx
    refine ⟨haddr.1, haddr.2, ?_⟩
    unfold addressSpace at haddr
    omega

/-- A reference before a read fault and its label behind it: the pass is taken up again. -/
theorem reachable_passes_fit_together_after_fault :
    ∃ p, Reachable "" ⟨[.byte 0x3B, .byte 0x61, .byte 0x20, .byte 0x20, .fault "", .byte 0x40,
        .byte 0x61], none⟩ false p
      ∧ p.draft.labels.references.map Reference.offset = [1]
      ∧ p.draft.labels.definitions.map Definition.offset = [5]
      ∧ (∀ r ∈ p.draft.labels.references, 1 ≤ r.offset ∧ r.offset + 4 ≤ p.draft.image.size
          ∧ p.draft.image[(r.offset - 1).toNat]? = some 0x60) := by
  have hr : Reachable "" ⟨[.byte 0x3B, .byte 0x61, .byte 0x20, .byte 0x20, .fault "", .byte 0x40,
      .byte 0x61], none⟩ false (settled (settled (Pass.mk ⟨"", 1, 1, some 0x3B, some 0x61, false,
        ⟨[.byte 0x20, .byte 0x20, .fault "", .byte 0x40, .byte 0x61], none⟩⟩ .empty false
        addressSpace []).generate).generate) :=
    .generate (.generate (.start rfl))
  exact ⟨_, hr, by decide +kernel, by decide +kernel, (reachable_passes_fit_together hr).1⟩

end Pass

end RomKit
