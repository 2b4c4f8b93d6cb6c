import RomKit.Proofs.TwoPass

/-!
# What a run that fails leaves behind

Every production makes all moves and checks that can fail before it changes the image
or the label table (`produce_eq_read_put`). So a step that fails leaves the draft as it
was, and reading to the end, whether it succeeds or not, does nothing to a draft but put
down whole tokens (`reads_scan`).

Addresses are written only at the very end. What can still fail then, the size of
the image and a name without definition in strict mode, is looked at before the
first write. Hence the bytes that were there before a run that fails are there
after it, and every address that the run would have written is still zero.
-/

namespace RomKit

/-! ## Items in a row -/

section

variable {items before after : List Item} {i : Item}

theorem offset_of_laid : ∀ {offset : Nat}, Laid offset (before ++ i :: after) →
    i.offset = offset + TwoPass.length before := by
  induction before with
  | nil => intro offset h; exact h.1
  | cons j before ih =>
      intro offset h
      rw [ih h.2, Nat.add_assoc]
      rfl

theorem Draft.size_addAll (items : List Item) : ∀ d : Draft,
    (d.addAll items).image.size = d.image.size + TwoPass.length items := by
  induction items with
  | nil => intro d; rfl
  | cons i items ih =>
      intro d
      show ((d.add i).addAll items).image.size = _
      rw [ih, size_add, Nat.add_assoc]
      rfl

/-- Behind the control byte of a reference that was put down stand four zeros. -/
theorem Draft.getElem?_addAll_reference {d : Draft} {r : Reference} {k : Nat}
    (h : Laid d.image.size items) (hr : r ∈ items.filterMap Item.reference?)
    (hlow : r.offset ≤ k) (hhigh : k < r.offset + 4) :
    (d.addAll items).image[k]? = some 0 := by
  obtain ⟨i, hi, hir⟩ := List.mem_filterMap.mp hr
  obtain ⟨name, hname, rfl⟩ := Option.map_eq_some_iff.mp hir
  obtain ⟨before, after, rfl⟩ := List.append_of_mem hi
  have hoffset := offset_of_laid h
  have hsize := size_addAll before d
  rw [← Array.length_toList, toList_image_addAll] at hsize
  simp only at hlow hhigh
  rw [← Array.getElem?_toList, toList_image_addAll, List.flatMap_append, List.flatMap_cons,
    Token.refersTo?_eq_some.mp hname, ← List.append_assoc,
    List.getElem?_append_right (by omega), hsize]
  -- the control byte is at the offset of the item, the zeros come next
  have hplace : k - (d.image.size + TwoPass.length before) = 1
      ∨ k - (d.image.size + TwoPass.length before) = 2
      ∨ k - (d.image.size + TwoPass.length before) = 3
      ∨ k - (d.image.size + TwoPass.length before) = 4 := by
    omega
  rcases hplace with hk | hk | hk | hk
  · rw [hk]; rfl
  · rw [hk]; rfl
  · rw [hk]; rfl
  · rw [hk]; rfl

/-- Items that are put down leave the bytes that were there. -/
theorem Draft.getElem?_addAll_of_lt {d : Draft} {k : Nat} (h : k < d.image.size) :
    (d.addAll items).image[k]? = d.image[k]? := by
  rw [← Array.getElem?_toList, toList_image_addAll, List.getElem?_append_left (by simpa using h),
    Array.getElem?_toList]

end

namespace Pass

/-! ## Steps -/

/-- **A step that fails leaves the draft as it was**, and so does one at the end of the source. -/
theorem draft_of_idle_step {p : Pass} (h : ∀ q, p.step ≠ .ok true q) :
    (settled p.step).draft = p.draft ∧ (settled p.step).unused = p.unused := by
  rcases p.step_cases with ⟨_, _, -, hs⟩ | ⟨_, -, hs⟩ | ⟨_, _, _, _, -, -, -, hs⟩ |
    ⟨_, _, -, -, hs⟩
  · rw [hs]
    exact ⟨rfl, rfl⟩
  · rw [hs]
    exact ⟨rfl, rfl⟩
  · rw [hs]
    exact ⟨rfl, rfl⟩
  · exact absurd hs (h _)

/-- **Any other step puts down the token that it reads.** -/
theorem draft_of_step_true {p p' : Pass} (h : p.step = .ok true p') :
    p'.unused = p.unused ∧ ∃ t c, Token.scan p.cursor = .ok (some t) c
      ∧ p'.draft = p.draft.add ⟨t, p.draft.image.size, p.cursor.location⟩ := by
  obtain ⟨t, c, hread, rfl⟩ := step_eq_true h
  exact ⟨rfl, t, c, hread, rfl⟩

/-! ## Runs -/

/-- Steps that succeed lead from one state of a pass to another, and put down these items. -/
inductive Reads : Pass → List Item → Pass → Prop where
  | nil (p : Pass) : Reads p [] p
  | cons {p q r : Pass} {t : Token} {c : Cursor} {items : List Item} :
      Token.scan p.cursor = .ok (some t) c → p.step = .ok true q → Reads q items r →
      Reads p (⟨t, p.draft.image.size, p.cursor.location⟩ :: items) r

theorem Reads.effect {p q : Pass} {items : List Item} (h : Reads p items q) :
    Laid p.draft.image.size items ∧ q.draft = p.draft.addAll items ∧ q.unused = p.unused := by
  induction h with
  | nil p => exact ⟨trivial, rfl, rfl⟩
  | cons hread hs _ ih =>
      obtain ⟨hlaid, hdraft, hunused⟩ := ih
      obtain ⟨hunused', t', c', hread', hdraft'⟩ := draft_of_step_true hs
      rw [hread] at hread'
      cases hread'
      rw [hdraft', Draft.size_add] at hlaid
      rw [hdraft'] at hdraft
      exact ⟨⟨rfl, hlaid⟩, hdraft, hunused.trans hunused'⟩

/-- **Reading puts down whole tokens**, up to the end of the source or to its first error. -/
theorem reads_scan (p : Pass) :
    ∃ items q, Reads p items q ∧ (settled p.scan).draft = q.draft
      ∧ (settled p.scan).unused = q.unused := by
  -- along the recursion: a failing step, the end of the source, one more token
  induction p using scan.induct with
  | case1 p e p' h =>
      have hidle := draft_of_idle_step fun q hq => by cases h.symm.trans hq
      rw [h] at hidle
      rw [scan_eq, h]
      exact ⟨[], p, .nil p, hidle⟩
  | case2 p p' h =>
      have hidle := draft_of_idle_step fun q hq => by cases h.symm.trans hq
      rw [h] at hidle
      rw [scan_eq, h]
      exact ⟨[], p, .nil p, hidle⟩
  | case3 p p' h ih =>
      obtain ⟨items, q, hreads, hdraft, hunused⟩ := ih
      obtain ⟨-, t, c, hread, -⟩ := draft_of_step_true h
      rw [scan_eq, h]
      exact ⟨_, q, .cons hread h hreads, hdraft, hunused⟩

/-- **A run that fails has only read.** Labels are resolved only when nothing can fail any more. -/
theorem Sound.draft_of_generate_error {p p' : Pass} {e : Failure} (h : p.Sound)
    (hgen : p.generate = .error e p') :
    p'.draft = (settled p.scan).draft ∧ p'.unused = (settled p.scan).unused := by
  rcases p.generate_cases with ⟨_, q, hs, hg⟩ | ⟨q, hs, -, hg⟩ | ⟨q, hs, hle, hg⟩
  · rw [hg] at hgen
    cases hgen
    rw [hs]
    exact ⟨rfl, rfl⟩
  · rw [hg] at hgen
    cases hgen
    rw [hs]
    exact ⟨rfl, rfl⟩
  · have hq := h.scanned hs
    rw [hq.limit] at hle
    rw [hg] at hgen
    unfold finish at hgen
    rcases Labels.resolve_cases q.strict (hq.draft.fits (Int.ofNat_le.mp hle)) with
      ⟨-, r, -, hres⟩ | ⟨-, log, hres⟩
    · -- strict mode looks for definitions before it writes
      rw [hres] at hgen
      cases hgen
      rw [hs]
      refine ⟨?_, rfl⟩
      show ({ q.draft with log := q.draft.log ++ #[] } : Draft) = q.draft
      rw [Array.append_empty]
    · rw [hres] at hgen
      cases hgen

/--
**A run that fails leaves only whole tokens behind and writes no address.** In every state of a pass
over any stream: a step that fails leaves the image and the labels as they were; a step that
succeeds only appends to the image, and records one definition or one reference at most; and a run
that fails, for whatever reason, leaves the image and the labels as some steps that succeed leave
them. The bytes that it found are unchanged, the addresses of all references that it added are
zero, and the warnings are those of the last success.
-/
theorem failed_run_leaves_whole_tokens {file : RawText} {stream : Stream} {strict : Bool} {p : Pass}
    (h : Reachable file stream strict p) :
    (∀ e p', p.step = .error e p' →
        p'.draft.image = p.draft.image ∧ p'.draft.labels = p.draft.labels
          ∧ p'.unused = p.unused)
      ∧ (∀ more p', p.step = .ok more p' →
          p.draft.image.toList <+: p'.draft.image.toList
            ∧ ∃ definitions references,
              p'.draft.labels.definitions = p.draft.labels.definitions ++ definitions
              ∧ p'.draft.labels.references = p.draft.labels.references ++ references
              ∧ definitions.length + references.length ≤ 1)
      ∧ ∀ e p', p.generate = .error e p' →
          ∃ items q, Reads p items q
            ∧ p'.draft.image = q.draft.image ∧ p'.draft.labels = q.draft.labels
            ∧ (∀ k, k < p.draft.image.size → p'.draft.image[k]? = p.draft.image[k]?)
            ∧ (∃ added, p'.draft.labels.references = p.draft.labels.references ++ added
                ∧ ∀ r ∈ added, ∀ k : Nat, r.offset ≤ k → k < r.offset + 4 →
                  p'.draft.image[k]? = some 0)
            ∧ p'.unused = p.unused := by
  refine ⟨fun e p' hs => ?_, fun more p' hs => ?_, fun e p' hgen => ?_⟩
  · have hidle := draft_of_idle_step fun q hq => by cases hs.symm.trans hq
    rw [hs] at hidle
    obtain ⟨hdraft, hunused⟩ := hidle
    exact ⟨congrArg Draft.image hdraft, congrArg Draft.labels hdraft, hunused⟩
  · cases more with
    | false =>
        have hidle := draft_of_idle_step fun q hq => by cases hs.symm.trans hq
        rw [hs] at hidle
        rw [show p'.draft = p.draft from hidle.1]
        exact ⟨List.prefix_refl _, [], [], by simp, by simp, by simp⟩
    | true =>
        obtain ⟨-, t, c, -, hdraft⟩ := draft_of_step_true hs
        rw [hdraft, Draft.toList_image_add]
        refine ⟨List.prefix_append _ _, _, _, rfl, rfl, ?_⟩
        -- no token is both a definition and a reference
        unfold Item.definition? Item.reference?
        cases t <;> simp [Token.defines?, Token.refersTo?]
  · obtain ⟨hdraft, hunused⟩ := h.sound.draft_of_generate_error hgen
    obtain ⟨items, q, hreads, hdraft', hunused'⟩ := p.reads_scan
    obtain ⟨hlaid, heffect, hkept⟩ := hreads.effect
    refine ⟨items, q, hreads, ?_⟩
    rw [hunused, hunused', hkept, hdraft, hdraft', heffect]
    exact ⟨rfl, rfl, fun k hk => Draft.getElem?_addAll_of_lt hk,
      ⟨_, Draft.references_addAll _ _, fun r hr k => Draft.getElem?_addAll_reference hlaid hr⟩, rfl⟩

/-- The source `;a @a 0`: a reference, its label, and a number of one digit. -/
def cutNumber : List UInt8 :=
  [0x3B, 0x61, 0x20, 0x40, 0x61, 0x20, 0x30]

/-- The run fails at the number, when the reference and the label have been put down, and the
address of the label is not written. -/
theorem failed_run_leaves_whole_tokens_cutNumber :
    ∃ e p', (fresh "" cutNumber false).generate = .error e p'
      ∧ p'.draft.labels.references.map Reference.offset = [1]
      ∧ p'.draft.labels.definitions.map Definition.offset = [5]
      ∧ p'.draft.image.toList = [0x60, 0, 0, 0, 0]
      ∧ ∃ items q, Reads (fresh "" cutNumber false) items q
          ∧ p'.draft.image = q.draft.image ∧ p'.draft.labels = q.draft.labels := by
  have hr : Reachable "" (.ofBytes cutNumber) false (fresh "" cutNumber false) :=
    .start (start_ofBytes "" cutNumber false)
  have hfails : (match (fresh "" cutNumber false).generate with
      | .ok _ _ => false
      | .error _ _ => true) = true := by decide +kernel
  have hleft : (settled (fresh "" cutNumber false).generate).draft.labels.references.map
        Reference.offset = [1]
      ∧ (settled (fresh "" cutNumber false).generate).draft.labels.definitions.map
        Definition.offset = [5]
      ∧ (settled (fresh "" cutNumber false).generate).draft.image.toList
        = [0x60, 0, 0, 0, 0] := by decide +kernel
  cases hgen : (fresh "" cutNumber false).generate with
  | ok image p' =>
      rw [hgen] at hfails
      cases hfails
  | error e p' =>
      obtain ⟨items, q, hreads, himage, hlabels, -⟩ :=
        (failed_run_leaves_whole_tokens hr).2.2 e p' hgen
      rw [hgen] at hleft
      exact ⟨e, p', rfl, hleft.1, hleft.2.1, hleft.2.2, items, q, hreads, himage, hlabels⟩

end Pass

end RomKit
