import RomKit.Proofs.WrittenText

/-!
# Raw text and its bytes

Raw text has bytes if and only if each of its code points has. In a text that means
that there are characters only (`Utf8.encodeText_eq_ok_iff`). In the name of a file
some surrogates have a byte too, so the names that a command line can hold, and all
names made of their parts, have bytes (`Utf8.exists_encodeName`).
-/

namespace RomKit

/-! ## Characters only -/

namespace RawText

theorem ofString_ofList (cs : List Char) : ofString (String.ofList cs) = cs.map .char := by
  unfold ofString
  rw [String.toList_ofList]

/-- A text of characters has no other code points. -/
theorem exists_string_iff {t : RawText} :
    (∃ s : String, t = s) ↔ ∀ c ∈ t, ∃ ch, c = CodePoint.char ch := by
  constructor
  · rintro ⟨s, rfl⟩ c hc
    obtain ⟨ch, -, rfl⟩ := List.mem_map.mp hc
    exact ⟨ch, rfl⟩
  · intro h
    induction t with
    | nil => exact ⟨"", rfl⟩
    | cons c t ih =>
        obtain ⟨ch, rfl⟩ := h c List.mem_cons_self
        obtain ⟨s, rfl⟩ := ih fun c hc => h c (List.mem_cons_of_mem _ hc)
        refine ⟨String.ofList (ch :: s.toList), ?_⟩
        rw [ofString_ofList]
        rfl

/-- The parts of a text of characters are texts of characters. -/
theorem exists_string_of_subset {t t' : RawText} (h : ∃ s : String, t = s) (hsub : t' ⊆ t) :
    ∃ s : String, t' = s :=
  exists_string_iff.mpr fun c hc => exists_string_iff.mp h c (hsub hc)

theorem intercalate_ofString (separator : String) (texts : List String) :
    List.intercalate (ofString separator) (texts.map ofString)
      = ofString (separator.intercalate texts) := by
  induction texts with
  | nil => rfl
  | cons s texts ih =>
      cases texts with
      | nil => simp
      | cons next later =>
          rw [String.intercalate_cons_cons, ofString_append, ofString_append, ← ih, List.map_cons,
            List.map_cons, List.intercalate_cons_cons]

end RawText

/-! ## Bytes -/

namespace Utf8

variable {escaped : Fin 0x800 → Option UInt8} {t : RawText} {bytes : List UInt8}

/-- The bytes of a code point. -/
def pointBytes? (escaped : Fin 0x800 → Option UInt8) : CodePoint → Option (List UInt8)
  | .char c => some (String.utf8EncodeChar c)
  | .surrogate i => (escaped i).map ([·])

theorem encodeFrom_cons_of_some {c : CodePoint} {own : List UInt8}
    (h : pointBytes? escaped c = some own) (position : Nat) :
    encodeFrom escaped position (c :: t)
      = (encodeFrom escaped (position + 1) t).map (own ++ ·) := by
  cases c with
  | char ch =>
      cases h
      rw [encodeFrom]
      cases encodeFrom escaped (position + 1) t <;> rfl
  | surrogate i =>
      obtain ⟨b, hb, rfl⟩ := Option.map_eq_some_iff.mp h
      rw [encodeFrom, hb]
      dsimp only
      cases encodeFrom escaped (position + 1) t <;> rfl

theorem encodeFrom_cons_of_none {c : CodePoint} (h : pointBytes? escaped c = none)
    (position : Nat) : encodeFrom escaped position (c :: t) ≠ .ok bytes := by
  cases c with
  | char ch => cases h
  | surrogate i =>
      rw [encodeFrom, Option.map_eq_none_iff.mp h]
      intro hok
      cases hok

/-- **Raw text has the bytes of its code points**, if each of them has bytes. -/
theorem encodeFrom_eq_ok_iff {position : Nat} :
    encodeFrom escaped position t = .ok bytes
      ↔ (∀ c ∈ t, (pointBytes? escaped c).isSome)
        ∧ bytes = t.flatMap fun c => (pointBytes? escaped c).getD [] := by
  induction t generalizing position bytes with
  | nil =>
      rw [encodeFrom, Except.ok.injEq]
      exact ⟨fun h => ⟨List.forall_mem_nil _, h.symm⟩, fun h => h.2.symm⟩
  | cons c t ih =>
      rw [List.forall_mem_cons, List.flatMap_cons]
      cases hown : pointBytes? escaped c with
      | none =>
          constructor
          · intro h
            exact absurd h (encodeFrom_cons_of_none hown position)
          · rintro ⟨⟨hsome, -⟩, -⟩
            cases hsome
      | some own =>
          rw [encodeFrom_cons_of_some hown]
          constructor
          · intro h
            cases hmore : encodeFrom escaped (position + 1) t with
            | error fault =>
                rw [hmore] at h
                cases h
            | ok more =>
                rw [hmore] at h
                cases h
                obtain ⟨hall, rfl⟩ := ih.mp hmore
                exact ⟨⟨rfl, hall⟩, rfl⟩
          · rintro ⟨⟨-, hall⟩, rfl⟩
            rw [ih.mpr ⟨hall, rfl⟩]
            rfl

theorem encodeText_ofString (s : String) : encodeText s = .ok (encode s) := by
  refine encodeFrom_eq_ok_iff.mpr ⟨fun c hc => ?_, ?_⟩
  · obtain ⟨ch, -, rfl⟩ := List.mem_map.mp hc
    rfl
  · unfold RawText.ofString
    rw [List.flatMap_map]
    rfl

/-- **Only texts of characters have bytes.** -/
theorem encodeText_eq_ok_iff :
    encodeText t = .ok bytes ↔ ∃ s : String, t = s ∧ bytes = encode s := by
  constructor
  · intro h
    have hpoints := (encodeFrom_eq_ok_iff.mp h).1
    have hchars : ∀ c ∈ t, ∃ ch, c = CodePoint.char ch := by
      intro c hc
      cases c with
      | char ch => exact ⟨ch, rfl⟩
      | surrogate i => exact absurd (hpoints _ hc) (by simp [pointBytes?])
    obtain ⟨s, rfl⟩ := RawText.exists_string_iff.mpr hchars
    rw [encodeText_ofString] at h
    exact ⟨s, rfl, (Except.ok.inj h).symm⟩
  · rintro ⟨s, rfl, rfl⟩
    exact encodeText_ofString s

theorem exists_encodeText_iff : (∃ bytes, encodeText t = .ok bytes) ↔ ∃ s : String, t = s := by
  constructor
  · rintro ⟨bytes, h⟩
    obtain ⟨s, hs, -⟩ := encodeText_eq_ok_iff.mp h
    exact ⟨s, hs⟩
  · rintro ⟨s, rfl⟩
    exact ⟨_, encodeText_ofString s⟩

theorem exists_fault_iff : (∃ fault, encodeText t = .error fault) ↔ ¬∃ s : String, t = s := by
  rw [← exists_encodeText_iff]
  cases encodeText t <;> simp

/-- Texts are written to the end if and only if they are texts of characters. -/
theorem encodeTexts_eq_none_iff {texts : List RawText} :
    (encodeTexts texts).2 = none ↔ ∀ t ∈ texts, ∃ s : String, t = s := by
  induction texts with
  | nil => exact ⟨fun _ => List.forall_mem_nil _, fun _ => rfl⟩
  | cons t texts ih =>
      rw [List.forall_mem_cons, ← ih, ← exists_encodeText_iff, encodeTexts]
      cases encodeText t <;> simp

/-- Texts of characters are written whole. -/
theorem encodeTexts_ofString (texts : List String) :
    encodeTexts (texts.map RawText.ofString) = (encode (String.join texts), none) := by
  induction texts with
  | nil => rfl
  | cons s texts ih =>
      rw [List.map_cons, encodeTexts, encodeText_ofString, ih, String.join_cons]
      simp [encode]

/-! ## Names of files -/

theorem pointBytes_ne_nil {c : CodePoint} (h : (pointBytes? escaped c).isSome) :
    (pointBytes? escaped c).getD [] ≠ [] := by
  cases c with
  | char ch => exact String.utf8EncodeChar_ne_nil
  | surrogate i =>
      change ((escaped i).map ([·])).isSome = true at h
      show ((escaped i).map ([·])).getD [] ≠ []
      cases hi : escaped i with
      | none =>
          rw [hi] at h
          cases h
      | some b => exact List.cons_ne_nil _ _

/-- Only the empty name has no bytes at all. -/
theorem encodeName_ne_nil (h : encodeName t = .ok bytes) (ht : t ≠ []) : bytes ≠ [] := by
  obtain ⟨hpoints, rfl⟩ := encodeFrom_eq_ok_iff.mp h
  obtain ⟨c, rest, rfl⟩ := List.exists_cons_of_ne_nil ht
  rw [List.flatMap_cons]
  intro hnil
  exact pointBytes_ne_nil (hpoints c List.mem_cons_self) (List.append_eq_nil_iff.mp hnil).1

/-- What is left out of a name is left out of its bytes. -/
theorem encodeName_of_sublist {t' : RawText} (hsub : List.Sublist t' t)
    (h : encodeName t = .ok bytes) :
    ∃ bytes', encodeName t' = .ok bytes' ∧ List.Sublist bytes' bytes := by
  obtain ⟨hpoints, rfl⟩ := encodeFrom_eq_ok_iff.mp h
  refine ⟨_, encodeFrom_eq_ok_iff.mpr ⟨fun c hc => hpoints c (hsub.subset hc), rfl⟩, ?_⟩
  clear h hpoints
  induction hsub with
  | slnil => exact List.Sublist.refl _
  | cons c _ ih =>
      rw [List.flatMap_cons]
      exact ih.trans (List.sublist_append_right _ _)
  | cons_cons c _ ih =>
      rw [List.flatMap_cons, List.flatMap_cons]
      exact (List.Sublist.refl _).append ih

end Utf8

/-- A code point that a word of a command line may hold: a character but the one of value zero, or a
surrogate that stands for a byte. -/
def CodePoint.InWord : CodePoint → Prop
  | .char c => c ≠ '\x00'
  | .surrogate i => (Utf8.escapedByte? i).isSome

instance : DecidablePred CodePoint.InWord
  | .char c => inferInstanceAs (Decidable (c ≠ '\x00'))
  | .surrogate i => inferInstanceAs (Decidable ((Utf8.escapedByte? i).isSome = true))

namespace Utf8

variable {t : RawText}

theorem escapedByte?_ne_zero {i : Fin 0x800} {b : UInt8} (h : escapedByte? i = some b) :
    0 ≠ b := by
  unfold escapedByte? at h
  split at h
  · next hrange =>
    have hbyte : (UInt8.ofNat (i.val - 0x400)).toNat = i.val - 0x400 :=
      UInt8.toNat_ofNat_of_lt' (show i.val - 0x400 < 256 by omega)
    rw [Option.some.inj h] at hbyte
    intro hzero
    have hnat : b.toNat = 0 := congrArg UInt8.toNat hzero.symm
    omega
  · cases h

theorem zero_notMem_pointBytes {c : CodePoint} (h : c.InWord) :
    (pointBytes? escapedByte? c).isSome ∧ 0 ∉ (pointBytes? escapedByte? c).getD [] := by
  cases c with
  | char ch =>
      refine ⟨rfl, fun hmem => ?_⟩
      have hsingle : (0 : UInt8) ∉ encode (String.ofList [ch]) :=
        not_mem_encode (c := '\x00') (by decide)
          (by rw [String.toList_ofList]; simpa using Ne.symm h)
      refine hsingle ?_
      unfold encode
      rw [String.toList_ofList, List.flatMap_singleton]
      exact hmem
  | surrogate i =>
      obtain ⟨b, hb⟩ := Option.isSome_iff_exists.mp h
      refine ⟨by simp [pointBytes?, hb], ?_⟩
      show 0 ∉ ((escapedByte? i).map ([·])).getD []
      rw [hb, Option.map_some, Option.getD_some, List.mem_singleton]
      exact escapedByte?_ne_zero hb

/-- **What can stand on a command line is good for a name**: it has bytes, and none is zero. -/
theorem exists_encodeName (h : ∀ c ∈ t, c.InWord) :
    ∃ bytes, encodeName t = .ok bytes ∧ 0 ∉ bytes := by
  refine ⟨_, encodeFrom_eq_ok_iff.mpr ⟨fun c hc => (zero_notMem_pointBytes (h c hc)).1, rfl⟩, ?_⟩
  intro hmem
  obtain ⟨c, hc, hzero⟩ := List.mem_flatMap.mp hmem
  exact (zero_notMem_pointBytes (h c hc)).2 hzero

end Utf8

end RomKit
