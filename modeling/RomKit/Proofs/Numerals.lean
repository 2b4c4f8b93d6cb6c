import Mathlib.Data.List.Induction
import Mathlib.Data.List.TakeWhile
import RomKit.Proofs.WrittenText
import RomKit.Text.Hex
import RomKit.Text.Numeral

/-!
# Numerals and their values

A number is written with its digits, in either letter case and with any zeros in front
(`Numeral.Writes`). Every run of digits writes one number, which is its value
(`Numeral.writes_iff`), and it is read as that number, with or without a minus before it
(`Numeral.read_of_writes`, `Numeral.read_of_minus`). Addresses are written in such digits, so every
address is read back as it was written (`Numeral.read_address`).
-/

namespace RomKit

namespace Numeral

/-! ## Values of digits -/

/-- Where the digits of bases up to sixteen lie. -/
theorem bounds_of_isDigit {base : Nat} {c : Char} (hbase : base ≤ 16)
    (h : isDigit base c = true) :
    (48 ≤ c.toNat ∧ c.toNat ≤ 57) ∨ (97 ≤ c.toNat ∧ c.toNat ≤ 102)
      ∨ (65 ≤ c.toNat ∧ c.toNat ≤ 70) := by
  simp only [isDigit, digitValue?, Bool.and_eq_true, decide_eq_true_eq] at h
  by_cases hnine : 48 ≤ c.toNat ∧ c.toNat ≤ 57
  · exact .inl hnine
  rw [if_neg hnine] at h
  by_cases hlower : 97 ≤ c.toNat ∧ c.toNat ≤ 122
  · rw [if_pos hlower] at h
    simp only [decide_eq_true_eq] at h
    omega
  rw [if_neg hlower] at h
  by_cases hupper : 65 ≤ c.toNat ∧ c.toNat ≤ 90
  · rw [if_pos hupper] at h
    simp only [decide_eq_true_eq] at h
    omega
  · rw [if_neg hupper] at h
    cases h

theorem isDigit_mono {base base' : Nat} {c : Char} (hbase : base ≤ base')
    (h : isDigit base c = true) : isDigit base' c = true := by
  unfold isDigit at h ⊢
  cases hvalue : digitValue? c with
  | none =>
      rw [hvalue] at h
      cases h
  | some d =>
      rw [hvalue] at h
      exact decide_eq_true (Nat.lt_of_lt_of_le (of_decide_eq_true h) hbase)

theorem ne_of_isDigit {base : Nat} {c d : Char} (hbase : base ≤ 16) (h : isDigit base c = true)
    (hd : isDigit 16 d = false) : c ≠ d := by
  rintro rfl
  rw [isDigit_mono hbase h] at hd
  cases hd

theorem not_isBlank_of_isDigit {base : Nat} {c : Char} (hbase : base ≤ 16)
    (h : isDigit base c = true) : Text.isBlank c = false := by
  have hc := bounds_of_isDigit hbase h
  simp only [Text.isBlank, Bool.or_eq_false_iff, Bool.and_eq_false_iff, decide_eq_false_iff_not,
    beq_eq_false_iff_ne]
  omega

theorem valueOf_append_digit (base : Nat) (ds : List Char) (c : Char) :
    valueOf base (ds ++ [c]) = valueOf base ds * base + (digitValue? c).getD 0 := by
  rw [valueOf, List.foldl_append]
  rfl

/-- Zeros in front change nothing. -/
theorem valueOf_zeros_append (base k : Nat) (ds : List Char) :
    valueOf base (List.replicate k '0' ++ ds) = valueOf base ds := by
  induction k with
  | zero => rfl
  | succ k ih =>
      rw [List.replicate_succ, List.cons_append, ← ih]
      show List.foldl _ (0 * base + 0) _ = _
      rw [Nat.zero_mul]
      rfl

theorem digitValue?_toLower (c : Char) : digitValue? c.toLower = digitValue? c := by
  unfold Char.toLower
  split
  · next h =>
    have hlow : 65 ≤ c.toNat := UInt32.le_iff_toNat_le.mp h.1
    have hhigh : c.toNat ≤ 90 := UInt32.le_iff_toNat_le.mp h.2
    have hlower : (c.val + ('a'.val - 'A'.val)).toNat = c.toNat + 32 := by
      rw [UInt32.toNat_add]
      show (c.toNat + 32) % 4294967296 = _
      omega
    unfold digitValue?
    rw [show Char.toNat ⟨_, _⟩ = _ from hlower]
    simp only [Bool.and_eq_true, decide_eq_true_eq]
    rw [if_neg (by omega), if_pos (by omega), if_neg (by omega), if_neg (by omega),
      if_pos (by omega)]
    exact congrArg some (by omega)
  · rfl

theorem isDigit_toLower (base : Nat) (c : Char) : isDigit base c.toLower = isDigit base c := by
  rw [isDigit, digitValue?_toLower, isDigit]

theorem valueOf_map_toLower (base : Nat) (ds : List Char) :
    valueOf base (ds.map Char.toLower) = valueOf base ds := by
  simp only [valueOf, List.foldl_map, digitValue?_toLower]

theorem digitValue?_digitChar : ∀ d < 16, digitValue? (Nat.digitChar d) = some d := by
  decide

/-- In lower case, a digit is the one that its value is written with. -/
theorem toLower_of_isDigit {base : Nat} {c : Char} (hbase : base ≤ 16)
    (h : isDigit base c = true) :
    ∃ d < base, digitValue? c = some d ∧ c.toLower = Nat.digitChar d := by
  have hall : ∀ k < 103, isDigit 16 (Char.ofNat k) = true →
      (Char.ofNat k).toLower = Nat.digitChar ((digitValue? (Char.ofNat k)).getD 0) := by
    decide
  have hc := bounds_of_isDigit hbase h
  have hlower := hall c.toNat (by omega)
  rw [Char.ofNat_toNat] at hlower
  have hlower' := hlower (isDigit_mono hbase h)
  unfold isDigit at h
  cases hvalue : digitValue? c with
  | none =>
      rw [hvalue] at h
      cases h
  | some d =>
      rw [hvalue] at h hlower'
      exact ⟨d, of_decide_eq_true h, rfl, hlower'⟩

/-! ## Written numbers -/

/-- The digits write a number: they are its digits in either letter case, with any zeros in
front. -/
def Writes (base n : Nat) (ds : List Char) : Prop :=
  ∃ zeros, ds.map Char.toLower = List.replicate zeros '0' ++ Nat.toDigits base n

section

variable {base n : Nat} {ds : List Char}

/-- The digits of a number are characters for digits of the base, and their value is the number. -/
theorem digits_toDigits (hlow : 1 < base) (hhigh : base ≤ 16) (n : Nat) :
    (∀ c ∈ Nat.toDigits base n, ∃ d < base, c = Nat.digitChar d)
      ∧ valueOf base (Nat.toDigits base n) = n := by
  induction n using Nat.strongRecOn with
  | ind n ih =>
    by_cases hn : n < base
    · rw [Nat.toDigits_of_lt_base hn]
      refine ⟨List.forall_mem_singleton.mpr ⟨n, hn, rfl⟩, ?_⟩
      show 0 * base + (digitValue? (Nat.digitChar n)).getD 0 = n
      rw [digitValue?_digitChar n (by omega), Option.getD_some]
      omega
    · obtain ⟨hdigits, hvalue⟩ := ih (n / base) (Nat.div_lt_self (by omega) hlow)
      have hlast : n % base < base := Nat.mod_lt _ (by omega)
      rw [Nat.toDigits_of_base_le hlow (by omega)]
      refine ⟨fun c hc => ?_, ?_⟩
      · rcases List.mem_append.mp hc with h | h
        · exact hdigits c h
        · exact ⟨_, hlast, List.mem_singleton.mp h⟩
      · rw [valueOf_append_digit, hvalue, digitValue?_digitChar _ (by omega), Option.getD_some]
        exact Nat.div_add_mod' n base

theorem isDigit_digitChar {d : Nat} (hd : d < base) (hhigh : base ≤ 16) :
    isDigit base (Nat.digitChar d) = true := by
  rw [isDigit, digitValue?_digitChar d (by omega)]
  exact decide_eq_true hd

theorem Writes.digits (h : Writes base n ds) (hlow : 1 < base) (hhigh : base ≤ 16) :
    ds ≠ [] ∧ (∀ c ∈ ds, isDigit base c = true) ∧ valueOf base ds = n := by
  obtain ⟨zeros, hds⟩ := h
  obtain ⟨hdigits, hvalue⟩ := digits_toDigits hlow hhigh n
  refine ⟨?_, fun c hc => ?_, ?_⟩
  · rintro rfl
    exact Nat.toDigits_ne_nil (List.append_eq_nil_iff.mp hds.symm).2
  · have hmem : c.toLower ∈ List.replicate zeros '0' ++ Nat.toDigits base n :=
      hds ▸ List.mem_map_of_mem hc
    rw [← isDigit_toLower]
    rcases List.mem_append.mp hmem with hzero | hdigit
    · rw [List.eq_of_mem_replicate hzero]
      exact isDigit_mono hlow (by decide : isDigit 2 '0' = true)
    · obtain ⟨d, hd, heq⟩ := hdigits _ hdigit
      rw [heq]
      exact isDigit_digitChar hd hhigh
  · rw [← valueOf_map_toLower, hds, valueOf_zeros_append, hvalue]

/-- Written digits have no blank among them. -/
theorem Writes.solid (h : Writes base n ds) (hlow : 1 < base) (hhigh : base ≤ 16) : Text.Solid ds :=
  fun c hc => not_isBlank_of_isDigit hhigh ((h.digits hlow hhigh).2.1 c hc)

/-- A digit more writes the base times the number, and the digit. -/
theorem Writes.snoc {c : Char} {d : Nat} (h : Writes base n ds) (hlow : 1 < base) (hd : d < base)
    (hc : c.toLower = Nat.digitChar d) : Writes base (base * n + d) (ds ++ [c]) := by
  obtain ⟨zeros, hds⟩ := h
  rw [Writes, List.map_append, List.map_singleton, hds, hc, List.append_assoc,
    ← Nat.toDigits_of_lt_base hd]
  by_cases hn : n = 0
  · -- the digit of zero becomes one more zero in front
    subst hn
    refine ⟨zeros + 1, ?_⟩
    rw [List.replicate_succ', List.append_assoc, Nat.mul_zero, Nat.zero_add,
      Nat.toDigits_of_lt_base (show 0 < base by omega)]
    rfl
  · exact ⟨zeros, by rw [Nat.toDigits_append_toDigits hlow (by omega) hd]⟩

/-- **Digits write the number that is their value**, so every run of digits writes one. -/
theorem writes_iff (hlow : 1 < base) (hhigh : base ≤ 16) :
    Writes base n ds ↔ ds ≠ [] ∧ (∀ c ∈ ds, isDigit base c = true) ∧ valueOf base ds = n := by
  refine ⟨fun h => h.digits hlow hhigh, ?_⟩
  rintro ⟨hne, hdigits, rfl⟩
  -- from the first digit on, one more at a time
  induction ds using List.reverseRecOn with
  | nil => exact absurd rfl hne
  | append_singleton ds c ih =>
      obtain ⟨d, hd, hvalue, hlower⟩ := toLower_of_isDigit hhigh (hdigits c (by simp))
      rw [valueOf_append_digit, hvalue, Option.getD_some, Nat.mul_comm]
      by_cases hds : ds = []
      · subst hds
        refine ⟨0, ?_⟩
        rw [List.nil_append, List.map_singleton, hlower, ← Nat.toDigits_of_lt_base hd]
        show _ = Nat.toDigits base (base * 0 + d)
        rw [Nat.mul_zero, Nat.zero_add]
      · exact (ih hds fun c' hc' => hdigits c' (List.mem_append_left _ hc')).snoc hlow hd hlower

end

/-! ## Reading digits -/

theorem wellGrouped_of_no_underscore {cs : List Char} (h : '_' ∉ cs) : wellGrouped cs = true := by
  induction cs with
  | nil => rfl
  | cons c cs ih =>
      have hc : c ≠ '_' := fun heq => h (heq ▸ List.mem_cons_self)
      have htail := ih fun hmem => h (List.mem_cons_of_mem _ hmem)
      cases cs with
      | nil => rw [wellGrouped]; exact hc
      | cons d cs =>
          have hd : d ≠ '_' :=
            fun heq => h (heq ▸ List.mem_cons_of_mem _ List.mem_cons_self)
          rw [wellGrouped]
          · exact htail
          all_goals simp_all

/-- What is left of a text when the blanks, the sign and the mark of the base are gone decides what
is read, if it has digits only. -/
theorem read_of_body {base : Nat} {text : String} {negative : Bool} {body ds : List Char}
    (hbase : base ≤ 16)
    (hbody : splitSign ((text.toList.map toAscii).dropWhile Text.isAsciiBlank) = (negative, body))
    (hmark : dropRadixMark base body = ds) (hne : ds ≠ [])
    (hdigits : ∀ c ∈ ds, isDigit base c = true)
    (hlength : base = 10 → ds.length ≤ maxDecimalDigits) :
    read base text = .ok (if negative then -(valueOf base ds : Int) else valueOf base ds) := by
  have hclean : ∀ c ∈ ds, c ≠ '_' := fun c hc => ne_of_isDigit hbase (hdigits c hc) (by decide)
  have hrun : ∀ c ∈ ds, (isDigit base c || decide (c = '_')) = true := by
    intro c hc
    rw [hdigits c hc, Bool.true_or]
  have htake : ds.takeWhile (fun c => isDigit base c || decide (c = '_')) = ds :=
    List.takeWhile_eq_self_iff.mpr hrun
  have hdrop : ds.dropWhile (fun c => isDigit base c || decide (c = '_')) = [] :=
    List.dropWhile_eq_nil_iff.mpr hrun
  have hfilter : ds.filter (fun c => decide (c ≠ '_')) = ds :=
    List.filter_eq_self.mpr fun c hc => decide_eq_true (hclean c hc)
  have hgrouped : wellGrouped ds = true :=
    wellGrouped_of_no_underscore fun hmem => hclean _ hmem rfl
  have hshort : (decide (base = 10) && decide (ds.length > maxDecimalDigits)) = false := by
    simp only [Bool.and_eq_false_iff, decide_eq_false_iff_not]
    by_cases hten : base = 10
    · exact .inr (Nat.not_lt.mpr (hlength hten))
    · exact .inl hten
  have hsome : ds.isEmpty = false := List.isEmpty_eq_false_iff.mpr hne
  unfold read
  rw [hbody]
  dsimp only
  rw [hmark, htake, hdrop, hfilter, hgrouped, hshort, hsome]
  rfl

section

variable {base : Nat} {ds : List Char}

/-- Digits are their own ASCII spelling. -/
theorem map_toAscii_of_digits (hbase : base ≤ 16) (hdigits : ∀ c ∈ ds, isDigit base c = true) :
    ds.map toAscii = ds := by
  refine (List.map_congr_left fun c hc => ?_).trans (List.map_id ds)
  have hc := bounds_of_isDigit hbase (hdigits c hc)
  rw [toAscii, if_pos (by omega)]
  rfl

/-- Digits have no mark of the base in front. -/
theorem dropRadixMark_of_digits (hbase : base ≤ 16) (hdigits : ∀ c ∈ ds, isDigit base c = true) :
    dropRadixMark base ds = ds := by
  unfold dropRadixMark
  split
  · next x rest =>
      have hx := hdigits x (List.mem_cons_of_mem _ List.mem_cons_self)
      have hlower : x ≠ 'x' := ne_of_isDigit hbase hx (by decide)
      have hupper : x ≠ 'X' := ne_of_isDigit hbase hx (by decide)
      simp [hlower, hupper]
  · rfl

theorem splitSign_of_digits (hbase : base ≤ 16) (hdigits : ∀ c ∈ ds, isDigit base c = true) :
    splitSign (ds.dropWhile Text.isAsciiBlank) = (false, ds) := by
  cases ds with
  | nil => rfl
  | cons c ds =>
      have hc := hdigits c List.mem_cons_self
      have hbounds := bounds_of_isDigit hbase hc
      have hblank : ¬Text.isAsciiBlank c = true := by
        simp only [Text.isAsciiBlank, Bool.or_eq_true, Bool.and_eq_true, decide_eq_true_eq,
          beq_iff_eq]
        omega
      rw [List.dropWhile_cons_of_neg hblank, splitSign]
      · rintro cs heq
        cases heq
        exact absurd rfl (ne_of_isDigit hbase hc (by decide))
      · rintro cs heq
        cases heq
        exact absurd rfl (ne_of_isDigit hbase hc (by decide))

/-- **A run of digits is read as its value.** -/
theorem read_of_digits (hbase : base ≤ 16) (hne : ds ≠ [])
    (hdigits : ∀ c ∈ ds, isDigit base c = true)
    (hlength : base = 10 → ds.length ≤ maxDecimalDigits) :
    read base (String.ofList ds) = .ok (valueOf base ds : Int) := by
  have hbody : splitSign (((String.ofList ds).toList.map toAscii).dropWhile Text.isAsciiBlank)
      = (false, ds) := by
    rw [String.toList_ofList, map_toAscii_of_digits hbase hdigits,
      splitSign_of_digits hbase hdigits]
  rw [read_of_body hbase hbody (dropRadixMark_of_digits hbase hdigits) hne hdigits hlength]
  rfl

theorem read_of_writes {n : Nat} (h : Writes base n ds) (hlow : 1 < base) (hhigh : base ≤ 16)
    (hlength : base = 10 → ds.length ≤ maxDecimalDigits) :
    read base (String.ofList ds) = .ok (n : Int) := by
  obtain ⟨hne, hdigits, hvalue⟩ := h.digits hlow hhigh
  rw [read_of_digits hhigh hne hdigits hlength, hvalue]

theorem read_of_minus (hbase : base ≤ 16) (hne : ds ≠ [])
    (hdigits : ∀ c ∈ ds, isDigit base c = true)
    (hlength : base = 10 → ds.length ≤ maxDecimalDigits) :
    read base (String.ofList ('-' :: ds)) = .ok (-(valueOf base ds : Int)) := by
  have hbody :
      splitSign (((String.ofList ('-' :: ds)).toList.map toAscii).dropWhile Text.isAsciiBlank)
        = (true, ds) := by
    rw [String.toList_ofList, List.map_cons, map_toAscii_of_digits hbase hdigits]
    rfl
  rw [read_of_body hbase hbody (dropRadixMark_of_digits hbase hdigits) hne hdigits hlength]
  rfl

end

end Numeral

/-! ## Addresses -/

namespace Hex

/-- The upper-case digits of a number write it, with zeros in front too. -/
theorem writes_zeroFill (width n : Nat) : Numeral.Writes 16 n (zeroFill width (upper n)) := by
  have hcase : ∀ d < 16, (Nat.digitChar d).toUpper.toLower = Nat.digitChar d := by decide
  have hupper : (upper n).map Char.toLower = Nat.toDigits 16 n := by
    rw [upper, List.map_map]
    refine (List.map_congr_left fun c hc => ?_).trans (List.map_id _)
    obtain ⟨d, hd, rfl⟩ := (Numeral.digits_toDigits (by decide) (Nat.le_refl 16) n).1 c hc
    exact hcase d hd
  refine ⟨width - (upper n).length, ?_⟩
  rw [zeroFill, List.map_append, List.map_replicate, hupper]
  rfl

/-- An address has digits, and a minus if it is negative. -/
theorem isDigit_of_mem_address {a : Int} {c : Char} (h : c ∈ (address a).toList) :
    Numeral.isDigit 16 c = true ∨ c = '-' := by
  cases a with
  | ofNat n =>
      rw [address, String.toList_ofList] at h
      exact .inl (((writes_zeroFill 6 n).digits (by decide) (Nat.le_refl 16)).2.1 c h)
  | negSucc n =>
      rw [address, String.toList_ofList] at h
      rcases List.mem_cons.mp h with rfl | hmem
      · exact .inr rfl
      · exact .inl (((writes_zeroFill 5 (n + 1)).digits (by decide) (Nat.le_refl 16)).2.1 c hmem)

/-- The text of an address is one field of a line. -/
theorem solid_address (a : Int) : Text.Solid (address a).toList := by
  intro c hc
  rcases isDigit_of_mem_address hc with hdigit | rfl
  · exact Numeral.not_isBlank_of_isDigit (Nat.le_refl 16) hdigit
  · decide

end Hex

/-- **Every address is read back as it was written.** -/
theorem Numeral.read_address (a : Int) : read 16 (Hex.address a) = .ok a := by
  have hnotTen : ∀ ds : List Char, 16 = 10 → ds.length ≤ maxDecimalDigits :=
    fun ds hten => absurd hten (by decide)
  cases a with
  | ofNat n =>
      exact read_of_writes (Hex.writes_zeroFill 6 n) (by decide) (Nat.le_refl 16) (hnotTen _)
  | negSucc n =>
      obtain ⟨hne, hdigits, hvalue⟩ :=
        (Hex.writes_zeroFill 5 (n + 1)).digits (by decide) (Nat.le_refl 16)
      rw [Hex.address, read_of_minus (Nat.le_refl 16) hne hdigits (hnotTen _), hvalue]
      rfl

end RomKit
