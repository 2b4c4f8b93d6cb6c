import RomKit.Proofs.Grammar
import RomKit.Proofs.Reading

/-!
# The scanner recognises the grammar

On a source that is known in full, each production of the scanner is an equation
between cursors: what is consumed, what is still to come, and which token or
which cause comes out. From the equations it follows that reading a token
succeeds exactly on a lexeme of the grammar (`scan_between_iff`), so the grammar
has at most one lexeme at the start of a source (`spells_unique`).
-/

namespace RomKit

open Source

/-! ## Texts and bytes -/

namespace Source

theorem toNat_charOf (b : UInt8) : (charOf b).toNat = b.toNat := by
  have hlt := b.toNat_lt
  have hvalid : b.toNat.isValidChar := Or.inl (by omega)
  unfold charOf Char.ofNat
  rw [dif_pos hvalid]
  rfl

theorem bytesOf_textOf (bytes : List UInt8) : bytesOf (textOf bytes) = bytes := by
  unfold bytesOf textOf
  rw [String.toList_ofList, List.map_map]
  simp [Function.comp_def, toNat_charOf]

theorem textOf_mnemonic (op : Opcode) : textOf (bytesOf op.mnemonic) = op.mnemonic := by
  cases op <;> decide

theorem textOf_eq_mnemonic_iff {name : List UInt8} {op : Opcode} :
    textOf name = op.mnemonic ↔ name = bytesOf op.mnemonic := by
  constructor
  · intro h
    rw [← h, bytesOf_textOf]
  · intro h
    rw [h, textOf_mnemonic]

end Source

namespace Opcode

theorem ofMnemonic?_mnemonic (op : Opcode) : ofMnemonic? op.mnemonic = some op := by
  cases op <;> decide

theorem ofMnemonic?_eq_some_iff {name : String} {op : Opcode} :
    ofMnemonic? name = some op ↔ name = op.mnemonic := by
  constructor
  · intro h
    have hp := List.find?_some h
    exact (beq_iff_eq.mp hp).symm
  · intro h
    rw [h, ofMnemonic?_mnemonic]

theorem mnemonic_injective {op op' : Opcode} (h : bytesOf op.mnemonic = bytesOf op'.mnemonic) :
    op = op' := by
  have htext : op.mnemonic = op'.mnemonic := by rw [← textOf_mnemonic op, h, textOf_mnemonic]
  have hfind := ofMnemonic?_mnemonic op
  rw [htext, ofMnemonic?_mnemonic] at hfind
  exact (Option.some.inj hfind).symm

/-- Mnemonics are spelt with upper-case letters: symbols, and no digits, blanks or marks. -/
theorem mnemonic_letters (op : Opcode) :
    ∀ b ∈ bytesOf op.mnemonic, 0x41 ≤ b ∧ b ≤ 0x5A := by
  have hall : (bytesOf op.mnemonic).all (fun b => decide (0x41 ≤ b ∧ b ≤ 0x5A)) = true := by
    cases op <;> decide
  exact fun b hb => of_decide_eq_true (List.all_eq_true.mp hall b hb)

theorem mnemonic_ne_nil (op : Opcode) : bytesOf op.mnemonic ≠ [] := by
  cases op <;> decide

end Opcode

theorem Instruction.allowed_iff {i : Instruction} :
    i.allowed = true ↔ (i.ret = true → i.opcode.acceptsReturn = true)
      ∧ (i.width ≠ .one → i.opcode.acceptsSize = true) := by
  unfold allowed
  rw [Bool.and_eq_true, Bool.or_eq_true, Bool.or_eq_true, beq_iff_eq, Bool.not_eq_true',
    Decidable.or_iff_not_imp_left, Decidable.or_iff_not_imp_left, Bool.not_eq_false]

/-! ## Classes of bytes -/

namespace Token

theorem isSymbol_letter {b : UInt8} (h : 0x41 ≤ b ∧ b ≤ 0x5A) : isSymbol b = true := by
  grind [isSymbol, isReserved]

theorem isSymbol_returnMark : isSymbol returnMark = true := by decide

theorem not_isSymbol_of_separates {b : UInt8} (h : separates b = true) : isSymbol b = false := by
  grind [separates, isSpace, isSymbol, isReserved, openParen]

theorem ofDigitByte?_of_separates {b : UInt8} (h : separates b = true) :
    Width.ofDigitByte? b = none := by
  grind [separates, isSpace, openParen, Width.ofDigitByte?]

theorem ofDigitByte?_eq_some {b : UInt8} {w : Width} (h : Width.ofDigitByte? b = some w) :
    w.digits = [b] ∧ w ≠ .one := by
  unfold Width.ofDigitByte? at h
  split at h
  · next hb => cases h; subst hb; decide
  · split at h
    · next hb => cases h; subst hb; decide
    · split at h
      · next hb => cases h; subst hb; decide
      · cases h

open Cursor Scan

variable (start : Location) (file : RawText) (before rest : List UInt8)

/-! ## Productions as equations -/

theorem scanBlank_between (b : UInt8) :
    scanBlank b (between file before (b :: rest))
      = .ok (.blank b) (between file (before ++ [b]) rest) := by
  unfold scanBlank
  rw [bind_of_ok (advance_between_cons _ _ _ _)]
  rfl

theorem scanComment_between (b : UInt8) :
    scanComment start (between file before (b :: rest))
      = match rest.dropWhile (· != closeParen) with
        | [] => .error ⟨.openComment, some start⟩
            (between file (before ++ b :: rest.takeWhile (· != closeParen)) [])
        | c :: after => .ok (.comment (rest.takeWhile (· != closeParen)))
            (between file (before ++ b :: rest.takeWhile (· != closeParen) ++ [c]) after) := by
  unfold scanComment
  rw [bind_of_ok (advance_between_cons _ _ _ _), bind_of_ok (takeRun_between _ _ _ _)]
  rw [List.append_assoc, List.singleton_append]
  have hstop := List.head?_dropWhile_not (· != closeParen) rest
  cases hrest : rest.dropWhile (· != closeParen) with
  | nil =>
      rw [bind_of_ok (takeIf_between_of_not (by simp) _ _)]
      rfl
  | cons c after =>
      -- the run stops at this byte only because it closes the comment
      have hc : (c == closeParen) = true := by simpa [hrest] using hstop
      rw [bind_of_ok (takeIf_between_cons (p := (· == closeParen)) hc _ _ _)]
      rfl

theorem scanComment_complete {text : List UInt8} (h : closeParen ∉ text) :
    scanComment start (between file before (openParen :: (text ++ [closeParen]) ++ rest))
      = .ok (.comment text)
          (between file (before ++ openParen :: (text ++ [closeParen])) rest) := by
  have hin : ∀ b ∈ text, (b != closeParen) = true := by
    intro b hb
    rw [bne_iff_ne]
    exact fun he => h (he ▸ hb)
  have hstop : (closeParen :: rest).head?.any (· != closeParen) = false := rfl
  have htake := takeWhile_append_of_stops hin hstop
  have hdrop := dropWhile_append_of_stops hin hstop
  rw [List.cons_append, List.append_assoc, List.singleton_append, scanComment_between, htake, hdrop]
  simp

theorem scanComment_sound {b : UInt8} {t : Token} {c' : Cursor}
    (h : scanComment start (between file before (b :: rest)) = .ok t c') :
    ∃ text after, rest = text ++ [closeParen] ++ after ∧ closeParen ∉ text ∧ t = .comment text
      ∧ c' = between file (before ++ b :: (text ++ [closeParen])) after := by
  have hsplit := List.takeWhile_append_dropWhile (p := (· != closeParen)) (l := rest)
  have hstop := List.head?_dropWhile_not (· != closeParen) rest
  rw [scanComment_between] at h
  cases hrest : rest.dropWhile (· != closeParen) with
  | nil => rw [hrest] at h; cases h
  | cons c after =>
      have hc : c = closeParen := by simpa [hrest] using hstop
      subst hc
      rw [hrest] at h hsplit
      cases h
      refine ⟨_, after, ?_, ?_, rfl, ?_⟩
      · rw [List.append_assoc, List.singleton_append, hsplit]
      · intro hmem
        exact bne_iff_ne.mp (List.mem_takeWhile_imp (p := (· != closeParen)) hmem) rfl
      · simp

theorem scanName_between (use : LabelUse) (b : UInt8) :
    scanName start use (between file before (b :: rest))
      = if rest.takeWhile isSymbol = [] then
          .error ⟨.emptyName use, some start⟩
            (between file (before ++ b :: rest.takeWhile isSymbol) (rest.dropWhile isSymbol))
        else .ok (textOf (rest.takeWhile isSymbol))
          (between file (before ++ b :: rest.takeWhile isSymbol) (rest.dropWhile isSymbol)) := by
  unfold scanName
  rw [bind_of_ok (advance_between_cons _ _ _ _), bind_of_ok (takeRun_between _ _ _ _)]
  rw [List.append_assoc, List.singleton_append]
  by_cases hrun : rest.takeWhile isSymbol = []
  · rw [if_pos hrun, if_pos (by simp [hrun])]; rfl
  · rw [if_neg hrun, if_neg (by simp [hrun])]; rfl

theorem scanName_complete (use : LabelUse) (b : UInt8) {name : List UInt8}
    (h : Run isSymbol name rest) :
    scanName start use (between file before (b :: name ++ rest))
      = .ok (textOf name) (between file (before ++ b :: name) rest) := by
  rw [List.cons_append, scanName_between, takeWhile_append_of_stops h.inside h.stops,
    dropWhile_append_of_stops h.inside h.stops, if_neg h.nonempty]

theorem scanName_sound {use : LabelUse} {b : UInt8} {name : String} {c' : Cursor}
    (h : scanName start use (between file before (b :: rest)) = .ok name c') :
    ∃ run after, rest = run ++ after ∧ Run isSymbol run after ∧ name = textOf run
      ∧ c' = between file (before ++ b :: run) after := by
  rw [scanName_between] at h
  split at h
  · cases h
  · next hrun =>
    cases h
    exact ⟨_, _, List.takeWhile_append_dropWhile.symm, run_takeWhile hrun, rfl, rfl⟩

theorem scanString_between (b : UInt8) :
    scanString start (between file before (b :: rest))
      = if rest.takeWhile (!isSpace ·) = [] then
          .error ⟨.emptyString, some start⟩
            (between file (before ++ b :: rest.takeWhile (!isSpace ·))
              (rest.dropWhile (!isSpace ·)))
        else .ok (.string (rest.takeWhile (!isSpace ·)))
          (between file (before ++ b :: rest.takeWhile (!isSpace ·))
            (rest.dropWhile (!isSpace ·))) := by
  unfold scanString
  rw [bind_of_ok (advance_between_cons _ _ _ _), bind_of_ok (takeRun_between _ _ _ _)]
  rw [List.append_assoc, List.singleton_append]
  by_cases hrun : rest.takeWhile (!isSpace ·) = []
  · rw [if_pos hrun, if_pos (by simp [hrun])]; rfl
  · rw [if_neg hrun, if_neg (by simp [hrun])]; rfl

theorem scanString_complete (b : UInt8) {bytes : List UInt8}
    (h : Run (fun b => !isSpace b) bytes rest) :
    scanString start (between file before (b :: bytes ++ rest))
      = .ok (.string bytes) (between file (before ++ b :: bytes) rest) := by
  rw [List.cons_append, scanString_between, takeWhile_append_of_stops h.inside h.stops,
    dropWhile_append_of_stops h.inside h.stops, if_neg h.nonempty]

theorem scanString_sound {b : UInt8} {t : Token} {c' : Cursor}
    (h : scanString start (between file before (b :: rest)) = .ok t c') :
    ∃ bytes after, rest = bytes ++ after ∧ Run (fun b => !isSpace b) bytes after
      ∧ t = .string bytes ∧ c' = between file (before ++ b :: bytes) after := by
  rw [scanString_between] at h
  split at h
  · cases h
  · next hrun =>
    cases h
    exact ⟨_, _, List.takeWhile_append_dropWhile.symm, run_takeWhile hrun, rfl, rfl⟩

/-! ## Digits -/

section Digits

variable {c c' : Cursor} {digits : List UInt8}

/-- A pair of digits is read, and then the rest of the run. -/
theorem scanPairs_pair {high low : UInt8}
    (h : c.takeWhile isHexDigit = .ok (high :: low :: digits) c') :
    ∃ c₁, c₁.takeWhile isHexDigit = .ok digits c' ∧ ∀ n, scanPairs start (n + 1) c
      = (scanPairs start n >>= fun bytes => pure (byteOf high low :: bytes)) c₁ := by
  obtain ⟨c₀, hhigh, h₀⟩ := takeIf_of_takeWhile_cons h
  obtain ⟨c₁, hlow, h₁⟩ := takeIf_of_takeWhile_cons h₀
  refine ⟨c₁, h₁, fun n => ?_⟩
  rw [scanPairs, bind_of_ok hhigh]
  dsimp only
  rw [bind_of_ok hlow]

/-- An even run of digits within the limit is read in pairs, up to its end. -/
theorem scanPairs_even : ∀ (n : Nat) {digits : List UInt8} {c : Cursor},
    c.takeWhile isHexDigit = .ok digits c' → digits.length % 2 = 0 → digits.length ≤ 2 * n →
    scanPairs start n c = .ok (pairBytes digits) c' := by
  intro n
  induction n with
  | zero =>
      intro digits c h _ hle
      have hnil : digits = [] := List.length_eq_zero_iff.mp (by omega)
      subst hnil
      obtain ⟨-, rfl⟩ := takeIf_of_takeWhile_nil h
      rfl
  | succ n ih =>
      intro digits c h heven hle
      match digits with
      | [] =>
          obtain ⟨hnone, rfl⟩ := takeIf_of_takeWhile_nil h
          rw [scanPairs, bind_of_ok hnone]
          rfl
      | [_] => cases heven
      | high :: low :: digits =>
          obtain ⟨c₁, hrest, hpair⟩ := scanPairs_pair start h
          simp only [List.length_cons] at heven hle
          rw [hpair, bind_of_ok (ih hrest (by omega) (by omega))]
          rfl

/-- An odd run of digits that ends before the limit leaves a digit without its fellow. -/
theorem scanPairs_odd : ∀ (n : Nat) {digits : List UInt8} {c : Cursor},
    c.takeWhile isHexDigit = .ok digits c' → digits.length % 2 = 1 → digits.length < 2 * n →
    scanPairs start n c = .error ⟨.oddDigits, some start⟩ c' := by
  intro n
  induction n with
  | zero => intro digits c _ _ hlt; omega
  | succ n ih =>
      intro digits c h hodd hlt
      match digits with
      | [] => cases hodd
      | [high] =>
          obtain ⟨c₀, hhigh, h₀⟩ := takeIf_of_takeWhile_cons h
          obtain ⟨hnone, rfl⟩ := takeIf_of_takeWhile_nil h₀
          rw [scanPairs, bind_of_ok hhigh]
          dsimp only
          rw [bind_of_ok hnone]
          rfl
      | high :: low :: digits =>
          obtain ⟨c₁, hrest, hpair⟩ := scanPairs_pair start h
          simp only [List.length_cons] at hodd hlt
          rw [hpair, bind_of_error (ih hrest (by omega) (by omega))]

/-- A longer run is read up to the limit, and the next digit is in sight. -/
theorem scanPairs_long : ∀ (n : Nat) {digits : List UInt8} {c : Cursor},
    c.takeWhile isHexDigit = .ok digits c' → 2 * n < digits.length →
    ∃ bytes c₁, scanPairs start n c = .ok bytes c₁ ∧ c₁.sees isHexDigit = true := by
  intro n
  induction n with
  | zero =>
      intro digits c h hlt
      rcases takeWhile_cases h with ⟨-, hnil, -⟩ | ⟨_, _, _, -, hs, -⟩
      · rw [hnil] at hlt
        cases hlt
      · exact ⟨[], c, rfl, hs⟩
  | succ n ih =>
      intro digits c h hlt
      match digits with
      | [] => cases hlt
      | [_] => simp only [List.length_cons, List.length_nil] at hlt; omega
      | high :: low :: digits =>
          obtain ⟨c₁, hrest, hpair⟩ := scanPairs_pair start h
          simp only [List.length_cons] at hlt
          obtain ⟨bytes, c₂, hread, hs⟩ := ih hrest (by omega)
          rw [hpair, bind_of_ok hread]
          exact ⟨_, c₂, rfl, hs⟩

theorem scanDigits_even (h : c.takeWhile isHexDigit = .ok digits c')
    (heven : digits.length % 2 = 0) (hle : digits.length ≤ 8) :
    scanDigits start c = .ok (pairBytes digits) c' := by
  unfold scanDigits
  rw [bind_of_ok (scanPairs_even start maxPairs h heven hle)]
  show (if c'.sees isHexDigit = true then _ else _ : Scan (List UInt8)) _ = _
  rw [if_neg (by rw [sees_of_takeWhile h]; exact Bool.false_ne_true)]
  rfl

theorem scanDigits_odd (h : c.takeWhile isHexDigit = .ok digits c')
    (hodd : digits.length % 2 = 1) (hlt : digits.length < 8) :
    scanDigits start c = .error ⟨.oddDigits, some start⟩ c' := by
  unfold scanDigits
  rw [bind_of_error (scanPairs_odd start maxPairs h hodd hlt)]

theorem scanDigits_long (h : c.takeWhile isHexDigit = .ok digits c') (hlong : 8 < digits.length) :
    ∃ c₁, scanDigits start c = .error ⟨.tooManyDigits, some start⟩ c₁ := by
  obtain ⟨bytes, c₁, hread, hs⟩ := scanPairs_long start maxPairs h hlong
  refine ⟨c₁, ?_⟩
  unfold scanDigits
  rw [bind_of_ok hread]
  show (if c₁.sees isHexDigit = true then _ else _ : Scan (List UInt8)) _ = _
  rw [if_pos hs]
  rfl

/-- **Only an even run within the limit is read**, and all of it. -/
theorem scanDigits_eq_ok_iff (h : c.takeWhile isHexDigit = .ok digits c') {bytes : List UInt8}
    {c₁ : Cursor} :
    scanDigits start c = .ok bytes c₁
      ↔ (digits.length % 2 = 0 ∧ digits.length ≤ 8) ∧ bytes = pairBytes digits ∧ c₁ = c' := by
  constructor
  · intro hread
    by_cases hlong : 8 < digits.length
    · obtain ⟨c₂, hfails⟩ := scanDigits_long start h hlong
      rw [hfails] at hread
      cases hread
    by_cases hodd : digits.length % 2 = 1
    · rw [scanDigits_odd start h hodd (by omega)] at hread
      cases hread
    · rw [scanDigits_even start h (by omega) (by omega)] at hread
      cases hread
      exact ⟨⟨by omega, by omega⟩, rfl, rfl⟩
  · rintro ⟨⟨heven, hle⟩, rfl, rfl⟩
    exact scanDigits_even start h heven hle

end Digits

theorem scanDigits_complete {digits : List UInt8} (h : Number digits rest) :
    scanDigits start (between file before (digits ++ rest))
      = .ok (pairBytes digits) (between file (before ++ digits) rest) := by
  have hrun := takeWhile_between isHexDigit file (digits ++ rest) before
  rw [takeWhile_append_of_stops h.run.inside h.run.stops,
    dropWhile_append_of_stops h.run.inside h.run.stops] at hrun
  have hlen := h.length
  simp only [List.mem_cons, List.not_mem_nil, or_false] at hlen
  exact scanDigits_even start hrun (by omega) (by omega)

theorem scanDigits_sound {bytes : List UInt8} {c' : Cursor}
    (h : scanDigits start (between file before rest) = .ok bytes c') :
    bytes = pairBytes (rest.takeWhile isHexDigit)
      ∧ c' = between file (before ++ rest.takeWhile isHexDigit) (rest.dropWhile isHexDigit)
      ∧ (rest.takeWhile isHexDigit ≠ [] →
          Number (rest.takeWhile isHexDigit) (rest.dropWhile isHexDigit)) := by
  obtain ⟨⟨heven, hle⟩, rfl, rfl⟩ :=
    (scanDigits_eq_ok_iff start (takeWhile_between isHexDigit file rest before)).mp h
  refine ⟨rfl, rfl, fun hne => ⟨run_takeWhile hne, ?_⟩⟩
  have hpos := List.length_pos_iff.mpr hne
  simp only [List.mem_cons, List.not_mem_nil, or_false]
  omega

theorem pairBytes_ne_nil {digits : List UInt8} (h : 2 ≤ digits.length) :
    pairBytes digits ≠ [] := by
  match digits, h with
  | _ :: _ :: _, _ => simp [pairBytes]

theorem scanLiteral_complete {digits : List UInt8} (h : Number digits rest) (b : UInt8) :
    scanLiteral start (between file before (b :: digits ++ rest))
      = .ok (.literal (pairBytes digits)) (between file (before ++ b :: digits) rest) := by
  have hlen := h.length
  simp only [List.mem_cons, List.not_mem_nil, or_false] at hlen
  have hne : pairBytes digits ≠ [] := pairBytes_ne_nil (by omega)
  unfold scanLiteral
  rw [List.cons_append, bind_of_ok (advance_between_cons _ _ _ _),
    bind_of_ok (scanDigits_complete _ _ _ _ h), if_neg (by simpa using hne), List.append_assoc,
    List.singleton_append]
  rfl

theorem scanLiteral_sound {b : UInt8} {t : Token} {c' : Cursor}
    (h : scanLiteral start (between file before (b :: rest)) = .ok t c') :
    ∃ digits after, rest = digits ++ after ∧ Number digits after
      ∧ t = .literal (pairBytes digits) ∧ c' = between file (before ++ b :: digits) after := by
  unfold scanLiteral at h
  rw [bind_of_ok (advance_between_cons _ _ _ _)] at h
  obtain ⟨bytes, c₁, hdigits, hrest⟩ := bind_ok h
  obtain ⟨rfl, rfl, hnumber⟩ := scanDigits_sound _ _ _ _ hdigits
  split at hrest
  · cases hrest
  · next hne =>
    cases hrest
    have hdne : rest.takeWhile isHexDigit ≠ [] := by
      intro hnil
      rw [hnil] at hne
      exact hne rfl
    exact ⟨_, _, List.takeWhile_append_dropWhile.symm, hnumber hdne, rfl, by simp⟩

theorem scanData_complete {digits : List UInt8} (h : Number digits rest) :
    scanData start (between file before (digits ++ rest))
      = .ok (.data (pairBytes digits)) (between file (before ++ digits) rest) := by
  unfold scanData
  rw [bind_of_ok (scanDigits_complete _ _ _ _ h)]
  rfl

theorem scanData_sound {t : Token} {c' : Cursor} (hs : rest.head?.any isHexDigit = true)
    (h : scanData start (between file before rest) = .ok t c') :
    ∃ digits after, rest = digits ++ after ∧ Number digits after
      ∧ t = .data (pairBytes digits) ∧ c' = between file (before ++ digits) after := by
  unfold scanData at h
  obtain ⟨bytes, c₁, hdigits, hrest⟩ := bind_ok h
  obtain ⟨rfl, rfl, hnumber⟩ := scanDigits_sound _ _ _ _ hdigits
  cases hrest
  have hdne : rest.takeWhile isHexDigit ≠ [] := by
    cases rest with
    | nil => simp at hs
    | cons b rest => simp at hs; simp [hs]
  exact ⟨_, _, List.takeWhile_append_dropWhile.symm, hnumber hdne, rfl, rfl⟩

/-! ## Instructions -/

/-- The size digit at the start of some bytes. -/
def sizeDigit? (bytes : List UInt8) : Option Width :=
  bytes.head?.bind Width.ofDigitByte?

/-- The bytes of that digit, if there is one. -/
def sizeDigits (bytes : List UInt8) : List UInt8 :=
  ((sizeDigit? bytes).getD .one).digits

theorem sizeDigit?_ne_one (bytes : List UInt8) : sizeDigit? bytes ≠ some .one := by
  intro h
  obtain ⟨b, _, hb⟩ := Option.bind_eq_some_iff.mp h
  exact (ofDigitByte?_eq_some hb).2 rfl

theorem sizeDigits_append_drop (bytes : List UInt8) :
    sizeDigits bytes ++ bytes.drop (sizeDigits bytes).length = bytes := by
  cases bytes with
  | nil => rfl
  | cons b bytes =>
      cases hb : Width.ofDigitByte? b with
      | none => simp [sizeDigits, sizeDigit?, hb, Width.digits]
      | some w => simp [sizeDigits, sizeDigit?, hb, (ofDigitByte?_eq_some hb).1]

theorem scanWidth_between :
    scanWidth (between file before rest)
      = .ok (sizeDigit? rest) (between file (before ++ sizeDigits rest)
          (rest.drop (sizeDigits rest).length)) := by
  unfold scanWidth
  cases rest with
  | nil =>
      have hdigits : sizeDigits [] = [] := rfl
      rw [bind_of_ok (takeIf_between_of_not rfl _ _), hdigits, List.append_nil]
      rfl
  | cons b rest =>
      cases hb : Width.ofDigitByte? b with
      | none =>
          have hdigits : sizeDigits (b :: rest) = [] := by
            simp [sizeDigits, sizeDigit?, hb, Width.digits]
          have hsize : sizeDigit? (b :: rest) = none := hb
          rw [bind_of_ok (takeIf_between_of_not (by simp [hb]) _ _), hdigits, hsize,
            List.append_nil]
          rfl
      | some w =>
          have hdigits : sizeDigits (b :: rest) = [b] := by
            simp [sizeDigits, sizeDigit?, hb, (ofDigitByte?_eq_some hb).1]
          rw [bind_of_ok (takeIf_between_cons (by simp [hb]) _ _ _), hdigits]
          rfl

theorem scanInstruction_between :
    scanInstruction start (between file before rest)
      = let run := rest.takeWhile isSymbol
        let after := rest.dropWhile isSymbol
        let c := between file (before ++ run ++ sizeDigits after)
          (after.drop (sizeDigits after).length)
        match toInstruction (textOf (splitReturn run).1) (splitReturn run).2
            (sizeDigit? after) with
        | .error cause => .error ⟨cause, some start⟩ c
        | .ok i =>
          match (after.drop (sizeDigits after).length).head? with
          | none => .ok (.instruction i) c
          | some b =>
            if separates b then .ok (.instruction i) c
            else .error ⟨.unseparated b (textOf (splitReturn run).1), some start⟩ c := by
  unfold scanInstruction
  rw [bind_of_ok (takeRun_between _ _ _ _), bind_of_ok (scanWidth_between _ _ _)]
  dsimp only
  cases toInstruction (textOf (splitReturn (rest.takeWhile isSymbol)).1)
      (splitReturn (rest.takeWhile isSymbol)).2 (sizeDigit? (rest.dropWhile isSymbol)) with
  | error cause => rfl
  | ok i =>
      dsimp only
      generalize (rest.dropWhile isSymbol).drop (sizeDigits (rest.dropWhile isSymbol)).length
        = after
      cases after with
      | nil => rfl
      | cons b after =>
          show (if separates b = true then _ else _ : Scan Token) _ = _
          by_cases hb : separates b = true
          · rw [if_pos hb]; simp only [List.head?_cons, if_pos hb]; rfl
          · rw [if_neg hb]; simp only [List.head?_cons, if_neg hb]; rfl

/-- A run of symbol bytes is a name and perhaps the return mark. -/
theorem splitReturn_append (run : List UInt8) :
    (splitReturn run).1 ++ returnMarks (splitReturn run).2 = run := by
  unfold splitReturn
  split
  · next h =>
    simp only [Bool.and_eq_true, beq_iff_eq] at h
    obtain ⟨hne, hlast⟩ := List.getLast?_eq_some_iff.mp h.2
    rw [hlast, List.dropLast_concat]
    rfl
  · simp [returnMarks]

theorem splitReturn_mnemonic (op : Opcode) (ret : Bool) :
    splitReturn (bytesOf op.mnemonic ++ returnMarks ret) = (bytesOf op.mnemonic, ret) := by
  cases op <;> cases ret <;> decide

theorem toInstruction_eq_ok_iff {name : List UInt8} {ret : Bool} {size : Option Width}
    {i : Instruction} (hsize : size ≠ some .one) :
    toInstruction (textOf name) ret size = .ok i
      ↔ i.allowed = true ∧ name = bytesOf i.opcode.mnemonic ∧ ret = i.ret
        ∧ size.getD .one = i.width := by
  unfold toInstruction
  cases hop : Opcode.ofMnemonic? (textOf name) with
  | none =>
      constructor
      · intro h; cases h
      · rintro ⟨_, rfl, _⟩
        rw [textOf_mnemonic, Opcode.ofMnemonic?_mnemonic] at hop
        cases hop
  | some op =>
      have hname := textOf_eq_mnemonic_iff.mp (Opcode.ofMnemonic?_eq_some_iff.mp hop)
      subst hname
      dsimp only
      constructor
      · intro h
        split at h
        · cases h
        · split at h
          · cases h
          · cases h
            refine ⟨Instruction.allowed_iff.mpr ⟨?_, ?_⟩, rfl, rfl, rfl⟩
            · intro hret
              simp_all
            · intro hw
              cases size with
              | none => exact absurd rfl hw
              | some w => simp_all
      · rintro ⟨hall, hmn, rfl, hw⟩
        have hopi : op = i.opcode := Opcode.mnemonic_injective hmn
        subst hopi
        obtain ⟨hret, hwidth⟩ := Instruction.allowed_iff.mp hall
        -- a size digit that is given never means one byte
        have hsizeok : size.isSome = true → i.opcode.acceptsSize = true := by
          intro hs
          refine hwidth fun hone => hsize ?_
          obtain ⟨w, rfl⟩ := Option.isSome_iff_exists.mp hs
          rw [← hone, ← hw]
          rfl
        rw [if_neg (by simpa using hret), if_neg (by simpa using hsizeok), hw]

theorem getD_sizeDigit? (w : Width) {after : List UInt8} (h : after.head?.all separates = true) :
    (sizeDigit? (w.digits ++ after)).getD .one = w := by
  cases w with
  | one =>
      cases after with
      | nil => rfl
      | cons b after =>
          have hb : separates b = true := by simpa using h
          simp [Width.digits, sizeDigit?, ofDigitByte?_of_separates hb]
  | two => rfl
  | three => rfl
  | four => rfl

theorem stops_digits (w : Width) {after : List UInt8} (h : after.head?.all separates = true) :
    (w.digits ++ after).head?.any isSymbol = false := by
  cases w with
  | one =>
      cases after with
      | nil => rfl
      | cons b after =>
          have hb : separates b = true := by simpa using h
          simp [Width.digits, not_isSymbol_of_separates hb]
  | two => rfl
  | three => rfl
  | four => rfl

theorem isSymbol_mnemonic (op : Opcode) (ret : Bool) :
    ∀ b ∈ bytesOf op.mnemonic ++ returnMarks ret, isSymbol b = true := by
  intro b hb
  rcases List.mem_append.mp hb with h | h
  · exact isSymbol_letter (op.mnemonic_letters b h)
  · cases ret with
    | false => simp [returnMarks] at h
    | true =>
        have hr : b = returnMark := by simpa [returnMarks] using h
        rw [hr]
        exact isSymbol_returnMark

theorem scanInstruction_complete {i : Instruction} (hall : i.allowed = true)
    (hsep : rest.head?.all separates = true) :
    scanInstruction start (between file before (i.written ++ rest))
      = .ok (.instruction i) (between file (before ++ i.written) rest) := by
  have hsym := isSymbol_mnemonic i.opcode i.ret
  have hstop := stops_digits i.width hsep
  have hgetD := getD_sizeDigit? i.width hsep
  have hdigits : sizeDigits (i.width.digits ++ rest) = i.width.digits := by
    unfold sizeDigits
    rw [hgetD]
  have hto := (toInstruction_eq_ok_iff (sizeDigit?_ne_one (i.width.digits ++ rest))).mpr
    ⟨hall, rfl, rfl, hgetD⟩
  rw [scanInstruction_between, Instruction.written, List.append_assoc _ _ rest,
    takeWhile_append_of_stops hsym hstop, dropWhile_append_of_stops hsym hstop]
  simp only [splitReturn_mnemonic, hto, hdigits, List.drop_left, ← List.append_assoc]
  cases rest with
  | nil => rfl
  | cons b rest =>
      have hb : separates b = true := by simpa using hsep
      simp [hb]

theorem scanInstruction_sound {t : Token} {c' : Cursor}
    (h : scanInstruction start (between file before rest) = .ok t c') :
    ∃ i after, rest = i.written ++ after ∧ i.allowed = true ∧ after.head?.all separates = true
      ∧ t = .instruction i ∧ c' = between file (before ++ i.written) after := by
  rw [scanInstruction_between] at h
  dsimp only at h
  have hrun := splitReturn_append (rest.takeWhile isSymbol)
  have hsplit := List.takeWhile_append_dropWhile (p := isSymbol) (l := rest)
  have hdigits := sizeDigits_append_drop (rest.dropWhile isSymbol)
  generalize rest.takeWhile isSymbol = run at h hrun hsplit
  generalize rest.dropWhile isSymbol = tail at h hsplit hdigits
  split at h
  · cases h
  · next i hto =>
    obtain ⟨hall, hname, hret, hwidth⟩ :=
      (toInstruction_eq_ok_iff (sizeDigit?_ne_one tail)).mp hto
    -- the run and the digit behind it are the mnemonic with its marks
    have hwritten : run ++ sizeDigits tail = i.written := by
      rw [← hrun, hname, hret]
      unfold sizeDigits
      rw [hwidth]
      rfl
    have hrest : rest = i.written ++ tail.drop (sizeDigits tail).length := by
      rw [← hwritten, List.append_assoc, hdigits, hsplit]
    rw [List.append_assoc, hwritten] at h
    refine ⟨i, tail.drop (sizeDigits tail).length, hrest, hall, ?_⟩
    generalize tail.drop (sizeDigits tail).length = after at h
    cases after with
    | nil => cases h; exact ⟨rfl, rfl, rfl⟩
    | cons b after =>
        simp only [List.head?_cons] at h
        split at h
        · next hb => cases h; exact ⟨by simpa using hb, rfl, rfl⟩
        · cases h

/-! ## Tokens -/

theorem scanFrom_of_isSpace {b : UInt8} (h : isSpace b = true) :
    scanFrom start b = scanBlank b := by
  have hne : b ≠ openParen ∧ b ≠ semicolon ∧ b ≠ atSign ∧ b ≠ quote ∧ b ≠ hash := by
    grind [isSpace, openParen, semicolon, atSign, quote, hash]
  unfold scanFrom
  simp [hne, h]

theorem scanFrom_of_isHexDigit {b : UInt8} (h : isHexDigit b = true) :
    scanFrom start b = scanData start := by
  have hne : b ≠ openParen ∧ b ≠ semicolon ∧ b ≠ atSign ∧ b ≠ quote ∧ b ≠ hash
      ∧ isSpace b = false := by
    grind [isHexDigit, isSpace, openParen, semicolon, atSign, quote, hash]
  unfold scanFrom
  simp [hne, h]

theorem scanFrom_of_letter {b : UInt8} (h : 0x41 ≤ b ∧ b ≤ 0x5A) :
    scanFrom start b = scanInstruction start := by
  have hne : b ≠ openParen ∧ b ≠ semicolon ∧ b ≠ atSign ∧ b ≠ quote ∧ b ≠ hash
      ∧ isSpace b = false ∧ isHexDigit b = false := by
    grind [isHexDigit, isSpace, openParen, semicolon, atSign, quote, hash]
  unfold scanFrom
  simp [hne, isSymbol_letter h]

/-- Every lexeme begins with a byte. -/
theorem spells_ne_nil {text rest : List UInt8} {t : Token} (h : Spells text rest t) :
    text ≠ [] := by
  cases h with
  | blank => simp
  | comment => simp
  | reference => simp
  | definition => simp
  | string => simp
  | literal => simp
  | data hn => exact hn.run.nonempty
  | instruction => simp [Instruction.written, Opcode.mnemonic_ne_nil]

/-- **A lexeme of the grammar is read as the token it spells.** -/
theorem scan_complete {text : List UInt8} {t : Token} (h : Spells text rest t) :
    scan (between file before (text ++ rest))
      = .ok (some t) (between file (before ++ text) rest) := by
  -- the first byte of the lexeme chooses the production
  have key : ∀ (b : UInt8) (tail : List UInt8), text = b :: tail →
      scanFrom (placeAfter file before) b (between file before (text ++ rest))
        = .ok t (between file (before ++ text) rest) →
      scan (between file before (text ++ rest))
        = .ok (some t) (between file (before ++ text) rest) := by
    intro b tail htext hfrom
    unfold scan
    rw [current_between, location_between]
    subst htext
    simp only [List.cons_append, List.head?_cons] at hfrom ⊢
    rw [hfrom]
  cases h with
  | @blank b rest hb =>
      refine key b [] rfl ?_
      rw [scanFrom_of_isSpace _ hb]
      exact scanBlank_between _ _ _ _
  | comment hclose => exact key _ _ rfl (scanComment_complete _ _ _ _ hclose)
  | reference hrun =>
      refine key _ _ rfl ?_
      show scanReference _ _ = _
      unfold scanReference
      rw [bind_of_ok (scanName_complete _ _ _ _ _ _ hrun)]
      rfl
  | definition hrun =>
      refine key _ _ rfl ?_
      show scanDefinition _ _ = _
      unfold scanDefinition
      rw [bind_of_ok (scanName_complete _ _ _ _ _ _ hrun)]
      rfl
  | string hrun => exact key _ _ rfl (scanString_complete _ _ _ _ _ hrun)
  | literal hn => exact key _ _ rfl (scanLiteral_complete _ _ _ _ hn _)
  | @data digits rest hn =>
      obtain ⟨b, tail, rfl⟩ := List.exists_cons_of_ne_nil hn.run.nonempty
      refine key b tail rfl ?_
      rw [scanFrom_of_isHexDigit _ (hn.run.inside b (by simp))]
      exact scanData_complete _ _ _ _ hn
  | @instruction i rest hall hsep =>
      obtain ⟨b, tail, htext⟩ := List.exists_cons_of_ne_nil i.opcode.mnemonic_ne_nil
      have hletter := i.opcode.mnemonic_letters b (by rw [htext]; simp)
      have hwritten : i.written = b :: (tail ++ returnMarks i.ret ++ i.width.digits) := by
        rw [Instruction.written, htext]
        rfl
      refine key b _ hwritten ?_
      rw [scanFrom_of_letter _ hletter]
      exact scanInstruction_complete _ _ _ _ hall hsep

/-- Whatever is read from a byte on is a lexeme of the grammar. -/
theorem scanFrom_sound {b : UInt8} {t : Token} {c' : Cursor}
    (h : scanFrom start b (between file before (b :: rest)) = .ok t c') :
    ∃ text after, b :: rest = text ++ after ∧ Spells text after t
      ∧ c' = between file (before ++ text) after := by
  -- one case for each production, in the order in which they are tried
  unfold scanFrom at h
  split at h
  · next hb =>
    obtain rfl := eq_of_beq hb
    obtain ⟨text, after, hrest, hclose, rfl, rfl⟩ := scanComment_sound _ _ _ _ h
    exact ⟨_, after, by rw [hrest]; simp, .comment hclose, rfl⟩
  split at h
  · next hb =>
    obtain rfl := eq_of_beq hb
    obtain ⟨name, c₁, hname, hret⟩ := bind_ok h
    obtain ⟨run, after, hrest, hrun, rfl, rfl⟩ := scanName_sound _ _ _ _ hname
    cases hret
    exact ⟨_, after, by rw [hrest]; rfl, .reference hrun, rfl⟩
  split at h
  · next hb =>
    obtain rfl := eq_of_beq hb
    obtain ⟨name, c₁, hname, hret⟩ := bind_ok h
    obtain ⟨run, after, hrest, hrun, rfl, rfl⟩ := scanName_sound _ _ _ _ hname
    cases hret
    exact ⟨_, after, by rw [hrest]; rfl, .definition hrun, rfl⟩
  split at h
  · next hb =>
    obtain rfl := eq_of_beq hb
    obtain ⟨bytes, after, hrest, hrun, rfl, rfl⟩ := scanString_sound _ _ _ _ h
    exact ⟨_, after, by rw [hrest]; rfl, .string hrun, rfl⟩
  split at h
  · next hb =>
    obtain rfl := eq_of_beq hb
    obtain ⟨digits, after, hrest, hn, rfl, rfl⟩ := scanLiteral_sound _ _ _ _ h
    exact ⟨_, after, by rw [hrest]; rfl, .literal hn, rfl⟩
  split at h
  · next hb =>
    rw [scanBlank_between] at h
    cases h
    exact ⟨[b], rest, rfl, .blank hb, rfl⟩
  split at h
  · next hb =>
    obtain ⟨digits, after, hrest, hn, rfl, rfl⟩ :=
      scanData_sound _ _ _ _ (by simpa using hb) h
    exact ⟨digits, after, hrest, .data hn, rfl⟩
  split at h
  · obtain ⟨i, after, hrest, hall, hsep, rfl, rfl⟩ := scanInstruction_sound _ _ _ _ h
    exact ⟨_, after, hrest, .instruction hall hsep, rfl⟩
  · cases h

/-- Whatever is read is a lexeme of the grammar. -/
theorem scan_sound {t : Token} {c' : Cursor}
    (h : scan (between file before rest) = .ok (some t) c') :
    ∃ text after, rest = text ++ after ∧ Spells text after t
      ∧ c' = between file (before ++ text) after := by
  unfold scan at h
  rw [current_between] at h
  cases rest with
  | nil => cases h
  | cons b rest =>
      simp only [List.head?_cons] at h
      split at h
      · next token c₁ hfrom =>
        cases h
        exact scanFrom_sound _ _ _ _ hfrom
      · cases h

/-- **The scanner reads exactly the lexemes of the grammar.** -/
theorem scan_between_iff {t : Token} {c' : Cursor} :
    scan (between file before rest) = .ok (some t) c'
      ↔ ∃ text after, rest = text ++ after ∧ Spells text after t
        ∧ c' = between file (before ++ text) after := by
  constructor
  · exact scan_sound file before rest
  · rintro ⟨text, after, rfl, hs, rfl⟩
    exact scan_complete file before after hs

theorem scan_between_none {c' : Cursor} (h : scan (between file before rest) = .ok none c') :
    rest = [] ∧ c' = between file before [] := by
  unfold scan at h
  rw [current_between] at h
  cases rest with
  | nil => cases h; exact ⟨rfl, rfl⟩
  | cons b rest =>
      simp only [List.head?_cons] at h
      split at h
      · cases h
      · cases h

end Token

/-! ## The grammar is unambiguous -/

/-- Two lexemes at the start of one source are the same lexeme. -/
theorem spells_unique {text text' rest rest' : List UInt8} {t t' : Token}
    (h : Spells text rest t) (h' : Spells text' rest' t') (heq : text ++ rest = text' ++ rest') :
    text = text' ∧ rest = rest' ∧ t = t' := by
  have hread := Token.scan_complete "" [] rest h
  rw [heq, Token.scan_complete "" [] rest' h'] at hread
  injection hread with htoken hcursor
  have hrest := Cursor.rest_of_between_eq hcursor
  subst hrest
  exact ⟨List.append_cancel_right heq, rfl, (Option.some.inj htoken).symm⟩

/-- **A source splits into lexemes in at most one way.** -/
theorem splits_unique {source : List UInt8} {xs ys : List Lexeme}
    (hx : Splits source xs) (hy : Splits source ys) : xs = ys := by
  induction hx generalizing ys with
  | nil =>
      generalize hs : ([] : List UInt8) = source at hy
      cases hy with
      | nil => rfl
      | cons h _ => exact absurd (List.append_eq_nil_iff.mp hs.symm).1 (Token.spells_ne_nil h)
  | @cons text rest token lexemes h _ ih =>
      generalize hs : text ++ rest = source at hy
      cases hy with
      | nil => exact absurd (List.append_eq_nil_iff.mp hs).1 (Token.spells_ne_nil h)
      | @cons text' rest' token' lexemes' h' hrest' =>
          obtain ⟨rfl, rfl, rfl⟩ := spells_unique h h' hs
          rw [ih hrest']

/-! ## Blanks in lexemes -/

/-- Instructions are written with symbol bytes and digits. -/
theorem not_mem_written (i : Instruction) {b : UInt8} (hsymbol : isSymbol b = false)
    (hdigit : isHexDigit b = false) : b ∉ i.written := by
  have hdigits : i.width.digits.all isHexDigit = true := by
    cases i.width <;> decide
  intro hmem
  rcases List.mem_append.mp hmem with h | h
  · rw [Token.isSymbol_mnemonic i.opcode i.ret b h] at hsymbol
    cases hsymbol
  · rw [List.all_eq_true.mp hdigits b h] at hdigit
    cases hdigit

/-- A lexeme with a blank in it is the blank or a comment. -/
theorem Spells.of_blank_mem {text rest : List UInt8} {t : Token} {blank : UInt8}
    (h : Spells text rest t) (hblank : isSpace blank = true) (hmem : blank ∈ text) :
    text = [blank] ∨ ∃ inner, Token.closeParen ∉ inner
      ∧ text = Token.openParen :: (inner ++ [Token.closeParen]) := by
  have hsymbol : isSymbol blank = false := by grind [isSpace, isSymbol, isReserved]
  have hdigit : isHexDigit blank = false := by grind [isSpace, isHexDigit]
  have hrun : ∀ {p : UInt8 → Bool} {b : UInt8} {run : List UInt8}, Source.Run p run rest →
      p blank = false → isSpace b = false → blank ∉ b :: run := by
    intro p b run hin hp hb hmem
    rcases List.mem_cons.mp hmem with rfl | hmem
    · rw [hblank] at hb
      cases hb
    · rw [hin.inside _ hmem] at hp
      cases hp
  cases h with
  | blank hb => exact .inl (by rw [List.mem_singleton.mp hmem])
  | comment hclose => exact .inr ⟨_, hclose, rfl⟩
  | reference hname => exact absurd hmem (hrun hname hsymbol (by decide))
  | definition hname => exact absurd hmem (hrun hname hsymbol (by decide))
  | string hbytes => exact absurd hmem (hrun hbytes (by rw [hblank]; rfl) (by decide))
  | literal hnumber => exact absurd hmem (hrun hnumber.run hdigit (by decide))
  | data hnumber =>
      rw [hnumber.run.inside _ hmem] at hdigit
      cases hdigit
  | instruction => exact absurd hmem (not_mem_written _ hsymbol hdigit)

end RomKit
