import RomKit.Text.Blank
import RomKit.Text.Lines
import RomKit.Text.Utf8

/-!
# Text that is written and read back

Every text survives the way through UTF-8 (`Utf8.decode_encode`): a leading byte announces
exactly the bytes that follow it, and the bounds on the first of them leave no character out.

Lines that hold no line end, each ended by a line feed, are read back as they are
(`Text.lines_flatMap_newline`), and so are the fields of a line, whatever blanks stand around and
between them (`Text.trimBy_padded`, `Text.fields_word`).
-/

namespace RomKit

/-! ## UTF-8 -/

namespace Utf8

theorem continuation_of_tail {value more low top m v : Nat} {bs : List UInt8} (hm : m < 64)
    (hlow : low ≤ m + 128) (htop : m + 128 ≤ top)
    (hrest : continuation (value * 64 + m) more 0x80 0xBF bs = .ok v) :
    continuation value (more + 1) low top (UInt8.ofNat (m + 128) :: bs) = .ok v := by
  have hbyte := UInt8.toNat_ofNat_of_lt' (show m + 128 < 256 by omega)
  have hbits : (m + 128) % 64 = m := by omega
  rw [continuation, hbyte, hbits, hrest]
  simp [hlow, htop]

theorem lead?_of_one {n : Nat} (h : n < 0x80) :
    lead? (UInt8.ofNat n) = some ⟨n, 0, 0x80, 0xBF⟩ := by
  have hbyte := UInt8.toNat_ofNat_of_lt' (show n < 256 by omega)
  unfold lead?
  rw [hbyte, if_pos h]

theorem lead?_of_two {n : Nat} (hlow : 2 ≤ n) (hhigh : n < 32) :
    lead? (UInt8.ofNat (n + 192)) = some ⟨n, 1, 0x80, 0xBF⟩ := by
  have hbyte := UInt8.toNat_ofNat_of_lt' (show n + 192 < 256 by omega)
  unfold lead?
  rw [hbyte, if_neg (by omega), if_neg (by omega), if_pos (by omega), Nat.add_sub_cancel]

/-- The bounds leave out over-long forms and the surrogates, and nothing else. -/
theorem lead?_of_three {n m : Nat} (hn : n < 16) (hm : m < 64) (hshort : n = 0 → 32 ≤ m)
    (hsurrogate : n = 13 → m < 32) :
    ∃ low top, lead? (UInt8.ofNat (n + 224)) = some ⟨n, 2, low, top⟩
      ∧ low ≤ m + 128 ∧ m + 128 ≤ top := by
  have hbyte := UInt8.toNat_ofNat_of_lt' (show n + 224 < 256 by omega)
  unfold lead?
  rw [hbyte, if_neg (by omega), if_neg (by omega), if_neg (by omega)]
  by_cases hzero : n = 0
  · subst hzero
    exact ⟨_, _, rfl, by have := hshort rfl; omega, by omega⟩
  · by_cases hthirteen : n = 13
    · subst hthirteen
      exact ⟨_, _, rfl, by omega, by have := hsurrogate rfl; omega⟩
    · rw [if_neg (by omega), if_neg (by omega), if_pos (by omega), Nat.add_sub_cancel]
      exact ⟨_, _, rfl, by omega, by omega⟩

/-- The bounds leave out over-long forms and what lies beyond the last character. -/
theorem lead?_of_four {n m : Nat} (hn : n < 5) (hm : m < 64) (hshort : n = 0 → 16 ≤ m)
    (hlast : n = 4 → m < 16) :
    ∃ low top, lead? (UInt8.ofNat (n + 240)) = some ⟨n, 3, low, top⟩
      ∧ low ≤ m + 128 ∧ m + 128 ≤ top := by
  have hbyte := UInt8.toNat_ofNat_of_lt' (show n + 240 < 256 by omega)
  unfold lead?
  rw [hbyte, if_neg (by omega), if_neg (by omega), if_neg (by omega), if_neg (by omega),
    if_neg (by omega), if_neg (by omega)]
  by_cases hzero : n = 0
  · subst hzero
    exact ⟨_, _, rfl, by have := hshort rfl; omega, by omega⟩
  · by_cases hfour : n = 4
    · subst hfour
      exact ⟨_, _, rfl, by omega, by have := hlast rfl; omega⟩
    · rw [if_neg (by omega), if_pos (by omega), Nat.add_sub_cancel]
      exact ⟨_, _, rfl, by omega, by omega⟩

/-- The bytes of a character: one that announces the others, and these give its number. -/
theorem encodeChar_cases (c : Char) :
    ∃ b tail lead, String.utf8EncodeChar c = b :: tail ∧ lead? b = some lead
      ∧ tail.length = lead.more
      ∧ ∀ rest, continuation lead.high lead.more lead.low lead.top (tail ++ rest) = .ok c.toNat := by
  have hvalid : c.toNat < 0xD800 ∨ 0xDFFF < c.toNat ∧ c.toNat < 0x110000 := c.valid
  unfold String.utf8EncodeChar
  rw [show c.val.toNat = c.toNat from rfl]
  generalize c.toNat = v at hvalid ⊢
  dsimp only
  by_cases h1 : v ≤ 127
  · rw [if_pos h1]
    exact ⟨_, _, _, rfl, lead?_of_one (by omega), rfl, fun rest => rfl⟩
  by_cases h2 : v ≤ 2047
  · rw [if_neg h1, if_pos h2]
    refine ⟨_, _, _, rfl, lead?_of_two (by omega) (by omega), rfl, fun rest => ?_⟩
    dsimp only
    refine continuation_of_tail (by omega) (by omega) (by omega) ?_
    rw [continuation]
    exact congrArg Except.ok (by omega)
  -- from here on the leading byte bounds the first of the others
  by_cases h3 : v ≤ 65535
  · obtain ⟨low, top, hlead, hlow, htop⟩ :=
      lead?_of_three (n := v / 4096 % 16) (m := v / 64 % 64) (by omega) (by omega) (by omega)
        (by omega)
    rw [if_neg h1, if_neg h2, if_pos h3]
    refine ⟨_, _, _, rfl, hlead, rfl, fun rest => ?_⟩
    dsimp only
    refine continuation_of_tail (by omega) hlow htop ?_
    refine continuation_of_tail (by omega) (by omega) (by omega) ?_
    rw [continuation]
    exact congrArg Except.ok (by omega)
  · obtain ⟨low, top, hlead, hlow, htop⟩ :=
      lead?_of_four (n := v / 262144 % 8) (m := v / 4096 % 64) (by omega) (by omega) (by omega)
        (by omega)
    rw [if_neg h1, if_neg h2, if_neg h3]
    refine ⟨_, _, _, rfl, hlead, rfl, fun rest => ?_⟩
    dsimp only
    refine continuation_of_tail (by omega) hlow htop ?_
    refine continuation_of_tail (by omega) (by omega) (by omega) ?_
    refine continuation_of_tail (by omega) (by omega) (by omega) ?_
    rw [continuation]
    exact congrArg Except.ok (by omega)

theorem decodeFrom_encode (cs : List Char) : ∀ position : Nat,
    decodeFrom position (cs.flatMap String.utf8EncodeChar) = .ok cs := by
  induction cs with
  | nil => intro position; rw [List.flatMap_nil, decodeFrom]
  | cons c cs ih =>
      intro position
      obtain ⟨b, tail, lead, hchar, hlead, hlength, htail⟩ := encodeChar_cases c
      rw [List.flatMap_cons, hchar, List.cons_append, decodeFrom, hlead]
      dsimp only
      rw [htail, ← hlength, List.drop_left, ih]
      dsimp only
      rw [Char.ofNat_toNat]

/-- **Every text survives the way through UTF-8.** -/
theorem decode_encode (s : String) : decode (encode s) = .ok s := by
  unfold decode encode
  rw [decodeFrom_encode]
  dsimp only
  rw [String.ofList_toList]

/-- A byte of ASCII among the bytes of a character is the character. -/
theorem toNat_of_mem_encodeChar {c : Char} {b : UInt8} (hb : b ∈ String.utf8EncodeChar c)
    (hascii : b.toNat < 0x80) : c.toNat = b.toNat := by
  have hhigh : ∀ n, 128 ≤ n → n < 256 → b = UInt8.ofNat n → False := by
    rintro n hlow htop rfl
    rw [UInt8.toNat_ofNat'] at hascii
    omega
  unfold String.utf8EncodeChar at hb
  rw [show c.val.toNat = c.toNat from rfl] at hb
  generalize c.toNat = v at hb
  dsimp only at hb
  by_cases h1 : v ≤ 127
  · rw [if_pos h1] at hb
    rw [List.mem_singleton.mp hb, UInt8.toNat_ofNat']
    omega
  -- every byte of a longer form is above ASCII
  rw [if_neg h1] at hb
  exfalso
  split at hb
  · simp only [List.mem_cons, List.not_mem_nil, or_false] at hb
    rcases hb with hb | hb <;> exact hhigh _ (by omega) (by omega) hb
  split at hb
  · simp only [List.mem_cons, List.not_mem_nil, or_false] at hb
    rcases hb with hb | hb | hb <;> exact hhigh _ (by omega) (by omega) hb
  · simp only [List.mem_cons, List.not_mem_nil, or_false] at hb
    rcases hb with hb | hb | hb | hb <;> exact hhigh _ (by omega) (by omega) hb

theorem not_mem_encode {s : String} {c : Char} (hascii : c.toNat < 0x80) (h : c ∉ s.toList) :
    UInt8.ofNat c.toNat ∉ encode s := by
  intro hmem
  obtain ⟨d, hd, hb⟩ := List.mem_flatMap.mp hmem
  have hbyte := UInt8.toNat_ofNat_of_lt' (show c.toNat < 256 by omega)
  have hsame := toNat_of_mem_encodeChar hb (by rw [hbyte]; exact hascii)
  rw [hbyte] at hsame
  exact h (Char.toNat_inj.mp hsame ▸ hd)

end Utf8

/-! ## Lines -/

namespace Text

/-- No character ends a line. -/
def OneLine (cs : List Char) : Prop := ∀ c ∈ cs, isLineEnd c = false

instance (cs : List Char) : Decidable (OneLine cs) :=
  List.decidableBAll (fun c => isLineEnd c = false) cs

/-- No character is blank. -/
def Solid (cs : List Char) : Prop := ∀ c ∈ cs, isBlank c = false

theorem isBlank_of_isLineEnd {c : Char} (h : isLineEnd c = true) : isBlank c = true := by
  simp only [isLineEnd, isBlank, Bool.or_eq_true, Bool.and_eq_true, decide_eq_true_eq,
    beq_iff_eq] at h ⊢
  omega

theorem Solid.oneLine {cs : List Char} (h : Solid cs) : OneLine cs := by
  intro c hc
  cases hend : isLineEnd c with
  | false => rfl
  | true => exact absurd (isBlank_of_isLineEnd hend) (by rw [h c hc]; decide)

theorem OneLine.append {cs ds : List Char} (hcs : OneLine cs) (hds : OneLine ds) :
    OneLine (cs ++ ds) := by
  intro c hc
  rcases List.mem_append.mp hc with h | h
  · exact hcs c h
  · exact hds c h

theorem lines_cons_of_not_isLineEnd {c : Char} (h : isLineEnd c = false) (cs : List Char) :
    lines (c :: cs) = consHead c (lines cs) := by
  rw [lines]
  · rw [h]
    rfl
  · rintro cs' rfl rfl
    cases h

/-- A line ends with the first line feed. -/
theorem lines_append_newline {l : List Char} (h : OneLine l) (rest : List Char) :
    lines (l ++ '\n' :: rest) = l :: lines rest := by
  induction l with
  | nil => rfl
  | cons c l ih =>
      have htail := ih fun d hd => h d (List.mem_cons_of_mem _ hd)
      rw [List.cons_append, lines_cons_of_not_isLineEnd (h c List.mem_cons_self), htail]
      rfl

/-- **Lines that were written are read back.** -/
theorem lines_flatMap_newline {ls : List (List Char)} (h : ∀ l ∈ ls, OneLine l) :
    lines (ls.flatMap (· ++ ['\n'])) = ls := by
  induction ls with
  | nil => rfl
  | cons l ls ih =>
      rw [List.flatMap_cons, List.append_assoc, List.singleton_append,
        lines_append_newline (h l List.mem_cons_self),
        ih fun l' hl' => h l' (List.mem_cons_of_mem _ hl')]

theorem not_mem_flatMap_newline {ls : List (List Char)} (h : ∀ l ∈ ls, OneLine l) :
    '\r' ∉ ls.flatMap (· ++ ['\n']) := by
  intro hmem
  obtain ⟨l, hl, hin⟩ := List.mem_flatMap.mp hmem
  rcases List.mem_append.mp hin with hline | hend
  · exact absurd (h l hl _ hline) (by decide)
  · exact absurd (List.mem_singleton.mp hend) (by decide)

theorem unifyNewlines_of_not_mem {cs : List Char} (h : '\r' ∉ cs) : unifyNewlines cs = cs := by
  induction cs with
  | nil => rfl
  | cons c cs ih =>
      have hc : c ≠ '\r' := fun heq => h (heq ▸ List.mem_cons_self)
      rw [unifyNewlines, if_neg hc, ih fun hmem => h (List.mem_cons_of_mem _ hmem)]
      exact fun _ heq => absurd heq hc

/-! ## Fields -/

theorem dropWhile_padded {p : Char → Bool} {left cs : List Char} (hleft : ∀ c ∈ left, p c = true)
    (hhead : ∀ c ∈ cs.head?, p c = false) : (left ++ cs).dropWhile p = cs := by
  rw [List.dropWhile_append_of_pos hleft]
  cases cs with
  | nil => rfl
  | cons c cs => rw [List.dropWhile_cons_of_neg (by simp [hhead c rfl])]

/-- Trimming gives back what was padded. -/
theorem trimBy_padded {p : Char → Bool} {left body right : List Char}
    (hleft : ∀ c ∈ left, p c = true) (hright : ∀ c ∈ right, p c = true)
    (hhead : ∀ c ∈ body.head?, p c = false) (hlast : ∀ c ∈ body.getLast?, p c = false) :
    trimBy p (left ++ body ++ right) = body := by
  have hright' : ∀ c ∈ right.reverse, p c = true := fun c hc => hright c (List.mem_reverse.mp hc)
  unfold trimBy
  by_cases hbody : body = []
  · have hnothing : ∀ c ∈ ([] : List Char).head?, p c = false := fun c hc => nomatch hc
    rw [hbody, List.append_nil, List.dropWhile_append_of_pos hleft, ← List.append_nil right,
      dropWhile_padded hright hnothing]
    rfl
  · obtain ⟨b, body, rfl⟩ := List.exists_cons_of_ne_nil hbody
    have hhead' : ∀ c ∈ (b :: body ++ right).head?, p c = false := hhead
    have hlast' : ∀ c ∈ (b :: body).reverse.head?, p c = false := by
      rwa [List.head?_reverse]
    rw [List.append_assoc, dropWhile_padded hleft hhead', List.reverse_append,
      dropWhile_padded hright' hlast', List.reverse_reverse]

/-- Trimming keeps the first character that is not to be dropped, and begins with it. -/
theorem head?_trimBy {p : Char → Bool} {left cs : List Char} {c : Char}
    (hleft : ∀ d ∈ left, p d = true) (hc : p c = false) :
    (trimBy p (left ++ c :: cs)).head? = some c := by
  have hhead : ∀ d ∈ (c :: cs).head?, p d = false := by
    rintro d ⟨rfl⟩
    exact hc
  unfold trimBy
  rw [dropWhile_padded hleft hhead, List.reverse_cons, List.dropWhile_append]
  split
  · simp [hc]
  · simp

theorem fields_nil : fields [] = [] := by
  rw [fields]
  rfl

theorem fields_blanks_append {bs : List Char} (h : ∀ c ∈ bs, isBlank c = true) (cs : List Char) :
    fields (bs ++ cs) = fields cs := by
  rw [fields, fields, List.dropWhile_append_of_pos h]

/-- The first field ends before the first blank. -/
theorem fields_word {w rest : List Char} (hne : w ≠ []) (hw : Solid w)
    (hrest : ∀ c ∈ rest.head?, isBlank c = true) : fields (w ++ rest) = w :: fields rest := by
  obtain ⟨c, w, rfl⟩ := List.exists_cons_of_ne_nil hne
  have hc : isBlank c = false := hw c List.mem_cons_self
  have hchars : ∀ d ∈ w, (!isBlank d) = true := by
    intro d hd
    rw [hw d (List.mem_cons_of_mem _ hd)]
    rfl
  have hstart : (c :: w ++ rest).dropWhile isBlank = c :: (w ++ rest) := by
    rw [List.cons_append, List.dropWhile_cons_of_neg (by simp [hc])]
  have htake : (w ++ rest).takeWhile (!isBlank ·) = w := by
    rw [List.takeWhile_append_of_pos hchars]
    cases rest with
    | nil => simp
    | cons d rest => simp [hrest d rfl]
  have hdrop : (w ++ rest).dropWhile (!isBlank ·) = rest := by
    rw [List.dropWhile_append_of_pos hchars]
    cases rest with
    | nil => rfl
    | cons d rest => simp [hrest d rfl]
  rw [fields]
  split
  · next hnil =>
      rw [hstart] at hnil
      cases hnil
  · next d more heq =>
      rw [hstart] at heq
      cases heq
      rw [htake, hdrop]

end Text

end RomKit
