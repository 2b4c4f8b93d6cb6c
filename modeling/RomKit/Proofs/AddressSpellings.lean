import RomKit.Command.BaseAddress
import RomKit.Proofs.Numerals

/-!
# Chosen addresses

An address may be written in hexadecimal after `0x`, `0X` or `$`, or in decimal, with spaces and
tabs around it. The marks keep the two bases apart: decimal digits never look like a mark, because
no digit is an `x` or a dollar sign. So every spelling of a number is read as that number
(`BaseAddress.read_of_spelling`), and the number is taken if and only if the image fits there.
-/

namespace RomKit

/-- Only spaces and tabs. -/
def Text.Padding (cs : List Char) : Prop := ∀ c ∈ cs, c = ' ' ∨ c = '\t'

namespace Text

theorem Padding.isBlank {cs : List Char} (h : Padding cs) : ∀ c ∈ cs, isBlank c = true := by
  intro c hc
  rcases h c hc with rfl | rfl
  · decide
  · decide

/-- Padding around a text without blanks is trimmed. -/
theorem trim_padded {left body right : List Char} (hleft : Padding left) (hright : Padding right)
    (hbody : Solid body) : trim (left ++ body ++ right) = body :=
  trimBy_padded hleft.isBlank hright.isBlank (fun c hc => hbody c (List.mem_of_mem_head? hc))
    fun c hc => hbody c (List.mem_of_getLast? hc)

theorem Solid.cons {c : Char} {cs : List Char} (hc : isBlank c = false) (h : Solid cs) :
    Solid (c :: cs) :=
  List.forall_mem_cons.mpr ⟨hc, h⟩

end Text

namespace BaseAddress

open Numeral

/-- The spellings of a number as an address: in hexadecimal behind a mark, or in decimal. -/
inductive Spelling (n : Nat) : List Char → Prop where
  | radix {x : Char} {ds : List Char} :
      x = 'x' ∨ x = 'X' → Writes 16 n ds → Spelling n ('0' :: x :: ds)
  | dollar {ds : List Char} : Writes 16 n ds → Spelling n ('$' :: ds)
  | decimal {ds : List Char} :
      Writes 10 n ds → ds.length ≤ maxDecimalDigits → Spelling n ds

/-- Listings show addresses in such a spelling. -/
theorem spelling_address (n : Nat) : Spelling n ("$" ++ Hex.address n).toList := by
  rw [String.toList_append]
  show Spelling n ('$' :: (String.ofList (Hex.zeroFill 6 (Hex.upper n))).toList)
  rw [String.toList_ofList]
  exact .dollar (Hex.writes_zeroFill 6 n)

theorem Spelling.solid {n : Nat} {body : List Char} (h : Spelling n body) : Text.Solid body := by
  cases h with
  | @radix x ds hx hds =>
      have hx' : Text.isBlank x = false := by
        rcases hx with rfl | rfl
        · decide
        · decide
      exact .cons (by decide) (.cons hx' (hds.solid (by decide) (Nat.le_refl 16)))
  | dollar hds => exact .cons (by decide) (hds.solid (by decide) (Nat.le_refl 16))
  | decimal hds _ => exact hds.solid (by decide) (by decide)

/-- Digits have no mark: they are read in decimal. -/
theorem read_of_decimal {ds : List Char} {text : String} (htrim : Text.trim text.toList = ds)
    (hds : ∀ c ∈ ds, isDigit 10 c = true) : read text = Numeral.read 10 (String.ofList ds) := by
  have hmark : ∀ {c}, isDigit 16 c = false → c ∉ ds := fun hc hmem =>
    ne_of_isDigit (by decide) (hds _ hmem) hc rfl
  unfold read
  rw [htrim]
  split
  · exact absurd (by simp) (hmark (show isDigit 16 'x' = false by decide))
  · exact absurd (by simp) (hmark (show isDigit 16 'X' = false by decide))
  · exact absurd (by simp) (hmark (show isDigit 16 '$' = false by decide))
  · rfl

/-- **Every spelling of a number is read as the number.** -/
theorem read_of_spelling {n : Nat} {left body right : List Char} (hleft : Text.Padding left)
    (hright : Text.Padding right) (h : Spelling n body) :
    read (String.ofList (left ++ body ++ right)) = .ok (n : Int) := by
  have htrim : Text.trim (String.ofList (left ++ body ++ right)).toList = body := by
    rw [String.toList_ofList]
    exact Text.trim_padded hleft hright h.solid
  have hnotTen : ∀ ds : List Char, 16 = 10 → ds.length ≤ maxDecimalDigits :=
    fun ds hten => absurd hten (by decide)
  cases h with
  | radix hx hds =>
      unfold read
      rw [htrim]
      rcases hx with rfl | rfl
      · exact read_of_writes hds (by decide) (Nat.le_refl 16) (hnotTen _)
      · exact read_of_writes hds (by decide) (Nat.le_refl 16) (hnotTen _)
  | dollar hds =>
      unfold read
      rw [htrim]
      exact read_of_writes hds (by decide) (Nat.le_refl 16) (hnotTen _)
  | decimal hds hlength =>
      rw [read_of_decimal htrim (hds.digits (by decide) (by decide)).2.1]
      exact read_of_writes hds (by decide) (by decide) fun _ => hlength

/--
**A chosen address is taken as it is written.** For every number and every size of an image: the
form that listings print is a spelling of the number; and every spelling of it, with any spaces and
tabs around it, is read as the number, which is the base of the image if the image ends in memory
there, and is refused otherwise.
-/
theorem chosen_as_written (n size : Nat) :
    Spelling n ("$" ++ Hex.address n).toList
      ∧ ∀ left body right, Text.Padding left → Text.Padding right → Spelling n body →
          read (String.ofList (left ++ body ++ right)) = .ok (n : Int)
            ∧ choose size (some (String.ofList (left ++ body ++ right)))
              = if n + size ≤ addressSpace then .ok (n : Int)
                else .error (.doesNotFit size n) := by
  refine ⟨spelling_address n, fun left body right hleft hright hbody => ?_⟩
  have hread := read_of_spelling hleft hright hbody
  refine ⟨hread, ?_⟩
  unfold choose read?
  dsimp only
  rw [RawText.string?_ofString, Option.bind_some, hread]
  dsimp only [Except.toOption]
  by_cases hfits : n + size ≤ addressSpace
  · rw [if_pos hfits, if_pos ⟨by omega, by omega⟩]
  · rw [if_neg hfits, if_neg fun hboth => hfits (by omega)]

/-- Zeros, both letter cases, a tab and a space: an image of seven bytes just fits there. -/
theorem chosen_as_written_mixedCase :
    read (String.ofList ("\t".toList ++ "0X007fFFf9".toList ++ " ".toList)) = .ok 0x7FFFF9
      ∧ choose 7 (some (String.ofList ("\t".toList ++ "0X007fFFf9".toList ++ " ".toList)))
        = .ok 0x7FFFF9
      ∧ choose 8 (some (String.ofList ("\t".toList ++ "0X007fFFf9".toList ++ " ".toList)))
        = .error (.doesNotFit 8 0x7FFFF9) := by
  have hleft : Text.Padding "\t".toList := List.forall_mem_singleton.mpr (Or.inr rfl)
  have hright : Text.Padding " ".toList := List.forall_mem_singleton.mpr (Or.inl rfl)
  have hbody : Spelling 0x7FFFF9 "0X007fFFf9".toList :=
    .radix (Or.inr rfl) ⟨2, by decide +kernel⟩
  obtain ⟨hread, hfits⟩ := (chosen_as_written 0x7FFFF9 7).2 _ _ _ hleft hright hbody
  obtain ⟨-, hlarge⟩ := (chosen_as_written 0x7FFFF9 8).2 _ _ _ hleft hright hbody
  exact ⟨hread, hfits, hlarge⟩

end BaseAddress

end RomKit
