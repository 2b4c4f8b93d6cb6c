import Mathlib.Data.List.TakeWhile
import RomKit.Assembly.Token

/-!
# The grammar of source text

A source is a sequence of lexemes. `Spells text rest token` says that the bytes
`text`, with the bytes `rest` after them, are a lexeme and stand for `token`.
What follows matters: a name, a string or a number ends only where its run of
bytes ends, and an instruction wants a separator.

The grammar says nothing about how a source is read. That the scanner reads
exactly these lexemes is shown in `RomKit/Proofs/Recognition.lean`.
-/

namespace RomKit

namespace Source

/-- The bytes of a text, one for each character. -/
def bytesOf (s : String) : List UInt8 :=
  s.toList.map fun c => UInt8.ofNat c.toNat

/-- `run` is a non-empty run of bytes in a class, and it does not go on in `rest`. -/
structure Run (p : UInt8 → Bool) (run rest : List UInt8) : Prop where
  nonempty : run ≠ []
  inside : ∀ b ∈ run, p b = true
  stops : rest.head?.any p = false

end Source

/-- The size digit in source text; one byte is meant without a digit. -/
def Width.digits : Width → List UInt8
  | .one => []
  | .two => [0x32]
  | .three => [0x33]
  | .four => [0x34]

open Source Token

/-- The return mark in source text. -/
def returnMarks (ret : Bool) : List UInt8 :=
  if ret then [returnMark] else []

/-- An instruction in source text: its mnemonic, then the marks of its modifiers. -/
def Instruction.written (i : Instruction) : List UInt8 :=
  bytesOf i.opcode.mnemonic ++ returnMarks i.ret ++ i.width.digits

/-- The bytes that digits spell, two digits each. -/
def pairBytes : List UInt8 → List UInt8
  | high :: low :: rest => byteOf high low :: pairBytes rest
  | _ => []

/-- A number: one to four pairs of digits, and no further digit. -/
structure Number (digits rest : List UInt8) : Prop where
  run : Run isHexDigit digits rest
  length : digits.length ∈ [2, 4, 6, 8]

/-- The bytes `text` before the bytes `rest` are a lexeme and stand for a token. -/
inductive Spells : (text rest : List UInt8) → Token → Prop where
  | blank {b : UInt8} {rest : List UInt8} :
      isSpace b = true → Spells [b] rest (.blank b)
  | comment {text rest : List UInt8} :
      closeParen ∉ text → Spells (openParen :: (text ++ [closeParen])) rest (.comment text)
  | reference {name rest : List UInt8} :
      Run isSymbol name rest → Spells (semicolon :: name) rest (.reference (textOf name))
  | definition {name rest : List UInt8} :
      Run isSymbol name rest → Spells (atSign :: name) rest (.definition (textOf name))
  | string {bytes rest : List UInt8} :
      Run (fun b => !isSpace b) bytes rest → Spells (quote :: bytes) rest (.string bytes)
  | literal {digits rest : List UInt8} :
      Number digits rest → Spells (hash :: digits) rest (.literal (pairBytes digits))
  | data {digits rest : List UInt8} :
      Number digits rest → Spells digits rest (.data (pairBytes digits))
  | instruction {i : Instruction} {rest : List UInt8} :
      i.allowed = true → rest.head?.all separates = true → Spells i.written rest (.instruction i)

/-- A piece of source text with the token that it stands for. -/
structure Lexeme where
  text : List UInt8
  token : Token
deriving DecidableEq, Repr

/-- A source is the concatenation of these lexemes, each followed by the next one. -/
inductive Splits : List UInt8 → List Lexeme → Prop where
  | nil : Splits [] []
  | cons {text rest : List UInt8} {token : Token} {lexemes : List Lexeme} :
      Spells text rest token → Splits rest lexemes →
      Splits (text ++ rest) (⟨text, token⟩ :: lexemes)

/-! ## Runs -/

namespace Source

variable {p : UInt8 → Bool} {run rest bytes : List UInt8}

theorem takeWhile_append_of_stops (hin : ∀ b ∈ run, p b = true) (hs : rest.head?.any p = false) :
    (run ++ rest).takeWhile p = run := by
  rw [List.takeWhile_append_of_pos hin]
  cases rest with
  | nil => simp
  | cons b rest => simp_all

theorem dropWhile_append_of_stops (hin : ∀ b ∈ run, p b = true) (hs : rest.head?.any p = false) :
    (run ++ rest).dropWhile p = rest := by
  rw [List.dropWhile_append_of_pos hin]
  cases rest with
  | nil => simp
  | cons b rest => simp_all

/-- The longest run at the start of some bytes, unless it is empty. -/
theorem run_takeWhile (h : bytes.takeWhile p ≠ []) :
    Run p (bytes.takeWhile p) (bytes.dropWhile p) where
  nonempty := h
  inside := fun _ hb => List.mem_takeWhile_imp hb
  stops := by
    have hstop := List.head?_dropWhile_not p bytes
    cases hhead : (bytes.dropWhile p).head? with
    | none => rfl
    | some b =>
        rw [hhead] at hstop
        exact hstop

end Source

/-! ## Lexemes before a blank -/

section

variable {tail : List UInt8}

/-- A class without blanks is left where blanks begin. -/
theorem any_eq_false_of_blank {p : UInt8 → Bool} (hp : ∀ b, isSpace b = true → p b = false)
    (htail : tail.head?.all isSpace = true) : tail.head?.any p = false := by
  cases tail with
  | nil => rfl
  | cons b tail => exact hp b htail

theorem Source.Run.append {p : UInt8 → Bool} {run rest : List UInt8} (h : Run p run rest)
    (hp : ∀ b, isSpace b = true → p b = false) (htail : tail.head?.all isSpace = true) :
    Run p run (rest ++ tail) where
  nonempty := h.nonempty
  inside := h.inside
  stops := by
    cases rest with
    | nil => exact any_eq_false_of_blank hp htail
    | cons b rest => exact h.stops

/-- **A lexeme stays one when the text goes on with a blank.** -/
theorem Spells.append {text rest : List UInt8} {t : Token} (h : Spells text rest t)
    (htail : tail.head?.all isSpace = true) : Spells text (rest ++ tail) t := by
  have hsymbol : ∀ b, isSpace b = true → isSymbol b = false := by
    intro b hb
    grind [isSpace, isSymbol, isReserved]
  have hdigit : ∀ b, isSpace b = true → isHexDigit b = false := by
    intro b hb
    grind [isSpace, isHexDigit]
  have hstring : ∀ b, isSpace b = true → (!isSpace b) = false := by
    intro b hb
    rw [hb]
    rfl
  cases h with
  | blank hb => exact .blank hb
  | comment hclose => exact .comment hclose
  | reference hrun => exact .reference (hrun.append hsymbol htail)
  | definition hrun => exact .definition (hrun.append hsymbol htail)
  | string hrun => exact .string (hrun.append hstring htail)
  | literal hnumber => exact .literal ⟨hnumber.run.append hdigit htail, hnumber.length⟩
  | data hnumber => exact .data ⟨hnumber.run.append hdigit htail, hnumber.length⟩
  | instruction hallowed hsep =>
      refine .instruction hallowed ?_
      cases rest with
      | cons b rest => exact hsep
      | nil =>
          cases tail with
          | nil => rfl
          | cons b tail =>
              have hb : isSpace b = true := htail
              show separates b = true
              rw [separates, hb, Bool.true_or]

theorem Splits.append {source : List UInt8} {xs ys : List Lexeme} (h : Splits source xs)
    (hys : Splits tail ys) (htail : tail.head?.all isSpace = true) :
    Splits (source ++ tail) (xs ++ ys) := by
  induction h with
  | nil => exact hys
  | cons hspells _ ih =>
      rw [List.append_assoc]
      exact .cons (hspells.append htail) ih

end

/-- Of the text behind a lexeme only the first byte matters. -/
theorem Spells.of_head?_eq {text rest rest' : List UInt8} {t : Token} (h : Spells text rest t)
    (hhead : rest'.head? = rest.head?) : Spells text rest' t := by
  have hrun : ∀ {p : UInt8 → Bool} {run : List UInt8}, Source.Run p run rest →
      Source.Run p run rest' :=
    fun hin => ⟨hin.nonempty, hin.inside, by rw [hhead]; exact hin.stops⟩
  cases h with
  | blank hb => exact .blank hb
  | comment hclose => exact .comment hclose
  | reference hname => exact .reference (hrun hname)
  | definition hname => exact .definition (hrun hname)
  | string hbytes => exact .string (hrun hbytes)
  | literal hnumber => exact .literal ⟨hrun hnumber.run, hnumber.length⟩
  | data hnumber => exact .data ⟨hrun hnumber.run, hnumber.length⟩
  | instruction hallowed hsep => exact .instruction hallowed (by rw [hhead]; exact hsep)

/-! ## Sources that are cut short -/

section

variable {text rest tail : List UInt8} {t : Token}

/-- A lexeme stays one when the text behind it is cut short. -/
theorem Spells.of_append (h : Spells text (rest ++ tail) t) : Spells text rest t := by
  have hrun : ∀ {p : UInt8 → Bool} {run : List UInt8}, Source.Run p run (rest ++ tail) →
      Source.Run p run rest := by
    intro p run hin
    refine ⟨hin.nonempty, hin.inside, ?_⟩
    cases rest with
    | nil => rfl
    | cons b rest => exact hin.stops
  cases h with
  | blank hb => exact .blank hb
  | comment hclose => exact .comment hclose
  | reference hname => exact .reference (hrun hname)
  | definition hname => exact .definition (hrun hname)
  | string hbytes => exact .string (hrun hbytes)
  | literal hnumber => exact .literal ⟨hrun hnumber.run, hnumber.length⟩
  | data hnumber => exact .data ⟨hrun hnumber.run, hnumber.length⟩
  | instruction hallowed hsep =>
      refine .instruction hallowed ?_
      cases rest with
      | nil => rfl
      | cons b rest => exact hsep

/-- The texts of the lexemes are the source. -/
theorem Splits.flatMap_text {source : List UInt8} {xs : List Lexeme} (h : Splits source xs) :
    xs.flatMap Lexeme.text = source := by
  induction h with
  | nil => rfl
  | cons _ _ ih => rw [List.flatMap_cons, ih]

/-- Some of the lexemes of a source, from the first on, are the lexemes of the text before the
others. -/
theorem Splits.of_append {xs ys : List Lexeme} : ∀ {source : List UInt8},
    Splits source (xs ++ ys) →
    ∃ tail, source = xs.flatMap Lexeme.text ++ tail ∧ Splits (xs.flatMap Lexeme.text) xs
      ∧ Splits tail ys := by
  induction xs with
  | nil => intro source h; exact ⟨source, rfl, .nil, h⟩
  | cons x xs ih =>
      intro source h
      cases h with
      | cons hspells hsplits =>
          obtain ⟨tail, rfl, hxs, hys⟩ := ih hsplits
          refine ⟨tail, ?_, ?_, hys⟩
          · rw [List.flatMap_cons, List.append_assoc]
          · rw [List.flatMap_cons]
            exact .cons hspells.of_append hxs

end

end RomKit
