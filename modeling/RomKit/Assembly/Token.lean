import RomKit.Machine.Instruction
import RomKit.Source.Scan
import RomKit.Text.Resemblance

/-!
# Tokens

The current byte decides which token follows:

* `( … )` is a comment;
* `;name` refers to a label and `@name` defines one;
* a single quote starts a string, which ends before the next blank;
* `#` starts a literal, written in hexadecimal digits; digits without it are data;
* symbol bytes spell an instruction, with its modifiers after the mnemonic;
* a blank stands for itself.

Hexadecimal digits are lower-case and come in one to four pairs. Reading a token
consumes at least one byte (`Token.remaining_scan_lt`).
-/

namespace RomKit

/-- A piece of source text. -/
inductive Token where
  | blank (byte : UInt8)
  | comment (text : List UInt8)
  | reference (name : String)
  | definition (name : String)
  | string (bytes : List UInt8)
  | literal (payload : List UInt8)
  | data (bytes : List UInt8)
  | instruction (instruction : Instruction)
deriving DecidableEq, Repr

namespace Token

open Cursor Scan Source

/-- The bytes that open a token or close a comment. -/
def openParen : UInt8 := 0x28
/-- Closes a comment. -/
def closeParen : UInt8 := 0x29
/-- Opens a label reference. -/
def semicolon : UInt8 := 0x3B
/-- Opens a label definition. -/
def atSign : UInt8 := 0x40
/-- Opens a string. -/
def quote : UInt8 := 0x27
/-- Opens a literal. -/
def hash : UInt8 := 0x23
/-- Marks the return modifier at the end of a mnemonic. -/
def returnMark : UInt8 := 0x72

/-- The most bytes that a run of digits spells. -/
def maxPairs : Nat := 4

/-- Reads `( … )`. -/
def scanComment (start : Location) : Scan Token := do
  let _ ← advance
  let text ← takeRun (· != closeParen)
  match ← takeIf (· == closeParen) with
  | none => fail start .openComment
  | some _ => return .comment text

/-- Reads the name after `;` or `@`. -/
def scanName (start : Location) (use : LabelUse) : Scan String := do
  let _ ← advance
  let name ← takeRun isSymbol
  if name.isEmpty then fail start (.emptyName use) else return textOf name

/-- Reads the text after a quote. -/
def scanString (start : Location) : Scan Token := do
  let _ ← advance
  let bytes ← takeRun (!isSpace ·)
  if bytes.isEmpty then fail start .emptyString else return .string bytes

/-- The byte spelt by two digits. -/
def byteOf (high low : UInt8) : UInt8 :=
  UInt8.ofNat (hexValue high * 16 + hexValue low)

/-- Reads up to a number of digit pairs. -/
def scanPairs (start : Location) : Nat → Scan (List UInt8)
  | 0 => return []
  | n + 1 => do
    match ← takeIf isHexDigit with
    | none => return []
    | some high =>
      match ← takeIf isHexDigit with
      | none => fail start .oddDigits
      | some low =>
        let rest ← scanPairs start n
        return byteOf high low :: rest

/-- Reads a run of digits, which is even and not too long. -/
def scanDigits (start : Location) : Scan (List UInt8) := do
  let bytes ← scanPairs start maxPairs
  let c ← get
  if c.sees isHexDigit then fail start .tooManyDigits else return bytes

/-- Reads the digits after `#`. -/
def scanLiteral (start : Location) : Scan Token := do
  let _ ← advance
  let payload ← scanDigits start
  if payload.isEmpty then fail start .missingDigits else return .literal payload

/-- Splits the return mark from a run of symbol bytes. A lone mark is a name. -/
def splitReturn (run : List UInt8) : List UInt8 × Bool :=
  if 1 < run.length && run.getLast? == some returnMark then (run.dropLast, true) else (run, false)

/-- Reads a size digit, if there is one. -/
def scanWidth : Scan (Option Width) := do
  let digit ← takeIf fun b => (Width.ofDigitByte? b).isSome
  return digit.bind Width.ofDigitByte?

/-- The instruction that a name and its modifiers spell, or what is wrong with them. -/
def toInstruction (name : String) (ret : Bool) (size : Option Width) : Except Cause Instruction :=
  match Opcode.ofMnemonic? name with
  | none => .error (.unknownInstruction name (Resemblance.closest name Opcode.mnemonics))
  | some op =>
    if ret && !op.acceptsReturn then .error (.refusedModifier name "return")
    else if size.isSome && !op.acceptsSize then .error (.refusedModifier name "size")
    else .ok ⟨op, ret, size.getD .one⟩

/-- A byte that may follow an instruction. -/
def separates (b : UInt8) : Bool :=
  isSpace b || b == openParen

/-- Reads a mnemonic with its modifiers. A blank, a comment or the end must follow. -/
def scanInstruction (start : Location) : Scan Token := do
  let run ← takeRun isSymbol
  let size ← scanWidth
  let (name, ret) := splitReturn run
  match toInstruction (textOf name) ret size with
  | .error cause => fail start cause
  | .ok i =>
    let c ← get
    match c.current with
    | none => return .instruction i
    | some b =>
      if separates b then return .instruction i
      else fail start (.unseparated b (textOf name))

/-- Reads a reference. -/
def scanReference (start : Location) : Scan Token := do
  let name ← scanName start .reference
  return .reference name

/-- Reads a definition. -/
def scanDefinition (start : Location) : Scan Token := do
  let name ← scanName start .definition
  return .definition name

/-- Reads a blank. -/
def scanBlank (b : UInt8) : Scan Token := do
  let _ ← advance
  return .blank b

/-- Reads data. -/
def scanData (start : Location) : Scan Token := do
  let bytes ← scanDigits start
  return .data bytes

/-- Reads the token that starts with the current byte `b`, at `start`. -/
def scanFrom (start : Location) (b : UInt8) : Scan Token :=
  if b == openParen then scanComment start
  else if b == semicolon then scanReference start
  else if b == atSign then scanDefinition start
  else if b == quote then scanString start
  else if b == hash then scanLiteral start
  else if isSpace b then scanBlank b
  else if isHexDigit b then scanData start
  else if isSymbol b then scanInstruction start
  else fail start (.unexpectedByte b)

/-- Reads a token; `none` at the end. -/
def scan : Scan (Option Token) := fun c =>
  match c.current with
  | none => .ok none c
  | some b =>
    match scanFrom c.location b c with
    | .ok token c' => .ok (some token) c'
    | .error d c' => .error d c'

/-! ## Progress -/

theorem approaches_scanPairs (start : Location) : ∀ n, Approaches (scanPairs start n)
  | 0 => approaches_pure _
  | n + 1 => by
    refine approaches_bind (approaches_takeIf _) fun high => ?_
    cases high with
    | none => exact approaches_pure _
    | some h =>
      refine approaches_bind (approaches_takeIf _) fun low => ?_
      cases low with
      | none => exact approaches_fail _ _
      | some l =>
        exact approaches_bind (approaches_scanPairs start n) fun _ => approaches_pure _

theorem approaches_scanDigits (start : Location) : Approaches (scanDigits start) := by
  refine approaches_bind (approaches_scanPairs _ _) fun bytes => ?_
  refine approaches_bind approaches_get fun c => ?_
  split
  · exact approaches_fail _ _
  · exact approaches_pure _

theorem remaining_takeIf_lt {p : UInt8 → Bool} {c c' : Cursor} {r : Option UInt8}
    (hs : c.sees p = true) (h : takeIf p c = .ok r c') : c'.remaining < c.remaining := by
  unfold takeIf at h
  rw [if_pos hs] at h
  cases hc : c.current with
  | none => simp [sees, hc] at hs
  | some b => exact remaining_advance_lt hc h

theorem remaining_scanDigits_lt {start : Location} {c c' : Cursor} {bytes : List UInt8}
    (hs : c.sees isHexDigit = true) (h : scanDigits start c = .ok bytes c') :
    c'.remaining < c.remaining := by
  obtain ⟨bs, c₁, h₁, h₂⟩ := bind_ok h
  have hle : c'.remaining ≤ c₁.remaining := by
    refine approaches_bind approaches_get (fun c => ?_) c₁ bytes c' h₂
    split
    · exact approaches_fail _ _
    · exact approaches_pure _
  refine Nat.lt_of_le_of_lt hle ?_
  refine remaining_bind_lt (fun _ _ => remaining_takeIf_lt hs) (fun high => ?_) h₁
  cases high with
  | none => exact approaches_pure _
  | some high =>
    refine approaches_bind (approaches_takeIf _) fun low => ?_
    cases low with
    | none => exact approaches_fail _ _
    | some low =>
      exact approaches_bind (approaches_scanPairs start _) fun _ => approaches_pure _

theorem remaining_scanName_lt {start : Location} {use : LabelUse} {c c' : Cursor} {b : UInt8}
    {name : String} (hc : c.current = some b) (h : scanName start use c = .ok name c') :
    c'.remaining < c.remaining := by
  refine remaining_bind_lt (fun _ _ => remaining_advance_lt hc) (fun _ => ?_) h
  refine approaches_bind (approaches_takeRun _) fun bs => ?_
  split
  · exact approaches_fail _ _
  · exact approaches_pure _

/-- Reading a token that starts with the current byte consumes at least that byte. -/
theorem remaining_scanFrom_lt {start : Location} {c c' : Cursor} {b : UInt8} {t : Token}
    (hc : c.current = some b) (h : scanFrom start b c = .ok t c') :
    c'.remaining < c.remaining := by
  unfold scanFrom at h
  split at h
  · -- a comment
    refine remaining_bind_lt (fun _ _ => remaining_advance_lt hc) (fun _ => ?_) h
    refine approaches_bind (approaches_takeRun _) fun text => ?_
    refine approaches_bind (approaches_takeIf _) fun close => ?_
    cases close with
    | none => exact approaches_fail _ _
    | some _ => exact approaches_pure _
  split at h
  · -- a reference
    exact remaining_bind_lt (fun _ _ => remaining_scanName_lt hc) (fun _ => approaches_pure _) h
  split at h
  · -- a definition
    exact remaining_bind_lt (fun _ _ => remaining_scanName_lt hc) (fun _ => approaches_pure _) h
  split at h
  · -- a string
    refine remaining_bind_lt (fun _ _ => remaining_advance_lt hc) (fun _ => ?_) h
    refine approaches_bind (approaches_takeRun _) fun bytes => ?_
    split
    · exact approaches_fail _ _
    · exact approaches_pure _
  split at h
  · -- a literal
    refine remaining_bind_lt (fun _ _ => remaining_advance_lt hc) (fun _ => ?_) h
    refine approaches_bind (approaches_scanDigits _) fun payload => ?_
    split
    · exact approaches_fail _ _
    · exact approaches_pure _
  split at h
  · -- a blank
    exact remaining_bind_lt (fun _ _ => remaining_advance_lt hc) (fun _ => approaches_pure _) h
  split at h
  · next hx =>
    -- data
    have hs : c.sees isHexDigit = true := by simp [sees, hc, hx]
    exact remaining_bind_lt (fun _ _ => remaining_scanDigits_lt hs) (fun _ => approaches_pure _) h
  split at h
  · next hx =>
    -- an instruction
    have hs : c.sees isSymbol = true := by simp [sees, hc, hx]
    refine remaining_bind_lt (fun _ _ => remaining_takeWhile_lt hs) (fun run => ?_) h
    refine approaches_bind ?_ fun size => ?_
    · exact approaches_bind (approaches_takeIf _) fun _ => approaches_pure _
    · dsimp only
      split
      · exact approaches_fail _ _
      · refine approaches_bind approaches_get fun c => ?_
        split
        · exact approaches_pure _
        · split
          · exact approaches_pure _
          · exact approaches_fail _ _
  · cases h

theorem remaining_scan_lt {c c' : Cursor} {t : Token} (h : scan c = .ok (some t) c') :
    c'.remaining < c.remaining := by
  unfold scan at h
  split at h
  · cases h
  · next b hc =>
    split at h
    · next token c₁ hs =>
      cases h
      exact remaining_scanFrom_lt hc hs
    · cases h

end Token

end RomKit
