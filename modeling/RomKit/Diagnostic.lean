import RomKit.Source.CharClass
import RomKit.Source.Location
import RomKit.Text.Quoted

/-!
# Diagnostics

What the assembler reports when it rejects a source: a cause and, mostly, the
place of the construct at fault. The message shows the place, says what is wrong
and may add a hint on a line of its own.
-/

namespace RomKit

/-- The two things that `;name` and `@name` do with a name. -/
inductive LabelUse where
  | reference
  | definition
deriving DecidableEq, Repr

/-- The kinds of diagnostics. -/
inductive Category where
  | general
  | malformed
  | duplicateLabel
  | unknownInstruction
  | refusedModifier
  | undefinedLabel
  | unreadable
deriving DecidableEq, Repr

/-- Why a source is rejected. -/
inductive Cause where
  /-- No token begins with this byte. -/
  | unexpectedByte (byte : UInt8)
  /-- A comment without its closing parenthesis. -/
  | openComment
  /-- A `;` or `@` without a name. -/
  | emptyName (use : LabelUse)
  /-- A quote without text. -/
  | emptyString
  /-- A `#` without digits. -/
  | missingDigits
  /-- A hexadecimal run of odd length. -/
  | oddDigits
  /-- A hexadecimal run of more than eight digits. -/
  | tooManyDigits
  /-- An instruction with no separator after it. -/
  | unseparated (byte : UInt8) (mnemonic : String)
  /-- A second definition of a label. -/
  | duplicateLabel (label : String) (first : Option Location)
  /-- A mnemonic of no opcode, and the mnemonics that resemble it. -/
  | unknownInstruction (mnemonic : String) (similar : List String)
  /-- A modifier that the opcode does not accept. -/
  | refusedModifier (mnemonic modifier : String)
  /-- A reference to a label without definition, and the labels that resemble it. -/
  | undefinedLabel (label : String) (similar : List String)
  /-- The source could not be read. -/
  | unreadable (reason : String)
  /-- The image does not fit into memory. -/
  | imageTooLarge (size : Nat) (limit : Int)
  /-- There is no image to give out. -/
  | nothingAssembled
  /-- A cause in the words of the caller. -/
  | stated (category : Category) (message : String) (hint : Option String)
deriving DecidableEq, Repr

/-- A cause and the place of the construct at fault. -/
structure Diagnostic where
  cause : Cause
  location : Option Location
deriving DecidableEq, Repr

/-- A name in single quotes, as it is. -/
def inQuotes (name : String) : String :=
  "'" ++ name ++ "'"

/-- The suggestions of a hint; at most three are named. -/
def suggestion (similar : List String) : Option String :=
  if similar.isEmpty then none
  else some ("did you mean " ++ ", ".intercalate ((similar.take 3).map inQuotes) ++ "?")

/-- The word for the use of a name. -/
def LabelUse.word : LabelUse → String
  | .reference => "label reference"
  | .definition => "label definition"

namespace Cause

/-- The kind of a cause. -/
def category : Cause → Category
  | .unexpectedByte _ | .openComment | .emptyName _ | .emptyString | .missingDigits
  | .oddDigits | .tooManyDigits | .unseparated _ _ => .malformed
  | .duplicateLabel _ _ => .duplicateLabel
  | .unknownInstruction _ _ => .unknownInstruction
  | .refusedModifier _ _ => .refusedModifier
  | .undefinedLabel _ _ => .undefinedLabel
  | .unreadable _ => .unreadable
  | .imageTooLarge _ _ | .nothingAssembled => .general
  | .stated c _ _ => c

/-- What is wrong. -/
def message : Cause → String
  | .unexpectedByte b =>
    "unexpected character " ++ Text.quoted (Source.textOf [b]) ++ " (" ++ toString b.toNat ++ ")"
  | .openComment => "unterminated comment"
  | .emptyName use => use.word ++ " names cannot be empty"
  | .emptyString => "string literals cannot be empty"
  | .missingDigits => "invalid number: expected hex digits after '#'"
  | .oddDigits => "invalid number: hex digits must come in pairs"
  | .tooManyDigits => "invalid number: more than 8 hex digits"
  | .unseparated b name =>
    "unexpected character " ++ Text.quoted (Source.textOf [b]) ++ " after instruction "
      ++ inQuotes name
  | .duplicateLabel label _ => "cannot redefine label " ++ inQuotes label
  | .unknownInstruction name _ => "unknown instruction " ++ inQuotes name
  | .refusedModifier name modifier =>
    "instruction " ++ inQuotes name ++ " is incompatible with the " ++ modifier ++ " modifier"
  | .undefinedLabel label _ => "undefined label " ++ inQuotes label
  | .unreadable reason => "cannot read source: " ++ reason
  | .imageTooLarge size limit =>
    "image of " ++ toString size ++ " bytes does not fit the " ++ toString limit
      ++ "-byte address space"
  | .nothingAssembled => "no code has been assembled"
  | .stated _ text _ => text

/-- What may help. -/
def hint : Cause → Option RawText
  | .openComment => some ("add a closing ')'" : String)
  | .unseparated _ _ => some ("separate instructions with whitespace" : String)
  | .duplicateLabel label first =>
    first.map fun l => inQuotes label ++ " was first defined at " ++ l.text
  | .unknownInstruction _ similar | .undefinedLabel _ similar =>
    (suggestion similar).map RawText.ofString
  | .stated _ _ h => h.map RawText.ofString
  | _ => none

end Cause

/-- The whole message: place, fault and, unless it is empty, the hint. -/
def Diagnostic.message (d : Diagnostic) : RawText :=
  let place : RawText := match d.location with
    | some l => l.text ++ ": "
    | none => ""
  let hint : RawText := match d.cause.hint with
    | some h => if h.isEmpty then "" else "\nhint: " ++ h
    | none => ""
  place ++ "error: " ++ d.cause.message ++ hint

end RomKit
