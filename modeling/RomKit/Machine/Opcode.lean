/-!
# Opcodes

The 29 operations of the stack machine, in the order of their ordinals. Each
operation has an upper-case mnemonic and says which of the two modifiers it
takes: the *return* modifier (work on the return stack) and the *size* modifier
(work on 2, 3 or 4 bytes).
-/

namespace RomKit

/-- An operation of the stack machine. -/
inductive Opcode where
  | lit | dei | deo | hlt | brp | dup | swp | rot | pop | sth
  | gpc | memr | memw | memc | jmp | tjmp | fjmp | eq | ne | lt
  | gt | add | sub | mul | div | and | or | xor | not
deriving DecidableEq, Repr, Inhabited

namespace Opcode

/-- Every opcode, by increasing ordinal. -/
def all : List Opcode :=
  [.lit, .dei, .deo, .hlt, .brp, .dup, .swp, .rot, .pop, .sth,
   .gpc, .memr, .memw, .memc, .jmp, .tjmp, .fjmp, .eq, .ne, .lt,
   .gt, .add, .sub, .mul, .div, .and, .or, .xor, .not]

/-- The number stored in the low five bits of a control byte. -/
def ordinal : Opcode → Nat
  | .lit => 0 | .dei => 1 | .deo => 2 | .hlt => 3 | .brp => 4
  | .dup => 5 | .swp => 6 | .rot => 7 | .pop => 8 | .sth => 9
  | .gpc => 10 | .memr => 11 | .memw => 12 | .memc => 13 | .jmp => 14
  | .tjmp => 15 | .fjmp => 16 | .eq => 17 | .ne => 18 | .lt => 19
  | .gt => 20 | .add => 21 | .sub => 22 | .mul => 23 | .div => 24
  | .and => 25 | .or => 26 | .xor => 27 | .not => 28

/-- The name of the operation in source text. -/
def mnemonic : Opcode → String
  | .lit => "LIT" | .dei => "DEI" | .deo => "DEO" | .hlt => "HLT" | .brp => "BRP"
  | .dup => "DUP" | .swp => "SWP" | .rot => "ROT" | .pop => "POP" | .sth => "STH"
  | .gpc => "GPC" | .memr => "MEMR" | .memw => "MEMW" | .memc => "MEMC" | .jmp => "JMP"
  | .tjmp => "TJMP" | .fjmp => "FJMP" | .eq => "EQ" | .ne => "NE" | .lt => "LT"
  | .gt => "GT" | .add => "ADD" | .sub => "SUB" | .mul => "MUL" | .div => "DIV"
  | .and => "AND" | .or => "OR" | .xor => "XOR" | .not => "NOT"

/-- The opcode with a given ordinal; the ordinals 29, 30 and 31 name none. -/
def ofOrdinal? (n : Nat) : Option Opcode :=
  all[n]?

/-- The opcode with a given mnemonic. Letter case matters. -/
def ofMnemonic? (name : String) : Option Opcode :=
  all.find? fun op => op.mnemonic == name

/-- The stack-pointer operation `BRP` has no return form. -/
def acceptsReturn : Opcode → Bool
  | .brp => false
  | _ => true

/-- `BRP`, `GPC` and `JMP` have no operand whose size could be chosen. -/
def acceptsSize : Opcode → Bool
  | .brp | .gpc | .jmp => false
  | _ => true

/-- All mnemonics, by increasing code point. -/
def mnemonics : List String :=
  (all.map mnemonic).mergeSort fun a b => decide (a ≤ b)

theorem ofOrdinal?_ordinal (op : Opcode) : ofOrdinal? op.ordinal = some op := by
  cases op <;> rfl

theorem ordinal_of_ofOrdinal? {n : Nat} {op : Opcode} (h : ofOrdinal? n = some op) :
    op.ordinal = n := by
  have hn : n < 29 := (List.getElem?_eq_some_iff.mp h).1
  match n, hn with
  | 0, _ | 1, _ | 2, _ | 3, _ | 4, _ | 5, _ | 6, _ | 7, _ | 8, _ | 9, _
  | 10, _ | 11, _ | 12, _ | 13, _ | 14, _ | 15, _ | 16, _ | 17, _ | 18, _ | 19, _
  | 20, _ | 21, _ | 22, _ | 23, _ | 24, _ | 25, _ | 26, _ | 27, _ | 28, _ =>
    cases h; rfl

end Opcode

end RomKit
