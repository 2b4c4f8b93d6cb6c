import RomKit.Listing.Disassembly
import RomKit.Text.Json

/-!
# Listings of whole images

A listing as the disassembler writes it: a header, which is a comment of the
source language, and a line for each entry; or a JSON document.
-/

namespace RomKit

/-- An entry as a JSON object. -/
def Entry.toJson (e : Entry) : Json :=
  .object [
    ("address", .string ("$" ++ Hex.address e.address)),
    ("address_int", .number e.address),
    ("text", .string e.text),
    ("opcode", match e.opcode? with
      | some op => .string op.mnemonic
      | none => .null),
    ("ret", .bool e.ret),
    ("size", .number e.width.byteCount),
    ("bytes", .array (e.bytes.map fun b => .string (Hex.byte b))),
    ("comment", .string e.comment)]

/-- A disassembled image. -/
structure Report where
  /-- The name of the file. -/
  name : RawText
  size : Nat
  base : Int
  entries : List Entry
deriving DecidableEq, Repr

namespace Report

/-- The listing with its header, in full or as source text. -/
def text (r : Report) (showBytes : Bool) : RawText :=
  let header : List RawText := [
    "( Disassembly of " ++ r.name ++ " )",
    "( Size: " ++ toString r.size ++ " bytes, base address: $" ++ Hex.address r.base ++ " )",
    ""]
  let lines : List RawText := r.entries.map fun e => if showBytes then e.line else e.text
  List.intercalate ("\n" : RawText) (header ++ lines) ++ "\n"

/-- The listing as a JSON document. -/
def json (r : Report) : String :=
  let document : Json := .object [
    ("file", .string r.name),
    ("size", .number r.size),
    ("base_address", .number r.base),
    ("instructions", .array (r.entries.map Entry.toJson))]
  document.render ++ "\n"

end Report

end RomKit
