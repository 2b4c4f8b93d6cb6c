/-!
# Names for addresses

A listing shows the names of addresses that have one. An address has one name,
the last it was given; an empty name is none.
-/

namespace RomKit

/-- The names given to addresses, the latest first. -/
structure SymbolMap where
  entries : List (Int × String)
deriving DecidableEq, Repr

namespace SymbolMap

/-- No names. -/
def empty : SymbolMap :=
  ⟨[]⟩

/-- Gives a name to an address. -/
def insert (m : SymbolMap) (address : Int) (name : String) : SymbolMap :=
  ⟨(address, name) :: m.entries⟩

/-- Gives names to addresses, one after another. -/
def insertAll (m : SymbolMap) (pairs : List (Int × String)) : SymbolMap :=
  pairs.foldl (fun m p => m.insert p.1 p.2) m

/-- The symbols of an image as names for their addresses. -/
def insertSymbols (m : SymbolMap) (symbols : List (String × Int)) : SymbolMap :=
  m.insertAll (symbols.map fun p => (p.2, p.1))

/-- The name of an address. -/
def name? (m : SymbolMap) (address : Int) : Option String :=
  match m.entries.lookup address with
  | some name => if name.isEmpty then none else some name
  | none => none

end SymbolMap

end RomKit
