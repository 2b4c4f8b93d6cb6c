/-!
# Symbol tables

A symbol table lists names with their addresses. Each name stands once, in the
place where it was first set, with the address that was set last.
-/

namespace RomKit.SymbolTable

/-- Sets the address of a name: in its place if it has one, else at the end. -/
def put (symbols : List (String × Int)) (name : String) (address : Int) : List (String × Int) :=
  if symbols.any fun p => p.1 == name then
    symbols.map fun p => if p.1 == name then (name, address) else p
  else symbols ++ [(name, address)]

/-- The table with the names and addresses of a list, set one after another. -/
def ofList (pairs : List (String × Int)) : List (String × Int) :=
  pairs.foldl (fun symbols p => put symbols p.1 p.2) []

end RomKit.SymbolTable
