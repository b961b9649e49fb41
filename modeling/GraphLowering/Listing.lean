/-!
# Lists in texts

Messages and dumps write a list of items with a comma and a blank between them, and most of them in
square brackets: `[1, 3, 8]`.
-/

namespace GraphLowering

def commaSeparated (items : List String) : String :=
  String.intercalate ", " items

def bracketed (items : List String) : String :=
  "[" ++ commaSeparated items ++ "]"

def bracketedNats (ns : List Nat) : String :=
  bracketed (ns.map Nat.repr)

def bracketedInts (ns : List Int) : String :=
  bracketed (ns.map Int.repr)

end GraphLowering
