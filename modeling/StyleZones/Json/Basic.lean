/-!
# JSON documents as written

A document keeps its tokens the way they stand in the text: a string is the run of characters
between its quotes, escapes included, and a number is its numeral. Reading a document therefore
loses nothing, and what a token denotes is decided only where its value is asked for. This matters
because a value that nobody asks for need not denote anything: half of a surrogate pair is a
well-formed escape, and a numeral may exceed every machine number.

Members of an object stand in the order they were written, repetitions included.
-/

set_option autoImplicit false

namespace StyleZones

/-- A JSON document. -/
inductive Json where
  /-- The literal `null`. -/
  | null
  /-- The literals `true` and `false`. -/
  | bool (value : Bool)
  /-- A number, as its numeral. -/
  | num (numeral : List Char)
  /-- A string, as the characters between its quotes. -/
  | str (raw : List Char)
  /-- An array. -/
  | arr (items : List Json)
  /-- An object: its members in written order, each with its raw key. -/
  | obj (members : List (List Char × Json))

namespace Json

/-! ## Nesting -/

mutual

/-- How many containers are open at the deepest place of a document. -/
def depth : Json → Nat
  | .null => 0
  | .bool _ => 0
  | .num _ => 0
  | .str _ => 0
  | .arr items => itemsDepth items + 1
  | .obj members => membersDepth members + 1

/-- The greatest depth among the items of an array. -/
def itemsDepth : List Json → Nat
  | [] => 0
  | v :: vs => max (depth v) (itemsDepth vs)

/-- The greatest depth among the members of an object. -/
def membersDepth : List (List Char × Json) → Nat
  | [] => 0
  | (_, v) :: ms => max (depth v) (membersDepth ms)

end

end Json

end StyleZones
