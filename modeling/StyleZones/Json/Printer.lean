import StyleZones.Json.Basic

/-!
# Writing JSON

Two layouts of a document: `Json.compact` puts nothing between tokens, `Json.pretty` puts every item
and member on a line of its own, two blanks further in than its container, with a blank after each
colon. Empty containers are written as a pair of brackets in both. Tokens are written as the
document holds them.
-/

set_option autoImplicit false

namespace StyleZones.Json

/-- A quoted string with its quotes. -/
def quoteRaw (raw : List Char) : List Char :=
  '"' :: raw ++ ['"']

/-- The text of a truth value. -/
def boolChars : Bool → List Char
  | true => ['t', 'r', 'u', 'e']
  | false => ['f', 'a', 'l', 's', 'e']

/-! ## Compact layout -/

mutual

/-- The characters of a document with nothing between tokens. -/
def compactChars : Json → List Char
  | .null => ['n', 'u', 'l', 'l']
  | .bool b => boolChars b
  | .num numeral => numeral
  | .str raw => quoteRaw raw
  | .arr [] => ['[', ']']
  | .arr (v :: vs) => '[' :: compactChars v ++ compactItems vs
  | .obj [] => ['\x7b', '\x7d']
  | .obj ((k, v) :: ms) => '\x7b' :: quoteRaw k ++ ':' :: compactChars v ++ compactMembers ms

/-- The items after the first, each after a comma, and the end of the array. -/
def compactItems : List Json → List Char
  | [] => [']']
  | v :: vs => ',' :: compactChars v ++ compactItems vs

/-- The members after the first, each after a comma, and the end of the object. -/
def compactMembers : List (List Char × Json) → List Char
  | [] => ['\x7d']
  | (k, v) :: ms => ',' :: quoteRaw k ++ ':' :: compactChars v ++ compactMembers ms

end

/-- The text of a document in the compact layout. -/
def compact (v : Json) : String :=
  String.ofList (compactChars v)

/-! ## Indented layout -/

/-- A new line at the given level, two blanks to the level. -/
def newline (level : Nat) : List Char :=
  '\n' :: List.replicate (2 * level) ' '

mutual

/-- The characters of a document whose containers stand at the given level. -/
def prettyChars (level : Nat) : Json → List Char
  | .null => ['n', 'u', 'l', 'l']
  | .bool b => boolChars b
  | .num numeral => numeral
  | .str raw => quoteRaw raw
  | .arr [] => ['[', ']']
  | .arr (v :: vs) =>
      '[' :: newline (level + 1) ++ prettyChars (level + 1) v ++ prettyItems level vs
  | .obj [] => ['\x7b', '\x7d']
  | .obj ((k, v) :: ms) =>
      '\x7b' :: newline (level + 1) ++ quoteRaw k ++ ':' :: ' ' ::
        prettyChars (level + 1) v ++ prettyMembers level ms

/-- The items after the first, each on its own line, and the end of the array. -/
def prettyItems (level : Nat) : List Json → List Char
  | [] => newline level ++ [']']
  | v :: vs =>
      ',' :: newline (level + 1) ++ prettyChars (level + 1) v ++ prettyItems level vs

/-- The members after the first, each on its own line, and the end of the object. -/
def prettyMembers (level : Nat) : List (List Char × Json) → List Char
  | [] => newline level ++ ['\x7d']
  | (k, v) :: ms =>
      ',' :: newline (level + 1) ++ quoteRaw k ++ ':' :: ' ' ::
        prettyChars (level + 1) v ++ prettyMembers level ms

end

/-- The text of a document in the indented layout. -/
def pretty (v : Json) : String :=
  String.ofList (prettyChars 0 v)

end StyleZones.Json
