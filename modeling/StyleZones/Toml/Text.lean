import StyleZones.Json.Quoted
import StyleZones.Toml.Basic

/-!
# TOML strings

Strings are written in four ways: between double quotes with escapes, between single quotes without,
and in either way over several lines between threefold quotes. A string over several lines drops a
line end right after its opening quotes, reads every line end as a line feed, and may have up to two
further quotes before its closing ones. With escapes, a backslash at the end of a line drops the
line end and all layout after it.
-/

set_option autoImplicit false

namespace StyleZones.Toml

/-! ## Escapes -/

/-- The character that a short escape names. -/
def shortEscape? : Char → Option Char
  | 'b' => some '\x08'
  | 't' => some '\t'
  | 'n' => some '\n'
  | 'f' => some '\x0c'
  | 'r' => some '\r'
  | '"' => some '"'
  | '\\' => some '\\'
  | _ => none

/-- The number that hexadecimal digits denote. -/
def hexNumber? (cs : List Char) : Option Nat :=
  cs.foldlM (fun n c => (Quoted.hexValue? c).map (16 * n + ·)) 0

/-- The character that hexadecimal digits name; half of a surrogate pair is none. -/
def scalar? (cs : List Char) : Option Char := do
  let n ← hexNumber? cs
  if n < 0xD800 ∨ (0xDFFF < n ∧ n < 0x110000) then some (Char.ofNat n) else none

/-! ## One line -/

/-- The rest of a string between double quotes, up to its closing quote; `read` is what has been
read, in reverse. -/
def basicBody (read : List Char) : List Char → Option (List Char × List Char)
  | [] => none
  | '"' :: rest => some (read.reverse, rest)
  | '\\' :: 'u' :: a :: b :: c :: d :: rest => do
      basicBody ((← scalar? [a, b, c, d]) :: read) rest
  | '\\' :: 'U' :: a :: b :: c :: d :: e :: f :: g :: h :: rest => do
      basicBody ((← scalar? [a, b, c, d, e, f, g, h]) :: read) rest
  | '\\' :: e :: rest => do basicBody ((← shortEscape? e) :: read) rest
  | c :: rest => if isPlain c && c ≠ '\\' then basicBody (c :: read) rest else none

/-- The rest of a string between single quotes. -/
def literalBody (read : List Char) : List Char → Option (List Char × List Char)
  | [] => none
  | '\x27' :: rest => some (read.reverse, rest)
  | c :: rest => if isPlain c then literalBody (c :: read) rest else none

/-! ## Several lines -/

/-- The rest of a string between threefold double quotes. While `trimming`, layout is dropped. -/
def longBasicBody (trimming : Bool) (read : List Char) :
    List Char → Option (List Char × List Char)
  | [] => none
  | '"' :: '"' :: '"' :: '"' :: '"' :: rest => some (('"' :: '"' :: read).reverse, rest)
  | '"' :: '"' :: '"' :: '"' :: rest => some (('"' :: read).reverse, rest)
  | '"' :: '"' :: '"' :: rest => some (read.reverse, rest)
  | '\\' :: 'u' :: a :: b :: c :: d :: rest => do
      longBasicBody false ((← scalar? [a, b, c, d]) :: read) rest
  | '\\' :: 'U' :: a :: b :: c :: d :: e :: f :: g :: h :: rest => do
      longBasicBody false ((← scalar? [a, b, c, d, e, f, g, h]) :: read) rest
  | '\\' :: e :: rest =>
      if (newline? (skipBlanks (e :: rest))).isSome then longBasicBody true read (e :: rest)
      else do longBasicBody false ((← shortEscape? e) :: read) rest
  | '\n' :: rest =>
      if trimming then longBasicBody true read rest else longBasicBody false ('\n' :: read) rest
  | '\r' :: '\n' :: rest =>
      if trimming then longBasicBody true read rest else longBasicBody false ('\n' :: read) rest
  | c :: rest =>
      if trimming && isBlank c then longBasicBody true read rest
      else if isPlain c && c ≠ '\\' then longBasicBody false (c :: read) rest
      else none

/-- The rest of a string between threefold single quotes. -/
def longLiteralBody (read : List Char) : List Char → Option (List Char × List Char)
  | [] => none
  | '\x27' :: '\x27' :: '\x27' :: '\x27' :: '\x27' :: rest =>
      some (('\x27' :: '\x27' :: read).reverse, rest)
  | '\x27' :: '\x27' :: '\x27' :: '\x27' :: rest => some (('\x27' :: read).reverse, rest)
  | '\x27' :: '\x27' :: '\x27' :: rest => some (read.reverse, rest)
  | '\n' :: rest => longLiteralBody ('\n' :: read) rest
  | '\r' :: '\n' :: rest => longLiteralBody ('\n' :: read) rest
  | c :: rest => if isPlain c then longLiteralBody (c :: read) rest else none

/-- What follows a line end right after opening quotes. -/
def skipFirstNewline (cs : List Char) : List Char :=
  (newline? cs).getD cs

/-! ## Strings -/

/-- The value of a scanned body. -/
def asText (body : Option (List Char × List Char)) : Option (String × List Char) :=
  body.map fun b => (String.ofList b.1, b.2)

/-- A string on one line, as it may also stand for a key. -/
def scanQuoted : Scanner String
  | '"' :: rest => asText (basicBody [] rest)
  | '\x27' :: rest => asText (literalBody [] rest)
  | _ => none

/-- A string. -/
def scanText : Scanner String
  | '"' :: '"' :: '"' :: rest => asText (longBasicBody false [] (skipFirstNewline rest))
  | '\x27' :: '\x27' :: '\x27' :: rest => asText (longLiteralBody [] (skipFirstNewline rest))
  | cs => scanQuoted cs

end StyleZones.Toml
