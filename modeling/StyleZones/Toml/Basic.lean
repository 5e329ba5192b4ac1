/-!
# TOML values and layout

The values of TOML documents, and the parts of the format that carry no value: blanks, comments and
line ends.

A *scanner* takes a value from the front of a text and gives what is left of it, or refuses.
`Toml.many` applies a scanner as often as it accepts; it ends because it goes on only when something
was taken.
-/

set_option autoImplicit false

namespace StyleZones

/-- A TOML value. Numbers and dates are kept as they are written, since no configuration asks for
one. -/
inductive Toml where
  /-- A string. -/
  | text (value : String)
  /-- A truth value. -/
  | boolean (value : Bool)
  /-- A number, as its numeral. -/
  | number (numeral : List Char)
  /-- A date, a time, or both, as written. -/
  | dateTime (written : List Char)
  /-- An array. -/
  | array (items : List Toml)
  /-- A table, with its entries in written order. -/
  | table (entries : List (String × Toml))

namespace Toml

/-- Takes a value from the front of a text, or refuses. -/
abbrev Scanner (α : Type) := List Char → Option (α × List Char)

/-- Apply a scanner as often as it accepts and takes something. -/
def many {α : Type} (scan : Scanner α) (cs : List Char) : List α × List Char :=
  match scan cs with
  | some (a, rest) =>
      if rest.length < cs.length then
        let (as, rest) := many scan rest
        (a :: as, rest)
      else ([], cs)
  | none => ([], cs)
termination_by cs.length

/-- Take the given character. -/
def expect (c : Char) : List Char → Option (List Char)
  | [] => none
  | d :: rest => if d = c then some rest else none

/-! ## Layout -/

/-- A blank within a line. -/
def isBlank (c : Char) : Bool :=
  c = ' ' || c = '\t'

/-- A character that may stand in comments and strings: any but the control characters, of which
only the tab is allowed. -/
def isPlain (c : Char) : Bool :=
  c = '\t' || (32 ≤ c.toNat && c.toNat ≠ 127)

/-- What follows the blanks at the front. -/
def skipBlanks (cs : List Char) : List Char :=
  cs.dropWhile isBlank

/-- What follows a comment at the front, if there is one. The comment ends before the line does. -/
def skipComment : List Char → List Char
  | '#' :: rest => rest.dropWhile isPlain
  | cs => cs

/-- Take the end of a line, which is a line feed with or without a carriage return before it. -/
def newline? : List Char → Option (List Char)
  | '\n' :: rest => some rest
  | '\r' :: '\n' :: rest => some rest
  | _ => none

/-- Take the end of a line or of the text. -/
def lineEnd? : List Char → Option (List Char)
  | [] => some []
  | cs => newline? cs

/-- Take what may follow a statement on its line, and the end of the line. -/
def trailing? (cs : List Char) : Option (List Char) :=
  lineEnd? (skipComment (skipBlanks cs))

/-- What follows blanks, comments and line ends at the front. Inside a comment, everything up to the
end of the line is passed over, but a character that may not stand there is left in place. -/
def skipLayout (inComment : Bool) : List Char → List Char
  | [] => []
  | '\n' :: rest => skipLayout false rest
  | '\r' :: '\n' :: rest => skipLayout false rest
  | c :: rest =>
      if inComment then
        if isPlain c then skipLayout true rest else c :: rest
      else if isBlank c then skipLayout false rest
      else if c = '#' then skipLayout true rest
      else c :: rest

end Toml

end StyleZones
