import StyleZones.Json.Basic
import StyleZones.Json.Numeral
import StyleZones.Json.Quoted

/-!
# JSON tokens

A text is cut into tokens by a machine that reads one character at a time and never looks back, so
`tokens?` is a fold and the tokens of `s ++ t` are found by going on with `t` from where `s` left
the machine.

A quoted string is kept raw, but its escapes are checked for form: a backslash is followed by a
letter that has a meaning, and `u` by four hexadecimal digits. A *word* is a longest run of the
characters of literals and numerals; it becomes a literal or a number, or the text is refused.
-/

set_option autoImplicit false

namespace StyleZones.Json

/-- A token of JSON text. -/
inductive Token where
  | openArray
  | closeArray
  | openObject
  | closeObject
  | comma
  | colon
  /-- A quoted string, as the characters between its quotes. -/
  | quoted (raw : List Char)
  /-- A literal or a number. -/
  | scalar (value : Json)

/-! ## Character classes -/

/-- The blanks that may stand between tokens. -/
def isBlank (c : Char) : Bool :=
  c = ' ' || c = '\t' || c = '\n' || c = '\r'

/-- The characters of which literals and numerals are made. -/
def isWordChar (c : Char) : Bool :=
  c.isAlphanum || c = '+' || c = '-' || c = '.'

/-- The characters that are tokens by themselves. -/
def punctuation? : Char → Option Token
  | '[' => some .openArray
  | ']' => some .closeArray
  | '\x7b' => some .openObject
  | '\x7d' => some .closeObject
  | ',' => some .comma
  | ':' => some .colon
  | _ => none

/-- The value that a word stands for. -/
def ofWord? (cs : List Char) : Option Json :=
  if cs = ['n', 'u', 'l', 'l'] then some .null
  else if cs = ['t', 'r', 'u', 'e'] then some (.bool true)
  else if cs = ['f', 'a', 'l', 's', 'e'] then some (.bool false)
  else if Numeral.isNumeral cs then some (.num cs)
  else none

/-! ## The machine -/

/-- What the machine is in the middle of. Characters read so far stand in reverse. -/
inductive Mode where
  /-- Between two tokens. -/
  | between
  /-- Inside a quoted string. -/
  | quoted (read : List Char)
  /-- Just after a backslash. -/
  | escape (read : List Char)
  /-- Inside a hexadecimal escape, with `left` digits to come. -/
  | hex (left : Nat) (read : List Char)
  /-- Inside a word. -/
  | word (read : List Char)

/-- The machine: its mode, and the tokens cut so far, in reverse. -/
structure Scanner where
  mode : Mode
  done : List Token

/-- The machine before the first character. -/
def Scanner.initial : Scanner :=
  ⟨.between, []⟩

/-- Read one character that starts a new token, or a blank. -/
def Scanner.begin (done : List Token) (c : Char) : Option Scanner :=
  if isBlank c then some ⟨.between, done⟩
  else if c = '"' then some ⟨.quoted [], done⟩
  else if isWordChar c then some ⟨.word [c], done⟩
  else (punctuation? c).map fun t => ⟨.between, t :: done⟩

/-- Read one character. -/
def Scanner.step (s : Scanner) (c : Char) : Option Scanner :=
  match s.mode with
  | .between => Scanner.begin s.done c
  | .quoted read =>
      if c = '"' then some ⟨.between, .quoted read.reverse :: s.done⟩
      else if c = '\\' then some ⟨.escape (c :: read), s.done⟩
      else if c.toNat < 32 then none
      else some ⟨.quoted (c :: read), s.done⟩
  | .escape read =>
      if c = 'u' then some ⟨.hex 3 (c :: read), s.done⟩
      else if (Quoted.shortEscape? c).isSome then some ⟨.quoted (c :: read), s.done⟩
      else none
  | .hex left read =>
      if (Quoted.hexValue? c).isSome then
        match left with
        | 0 => some ⟨.quoted (c :: read), s.done⟩
        | n + 1 => some ⟨.hex n (c :: read), s.done⟩
      else none
  | .word read =>
      if isWordChar c then some ⟨.word (c :: read), s.done⟩
      else do
        let v ← ofWord? read.reverse
        Scanner.begin (.scalar v :: s.done) c

/-- The tokens once the text has ended. A quoted string must have been closed. -/
def Scanner.finish (s : Scanner) : Option (List Token) :=
  match s.mode with
  | .between => some s.done.reverse
  | .word read => do
      let v ← ofWord? read.reverse
      return (.scalar v :: s.done).reverse
  | _ => none

/-- The tokens of a text. -/
def tokens? (cs : List Char) : Option (List Token) := do
  let s ← cs.foldlM Scanner.step Scanner.initial
  s.finish

end StyleZones.Json
