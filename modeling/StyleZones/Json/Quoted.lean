/-!
# Quoted text

The characters between the quotes of a JSON string, and the text they denote.

* `Quoted.encode` writes a text: a quote, a backslash and the control characters are escaped, by
  their short form where they have one, and every other character stands for itself;
* `Quoted.decode` reads every escape of the format. It answers `none` exactly where an escape names
  half of a surrogate pair without its other half, since no text has such a character.

Reading goes in two steps. `Quoted.pieces` resolves each escape by itself into a character or a
16-bit unit; `Quoted.join` then puts neighbouring units together into characters.
-/

set_option autoImplicit false

namespace StyleZones.Quoted

/-! ## Hexadecimal digits -/

/-- The lower-case hexadecimal digit of a number below sixteen. -/
def hexDigit (d : Nat) : Char :=
  if d < 10 then Char.ofNat (48 + d) else Char.ofNat (87 + d)

/-- The value of a hexadecimal digit of either case. -/
def hexValue? (c : Char) : Option Nat :=
  if '0' ≤ c ∧ c ≤ '9' then some (c.toNat - 48)
  else if 'a' ≤ c ∧ c ≤ 'f' then some (c.toNat - 87)
  else if 'A' ≤ c ∧ c ≤ 'F' then some (c.toNat - 55)
  else none

/-! ## Writing -/

/-- One character of a text as it is written between quotes. -/
def encodeChar (c : Char) : List Char :=
  if c = '"' then ['\\', '"']
  else if c = '\\' then ['\\', '\\']
  else if c = '\x08' then ['\\', 'b']
  else if c = '\t' then ['\\', 't']
  else if c = '\n' then ['\\', 'n']
  else if c = '\x0c' then ['\\', 'f']
  else if c = '\r' then ['\\', 'r']
  else if c.toNat < 32 then
    ['\\', 'u', '0', '0', hexDigit (c.toNat / 16), hexDigit (c.toNat % 16)]
  else [c]

/-- A text as it is written between quotes. -/
def encode (text : List Char) : List Char :=
  text.flatMap encodeChar

/-! ## Reading -/

/-- What one character or escape of quoted text stands for. -/
inductive Piece where
  /-- A character, written plainly or by a short escape. -/
  | char (c : Char)
  /-- A 16-bit unit, written by a hexadecimal escape. -/
  | unit (n : Nat)
  deriving DecidableEq

/-- The character that a short escape names. -/
def shortEscape? : Char → Option Char
  | '"' => some '"'
  | '\\' => some '\\'
  | '/' => some '/'
  | 'b' => some '\x08'
  | 'f' => some '\x0c'
  | 'n' => some '\n'
  | 'r' => some '\r'
  | 't' => some '\t'
  | _ => none

/-- The unit that four hexadecimal digits name. -/
def unit? (a b c d : Char) : Option Nat := do
  return 4096 * (← hexValue? a) + 256 * (← hexValue? b) + 16 * (← hexValue? c) + (← hexValue? d)

/-- The pieces of quoted text, one for each plain character and each escape. -/
def pieces : List Char → Option (List Piece)
  | [] => some []
  | '\\' :: 'u' :: a :: b :: c :: d :: rest => do
      let n ← unit? a b c d
      return .unit n :: (← pieces rest)
  | '\\' :: e :: rest => do
      let c ← shortEscape? e
      return .char c :: (← pieces rest)
  | '\\' :: [] => none
  | c :: rest => do
      return .char c :: (← pieces rest)

/-- A unit that opens a surrogate pair. -/
def isHigh (n : Nat) : Bool :=
  0xD800 ≤ n && n ≤ 0xDBFF

/-- A unit that closes a surrogate pair. -/
def isLow (n : Nat) : Bool :=
  0xDC00 ≤ n && n ≤ 0xDFFF

/-- The character of a surrogate pair. -/
def pairChar (high low : Nat) : Char :=
  Char.ofNat (0x10000 + 0x400 * (high - 0xD800) + (low - 0xDC00))

/-- The text of a run of pieces, if every surrogate has its partner next to it. -/
def join : List Piece → Option (List Char)
  | [] => some []
  | .char c :: rest => do
      return c :: (← join rest)
  | .unit high :: .unit low :: rest =>
      if isHigh high then
        if isLow low then do return pairChar high low :: (← join rest) else none
      else if isLow high then none
      else do return Char.ofNat high :: (← join (.unit low :: rest))
  | .unit n :: rest =>
      if isHigh n || isLow n then none else do return Char.ofNat n :: (← join rest)

/-- The text that quoted characters denote, if they denote one. -/
def decode (raw : List Char) : Option (List Char) := do
  join (← pieces raw)

end StyleZones.Quoted
