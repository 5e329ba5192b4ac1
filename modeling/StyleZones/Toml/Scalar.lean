import StyleZones.Json.Numeral
import StyleZones.Toml.Basic

/-!
# TOML numbers, dates and truth values

What is not a string or a container is a *word*: a longest run of letters, digits and the marks that
numbers and dates are made of. The format of words is checked in full, although only the truth
values are ever asked for: an integer has to fit 64 bits with its sign, underscores stand between
digits, and a date has to exist.
-/

set_option autoImplicit false

namespace StyleZones.Toml

/-! ## Digits -/

/-- The digits of a run in which single underscores may stand between digits. -/
def digitRun? (isDigit : Char → Bool) : List Char → Option (List Char)
  | [] => none
  | [c] => if isDigit c then some [c] else none
  | c :: '_' :: rest =>
      if isDigit c then (digitRun? isDigit rest).map (c :: ·) else none
  | c :: rest =>
      if isDigit c then (digitRun? isDigit rest).map (c :: ·) else none

/-- The value of digits in a base. -/
def baseValue (base : Nat) (ds : List Char) : Nat :=
  ds.foldl
    (fun n c =>
      base * n +
        (if c.isDigit then c.toNat - 48
          else if c.isLower then c.toNat - 87
          else c.toNat - 55))
    0

/-- A hexadecimal digit of either case. -/
def isHexDigit (c : Char) : Bool :=
  c.isDigit || ('a' ≤ c && c ≤ 'f') || ('A' ≤ c && c ≤ 'F')

/-- An octal digit. -/
def isOctalDigit (c : Char) : Bool :=
  '0' ≤ c && c ≤ '7'

/-- A binary digit. -/
def isBinaryDigit (c : Char) : Bool :=
  c = '0' || c = '1'

/-! ## Integers -/

/-- The sign at the front, if there is one, and what follows it. -/
def takeSign : List Char → Option Char × List Char
  | '+' :: rest => (some '+', rest)
  | '-' :: rest => (some '-', rest)
  | cs => (none, cs)

/-- The digits of a decimal integer without its sign: one zero, or a run that does not start with a
zero. -/
def decimal? (cs : List Char) : Option (List Char) :=
  match cs with
  | ['0'] => some cs
  | '0' :: _ => none
  | _ => digitRun? Char.isDigit cs

/-- The magnitude of the least 64-bit integer, one above the greatest. -/
def integerLimit : Nat :=
  Nat.pow 2 63

/-- The word is an integer that fits 64 bits. -/
def isInteger (cs : List Char) : Bool :=
  let fits (base : Nat) (limit : Nat) (ds : Option (List Char)) : Bool :=
    match ds with
    | some ds => baseValue base ds ≤ limit
    | none => false
  match cs with
  | '0' :: 'x' :: rest => fits 16 (integerLimit - 1) (digitRun? isHexDigit rest)
  | '0' :: 'o' :: rest => fits 8 (integerLimit - 1) (digitRun? isOctalDigit rest)
  | '0' :: 'b' :: rest => fits 2 (integerLimit - 1) (digitRun? isBinaryDigit rest)
  | _ =>
      let (sign, digits) := takeSign cs
      fits 10 (if sign = some '-' then integerLimit else integerLimit - 1) (decimal? digits)

/-! ## Floats -/

/-- A character of a decimal run. -/
def isRunChar (c : Char) : Bool :=
  c.isDigit || c = '_'

/-- The fraction of a float, and what follows it. -/
def takeFraction : List Char → Option (Option (List Char) × List Char)
  | '.' :: rest => do
      let ds ← digitRun? Char.isDigit (rest.takeWhile isRunChar)
      return (some ds, rest.dropWhile isRunChar)
  | cs => some (none, cs)

/-- The exponent of a float, which reaches to the end of the word: whether it is negative, and its
digits. -/
def takeExponent : List Char → Option (Option (Bool × List Char))
  | [] => some none
  | c :: rest =>
      if c = 'e' ∨ c = 'E' then do
        let (sign, digits) := takeSign rest
        let ds ← digitRun? Char.isDigit digits
        return some (sign = some '-', ds)
      else none

/-- The parts of a float, if the word is one: it has a fraction or an exponent. -/
def floatParts? (cs : List Char) : Option Numeral.Parts := do
  let (sign, cs) := takeSign cs
  let whole ← decimal? (cs.takeWhile isRunChar)
  let (fraction, cs) ← takeFraction (cs.dropWhile isRunChar)
  let exponent ← takeExponent cs
  guard (fraction.isSome || exponent.isSome)
  return { negative := sign = some '-', whole, fraction, exponent }

/-- The word is a float. A positive one must not be too large for double precision. -/
def isFloat (cs : List Char) : Bool :=
  let (_, unsigned) := takeSign cs
  if unsigned = ['i', 'n', 'f'] ∨ unsigned = ['n', 'a', 'n'] then true
  else
    match floatParts? cs with
    | some p => p.negative || !p.exceedsDouble
    | none => false

/-! ## Dates and times -/

/-- Two digits with a value in a range, and what follows them. -/
def twoDigits? (least greatest : Nat) : List Char → Option (Nat × List Char)
  | a :: b :: rest =>
      let n := baseValue 10 [a, b]
      if a.isDigit && b.isDigit && least ≤ n && n ≤ greatest then some (n, rest) else none
  | _ => none

/-- How many days a month has. -/
def daysInMonth (year month : Nat) : Nat :=
  if month = 2 then
    if year % 4 = 0 ∧ (year % 100 ≠ 0 ∨ year % 400 = 0) then 29 else 28
  else if month = 4 ∨ month = 6 ∨ month = 9 ∨ month = 11 then 30
  else 31

/-- Take a date that exists. -/
def date? (cs : List Char) : Option (List Char) := do
  let (century, cs) ← twoDigits? 0 99 cs
  let (year, cs) ← twoDigits? 0 99 cs
  let (month, cs) ← twoDigits? 1 12 (← expect '-' cs)
  let (day, cs) ← twoDigits? 1 31 (← expect '-' cs)
  guard (day ≤ daysInMonth (100 * century + year) month)
  return cs

/-- Take the fraction of a second, if there is one. A point needs a digit after it. -/
def secondFraction? : List Char → Option (List Char)
  | '.' :: rest =>
      if (rest.takeWhile Char.isDigit).isEmpty then none else some (rest.dropWhile Char.isDigit)
  | cs => some cs

/-- Take a time of day. A minute may have a leap second. -/
def time? (cs : List Char) : Option (List Char) := do
  let (_, cs) ← twoDigits? 0 23 cs
  let (_, cs) ← twoDigits? 0 59 (← expect ':' cs)
  let (_, cs) ← twoDigits? 0 60 (← expect ':' cs)
  secondFraction? cs

/-- Take the distance from universal time, if there is one. -/
def offset? : List Char → Option (List Char)
  | [] => some []
  | c :: rest =>
      if c = 'Z' ∨ c = 'z' then some rest
      else if c = '+' ∨ c = '-' then do
        let (_, cs) ← twoDigits? 0 23 rest
        let (_, cs) ← twoDigits? 0 59 (← expect ':' cs)
        return cs
      else none

/-- The text is a time of day, with its distance from universal time if it has one. -/
def isOffsetTime (cs : List Char) : Bool :=
  match time? cs with
  | some rest => offset? rest == some []
  | none => false

/-- The word is a date, a time, or both with a `T` between them. -/
def isDateTime (cs : List Char) : Bool :=
  match date? cs with
  | some [] => true
  | some (c :: rest) => (c = 'T' || c = 't') && isOffsetTime rest
  | none => time? cs == some []

/-! ## Words -/

/-- A character of words. -/
def isWordChar (c : Char) : Bool :=
  c.isAlphanum || c = '+' || c = '-' || c = '_' || c = '.' || c = ':'

/-- The value of a word. -/
def ofWord? (cs : List Char) : Option Toml :=
  if cs = ['t', 'r', 'u', 'e'] then some (.boolean true)
  else if cs = ['f', 'a', 'l', 's', 'e'] then some (.boolean false)
  else if isInteger cs || isFloat cs then some (.number cs)
  else if isDateTime cs then some (.dateTime cs)
  else none

/-- A word. A date and a time may also have a blank between them. -/
def scanWord : Scanner Toml := fun cs =>
  let word := cs.takeWhile isWordChar
  let rest := cs.dropWhile isWordChar
  match rest with
  | ' ' :: after =>
      let second := after.takeWhile isWordChar
      if date? word == some [] && isOffsetTime second then
        some (.dateTime (word ++ ' ' :: second), after.dropWhile isWordChar)
      else (ofWord? word).map fun v => (v, rest)
  | _ => (ofWord? word).map fun v => (v, rest)

end StyleZones.Toml
