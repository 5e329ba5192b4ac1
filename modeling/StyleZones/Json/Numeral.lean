import StyleZones.Text.Decimal

/-!
# JSON numerals

A numeral is an optional minus sign, an integer part with no superfluous zero, and optionally a
fraction and an exponent. Only natural numbers are ever asked for, and only a numeral that is a
plain run of digits denotes one: `1.0`, `1e0` and `-0` do not.

* `Numeral.isNumeral` recognises the format;
* `Numeral.natural?` is the natural number a numeral denotes;
* `Numeral.exceedsDouble` tells whether a numeral is too large for double precision, which is the
  only thing said about the numerals that are not natural numbers.
-/

set_option autoImplicit false

namespace StyleZones.Numeral

/-! ## The format -/

/-- The run of digits at the front of a text, and what follows it. -/
def spanDigits (cs : List Char) : List Char × List Char :=
  (cs.takeWhile Char.isDigit, cs.dropWhile Char.isDigit)

/-- A numeral taken apart: its sign, the digits before and after the point, and its exponent. -/
structure Parts where
  /-- The numeral starts with a minus sign. -/
  negative : Bool
  /-- The digits before the point. -/
  whole : List Char
  /-- The digits after the point, if there is a point. -/
  fraction : Option (List Char)
  /-- The exponent, if there is one: whether it is negative, and its digits. -/
  exponent : Option (Bool × List Char)

/-- The sign of a numeral, and what follows it. -/
def takeSign : List Char → Bool × List Char
  | '-' :: rest => (true, rest)
  | rest => (false, rest)

/-- The fraction of a numeral, and what follows it. A point needs a digit after it. -/
def takeFraction : List Char → Option (Option (List Char) × List Char)
  | '.' :: rest =>
      let (ds, rest) := spanDigits rest
      if ds.isEmpty then none else some (some ds, rest)
  | rest => some (none, rest)

/-- The sign of an exponent, and what follows it. -/
def takeExponentSign : List Char → Bool × List Char
  | '-' :: rest => (true, rest)
  | '+' :: rest => (false, rest)
  | rest => (false, rest)

/-- The exponent of a numeral, which has to reach to the end and needs a digit. -/
def takeExponent : List Char → Option (Option (Bool × List Char))
  | [] => some none
  | c :: rest =>
      if c = 'e' ∨ c = 'E' then
        let (negative, rest) := takeExponentSign rest
        let (ds, rest) := spanDigits rest
        if ds.isEmpty ∨ ¬ rest.isEmpty then none else some (some (negative, ds))
      else none

/-- An integer part is one zero, or a run of digits that does not start with a zero. -/
def isWhole : List Char → Bool
  | [] => false
  | '0' :: rest => rest.isEmpty
  | _ :: _ => true

/-- The parts of a numeral, if the text is one. -/
def parts? (cs : List Char) : Option Parts := do
  let (negative, cs) := takeSign cs
  let (whole, cs) := spanDigits cs
  guard (isWhole whole)
  let (fraction, cs) ← takeFraction cs
  let exponent ← takeExponent cs
  return { negative, whole, fraction, exponent }

/-- The text is a numeral. -/
def isNumeral (cs : List Char) : Bool :=
  (parts? cs).isSome

/-! ## Values -/

/-- The natural number that a numeral denotes: the numeral is a plain run of digits. -/
def natural? (cs : List Char) : Option Nat :=
  if cs.all Char.isDigit && !cs.isEmpty then some (Decimal.value cs) else none

/-- The least magnitude that rounds to infinity in double precision: half a unit above the
greatest finite double. -/
def doubleLimit : Nat :=
  Nat.pow 2 1024 - Nat.pow 2 970

/-- The magnitude of the parts is at least `doubleLimit`.

The significant digits are those from the first non-zero digit on, and `place` is the number of them
that stand before the point once the exponent is applied. A magnitude with more than 309 such
places is too large and one with fewer is not; with 309 places the digits decide. -/
def Parts.exceedsDouble (p : Parts) : Bool :=
  let ds := p.whole ++ p.fraction.getD []
  let significant := ds.dropWhile (· = '0')
  let shift : Int :=
    match p.exponent with
    | none => 0
    | some (true, e) => - (Decimal.value e : Int)
    | some (false, e) => Decimal.value e
  let place : Int := shift + p.whole.length - (ds.length - significant.length : Nat)
  if significant.isEmpty then false
  else if place < 309 then false
  else if 309 < place then true
  else
    let padded := significant ++ List.replicate (309 - significant.length) '0'
    doubleLimit ≤ Decimal.value (padded.take 309)

/-- The numeral is too large in magnitude for double precision. -/
def exceedsDouble (cs : List Char) : Bool :=
  match parts? cs with
  | some p => p.exceedsDouble
  | none => false

end StyleZones.Numeral
