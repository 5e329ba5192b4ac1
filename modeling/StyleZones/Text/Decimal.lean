/-!
# Decimal numerals

Natural numbers are written in decimal with no leading zero, and a run of digits is read back by
its place value. Every number the program prints or reads goes through these two functions, so
no output depends on a default rendering.

* `Decimal.digits` writes a number, `Decimal.text` is the same as a string;
* `Decimal.value` reads a run of digits.
-/

set_option autoImplicit false

namespace StyleZones.Decimal

/-- The digit character of a number below ten. -/
def digit (d : Nat) : Char :=
  Char.ofNat (48 + d)

/-- The place value of a digit character. -/
def digitValue (c : Char) : Nat :=
  c.toNat - 48

/-- The decimal numeral of `n`, most significant digit first. -/
def digits (n : Nat) : List Char :=
  if n < 10 then [digit n] else digits (n / 10) ++ [digit (n % 10)]
termination_by n
decreasing_by omega

/-- The number that a run of digits denotes. -/
def value (ds : List Char) : Nat :=
  ds.foldl (fun n c => 10 * n + digitValue c) 0

/-- The decimal numeral of `n` as a string. -/
def text (n : Nat) : String :=
  String.ofList (digits n)

end StyleZones.Decimal
