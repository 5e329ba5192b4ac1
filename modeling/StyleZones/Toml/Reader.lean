import StyleZones.Toml.Document
import StyleZones.Toml.Scalar
import StyleZones.Toml.Text

/-!
# Reading TOML

Values nest: an array holds values, and so does an inline table. The format bounds the nesting, and
the scanner of values recurs on what is left of that bound. A dotted key is bounded in the same way.

`Toml.read?` accepts a whole document.
-/

set_option autoImplicit false

namespace StyleZones.Toml

/-- How many containers may be open inside one another, and how many parts a dotted key may have. -/
def maxLevels : Nat := 79

/-! ## Keys -/

/-- A character of keys that are written without quotes. -/
def isBareChar (c : Char) : Bool :=
  c.isAlphanum || c = '_' || c = '-'

/-- One part of a dotted key. -/
def scanSimpleKey : Scanner String := fun cs =>
  match scanQuoted cs with
  | some result => some result
  | none =>
      let bare := cs.takeWhile isBareChar
      if bare.isEmpty then none else some (String.ofList bare, cs.dropWhile isBareChar)

/-- One part of a dotted key with the blanks around it. -/
def scanKeyPart : Scanner String := fun cs => do
  let (key, rest) ← scanSimpleKey (skipBlanks cs)
  return (key, skipBlanks rest)

/-- A dotted key. -/
def scanKey : Scanner DottedKey := fun cs => do
  let (first, cs) ← scanKeyPart cs
  let (others, cs) := many (fun cs => do scanKeyPart (← expect '.' cs)) cs
  let parts := first :: others
  guard (parts.length ≤ maxLevels)
  return (⟨parts.dropLast, parts.getLast?.getD first⟩, cs)

/-! ## Values -/

/-- A list of items with commas between them, which may be empty; `rest` is what follows. -/
def scanSeparated {α : Type} (item : Scanner α) (cs : List Char) : List α × List Char :=
  match item cs with
  | none => ([], cs)
  | some (first, cs) =>
      let (others, cs) := many (fun cs => do item (← expect ',' cs)) cs
      (first :: others, cs)

/-- What follows a comma at the front, if there is one. -/
def skipComma : List Char → List Char
  | ',' :: rest => rest
  | cs => cs

/-- The table of the pairs between braces. -/
def inlineTable? (pairs : List (DottedKey × Toml)) : Option Toml := do
  let entries ← pairs.foldlM (fun entries p => assign p.1.path p.1.key p.2 entries) []
  return .table (partsToToml entries)

/-- A value in which containers may nest `levels` deep. -/
def scanValue : Nat → Scanner Toml
  | _, [] => none
  | levels, c :: cs =>
      if c = '"' ∨ c = '\x27' then do
        let (s, rest) ← scanText (c :: cs)
        return (.text s, rest)
      else if c = '[' then
        match levels with
        | 0 => none
        | n + 1 => do
            let item : Scanner Toml := fun cs => do
              let (v, rest) ← scanValue n (skipLayout false cs)
              return (v, skipLayout false rest)
            let (items, rest) := scanSeparated item cs
            let rest := if items.isEmpty then rest else skipComma rest
            return (.array items, ← expect ']' (skipLayout false rest))
      else if c = '\x7b' then
        match levels with
        | 0 => none
        | n + 1 => do
            let pair : Scanner (DottedKey × Toml) := fun cs => do
              let (key, rest) ← scanKey cs
              let (v, rest) ← scanValue n (skipBlanks (← expect '=' rest))
              return ((key, v), skipBlanks rest)
            let (pairs, rest) := scanSeparated pair cs
            return (← inlineTable? pairs, ← expect '\x7d' (skipBlanks rest))
      else scanWord (c :: cs)

/-! ## Statements -/

/-- An assignment with the end of its line. -/
def scanAssignment : Scanner Statement := fun cs => do
  let (name, rest) ← scanKey cs
  let (v, rest) ← scanValue maxLevels (skipBlanks (← expect '=' rest))
  return (.assignment name v, ← trailing? rest)

/-- A header with the end of its line. -/
def scanHeader : Scanner Statement
  | '[' :: '[' :: cs => do
      let (name, rest) ← scanKey cs
      return (.element name, ← trailing? (← expect ']' (← expect ']' rest)))
  | '[' :: cs => do
      let (name, rest) ← scanKey cs
      return (.table name, ← trailing? (← expect ']' rest))
  | _ => none

/-- A statement with the blanks before it and the end of its line. -/
def scanStatement : Scanner Statement := fun cs =>
  match skipBlanks cs with
  | [] => none
  | c :: rest =>
      if c = '#' ∨ c = '\n' ∨ c = '\r' then do
        return (.blank, ← lineEnd? (skipComment (c :: rest)))
      else if c = '[' then scanHeader (c :: rest)
      else scanAssignment (c :: rest)

/-- The text without the byte order mark that it may start with. -/
def skipByteOrderMark : List Char → List Char
  | '\uFEFF' :: rest => rest
  | cs => cs

/-- The table that a text holds, if it is a document. -/
def read? (text : String) : Option Toml := do
  let (statements, rest) := many scanStatement (skipByteOrderMark text.toList)
  guard (skipBlanks rest).isEmpty
  return (← Document.ofStatements? statements).toToml

end StyleZones.Toml
