/-!
# Searching in texts

A text occurs in another if it stands somewhere in it without interruption. The search tries every
place of the text from the front, and `Text.occurs_iff_isInfix` says that it finds exactly the
uninterrupted runs.

`Text.endsWith` and `Text.split` are the two other questions the program asks of texts.
-/

set_option autoImplicit false

namespace StyleZones.Text

/-- The run `pat` stands somewhere in the text. -/
def occurs (pat : List Char) : List Char → Bool
  | [] => pat.isEmpty
  | c :: cs => pat.isPrefixOf (c :: cs) || occurs pat cs

/-- A run occurs in a text exactly if the text is the run with something before and after it. -/
theorem occurs_iff_isInfix (pat cs : List Char) : occurs pat cs = true ↔ pat <:+: cs := by
  induction cs with
  | nil => simp [occurs]
  | cons c cs ih =>
    simp only [occurs, Bool.or_eq_true, List.isPrefixOf_iff_prefix, ih, List.infix_cons_iff]

/-- The string `pat` stands somewhere in the string `s`. -/
def contains (s pat : String) : Bool :=
  occurs pat.toList s.toList

/-- The string `s` ends with `tail`. -/
def endsWith (s tail : String) : Bool :=
  tail.toList.isSuffixOf s.toList

/-- The runs between the occurrences of a separating character, in order. There is always at least
one run, and neighbouring separators have an empty run between them. -/
def splitRuns (sep : Char) : List Char → List (List Char)
  | [] => [[]]
  | c :: cs =>
      if c = sep then [] :: splitRuns sep cs
      else
        match splitRuns sep cs with
        | [] => [[c]]
        | run :: runs => (c :: run) :: runs

/-- The strings between the occurrences of a separating character. -/
def split (sep : Char) (s : String) : List String :=
  (splitRuns sep s.toList).map String.ofList

end StyleZones.Text
