import StyleZones.Json.Basic
import StyleZones.Proofs.Json.Scalar

/-!
# The grammar of JSON texts

What a JSON text is, by the rules of the format and without a reader. A text spells a document,
which keeps strings and numbers the way they stand in the text.

* `Json.Grammar.Value` and the rules around it are those of the format: blanks stand around values,
  keys and marks, a container is empty or has its entries between commas, and a string has no bare
  quote, backslash or control character.
* `Json.Grammar.Document` is a whole text: one value and blanks around it.
* `Numeral.isNumeral_iff`: the numerals that are taken for numbers are those of the rules.
-/

set_option autoImplicit false

namespace StyleZones.Json

namespace Grammar

/-! ## The rules -/

/-- Blanks, possibly none. -/
def Gap (cs : List Char) : Prop :=
  ∀ c ∈ cs, c ∈ [' ', '\t', '\n', '\r']

/-- One digit or more. -/
def Digits (cs : List Char) : Prop :=
  cs ≠ [] ∧ ∀ c ∈ cs, c.isDigit = true

/-- The part of a number before the point. -/
inductive Whole : List Char → Prop
  | zero : Whole ['0']
  | other {ds : List Char} : Digits ds → ds.head? ≠ some '0' → Whole ds

/-- The part of a number from the point on. -/
inductive Fraction : List Char → Prop
  | none : Fraction []
  | digits {ds : List Char} : Digits ds → Fraction ('.' :: ds)

/-- The exponent of a number. -/
inductive Exponent : List Char → Prop
  | none : Exponent []
  | digits {mark : Char} {sign ds : List Char} :
      mark ∈ ['e', 'E'] → sign ∈ [[], ['+'], ['-']] → Digits ds → Exponent (mark :: (sign ++ ds))

/-- A number. -/
inductive Number : List Char → Prop
  | mk {sign whole fraction exponent : List Char} :
      sign ∈ [[], ['-']] → Whole whole → Fraction fraction → Exponent exponent →
      Number (sign ++ (whole ++ (fraction ++ exponent)))

/-- A hexadecimal digit. -/
def Hex (c : Char) : Prop :=
  ('0' ≤ c ∧ c ≤ '9') ∨ ('a' ≤ c ∧ c ≤ 'f') ∨ ('A' ≤ c ∧ c ≤ 'F')

/-- The characters between the quotes of a string. -/
inductive Characters : List Char → Prop
  | nil : Characters []
  | plain {c : Char} {cs : List Char} : c ≠ '"' → c ≠ '\\' → 32 ≤ c.toNat → Characters cs →
      Characters (c :: cs)
  | escape {e : Char} {cs : List Char} :
      e ∈ ['"', '\\', '/', 'b', 'f', 'n', 'r', 't'] → Characters cs →
      Characters ('\\' :: e :: cs)
  | hex {digits cs : List Char} : digits.length = 4 → (∀ d ∈ digits, Hex d) → Characters cs →
      Characters ('\\' :: 'u' :: (digits ++ cs))

mutual

/-- The characters spell the document. -/
inductive Value : List Char → Json → Prop
  | null : Value ['n', 'u', 'l', 'l'] .null
  | true : Value ['t', 'r', 'u', 'e'] (.bool true)
  | false : Value ['f', 'a', 'l', 's', 'e'] (.bool false)
  | number {cs : List Char} : Number cs → Value cs (.num cs)
  | string {raw : List Char} : Characters raw → Value ('"' :: (raw ++ ['"'])) (.str raw)
  | emptyArray {gap : List Char} : Gap gap → Value ('[' :: (gap ++ [']'])) (.arr [])
  | array {cs : List Char} {items : List Json} : Elements cs items →
      Value ('[' :: (cs ++ [']'])) (.arr items)
  | emptyObject {gap : List Char} : Gap gap → Value ('\x7b' :: (gap ++ ['\x7d'])) (.obj [])
  | object {cs : List Char} {members : List (List Char × Json)} : Members cs members →
      Value ('\x7b' :: (cs ++ ['\x7d'])) (.obj members)

/-- A value with blanks around it. -/
inductive Element : List Char → Json → Prop
  | mk {before cs after : List Char} {v : Json} : Gap before → Value cs v → Gap after →
      Element (before ++ (cs ++ after)) v

/-- Values between commas. -/
inductive Elements : List Char → List Json → Prop
  | last {cs : List Char} {v : Json} : Element cs v → Elements cs [v]
  | more {cs ds : List Char} {v : Json} {vs : List Json} : Element cs v → Elements ds vs →
      Elements (cs ++ ',' :: ds) (v :: vs)

/-- A key and its value, with blanks around them. -/
inductive Member : List Char → List Char × Json → Prop
  | mk {before key after cs : List Char} {v : Json} :
      Gap before → Characters key → Gap after → Element cs v →
      Member (before ++ '"' :: (key ++ '"' :: (after ++ ':' :: cs))) (key, v)

/-- Members between commas. -/
inductive Members : List Char → List (List Char × Json) → Prop
  | last {cs : List Char} {m : List Char × Json} : Member cs m → Members cs [m]
  | more {cs ds : List Char} {m : List Char × Json} {ms : List (List Char × Json)} :
      Member cs m → Members ds ms → Members (cs ++ ',' :: ds) (m :: ms)

end

/-- The text is one JSON value and nothing else but blanks, and spells the document. -/
def Document (text : String) (v : Json) : Prop :=
  Element text.toList v

end Grammar

end StyleZones.Json

namespace StyleZones.Numeral

open Json.Grammar

/-! ## Numbers -/

/-- A run of digits is taken off whole where no digit goes on. -/
theorem spanDigits_append {ds rest : List Char} (hds : ∀ c ∈ ds, c.isDigit = true)
    (hrest : ∀ c ∈ rest.head?, c.isDigit = false) : spanDigits (ds ++ rest) = (ds, rest) := by
  rw [spanDigits, List.takeWhile_append_of_pos hds, List.dropWhile_append_of_pos hds]
  cases rest with
  | nil => simp
  | cons c rest =>
    have hc : ¬ c.isDigit = true := by simpa using hrest c rfl
    rw [List.takeWhile_cons_of_neg hc, List.dropWhile_cons_of_neg hc, List.append_nil]

/-- What is taken off are digits, and nothing is lost. -/
theorem spanDigits_spec {cs ds rest : List Char} (h : spanDigits cs = (ds, rest)) :
    (∀ c ∈ ds, c.isDigit = true) ∧ cs = ds ++ rest := by
  obtain ⟨rfl, rfl⟩ := Prod.mk.inj h
  exact ⟨fun _ hc => List.mem_takeWhile_imp hc, List.takeWhile_append_dropWhile.symm⟩

/-- Digits are a whole number if there are any, and no zero stands in front of others. -/
theorem isWhole_iff {ds : List Char} (hds : ∀ c ∈ ds, c.isDigit = true) :
    isWhole ds = true ↔ Whole ds := by
  constructor
  · intro h
    unfold isWhole at h
    split at h
    · cases h
    · rw [List.isEmpty_iff.1 h]
      exact .zero
    · next c rest hc =>
      refine .other ⟨List.cons_ne_nil _ _, hds⟩ ?_
      simpa using hc
  · intro h
    cases h with
    | zero => rfl
    | other hdigits hzero =>
      unfold isWhole
      split
      · exact absurd rfl hdigits.1
      · exact absurd rfl hzero
      · rfl

theorem exists_sign {cs rest : List Char} {negative : Bool} (h : takeSign cs = (negative, rest)) :
    ∃ sign ∈ [[], ['-']], cs = sign ++ rest := by
  unfold takeSign at h
  split at h
  · cases h
    exact ⟨['-'], by simp, rfl⟩
  · cases h
    exact ⟨[], by simp, rfl⟩

/-- What is taken off as a fraction is one by the rules. -/
theorem exists_fraction {cs rest : List Char} {f : Option (List Char)}
    (h : takeFraction cs = some (f, rest)) :
    ∃ fraction, Fraction fraction ∧ cs = fraction ++ rest := by
  unfold takeFraction at h
  split at h
  · next cs =>
    rcases hspan : spanDigits cs with ⟨ds, rest'⟩
    obtain ⟨hdigits, rfl⟩ := spanDigits_spec hspan
    rw [hspan] at h
    dsimp only at h
    split_ifs at h with hempty
    cases h
    exact ⟨_, .digits ⟨mt List.isEmpty_iff.2 hempty, hdigits⟩, rfl⟩
  · cases h
    exact ⟨[], .none, rfl⟩

theorem exists_exponentSign {cs rest : List Char} {negative : Bool}
    (h : takeExponentSign cs = (negative, rest)) :
    ∃ sign ∈ [[], ['+'], ['-']], cs = sign ++ rest := by
  unfold takeExponentSign at h
  split at h
  · cases h
    exact ⟨['-'], by simp, rfl⟩
  · cases h
    exact ⟨['+'], by simp, rfl⟩
  · cases h
    exact ⟨[], by simp, rfl⟩

/-- What is left after the fraction is an exponent by the rules, or nothing. -/
theorem exponent_of_takeExponent {cs : List Char} {e : Option (Bool × List Char)}
    (h : takeExponent cs = some e) : Exponent cs := by
  cases cs with
  | nil => exact .none
  | cons mark cs =>
    rcases hrest : takeExponentSign cs with ⟨negative, rest⟩
    rcases hspan : spanDigits rest with ⟨ds, last⟩
    obtain ⟨sign, hsign, rfl⟩ := exists_exponentSign hrest
    obtain ⟨hdigits, rfl⟩ := spanDigits_spec hspan
    rw [takeExponent, hrest] at h
    dsimp only at h
    rw [hspan] at h
    dsimp only at h
    split_ifs at h with hmark hend
    rw [not_or, not_not] at hend
    rw [List.isEmpty_iff.1 hend.2, List.append_nil]
    exact .digits (by simpa using hmark) hsign ⟨mt List.isEmpty_iff.2 hend.1, hdigits⟩

/-- A numeral is a number of the format. -/
theorem number_of_isNumeral {cs : List Char} (h : isNumeral cs = true) : Number cs := by
  obtain ⟨p, hp⟩ := Option.isSome_iff_exists.1 h
  rcases htake : takeSign cs with ⟨negative, body⟩
  rcases hspan : spanDigits body with ⟨whole, rest⟩
  obtain ⟨sign, hsign, rfl⟩ := exists_sign htake
  obtain ⟨hdigits, rfl⟩ := spanDigits_spec hspan
  rw [parts?_of_takes htake hspan] at hp
  split_ifs at hp with hwhole
  obtain ⟨⟨f, last⟩, hfraction, hp⟩ := Option.bind_eq_some_iff.1 hp
  obtain ⟨e, hexponent, -⟩ := Option.bind_eq_some_iff.1 hp
  obtain ⟨fraction, hf, rfl⟩ := exists_fraction hfraction
  exact .mk hsign ((isWhole_iff hdigits).1 hwhole) hf (exponent_of_takeExponent hexponent)

theorem isDigit_of_whole {ds : List Char} (h : Whole ds) :
    ds ≠ [] ∧ ∀ d ∈ ds, d.isDigit = true := by
  cases h with
  | zero => exact ⟨List.cons_ne_nil _ _, by simp⟩
  | other hdigits _ => exact hdigits

/-- An exponent starts with its mark, which is neither a digit nor a point. -/
theorem head?_exponent {cs : List Char} (h : Exponent cs) :
    ∀ c ∈ cs.head?, c.isDigit = false ∧ c ≠ '.' := by
  cases h with
  | none => simp
  | digits hmark _ _ =>
    simp only [List.mem_cons, List.not_mem_nil, or_false] at hmark
    rcases hmark with rfl | rfl <;> simp

/-- Nor does a digit follow the whole number, whether or not there is a fraction. -/
theorem head?_fraction_append {fraction exponent : List Char} (hf : Fraction fraction)
    (he : Exponent exponent) :
    ∀ c ∈ (fraction ++ exponent).head?, c.isDigit = false := by
  cases hf with
  | none => exact fun c hc => (head?_exponent he c hc).1
  | digits _ => simp

theorem takeSign_append {sign rest : List Char} (hsign : sign ∈ [[], ['-']])
    (hrest : rest.head? ≠ some '-') :
    ∃ negative, takeSign (sign ++ rest) = (negative, rest) := by
  simp only [List.mem_cons, List.not_mem_nil, or_false] at hsign
  rcases hsign with rfl | rfl
  · refine ⟨false, ?_⟩
    rw [List.nil_append]
    unfold takeSign
    split
    · exact absurd rfl hrest
    · rfl
  · exact ⟨true, rfl⟩

/-- A fraction by the rules is taken off as a whole. -/
theorem takeFraction_append {fraction exponent : List Char} (hf : Fraction fraction)
    (he : Exponent exponent) :
    ∃ f, takeFraction (fraction ++ exponent) = some (f, exponent) := by
  cases hf with
  | none =>
    refine ⟨none, ?_⟩
    rw [List.nil_append]
    unfold takeFraction
    split
    · exact absurd rfl (head?_exponent he _ rfl).2
    · rfl
  | @digits ds hds =>
    refine ⟨some ds, ?_⟩
    rw [List.cons_append, takeFraction,
      spanDigits_append hds.2 fun c hc => (head?_exponent he c hc).1]
    dsimp only
    rw [if_neg (mt List.isEmpty_iff.1 hds.1)]

theorem takeExponentSign_append {sign ds : List Char} (hsign : sign ∈ [[], ['+'], ['-']])
    (hds : Digits ds) :
    ∃ negative, takeExponentSign (sign ++ ds) = (negative, ds) := by
  simp only [List.mem_cons, List.not_mem_nil, or_false] at hsign
  rcases hsign with rfl | rfl | rfl
  · refine ⟨false, ?_⟩
    rw [List.nil_append]
    unfold takeExponentSign
    split
    · exact absurd (hds.2 _ List.mem_cons_self) (by decide)
    · exact absurd (hds.2 _ List.mem_cons_self) (by decide)
    · rfl
  · exact ⟨false, rfl⟩
  · exact ⟨true, rfl⟩

/-- An exponent by the rules is accepted. -/
theorem exists_takeExponent {exponent : List Char} (he : Exponent exponent) :
    ∃ e, takeExponent exponent = some e := by
  cases he with
  | none => exact ⟨none, rfl⟩
  | @digits mark sign ds hmark hsign hds =>
    obtain ⟨negative, hrest⟩ := takeExponentSign_append hsign hds
    have hspan : spanDigits (ds ++ []) = (ds, []) := spanDigits_append hds.2 nofun
    rw [List.append_nil] at hspan
    refine ⟨some (negative, ds), ?_⟩
    rw [takeExponent, if_pos (by simpa using hmark), hrest]
    dsimp only
    rw [hspan]
    dsimp only
    rw [if_neg]
    simpa using hds.1

/-- A number of the format is a numeral. -/
theorem isNumeral_of_number {cs : List Char} (h : Number cs) : isNumeral cs = true := by
  obtain @⟨sign, whole, fraction, exponent, hsign, hwhole, hf, he⟩ := h
  obtain ⟨hne, hdigits⟩ := isDigit_of_whole hwhole
  have hhead : (whole ++ (fraction ++ exponent)).head? ≠ some '-' := by
    obtain ⟨c, whole, rfl⟩ := List.exists_cons_of_ne_nil hne
    intro hc
    obtain rfl := Option.some.inj hc
    exact absurd (hdigits _ List.mem_cons_self) (by decide)
  obtain ⟨negative, htake⟩ := takeSign_append hsign hhead
  obtain ⟨f, hfraction⟩ := takeFraction_append hf he
  obtain ⟨e, hexponent⟩ := exists_takeExponent he
  rw [isNumeral, parts?_of_takes htake (spanDigits_append hdigits (head?_fraction_append hf he)),
    if_pos ((isWhole_iff hdigits).2 hwhole), hfraction, Option.bind_some, hexponent]
  rfl

/-- The numerals of the reader are the numbers of the format. -/
theorem isNumeral_iff (cs : List Char) : isNumeral cs = true ↔ Number cs :=
  ⟨number_of_isNumeral, isNumeral_of_number⟩

end StyleZones.Numeral
