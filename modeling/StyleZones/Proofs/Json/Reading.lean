import StyleZones.Proofs.Json.Assembly
import StyleZones.Proofs.Json.Grammar

/-!
# Reading by the grammar

Reading accepts the texts of the grammar and no others, and the document it gives is the one that
the text spells (`Json.read?_eq_some_iff`). The way is taken in two halves, as it is by the reader.

* `Json.Spelled` says which tokens a text spells, with nothing about a machine. The machine cuts a
  text into the tokens that it spells (`Json.tokens?_eq_some_iff`); `Json.Awaits` says what each of
  its modes waits for.
* A text spells the tokens of a document exactly if it is a text of the grammar for this document
  (`Json.spelled_tokens_iff`).
-/

set_option autoImplicit false

namespace StyleZones.Json

open Grammar (Gap Hex Characters Fraction Exponent Number Value Element Elements Member Members)

/-! ## Cutting a text into tokens -/

/-- No word goes on at the front of the text. -/
def Parted (cs : List Char) : Prop :=
  ∀ c ∈ cs.head?, isWordChar c = false

/-- The characters are a word, and the word stands for the value. -/
structure Word (cs : List Char) (v : Json) : Prop where
  ne_nil : cs ≠ []
  chars : ∀ c ∈ cs, isWordChar c = true
  value : ofWord? cs = some v

/-- The characters are the token and nothing else. -/
inductive Lexeme : List Char → Token → Prop
  | mark {c : Char} {t : Token} : punctuation? c = some t → Lexeme [c] t
  | quoted {raw : List Char} : Characters raw → Lexeme ('"' :: (raw ++ ['"'])) (.quoted raw)
  | word {cs : List Char} {v : Json} : Word cs v → Lexeme cs (.scalar v)

/-- The text spells the tokens. They stand in it one after another, with blanks between them or
without, but no word runs on into the next. -/
inductive Spelled : List Char → List Token → Prop
  | nil : Spelled [] []
  | blank {c : Char} {cs : List Char} {ts : List Token} : isBlank c = true → Spelled cs ts →
      Spelled (c :: cs) ts
  | lexeme {l cs : List Char} {t : Token} {ts : List Token} :
      Lexeme l t → (∀ v, t = .scalar v → Parted cs) →
      Spelled cs ts → Spelled (l ++ cs) (t :: ts)

/-- The tokens of a text, from where the machine stands. -/
def Scanner.outcome (s : Scanner) (cs : List Char) : Option (List Token) := do
  (← cs.foldlM Scanner.step s).finish

theorem Scanner.outcome_cons (s : Scanner) (c : Char) (cs : List Char) :
    s.outcome (c :: cs) = (s.step c).bind fun s => s.outcome cs := by
  simp [outcome, Option.bind_assoc]

/-! ### What is spelled is cut -/

theorem begin_of_punctuation? {c : Char} {t : Token} (h : punctuation? c = some t)
    (done : List Token) :
    Scanner.begin done c = some ⟨.between, t :: done⟩ := by
  unfold punctuation? at h
  split at h <;> cases h <;> rfl

/-- The hexadecimal digits of the reader are those of the grammar. -/
theorem isSome_hexValue?_iff (c : Char) : (Quoted.hexValue? c).isSome = true ↔ Hex c := by
  unfold Quoted.hexValue? Hex
  split_ifs <;> simp_all

theorem isSome_shortEscape?_iff (e : Char) :
    (Quoted.shortEscape? e).isSome = true ↔ e ∈ ['"', '\\', '/', 'b', 'f', 'n', 'r', 't'] := by
  unfold Quoted.shortEscape?
  constructor
  · intro h
    split at h
    case h_9 => cases h
    all_goals simp
  · intro h
    simp only [List.mem_cons, List.not_mem_nil, or_false] at h
    rcases h with rfl | rfl | rfl | rfl | rfl | rfl | rfl | rfl <;> rfl

/-- The digits of a hexadecimal escape are counted down. -/
theorem outcome_hexDigits {left : Nat} {digits : List Char} (hlength : digits.length = left + 1)
    (hdigits : ∀ d ∈ digits, Hex d) (read : List Char) (done : List Token) (rest : List Char) :
    Scanner.outcome ⟨.hex left read, done⟩ (digits ++ rest) =
      Scanner.outcome ⟨.quoted (digits.reverse ++ read), done⟩ rest := by
  induction left generalizing digits read with
  | zero =>
    obtain ⟨d, rfl⟩ := List.length_eq_one_iff.1 hlength
    have hd := (isSome_hexValue?_iff d).2 (hdigits d List.mem_cons_self)
    simp [Scanner.outcome_cons, Scanner.step, hd]
  | succ left ih =>
    obtain ⟨d, digits, rfl⟩ := List.exists_cons_of_length_eq_add_one hlength
    have hd := (isSome_hexValue?_iff d).2 (hdigits d List.mem_cons_self)
    have hrest :=
      ih (Nat.succ.inj hlength) (fun e he => hdigits e (List.mem_cons_of_mem d he)) (d :: read)
    simpa [Scanner.outcome_cons, Scanner.step, hd] using hrest

/-- Between quotes, the characters of a string are taken as they are, and do not end it. -/
theorem outcome_characters {raw : List Char} (h : Characters raw) (read : List Char)
    (done : List Token) (rest : List Char) :
    Scanner.outcome ⟨.quoted read, done⟩ (raw ++ rest) =
      Scanner.outcome ⟨.quoted (raw.reverse ++ read), done⟩ rest := by
  induction h generalizing read with
  | nil => rfl
  | plain hquote hslash hplain _ ih =>
    simp [Scanner.outcome_cons, Scanner.step, hquote, hslash, Nat.not_lt.2 hplain, ih]
  | @escape e _ he _ ih =>
    have hu : e ≠ 'u' := by
      rintro rfl
      revert he
      decide
    simp [Scanner.outcome_cons, Scanner.step, hu, (isSome_shortEscape?_iff e).2 he, ih]
  | @hex digits _ hlength hdigits _ ih =>
    simp [Scanner.outcome_cons, Scanner.step, outcome_hexDigits hlength hdigits, ih]

/-- A word starts with any of its characters. -/
theorem begin_wordChar {c : Char} (h : isWordChar c = true) (done : List Token) :
    Scanner.begin done c = some ⟨.word [c], done⟩ := by
  have hblank : isBlank c = false := by
    rw [Bool.eq_false_iff]
    intro hblank
    simp only [isBlank, Bool.or_eq_true, decide_eq_true_eq] at hblank
    rcases hblank with ((rfl | rfl) | rfl) | rfl <;> cases h
  have hquote : c ≠ '"' := by
    rintro rfl
    cases h
  simp [Scanner.begin, hblank, hquote, h]

/-- A run of characters that can stand in words goes on with the word. -/
theorem outcome_wordChars {cs : List Char} (h : ∀ c ∈ cs, isWordChar c = true) (read : List Char)
    (done : List Token) (rest : List Char) :
    Scanner.outcome ⟨.word read, done⟩ (cs ++ rest) =
      Scanner.outcome ⟨.word (cs.reverse ++ read), done⟩ rest := by
  induction cs generalizing read with
  | nil => rfl
  | cons c cs ih =>
    have hstep : Scanner.step ⟨.word read, done⟩ c = some ⟨.word (c :: read), done⟩ :=
      if_pos (h c List.mem_cons_self)
    rw [List.cons_append, Scanner.outcome_cons, hstep, Option.bind_some,
      ih fun d hd => h d (List.mem_cons_of_mem c hd), List.reverse_cons, List.append_assoc,
      List.singleton_append]

/-- A word that does not go on becomes a token, at the end of the text or before the next one. -/
theorem outcome_endOfWord {read : List Char} {v : Json} (hv : ofWord? read.reverse = some v)
    (done : List Token) {rest : List Char} (hrest : Parted rest) :
    Scanner.outcome ⟨.word read, done⟩ rest =
      Scanner.outcome ⟨.between, .scalar v :: done⟩ rest := by
  cases rest with
  | nil => simp [Scanner.outcome, Scanner.finish, hv]
  | cons c rest =>
    -- The character that ends the word is read as if the word had been a token already.
    have hc : isWordChar c = false := hrest c rfl
    simp [Scanner.outcome_cons, Scanner.step, hc, hv]


/-- A token that is spelled is cut off, and the machine goes on after it. -/
theorem Lexeme.outcome {l rest : List Char} {t : Token} (h : Lexeme l t)
    (hrest : ∀ v, t = .scalar v → Parted rest) (done : List Token) :
    Scanner.outcome ⟨.between, done⟩ (l ++ rest) = Scanner.outcome ⟨.between, t :: done⟩ rest := by
  cases h with
  | mark h =>
    have hstep : Scanner.step ⟨.between, done⟩ _ = _ := begin_of_punctuation? h done
    rw [List.singleton_append, Scanner.outcome_cons, hstep, Option.bind_some]
  | @quoted raw h =>
    have hopen : Scanner.step ⟨.between, done⟩ '"' = some ⟨.quoted [], done⟩ := rfl
    have hclose : ∀ read, Scanner.step ⟨.quoted read, done⟩ '"' =
        some ⟨.between, .quoted read.reverse :: done⟩ :=
      fun _ => rfl
    rw [List.cons_append, List.append_assoc, Scanner.outcome_cons, hopen, Option.bind_some,
      outcome_characters h, List.singleton_append, Scanner.outcome_cons, hclose, Option.bind_some,
      List.append_nil, List.reverse_reverse]
  | @word cs v h =>
    obtain ⟨c, cs, rfl⟩ := List.exists_cons_of_ne_nil h.ne_nil
    have hstep : Scanner.step ⟨.between, done⟩ c = some ⟨.word [c], done⟩ :=
      begin_wordChar (h.chars c List.mem_cons_self) done
    rw [List.cons_append, Scanner.outcome_cons, hstep, Option.bind_some,
      outcome_wordChars fun d hd => h.chars d (List.mem_cons_of_mem c hd)]
    exact outcome_endOfWord (by simpa using h.value) done (hrest v rfl)

/-- On a text that spells tokens the machine comes to its end, and they are the tokens that it
has. -/
theorem Spelled.outcome {cs : List Char} {ts : List Token} (h : Spelled cs ts) (done : List Token) :
    Scanner.outcome ⟨.between, done⟩ cs = some (done.reverse ++ ts) := by
  induction h generalizing done with
  | nil => simp [Scanner.outcome, Scanner.finish]
  | blank hc _ ih =>
    have hstep : Scanner.step ⟨.between, done⟩ _ = some ⟨.between, done⟩ := if_pos hc
    rw [Scanner.outcome_cons, hstep, Option.bind_some, ih]
  | lexeme hl hrest _ ih =>
    rw [hl.outcome hrest, ih, List.reverse_cons, List.append_assoc, List.singleton_append]

/-! ### What is cut is spelled -/

/-- The string goes on with these characters and is closed, after which the other tokens are
spelled. -/
def Closes (read raw cs : List Char) (ts : List Token) : Prop :=
  ∃ rest us, cs = raw ++ '"' :: rest ∧ ts = .quoted (read.reverse ++ raw) :: us ∧ Spelled rest us

/-- What the machine waits for in a mode: how the text must go on, and the tokens that come of
it. -/
def Awaits : Mode → List Char → List Token → Prop
  | .between, cs, ts => Spelled cs ts
  | .quoted read, cs, ts => ∃ raw, Characters raw ∧ Closes read raw cs ts
  | .escape read, cs, ts => ∃ raw, Characters ('\\' :: raw) ∧ Closes read raw cs ts
  | .hex left read, cs, ts =>
      ∃ digits raw, digits.length = left + 1 ∧ (∀ d ∈ digits, Hex d) ∧ Characters raw ∧
      Closes read (digits ++ raw) cs ts
  | .word read, cs, ts =>
      ∃ w rest v us, (∀ c ∈ w, isWordChar c = true) ∧ ofWord? (read.reverse ++ w) = some v ∧
      cs = w ++ rest ∧ Parted rest ∧ ts = .scalar v :: us ∧ Spelled rest us

/-- A character that has been read may as well be to come. -/
theorem Closes.cons {read raw cs : List Char} {c : Char} {ts : List Token}
    (h : Closes (c :: read) raw cs ts) :
    Closes read (c :: raw) (c :: cs) ts := by
  obtain ⟨rest, us, rfl, rfl, hrest⟩ := h
  exact ⟨rest, us, rfl, by simp, hrest⟩

theorem punctuation?_ne_scalar {c : Char} {t : Token} (h : punctuation? c = some t) (v : Json) :
    t ≠ .scalar v := by
  unfold punctuation? at h
  split at h <;> cases h <;> nofun

/-- The step back to where a token starts. -/
theorem Awaits.begin {c : Char} {cs : List Char} {done done' ts : List Token} {mode : Mode}
    (hstep : Scanner.begin done c = some ⟨mode, done'⟩) (h : Awaits mode cs ts) :
    ∃ us, done'.reverse ++ ts = done.reverse ++ us ∧ Spelled (c :: cs) us := by
  unfold Scanner.begin at hstep
  split_ifs at hstep with hblank hquote hword
  · cases hstep
    exact ⟨ts, rfl, .blank hblank h⟩
  · cases hstep
    obtain ⟨raw, hraw, rest, us, rfl, rfl, hrest⟩ := h
    have hspelled := Spelled.lexeme (.quoted hraw) (by nofun) hrest
    refine ⟨_, rfl, ?_⟩
    simpa [hquote] using hspelled
  · cases hstep
    -- The character is the first of a word that goes on as long as it can.
    obtain ⟨w, rest, v, us, hw, hv, rfl, hparted, rfl, hrest⟩ := h
    have hchars : ∀ d ∈ c :: w, isWordChar d = true := List.forall_mem_cons.2 ⟨hword, hw⟩
    exact ⟨_, rfl, .lexeme (.word ⟨List.cons_ne_nil c w, hchars, hv⟩) (fun _ _ => hparted) hrest⟩
  · obtain ⟨t, ht, hstep⟩ := Option.map_eq_some_iff.1 hstep
    cases hstep
    refine ⟨t :: ts, by simp, .lexeme (.mark ht) ?_ h⟩
    exact fun v hv => absurd hv (punctuation?_ne_scalar ht v)

section Step

variable {c : Char} {cs read : List Char} {done done' ts : List Token} {mode' : Mode}

/-- The step back inside a string: the character closes it, starts an escape or stands for
itself. -/
theorem Awaits.step_quoted (hstep : Scanner.step ⟨.quoted read, done⟩ c = some ⟨mode', done'⟩)
    (h : Awaits mode' cs ts) :
    ∃ us, done'.reverse ++ ts = done.reverse ++ us ∧ Awaits (.quoted read) (c :: cs) us := by
  simp only [Scanner.step] at hstep
  split_ifs at hstep with hquote hslash hcontrol
  · cases hstep
    refine ⟨.quoted read.reverse :: ts, by simp, [], .nil, cs, ts, ?_, by simp, h⟩
    rw [hquote, List.nil_append]
  · cases hstep
    obtain ⟨raw, hraw, hcloses⟩ := h
    exact ⟨ts, rfl, c :: raw, hslash ▸ hraw, hcloses.cons⟩
  · cases hstep
    obtain ⟨raw, hraw, hcloses⟩ := h
    exact ⟨ts, rfl, c :: raw, .plain hquote hslash (Nat.not_lt.1 hcontrol) hraw, hcloses.cons⟩

/-- The step back after a backslash: the character starts four digits or is the escape itself. -/
theorem Awaits.step_escape (hstep : Scanner.step ⟨.escape read, done⟩ c = some ⟨mode', done'⟩)
    (h : Awaits mode' cs ts) :
    ∃ us, done'.reverse ++ ts = done.reverse ++ us ∧ Awaits (.escape read) (c :: cs) us := by
  simp only [Scanner.step] at hstep
  split_ifs at hstep with hu hshort
  · cases hstep
    obtain ⟨digits, raw, hlength, hdigits, hraw, hcloses⟩ := h
    exact ⟨ts, rfl, c :: (digits ++ raw), hu ▸ .hex hlength hdigits hraw, hcloses.cons⟩
  · cases hstep
    obtain ⟨raw, hraw, hcloses⟩ := h
    exact ⟨ts, rfl, c :: raw, .escape ((isSome_shortEscape?_iff c).1 hshort) hraw, hcloses.cons⟩

/-- The step back among the digits of an escape: the character is the last of them, or more
follow. -/
theorem Awaits.step_hex {left : Nat}
    (hstep : Scanner.step ⟨.hex left read, done⟩ c = some ⟨mode', done'⟩) (h : Awaits mode' cs ts) :
    ∃ us, done'.reverse ++ ts = done.reverse ++ us ∧ Awaits (.hex left read) (c :: cs) us := by
  simp only [Scanner.step] at hstep
  split_ifs at hstep with hhex
  have hc : Hex c := (isSome_hexValue?_iff c).1 hhex
  cases left with
  | zero =>
    cases hstep
    obtain ⟨raw, hraw, hcloses⟩ := h
    exact ⟨ts, rfl, [c], raw, rfl, by simpa using hc, hraw, hcloses.cons⟩
  | succ left =>
    cases hstep
    obtain ⟨digits, raw, hlength, hdigits, hraw, hcloses⟩ := h
    exact ⟨ts, rfl, c :: digits, raw, by rw [List.length_cons, hlength],
      List.forall_mem_cons.2 ⟨hc, hdigits⟩, hraw, hcloses.cons⟩

/-- The step back inside a word: the character belongs to it, or the word is over and the character
starts something else. -/
theorem Awaits.step_word (hstep : Scanner.step ⟨.word read, done⟩ c = some ⟨mode', done'⟩)
    (h : Awaits mode' cs ts) :
    ∃ us, done'.reverse ++ ts = done.reverse ++ us ∧ Awaits (.word read) (c :: cs) us := by
  simp only [Scanner.step] at hstep
  split_ifs at hstep with hword
  · cases hstep
    obtain ⟨w, rest, v, us, hw, hv, rfl, hparted, rfl, hrest⟩ := h
    refine ⟨_, rfl, c :: w, rest, v, us, List.forall_mem_cons.2 ⟨hword, hw⟩, ?_, rfl, hparted,
      rfl, hrest⟩
    simpa using hv
  · -- The word has its value without the character, which is not lost: it is looked at again.
    obtain ⟨v, hv, hstep⟩ := Option.bind_eq_some_iff.1 hstep
    obtain ⟨us, hus, hspelled⟩ := h.begin hstep
    have hparted : Parted (c :: cs) := by
      rintro d hd
      obtain rfl := Option.some.inj hd
      simpa using hword
    exact ⟨.scalar v :: us, by simpa using hus, [], c :: cs, v, us, nofun, by simpa using hv, rfl,
      hparted, rfl, hspelled⟩

/-- The step back: what a mode waits for is one character and what the next mode waits for. -/
theorem Awaits.step {mode : Mode} (hstep : Scanner.step ⟨mode, done⟩ c = some ⟨mode', done'⟩)
    (h : Awaits mode' cs ts) :
    ∃ us, done'.reverse ++ ts = done.reverse ++ us ∧ Awaits mode (c :: cs) us := by
  cases mode with
  | between => exact h.begin hstep
  | quoted read => exact h.step_quoted hstep
  | escape read => exact h.step_escape hstep
  | hex left read => exact h.step_hex hstep
  | word read => exact h.step_word hstep

end Step

/-- If the machine comes to its end, the text went on as the mode had it, and the tokens are those
that came of it. -/
theorem awaits_of_outcome {cs : List Char} {mode : Mode} {done us : List Token}
    (h : Scanner.outcome ⟨mode, done⟩ cs = some us) :
    ∃ ts, us = done.reverse ++ ts ∧ Awaits mode cs ts := by
  induction cs generalizing mode done with
  | nil =>
    cases mode with
    | between =>
      cases h
      exact ⟨[], by simp, .nil⟩
    | word read =>
      obtain ⟨v, hv, h⟩ := Option.bind_eq_some_iff.1 h
      cases h
      exact ⟨[.scalar v], by simp, [], [], v, [], nofun, by simpa using hv, rfl, nofun, rfl, .nil⟩
    | _ => cases h
  | cons c cs ih =>
    rw [Scanner.outcome_cons] at h
    obtain ⟨⟨mode', done'⟩, hstep, h⟩ := Option.bind_eq_some_iff.1 h
    obtain ⟨ts, rfl, hawaits⟩ := ih h
    exact hawaits.step hstep

/-- The scanner finds the tokens that a text spells, and no others. -/
theorem tokens?_eq_some_iff (cs : List Char) (ts : List Token) :
    tokens? cs = some ts ↔ Spelled cs ts := by
  constructor
  · intro h
    obtain ⟨us, rfl, hus⟩ := @awaits_of_outcome cs .between [] ts h
    exact hus
  · exact fun h => h.outcome []

/-! ## Texts that spell the tokens of a document -/

theorem isBlank_iff (c : Char) : isBlank c = true ↔ c ∈ [' ', '\t', '\n', '\r'] := by
  simp [isBlank, or_assoc]

/-- A word is a value of the grammar that is one token. -/
theorem Word.value_and_tokens {w : List Char} {v : Json} (h : Word w v) :
    Value w v ∧ tokens v = [.scalar v] := by
  have hv := h.value
  unfold ofWord? at hv
  split_ifs at hv with hnull htrue hfalse hnumeral
  · cases hv
    exact ⟨hnull ▸ .null, rfl⟩
  · cases hv
    exact ⟨htrue ▸ .true, rfl⟩
  · cases hv
    exact ⟨hfalse ▸ .false, rfl⟩
  · cases hv
    exact ⟨.number ((Numeral.isNumeral_iff w).1 hnumeral), rfl⟩

theorem word_null : Word ['n', 'u', 'l', 'l'] .null where
  ne_nil := List.cons_ne_nil _ _
  chars := List.all_eq_true.1 rfl
  value := rfl

theorem word_true : Word ['t', 'r', 'u', 'e'] (.bool true) where
  ne_nil := List.cons_ne_nil _ _
  chars := List.all_eq_true.1 rfl
  value := rfl

theorem word_false : Word ['f', 'a', 'l', 's', 'e'] (.bool false) where
  ne_nil := List.cons_ne_nil _ _
  chars := List.all_eq_true.1 rfl
  value := rfl

theorem isWordChar_of_isDigit {c : Char} (h : c.isDigit = true) : isWordChar c = true := by
  simp [isWordChar, Char.isAlphanum, h]

theorem isWordChar_of_mem_fraction {cs : List Char} (h : Fraction cs) :
    ∀ c ∈ cs, isWordChar c = true := by
  cases h with
  | none => nofun
  | digits hds => exact List.forall_mem_cons.2 ⟨rfl, fun c hc => isWordChar_of_isDigit (hds.2 c hc)⟩

theorem isWordChar_of_mem_exponent {cs : List Char} (h : Exponent cs) :
    ∀ c ∈ cs, isWordChar c = true := by
  cases h with
  | none => nofun
  | digits hmark hsign hds =>
    have hmarks : ∀ c ∈ ['e', 'E'], isWordChar c = true := by simp [isWordChar]
    have hsigns : ∀ cs ∈ [[], ['+'], ['-']], ∀ c ∈ cs, isWordChar c = true := by simp [isWordChar]
    refine List.forall_mem_cons.2 ⟨hmarks _ hmark, List.forall_mem_append.2 ⟨hsigns _ hsign, ?_⟩⟩
    exact fun c hc => isWordChar_of_isDigit (hds.2 c hc)

/-- A number is made of the characters of words. -/
theorem isWordChar_of_mem_number {cs : List Char} (h : Number cs) :
    ∀ c ∈ cs, isWordChar c = true := by
  obtain ⟨hsign, hwhole, hfraction, hexponent⟩ := h
  have hsigns : ∀ cs ∈ [[], ['-']], ∀ c ∈ cs, isWordChar c = true := by simp [isWordChar]
  refine List.forall_mem_append.2 ⟨hsigns _ hsign,
    List.forall_mem_append.2 ⟨?_, List.forall_mem_append.2 ⟨?_, ?_⟩⟩⟩
  · exact fun c hc => isWordChar_of_isDigit ((Numeral.isDigit_of_whole hwhole).2 c hc)
  · exact isWordChar_of_mem_fraction hfraction
  · exact isWordChar_of_mem_exponent hexponent

/-- A number by the rules is a word that is read as a number. -/
theorem word_number {cs : List Char} (h : Number cs) : Word cs (.num cs) where
  ne_nil := by
    obtain ⟨-, hwhole, -, -⟩ := h
    simp [(Numeral.isDigit_of_whole hwhole).1]
  chars := isWordChar_of_mem_number h
  value := by
    have hnumeral := (Numeral.isNumeral_iff cs).2 h
    -- No literal is a numeral.
    have hliteral : ∀ w, Numeral.isNumeral w = false → cs ≠ w := by
      rintro w hw rfl
      exact absurd hnumeral (by rw [hw]; nofun)
    rw [ofWord?, if_neg (hliteral _ rfl), if_neg (hliteral _ rfl), if_neg (hliteral _ rfl),
      if_pos hnumeral]

theorem punctuation?_ne_quoted {c : Char} {t : Token} (h : punctuation? c = some t)
    (raw : List Char) :
    t ≠ .quoted raw := by
  unfold punctuation? at h
  split at h <;> cases h <;> nofun

/-- A punctuation mark is spelled in one way. -/
theorem Lexeme.eq_mark {c : Char} {t : Token} {l : List Char} (hl : Lexeme l t)
    (hc : punctuation? c = some t) :
    l = [c] := by
  cases hl with
  | mark hd =>
    unfold punctuation? at hc hd
    split at hc <;> cases hc <;> split at hd <;> first | rfl | cases hd
  | quoted => exact absurd rfl (punctuation?_ne_quoted hc _)
  | word => exact absurd rfl (punctuation?_ne_scalar hc _)

theorem parted_nil : Parted [] := by
  nofun

theorem parted_mark {c : Char} {t : Token} (h : punctuation? c = some t) (cs : List Char) :
    Parted (c :: cs) := by
  intro d hd
  obtain rfl := Option.some.inj hd
  unfold punctuation? at h
  split at h <;> first | rfl | cases h

/-- A blank in front keeps words apart, and without one all depends on what follows. -/
theorem Parted.gap_append {gap cs : List Char} (hgap : Gap gap) (hcs : Parted cs) :
    Parted (gap ++ cs) := by
  cases gap with
  | nil => exact hcs
  | cons c gap =>
    intro d hd
    obtain rfl := Option.some.inj hd
    have hc := hgap c List.mem_cons_self
    simp only [List.mem_cons, List.not_mem_nil, or_false] at hc
    rcases hc with rfl | rfl | rfl | rfl <;> rfl

namespace Spelled

variable {cs : List Char} {ts : List Token}

theorem gap_append {gap : List Char} (hgap : Gap gap) (h : Spelled cs ts) :
    Spelled (gap ++ cs) ts := by
  induction gap with
  | nil => exact h
  | cons c gap ih =>
    refine .blank ((isBlank_iff c).2 (hgap c List.mem_cons_self)) (ih fun d hd => ?_)
    exact hgap d (List.mem_cons_of_mem c hd)

theorem mark {c : Char} {t : Token} (hc : punctuation? c = some t) (h : Spelled cs ts) :
    Spelled (c :: cs) (t :: ts) :=
  .lexeme (.mark hc) (fun v hv => absurd hv (punctuation?_ne_scalar hc v)) h

theorem quoted {raw : List Char} (hraw : Characters raw) (h : Spelled cs ts) :
    Spelled ('"' :: (raw ++ '"' :: cs)) (.quoted raw :: ts) := by
  have hspelled := Spelled.lexeme (.quoted hraw) (by nofun) h
  simpa using hspelled

/-- Only blanks spell no token. -/
theorem gap_of_nil (h : Spelled cs []) : Gap cs := by
  generalize hts : ([] : List Token) = ts at h
  induction h with
  | nil => nofun
  | blank hc _ ih => exact List.forall_mem_cons.2 ⟨(isBlank_iff _).1 hc, ih hts⟩
  | lexeme => cases hts

/-- The first token stands behind blanks. -/
theorem exists_lexeme {t : Token} (h : Spelled cs (t :: ts)) :
    ∃ gap l rest, Gap gap ∧ Lexeme l t ∧ Spelled rest ts ∧ cs = gap ++ (l ++ rest) := by
  generalize hus : t :: ts = us at h
  induction h with
  | nil => cases hus
  | blank hc _ ih =>
    obtain ⟨gap, l, rest, hgap, hl, hrest, rfl⟩ := ih hus
    exact ⟨_ :: gap, l, rest, List.forall_mem_cons.2 ⟨(isBlank_iff _).1 hc, hgap⟩, hl, hrest, rfl⟩
  | lexeme hl _ hrest _ =>
    cases hus
    exact ⟨[], _, _, nofun, hl, hrest, rfl⟩

/-- Where a mark comes next, it is the first character after the blanks. -/
theorem exists_mark {c : Char} {t : Token} (hc : punctuation? c = some t)
    (h : Spelled cs (t :: ts)) :
    ∃ gap rest, Gap gap ∧ Spelled rest ts ∧ cs = gap ++ c :: rest := by
  obtain ⟨gap, l, rest, hgap, hl, hrest, rfl⟩ := h.exists_lexeme
  obtain rfl := hl.eq_mark hc
  exact ⟨gap, rest, hgap, hrest, rfl⟩

/-- Where a string comes next, its quotes and characters come after the blanks. -/
theorem exists_quoted {raw : List Char} (h : Spelled cs (.quoted raw :: ts)) :
    ∃ gap rest, Gap gap ∧ Characters raw ∧ Spelled rest ts ∧
      cs = gap ++ '"' :: (raw ++ '"' :: rest) := by
  obtain ⟨gap, l, rest, hgap, hl, hrest, rfl⟩ := h.exists_lexeme
  cases hl with
  | mark hc => exact absurd rfl (punctuation?_ne_quoted hc raw)
  | quoted hraw => exact ⟨gap, rest, hgap, hraw, hrest, by simp⟩

theorem exists_word {v : Json} (h : Spelled cs (.scalar v :: ts)) :
    ∃ gap w rest, Gap gap ∧ Word w v ∧ Spelled rest ts ∧ cs = gap ++ (w ++ rest) := by
  obtain ⟨gap, l, rest, hgap, hl, hrest, rfl⟩ := h.exists_lexeme
  cases hl with
  | mark hc => exact absurd rfl (punctuation?_ne_scalar hc v)
  | word hw => exact ⟨gap, l, rest, hgap, hw, hrest, rfl⟩

/-- A word is never an array or an object, so that what is spelled are atoms. -/
theorem isAtom (h : Spelled cs ts) : ∀ t ∈ ts, IsAtom t := by
  induction h with
  | nil => nofun
  | blank _ _ ih => exact ih
  | lexeme hl _ _ ih =>
    refine List.forall_mem_cons.2 ⟨?_, ih⟩
    rintro v rfl
    cases hl with
    | mark hc => exact absurd rfl (punctuation?_ne_scalar hc v)
    | word hw => exact hw.value_and_tokens.2

end Spelled

/-! ### What is spelled is a text of the grammar -/

/-- The value stands at the front of the text behind blanks, and the tokens are spelled after it. -/
def Fronts (v : Json) (cs : List Char) (ts : List Token) : Prop :=
  ∃ gap text rest, Gap gap ∧ Value text v ∧ Spelled rest ts ∧ cs = gap ++ (text ++ rest)

theorem fronts_of_word {v : Json} {cs : List Char} {ts : List Token}
    (h : Spelled cs (.scalar v :: ts)) :
    Fronts v cs ts := by
  obtain ⟨gap, w, rest, hgap, hw, hrest, rfl⟩ := h.exists_word
  exact ⟨gap, w, rest, hgap, hw.value_and_tokens.1, hrest, rfl⟩

/-- What stands at the front is an element, with any blanks after it. -/
theorem Fronts.exists_element {v : Json} {cs : List Char} {ts : List Token} (h : Fronts v cs ts) :
    ∃ head rest, (∀ after, Gap after → Element (head ++ after) v) ∧ Spelled rest ts ∧
      cs = head ++ rest := by
  obtain ⟨gap, text, rest, hgap, hv, hrest, rfl⟩ := h
  refine ⟨gap ++ text, rest, fun after hafter => ?_, hrest, by simp⟩
  rw [List.append_assoc]
  exact .mk hgap hv hafter

/-- A key, a colon and a value at the front are a member, with any blanks after it. -/
theorem exists_member {k : List Char} {v : Json} {cs : List Char} {ts : List Token}
    (hv : ∀ {ds : List Char}, Spelled ds (tokens v ++ ts) → Fronts v ds ts)
    (h : Spelled cs (.quoted k :: .colon :: (tokens v ++ ts))) :
    ∃ head rest, (∀ after, Gap after → Member (head ++ after) (k, v)) ∧ Spelled rest ts ∧
      cs = head ++ rest := by
  obtain ⟨before, ds, hbefore, hk, hds, rfl⟩ := h.exists_quoted
  obtain ⟨middle, es, hmiddle, hes, rfl⟩ := hds.exists_mark (c := ':') rfl
  obtain ⟨head, rest, hhead, hrest, rfl⟩ := (hv hes).exists_element
  refine ⟨before ++ '"' :: (k ++ '"' :: (middle ++ ':' :: head)), rest, fun after hafter => ?_,
    hrest, by simp⟩
  simpa using Member.mk hbefore hk hmiddle (hhead after hafter)

-- The recursion is that of the tokens: a document, the items after the first of an array, the
-- members after the first of an object. The entry before them is held at the front of the text, to
-- be ended by the blanks that follow it.
mutual

/-- Where the tokens of a document are spelled, the document is. -/
theorem fronts_of_spelled (v : Json) {cs : List Char} {ts : List Token}
    (h : Spelled cs (tokens v ++ ts)) :
    Fronts v cs ts := by
  cases v with
  | null => exact fronts_of_word h
  | bool b => exact fronts_of_word h
  | num numeral => exact fronts_of_word h
  | str raw =>
    obtain ⟨gap, rest, hgap, hraw, hrest, rfl⟩ := Spelled.exists_quoted h
    exact ⟨gap, _, rest, hgap, .string hraw, hrest, by simp⟩
  | arr items =>
    cases items with
    | nil =>
      obtain ⟨gap, ds, hgap, hds, rfl⟩ := Spelled.exists_mark (c := '[') rfl h
      obtain ⟨inner, rest, hinner, hrest, rfl⟩ := Spelled.exists_mark (c := ']') rfl hds
      exact ⟨gap, _, rest, hgap, .emptyArray hinner, hrest, by simp⟩
    | cons v vs =>
      -- The first item has no comma before it; the others are left to the second theorem.
      rw [tokens, List.cons_append, List.append_assoc] at h
      obtain ⟨gap, ds, hgap, hds, rfl⟩ := Spelled.exists_mark (c := '[') rfl h
      obtain ⟨head, es, hhead, hes, rfl⟩ := (fronts_of_spelled v hds).exists_element
      obtain ⟨inner, rest, hinner, hrest, heq⟩ := elements_of_spelled vs hhead hes
      exact ⟨gap, _, rest, hgap, .array hinner, hrest, by simp [heq]⟩
  | obj members =>
    cases members with
    | nil =>
      obtain ⟨gap, ds, hgap, hds, rfl⟩ := Spelled.exists_mark (c := '\x7b') rfl h
      obtain ⟨inner, rest, hinner, hrest, rfl⟩ := Spelled.exists_mark (c := '\x7d') rfl hds
      exact ⟨gap, _, rest, hgap, .emptyObject hinner, hrest, by simp⟩
    | cons m ms =>
      obtain ⟨k, v⟩ := m
      rw [tokens, List.cons_append, List.cons_append, List.cons_append, List.append_assoc] at h
      obtain ⟨gap, ds, hgap, hds, rfl⟩ := Spelled.exists_mark (c := '\x7b') rfl h
      obtain ⟨head, es, hhead, hes, rfl⟩ := exists_member (fun h => fronts_of_spelled v h) hds
      obtain ⟨inner, rest, hinner, hrest, heq⟩ := members_of_spelled ms hhead hes
      exact ⟨gap, _, rest, hgap, .object hinner, hrest, by simp [heq]⟩

/-- After an item, its array goes on by the grammar. -/
theorem elements_of_spelled (vs : List Json) {v : Json} {head cs : List Char} {ts : List Token}
    (hhead : ∀ after, Gap after → Element (head ++ after) v)
    (h : Spelled cs (itemTokens vs ++ ts)) :
    ∃ inner rest, Elements inner (v :: vs) ∧ Spelled rest ts ∧
      head ++ cs = inner ++ ']' :: rest := by
  cases vs with
  | nil =>
    obtain ⟨after, rest, hafter, hrest, rfl⟩ := Spelled.exists_mark (c := ']') rfl h
    exact ⟨_, rest, .last (hhead after hafter), hrest, by simp⟩
  | cons w vs =>
    rw [itemTokens, List.cons_append, List.append_assoc] at h
    obtain ⟨after, ds, hafter, hds, rfl⟩ := Spelled.exists_mark (c := ',') rfl h
    obtain ⟨next, es, hnext, hes, rfl⟩ := (fronts_of_spelled w hds).exists_element
    obtain ⟨inner, rest, hinner, hrest, heq⟩ := elements_of_spelled vs hnext hes
    exact ⟨_, rest, .more (hhead after hafter) hinner, hrest, by simp [heq]⟩

/-- After a member, its object goes on by the grammar. -/
theorem members_of_spelled (ms : List (List Char × Json)) {m : List Char × Json}
    {head cs : List Char} {ts : List Token} (hhead : ∀ after, Gap after → Member (head ++ after) m)
    (h : Spelled cs (memberTokens ms ++ ts)) :
    ∃ inner rest, Members inner (m :: ms) ∧ Spelled rest ts ∧
      head ++ cs = inner ++ '\x7d' :: rest := by
  cases ms with
  | nil =>
    obtain ⟨after, rest, hafter, hrest, rfl⟩ := Spelled.exists_mark (c := '\x7d') rfl h
    exact ⟨_, rest, .last (hhead after hafter), hrest, by simp⟩
  | cons n ms =>
    obtain ⟨k, v⟩ := n
    rw [memberTokens, List.cons_append, List.cons_append, List.cons_append, List.append_assoc] at h
    obtain ⟨after, ds, hafter, hds, rfl⟩ := Spelled.exists_mark (c := ',') rfl h
    obtain ⟨next, es, hnext, hes, rfl⟩ := exists_member (fun h => fronts_of_spelled v h) hds
    obtain ⟨inner, rest, hinner, hrest, heq⟩ := members_of_spelled ms hnext hes
    exact ⟨_, rest, .more (hhead after hafter) hinner, hrest, by simp [heq]⟩

end

/-! ### A text of the grammar is spelled -/

/-- Such characters spell the tokens, wherever no word goes on after them. -/
def Spells (P : List Char → Prop) (us : List Token) : Prop :=
  ∀ {cs rest : List Char} {ts : List Token}, P cs → Parted rest → Spelled rest ts →
    Spelled (cs ++ rest) (us ++ ts)

/-- A value with blanks around it spells what the value spells. -/
theorem spells_element {v : Json} (hv : Spells (Value · v) (tokens v)) :
    Spells (Element · v) (tokens v) := by
  rintro _ rest ts ⟨hbefore, hvalue, hafter⟩ hparted hrest
  have h := hv hvalue (hparted.gap_append hafter) (hrest.gap_append hafter)
  simpa using h.gap_append hbefore

/-- A member spells its key, a colon and what its value spells. -/
theorem spells_member {k : List Char} {v : Json} (hv : Spells (Value · v) (tokens v)) :
    Spells (Member · (k, v)) (.quoted k :: .colon :: tokens v) := by
  rintro _ rest ts ⟨hbefore, hk, hafter, hvalue⟩ hparted hrest
  have hcolon := Spelled.mark (c := ':') rfl (spells_element hv hvalue hparted hrest)
  have h := Spelled.quoted hk (hcolon.gap_append hafter)
  simpa using h.gap_append hbefore

mutual

/-- A value spells the tokens of its document. -/
theorem spells_value (v : Json) : Spells (Value · v) (tokens v) := by
  intro cs rest ts h hparted hrest
  cases v with
  | null =>
    cases h
    exact .lexeme (.word word_null) (fun _ _ => hparted) hrest
  | bool b =>
    cases h with
    | true => exact .lexeme (.word word_true) (fun _ _ => hparted) hrest
    | false => exact .lexeme (.word word_false) (fun _ _ => hparted) hrest
  | num numeral =>
    cases h with
    | number h => exact .lexeme (.word (word_number h)) (fun _ _ => hparted) hrest
  | str raw =>
    cases h with
    | string hraw => simpa [tokens] using Spelled.quoted hraw hrest
  | arr items =>
    cases h with
    | emptyArray hgap =>
      have hclose := Spelled.mark (c := ']') rfl hrest
      simpa [tokens] using Spelled.mark (c := '[') rfl (hclose.gap_append hgap)
    | array helements =>
      cases items with
      | nil => cases helements
      | cons v vs =>
        have h := spelled_elements vs (spells_element (spells_value v)) helements hrest
        simpa [tokens] using Spelled.mark (c := '[') rfl h
  | obj members =>
    cases h with
    | emptyObject hgap =>
      have hclose := Spelled.mark (c := '\x7d') rfl hrest
      simpa [tokens] using Spelled.mark (c := '\x7b') rfl (hclose.gap_append hgap)
    | object hmembers =>
      cases members with
      | nil => cases hmembers
      | cons m ms =>
        obtain ⟨k, v⟩ := m
        have h := spelled_members ms (spells_member (spells_value v)) hmembers hrest
        simpa [tokens] using Spelled.mark (c := '\x7b') rfl h

/-- Items spell their tokens up to the end of the array. -/
theorem spelled_elements (vs : List Json) {v : Json} (hv : Spells (Element · v) (tokens v))
    {cs rest : List Char} {ts : List Token} (h : Elements cs (v :: vs)) (hrest : Spelled rest ts) :
    Spelled (cs ++ ']' :: rest) (tokens v ++ (itemTokens vs ++ ts)) := by
  cases h with
  | last h => exact hv h (parted_mark rfl rest) (.mark rfl hrest)
  | more h hmore =>
    cases vs with
    | nil => cases hmore
    | cons w vs =>
      have hnext := spelled_elements vs (spells_element (spells_value w)) hmore hrest
      have hspelled := hv h (parted_mark (c := ',') rfl _) (.mark rfl hnext)
      simpa [itemTokens] using hspelled

/-- Members spell their tokens up to the end of the object. -/
theorem spelled_members (ms : List (List Char × Json)) {k : List Char} {v : Json}
    (hm : Spells (Member · (k, v)) (.quoted k :: .colon :: tokens v)) {cs rest : List Char}
    {ts : List Token} (h : Members cs ((k, v) :: ms)) (hrest : Spelled rest ts) :
    Spelled (cs ++ '\x7d' :: rest)
      (.quoted k :: .colon :: (tokens v ++ (memberTokens ms ++ ts))) := by
  cases h with
  | last h => exact hm h (parted_mark rfl rest) (.mark rfl hrest)
  | more h hmore =>
    cases ms with
    | nil => cases hmore
    | cons n ms =>
      obtain ⟨l, w⟩ := n
      have hnext := spelled_members ms (spells_member (spells_value w)) hmore hrest
      have hspelled := hm h (parted_mark (c := ',') rfl _) (.mark rfl hnext)
      simpa [memberTokens] using hspelled

end

/-! ## Reading -/

/-- A text spells the tokens of a document exactly if it is a text of the grammar for this
document. -/
theorem spelled_tokens_iff (cs : List Char) (v : Json) : Spelled cs (tokens v) ↔ Element cs v := by
  constructor
  · intro h
    rw [← List.append_nil (tokens v)] at h
    obtain ⟨head, rest, hhead, hrest, rfl⟩ := (fronts_of_spelled v h).exists_element
    exact hhead rest hrest.gap_of_nil
  · intro h
    simpa using spells_element (spells_value v) h parted_nil .nil

/-- Reading accepts the texts of the grammar, and gives the documents that they spell. -/
theorem read?_eq_some_iff (text : String) (v : Json) :
    read? text = some v ↔ Grammar.Document text v := by
  rw [read?, Option.bind_eq_bind, Option.bind_eq_some_iff, Grammar.Document, ← spelled_tokens_iff]
  constructor
  · rintro ⟨ts, hts, hv⟩
    have hspelled := (tokens?_eq_some_iff _ ts).1 hts
    rwa [← (ofTokens?_eq_some_iff hspelled.isAtom v).1 hv]
  · intro h
    exact ⟨tokens v, (tokens?_eq_some_iff _ _).2 h, ofTokens?_tokens v⟩

end StyleZones.Json
