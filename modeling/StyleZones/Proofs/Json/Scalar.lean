import Mathlib.Algebra.Order.Group.Nat
import Mathlib.Data.List.TakeWhile
import Mathlib.Tactic.SplitIfs
import StyleZones.Json.Numeral
import StyleZones.Json.Quoted

/-!
# Numerals and quoted texts

What is written of a number or of a text is read back as that number or that text.

* A decimal numeral has only digits, and its place value is the number (`Decimal.value_digits`). A
  number of 64 bits is far below what a double can hold (`Numeral.exceedsDouble_of_value_lt`).
* A character is written in one of three ways (`Quoted.encodeChar_cases`); each is read back as one
  piece, and one piece gives the character again. So every text is read back
  (`Quoted.decode_encode`), whatever its characters.
-/

set_option autoImplicit false

namespace StyleZones

/-! ## Decimal numerals -/

namespace Decimal

theorem isDigit_digit : ∀ d < 10, (digit d).isDigit = true := by decide

theorem digitValue_digit : ∀ d < 10, digitValue (digit d) = d := by decide

theorem digit_ne_zero : ∀ d < 10, 0 < d → digit d ≠ '0' := by decide

theorem isDigit_of_mem_digits (n : Nat) : ∀ c ∈ digits n, c.isDigit = true := by
  fun_induction digits n with
  | case1 n h =>
    intro c hc
    rw [List.mem_singleton.1 hc]
    exact isDigit_digit n h
  | case2 n h ih =>
    intro c hc
    rcases List.mem_append.1 hc with hc | hc
    · exact ih c hc
    · rw [List.mem_singleton.1 hc]
      exact isDigit_digit _ (Nat.mod_lt n (by omega))

theorem value_append_singleton (ds : List Char) (c : Char) :
    value (ds ++ [c]) = 10 * value ds + digitValue c := by
  rw [value, List.foldl_append]
  rfl

/-- The place value of the numeral of a number is the number. -/
theorem value_digits (n : Nat) : value (digits n) = n := by
  fun_induction digits n with
  | case1 n h => simp [value, digitValue_digit n h]
  | case2 n h ih =>
    rw [value_append_singleton, ih, digitValue_digit _ (Nat.mod_lt n (by omega))]
    omega

/-- A numeral starts with a digit, and with a zero only if the number is zero. -/
theorem digits_eq_cons (n : Nat) : ∃ c ds, digits n = c :: ds ∧ (0 < n → c ≠ '0') := by
  fun_induction digits n with
  | case1 n h => exact ⟨digit n, [], rfl, digit_ne_zero n h⟩
  | case2 n h ih =>
    obtain ⟨c, ds, hds, hc⟩ := ih
    exact ⟨c, ds ++ [digit (n % 10)], by rw [hds]; rfl, fun _ => hc (by omega)⟩

/-- What is read of a numeral weighs ten times as much with each further digit. -/
theorem mul_pow_le_foldl (ds : List Char) (n : Nat) :
    n * 10 ^ ds.length ≤ ds.foldl (fun n c => 10 * n + digitValue c) n := by
  induction ds generalizing n with
  | nil => simp
  | cons c ds ih =>
    calc n * 10 ^ (c :: ds).length
        = 10 * n * 10 ^ ds.length := by
          rw [List.length_cons, pow_succ, Nat.mul_comm 10 n, Nat.mul_assoc, Nat.mul_comm 10]
      _ ≤ (10 * n + digitValue c) * 10 ^ ds.length := Nat.mul_le_mul_right _ (Nat.le_add_right _ _)
      _ ≤ _ := ih _

/-- A numeral that does not start with a zero denotes at least the power of ten with its number of
places. -/
theorem pow_le_value {c : Char} {ds : List Char} (hdigit : c.isDigit = true) (hc : c ≠ '0') :
    10 ^ ds.length ≤ value (c :: ds) := by
  have hval : c.toNat ≠ 48 := by
    intro h
    apply hc
    exact Char.toNat_inj.1 h
  have hone : 1 ≤ digitValue c := by
    rw [Char.isDigit, Bool.and_eq_true, decide_eq_true_eq] at hdigit
    have hle : 48 ≤ c.toNat := hdigit.1
    rw [digitValue]
    omega
  calc 10 ^ ds.length
      ≤ digitValue c * 10 ^ ds.length := Nat.le_mul_of_pos_left _ hone
    _ ≤ value (c :: ds) := by
        have h := mul_pow_le_foldl ds (digitValue c)
        rwa [value, List.foldl_cons, Nat.mul_zero, Nat.zero_add]

/-- Zeros in front of a numeral do not count. -/
theorem value_dropWhile_zero (ds : List Char) : value (ds.dropWhile (· = '0')) = value ds := by
  induction ds with
  | nil => rfl
  | cons c ds ih =>
    by_cases hc : c = '0'
    · subst hc
      rw [List.dropWhile_cons_of_pos (by simp), ih]
      rfl
    · rw [List.dropWhile_cons_of_neg (by simpa using hc)]

end Decimal

namespace Numeral

open Decimal (digits)

/-- The parts of a numeral, once its sign and its first digits have been taken off. -/
theorem parts?_of_takes {cs body whole rest : List Char} {negative : Bool}
    (hsign : takeSign cs = (negative, body)) (hspan : spanDigits body = (whole, rest)) :
    parts? cs =
      if isWhole whole then
        (takeFraction rest).bind fun x =>
          (takeExponent x.2).bind fun e => some ⟨negative, whole, x.1, e⟩
      else none := by
  rw [parts?, hsign]
  dsimp only
  rw [hspan]
  dsimp only
  cases isWhole whole <;> rfl

/-- A run of digits is all integer part, if it is a numeral at all. -/
theorem parts?_of_isDigit {cs : List Char} (hall : ∀ c ∈ cs, c.isDigit = true) :
    parts? cs =
      if isWhole cs then
        some { negative := false, whole := cs, fraction := none, exponent := none }
      else none := by
  have hsign : takeSign cs = (false, cs) := by
    cases cs with
    | nil => rfl
    | cons c cs =>
      have hc : c ≠ '-' := by
        rintro rfl
        exact absurd (hall _ List.mem_cons_self) (by decide)
      simp [takeSign, hc]
  have hspan : spanDigits cs = (cs, []) := by
    rw [spanDigits, List.takeWhile_eq_self_iff.2 hall, List.dropWhile_eq_nil_iff.2 hall]
  rw [parts?_of_takes hsign hspan]
  rfl

theorem natural?_digits (n : Nat) : natural? (digits n) = some n := by
  have hall : (digits n).all Char.isDigit = true :=
    List.all_eq_true.2 (Decimal.isDigit_of_mem_digits n)
  obtain ⟨c, ds, hds, -⟩ := Decimal.digits_eq_cons n
  have hempty : (digits n).isEmpty = false := by rw [hds]; rfl
  simp [natural?, hall, hempty, Decimal.value_digits]

/-- No number of 64 bits is too large for double precision: it has too few digits. -/
theorem exceedsDouble_of_value_lt {cs : List Char} (hall : ∀ c ∈ cs, c.isDigit = true)
    (h : Decimal.value cs < UInt64.size) : exceedsDouble cs = false := by
  have hlength : (cs.dropWhile (· = '0')).length ≤ 20 := by
    rw [← Decimal.value_dropWhile_zero] at h
    cases hdrop : cs.dropWhile (· = '0') with
    | nil => simp
    | cons c ds =>
      -- The first digit that counts is not a zero, so that each further one multiplies by ten.
      have hdigit : c.isDigit = true :=
        hall c ((List.dropWhile_sublist _).subset (hdrop ▸ List.mem_cons_self))
      have hc : c ≠ '0' := by
        have hhead := List.head?_dropWhile_not (· = '0') cs
        rw [hdrop] at hhead
        simpa using hhead
      rw [hdrop] at h
      have hpow : 10 ^ ds.length < 10 ^ 20 :=
        Nat.lt_of_le_of_lt (Decimal.pow_le_value hdigit hc) (Nat.lt_trans h (by decide))
      exact (Nat.pow_lt_pow_iff_right (by decide)).1 hpow
  rw [exceedsDouble, parts?_of_isDigit hall]
  cases isWhole cs with
  | false => rfl
  | true =>
    have hle : (cs.dropWhile (· = '0')).length ≤ cs.length := (List.dropWhile_sublist _).length_le
    simp only [if_true, Parts.exceedsDouble, Option.getD_none, List.append_nil]
    split_ifs with hempty hplace
    · rfl
    · rfl
    -- With fewer than 309 places neither of the other cases is reached.
    all_goals omega

theorem exceedsDouble_digits {n : Nat} (h : n < UInt64.size) :
    exceedsDouble (digits n) = false := by
  apply exceedsDouble_of_value_lt (Decimal.isDigit_of_mem_digits n)
  rwa [Decimal.value_digits]

end Numeral

/-! ## Quoted texts -/

namespace Quoted

theorem hexValue?_hexDigit : ∀ d < 16, hexValue? (hexDigit d) = some d := by decide

/-- A character is written by a short escape that names it, by its number in hexadecimal if it is a
control character, or as it is. -/
theorem encodeChar_cases (c : Char) :
    (∃ e, encodeChar c = ['\\', e] ∧ shortEscape? e = some c) ∨
      (c.toNat < 32 ∧ encodeChar c = ['\\', 'u', '0', '0', hexDigit (c.toNat / 16),
        hexDigit (c.toNat % 16)]) ∨
      (encodeChar c = [c] ∧ c ≠ '"' ∧ c ≠ '\\' ∧ 32 ≤ c.toNat) := by
  rw [encodeChar]
  split_ifs with hquote hslash hb ht hn hf hr hcontrol
  · exact .inl ⟨_, rfl, by rw [hquote]; rfl⟩
  · exact .inl ⟨_, rfl, by rw [hslash]; rfl⟩
  · exact .inl ⟨_, rfl, by rw [hb]; rfl⟩
  · exact .inl ⟨_, rfl, by rw [ht]; rfl⟩
  · exact .inl ⟨_, rfl, by rw [hn]; rfl⟩
  · exact .inl ⟨_, rfl, by rw [hf]; rfl⟩
  · exact .inl ⟨_, rfl, by rw [hr]; rfl⟩
  · exact .inr (.inl ⟨hcontrol, rfl⟩)
  · exact .inr (.inr ⟨rfl, hquote, hslash, by omega⟩)

theorem ne_u_of_shortEscape? {e c : Char} (h : shortEscape? e = some c) : e ≠ 'u' := by
  rintro rfl
  cases h

theorem unit?_control {n : Nat} (h : n < 32) :
    unit? '0' '0' (hexDigit (n / 16)) (hexDigit (n % 16)) = some n := by
  have hzero : hexValue? '0' = some 0 := rfl
  simp only [unit?, hzero, hexValue?_hexDigit (n / 16) (by omega),
    hexValue?_hexDigit (n % 16) (by omega)]
  exact congrArg some (by omega)

/-- After a backslash, any letter but the one of the hexadecimal escapes is an escape by itself. -/
theorem pieces_short {e : Char} (h : e ≠ 'u') (rest : List Char) :
    pieces ('\\' :: e :: rest) = (shortEscape? e).bind fun c => (pieces rest).bind
      fun ps => some (.char c :: ps) := by
  rw [pieces]
  · rfl
  · intro _ _ _ _ _ hu
    exact absurd hu h

theorem pieces_plain {c : Char} (h : c ≠ '\\') (rest : List Char) :
    pieces (c :: rest) = (pieces rest).bind fun ps => some (.char c :: ps) := by
  rw [pieces]
  · rfl
  all_goals
    intros
    contradiction

/-- A unit that is no half of a pair is a character by itself, whatever stands after it. -/
theorem join_unit {n : Nat} (h : n < 0xD800) (ps : List Piece) :
    join (.unit n :: ps) = (join ps).map (Char.ofNat n :: ·) := by
  have hhigh : isHigh n = false := by simp [isHigh]; omega
  have hlow : isLow n = false := by simp [isLow]; omega
  rw [Option.map_eq_bind]
  rcases ps with _ | ⟨_ | _, ps⟩ <;> simp only [join, hhigh, hlow] <;> rfl

/-- What is written of a character is read as one piece, from which the character comes back. -/
theorem piece_encodeChar (c : Char) :
    ∃ p, (∀ rest, pieces (encodeChar c ++ rest) = (pieces rest).map (p :: ·)) ∧
      ∀ ps, join (p :: ps) = (join ps).map (c :: ·) := by
  have hchar : ∀ ps, join (.char c :: ps) = (join ps).map (c :: ·) := by
    intro ps
    rw [Option.map_eq_bind]
    rfl
  rcases encodeChar_cases c with ⟨e, he, hc⟩ | ⟨hcontrol, he⟩ | ⟨he, hquote, hslash, -⟩
  · refine ⟨.char c, fun rest => ?_, hchar⟩
    rw [he, List.cons_append, List.singleton_append, pieces_short (ne_u_of_shortEscape? hc), hc,
      Option.map_eq_bind]
    rfl
  · refine ⟨.unit c.toNat, fun rest => ?_, fun ps => ?_⟩
    · rw [he, Option.map_eq_bind]
      simp only [List.cons_append, List.nil_append, pieces, unit?_control hcontrol]
      rfl
    · rw [join_unit (by omega), Char.ofNat_toNat]
  · refine ⟨.char c, fun rest => ?_, hchar⟩
    rw [he, List.singleton_append, pieces_plain hslash, Option.map_eq_bind]
    rfl

/-- Every text is read back from between its quotes. -/
theorem decode_encode (t : List Char) : decode (encode t) = some t := by
  induction t with
  | nil => rfl
  | cons c t ih =>
    obtain ⟨p, hpieces, hjoin⟩ := piece_encodeChar c
    obtain ⟨ps, hps, ht⟩ := Option.bind_eq_some_iff.1 ih
    rw [decode, encode, List.flatMap_cons, hpieces, ← encode, hps]
    simp [hjoin, ht]

end Quoted

end StyleZones
