import Mathlib.Data.List.Lex
import Mathlib.Data.String.Basic
import Mathlib.Tactic.SplitIfs

/-!
# The order of bytes

Texts are compared character by character, by code points. Written out in UTF-8 they are lists of
bytes, which have a lexicographic order of their own. The two orders are the same
(`Text.bytes_lt_iff`).

A character is written as a leading byte, which grows with the number of bytes that follow, and then
the rest of its code point in six-bit digits from the most significant on. So two characters are
told apart at the latest by the first digit in which they differ, whatever comes after them.
-/

set_option autoImplicit false

namespace StyleZones.Text

/-- The bytes of a text in UTF-8. -/
def bytes (s : String) : List UInt8 :=
  s.toUTF8.data.toList

theorem bytes_eq_flatMap (s : String) : bytes s = s.toList.flatMap String.utf8EncodeChar := by
  rw [bytes, String.toUTF8, ← String.utf8Encode_toList, List.utf8Encode, List.data_toByteArray]

theorem length_bytes (s : String) : (bytes s).length = s.utf8ByteSize := rfl

/-! ## One character -/

/-- The leading byte of the character with code point `v`. -/
def leadingByte (v : Nat) : Nat :=
  if v ≤ 0x7f then v
  else if v ≤ 0x7ff then v / 64 % 32 + 192
  else if v ≤ 0xffff then v / 4096 % 16 + 224
  else v / 262144 % 8 + 240

/-- How many bytes follow the leading byte. -/
def trailCount (v : Nat) : Nat :=
  if v ≤ 0x7f then 0 else if v ≤ 0x7ff then 1 else if v ≤ 0xffff then 2 else 3

/-- The last `n` digits of `v` in base 64, each marked as a byte that does not lead. -/
def trail : Nat → Nat → List UInt8
  | 0, _ => []
  | n + 1, v => UInt8.ofNat (v / 64 ^ n % 64 + 128) :: trail n v

theorem utf8EncodeChar_eq (c : Char) :
    String.utf8EncodeChar c = UInt8.ofNat (leadingByte c.val.toNat) :: trail
      (trailCount c.val.toNat) c.val.toNat := by
  unfold String.utf8EncodeChar leadingByte trailCount
  dsimp only
  split_ifs <;> simp [trail]

/-- Bytes that tell two lists apart at once, or leave it to what follows. -/
theorem ofNat_cons_lt {a b : Nat} {as bs : List UInt8} (ha : a < 256) (hb : b < 256)
    (h : a < b ∨ a = b ∧ as < bs) : UInt8.ofNat a :: as < UInt8.ofNat b :: bs := by
  rw [List.cons_lt_cons_iff]
  rcases h with hab | ⟨rfl, hrest⟩
  · left
    rw [UInt8.lt_iff_toNat_lt, UInt8.toNat_ofNat', UInt8.toNat_ofNat', Nat.mod_eq_of_lt ha,
      Nat.mod_eq_of_lt hb]
    exact hab
  · right
    exact ⟨rfl, hrest⟩

/-- The digits of a smaller number come first, whatever stands after them. -/
theorem trail_lt (n : Nat) {v w : Nat} (h : v % 64 ^ n < w % 64 ^ n) (xs ys : List UInt8) :
    trail n v ++ xs < trail n w ++ ys := by
  induction n with
  | zero => simp [Nat.mod_one] at h
  | succ n ih =>
    rw [Nat.mod_pow_succ, Nat.mod_pow_succ] at h
    have hv : v % 64 ^ n < 64 ^ n := Nat.mod_lt _ (Nat.pow_pos (by decide))
    have hw : w % 64 ^ n < 64 ^ n := Nat.mod_lt _ (Nat.pow_pos (by decide))
    refine ofNat_cons_lt (by omega) (by omega) ?_
    rcases Nat.lt_trichotomy (v / 64 ^ n % 64) (w / 64 ^ n % 64) with hlt | heq | hgt
    · left
      omega
    · right
      rw [heq] at h
      exact ⟨by rw [heq], ih (by omega)⟩
    · -- A greater digit outweighs all that follow it.
      have hmul : 64 ^ n * (w / 64 ^ n % 64 + 1) ≤ 64 ^ n * (v / 64 ^ n % 64) :=
        Nat.mul_le_mul_left _ hgt
      rw [Nat.mul_add, Nat.mul_one] at hmul
      omega

/-- A greater code point has a greater leading byte, or the same one and greater digits after it. -/
theorem leadingByte_lt_or {v w : Nat} (h : v < w) (hw : w < 0x110000) :
    leadingByte v < leadingByte w ∨
      (leadingByte v = leadingByte w ∧ trailCount v = trailCount w ∧
        v % 64 ^ trailCount v < w % 64 ^ trailCount w) := by
  unfold leadingByte trailCount
  split_ifs <;> omega

theorem leadingByte_lt (c : Char) : leadingByte c.val.toNat < 256 := by
  unfold leadingByte
  split_ifs <;> omega

/-- The bytes of a smaller character come first, whatever stands after them. -/
theorem utf8EncodeChar_append_lt {c d : Char} (h : c < d) (xs ys : List UInt8) :
    String.utf8EncodeChar c ++ xs < String.utf8EncodeChar d ++ ys := by
  have hlt : c.val.toNat < d.val.toNat := h
  have hrange : d.val.toNat < 0x110000 := by
    rcases d.valid with hd | ⟨-, hd⟩ <;> omega
  rw [utf8EncodeChar_eq, utf8EncodeChar_eq]
  refine ofNat_cons_lt (leadingByte_lt c) (leadingByte_lt d) ?_
  rcases leadingByte_lt_or hlt hrange with hlead | ⟨hlead, hcount, hrest⟩
  · exact Or.inl hlead
  · rw [hcount] at hrest ⊢
    exact Or.inr ⟨hlead, trail_lt _ hrest xs ys⟩

/-! ## Texts -/

theorem flatMap_utf8EncodeChar_lt {cs ds : List Char} (h : cs < ds) :
    cs.flatMap String.utf8EncodeChar < ds.flatMap String.utf8EncodeChar := by
  induction cs generalizing ds with
  | nil =>
    cases ds with
    | nil => cases h
    | cons d ds =>
      rw [List.flatMap_nil, List.flatMap_cons, utf8EncodeChar_eq]
      exact List.nil_lt_cons _ _
  | cons c cs ih =>
    cases ds with
    | nil => cases h
    | cons d ds =>
      rw [List.flatMap_cons, List.flatMap_cons]
      rcases List.cons_lt_cons_iff.1 h with hcd | ⟨rfl, hrest⟩
      · exact utf8EncodeChar_append_lt hcd _ _
      · exact List.append_left_lt (ih hrest)

/-- Texts are in the order of their bytes. -/
theorem bytes_lt_iff (s t : String) : bytes s < bytes t ↔ s < t := by
  have hmono : ∀ {s t : String}, s < t → bytes s < bytes t := by
    intro s t h
    rw [bytes_eq_flatMap, bytes_eq_flatMap]
    exact flatMap_utf8EncodeChar_lt h
  constructor
  · intro h
    rcases lt_trichotomy s t with hlt | rfl | hgt
    · exact hlt
    · exact absurd h (List.lt_irrefl _)
    · exact absurd h (List.lt_asymm (hmono hgt))
  · exact hmono

theorem bytes_le_iff (s t : String) : bytes s ≤ bytes t ↔ s ≤ t := by
  rw [← not_lt]
  exact not_congr (bytes_lt_iff t s)

end StyleZones.Text
