import Abacus.Text.Basic
import Mathlib

/-!
Properties of UTF-8 that texts rely on.

Bytes are ordered as the characters that they encode, so to sort strings by their bytes is to sort them by their code
points. And the bytes below U+0080 stand for themselves: none of them is part of another character.
-/

namespace Abacus.Text

variable {v w : Nat} {c d : Char} {xs ys : List UInt8}

theorem ofNat_cons_lt_iff (v_lt : v < 256) (w_lt : w < 256) :
    UInt8.ofNat v :: xs < UInt8.ofNat w :: ys ↔ v < w ∨ v = w ∧ xs < ys := by
  have v_byte : (UInt8.ofNat v).toNat = v := UInt8.toNat_ofNat_of_lt' v_lt
  have w_byte : (UInt8.ofNat w).toNat = w := UInt8.toNat_ofNat_of_lt' w_lt
  rw [List.cons_lt_cons_iff, UInt8.lt_iff_toNat_lt, ← UInt8.toNat_inj, v_byte, w_byte]

/-- The last digit in base 64 decides only between numbers that agree in all others. -/
theorem last_digit_lt (less : v < w) : v / 64 < w / 64 ∨ v / 64 = w / 64 ∧ v % 64 < w % 64 := by
  omega

/-- Numbers are ordered as their digits in base 64 are. -/
theorem digits_lt (less : v < w) :
    v / 262144 < w / 262144 ∨ v / 262144 = w / 262144 ∧ (v / 4096 % 64 < w / 4096 % 64 ∨
      v / 4096 % 64 = w / 4096 % 64 ∧ (v / 64 % 64 < w / 64 % 64 ∨ v / 64 % 64 = w / 64 % 64 ∧ v % 64 < w % 64)) := by
  have v_split : v / 262144 = v / 4096 / 64 ∧ v / 4096 = v / 64 / 64 := by omega
  have w_split : w / 262144 = w / 4096 / 64 ∧ w / 4096 = w / 64 / 64 := by omega
  rw [v_split.1, w_split.1, v_split.2, w_split.2]
  rcases last_digit_lt less with low | low
  · rcases last_digit_lt low with middle | middle
    · rcases last_digit_lt middle with high | high
      · exact .inl high
      · exact .inr ⟨high.1, .inl high.2⟩
    · exact .inr ⟨by rw [middle.1], .inr ⟨by rw [middle.1], .inl middle.2⟩⟩
  · exact .inr ⟨by rw [low.1], .inr ⟨by rw [low.1], .inr ⟨by rw [low.1], low.2⟩⟩⟩

/-- The bytes of a character come before those of a greater one, whatever follows. -/
theorem utf8EncodeChar_append_lt (less : c < d) (xs ys : List UInt8) :
    String.utf8EncodeChar c ++ xs < String.utf8EncodeChar d ++ ys := by
  have small : d.val.toNat < 0x110000 := by
    have valid : d.val.toNat < 0xd800 ∨ 0xdfff < d.val.toNat ∧ d.val.toNat < 0x110000 := d.valid
    omega
  have codes_less : c.val.toNat < d.val.toNat := less
  have digits := digits_lt codes_less
  unfold String.utf8EncodeChar
  generalize c.val.toNat = v, d.val.toNat = w at codes_less small digits
  have tops : v / 262144 % 8 = v / 262144 ∧ w / 262144 % 8 = w / 262144 := by omega
  -- if one has fewer bytes than the other, the first ones differ
  dsimp only
  split_ifs <;> simp (disch := omega) only [List.cons_append, ofNat_cons_lt_iff] <;> omega

theorem toBytes_cons_char (c : Char) (rest : List Char) :
    toBytes ((c :: rest).map .char) = String.utf8EncodeChar c ++ toBytes (rest.map .char) :=
  rfl

theorem toBytes_map_char_lt {chars others : List Char} (less : chars < others) :
    toBytes (chars.map .char) < toBytes (others.map .char) := by
  induction less with
  | @nil d others =>
    obtain ⟨byte, bytes, same⟩ := List.exists_cons_of_ne_nil (String.utf8EncodeChar_ne_nil (c := d))
    rw [toBytes_cons_char, same]
    exact List.nil_lt_cons byte _
  | rel less => exact utf8EncodeChar_append_lt less _ _
  | cons _ ih => exact List.append_left_lt ih

/-- Strings are ordered as their bytes are. -/
theorem toBytes_ofString_lt {a b : String} (less : a < b) : (ofString a).toBytes < (ofString b).toBytes :=
  toBytes_map_char_lt (String.lt_iff_toList_lt.mp less)

/-- A byte below U+0080 belongs to the character that it stands for, and to no other. -/
theorem mem_utf8EncodeChar_iff {b : UInt8} (ascii : b.toNat < 0x80) :
    b ∈ String.utf8EncodeChar c ↔ c.val.toNat = b.toNat := by
  have high : ∀ n, 0x80 ≤ n → n < 0x100 → b ≠ UInt8.ofNat n := by
    rintro n low below rfl
    rw [UInt8.toNat_ofNat_of_lt' below] at ascii
    omega
  unfold String.utf8EncodeChar
  generalize c.val.toNat = v
  dsimp only
  split_ifs with one two three
  · have single : (UInt8.ofNat v).toNat = v := UInt8.toNat_ofNat_of_lt' (show v < 256 by omega)
    rw [List.mem_singleton, ← UInt8.toNat_inj, single, eq_comm]
  all_goals
    simp (disch := omega) only [List.mem_cons, List.not_mem_nil, high, or_self, false_iff]
    omega

end Abacus.Text
