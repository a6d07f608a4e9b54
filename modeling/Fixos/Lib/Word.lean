import Mathlib.Algebra.Ring.Int.Defs
import Mathlib.Algebra.Ring.Nat

/-! # Arithmetic of 32-bit machine words

Unsigned words are natural numbers and every operation that can overflow is
reduced modulo `2 ^ 32` where the machine reduces it.
-/

abbrev Bytes := List UInt8

namespace Word

def add (a b : Nat) : Nat := (a + b) % 2 ^ 32

def sub (a b : Nat) : Nat := (a + (2 ^ 32 - b % 2 ^ 32)) % 2 ^ 32

def signed (a : Nat) : Int := if a < 2 ^ 31 then a else (a : Int) - 2 ^ 32

lemma signed_of_lt {a : Nat} (h : a < 2 ^ 31) : signed a = a := if_pos h

lemma signed_lt_signed {a b : Nat} (ha : a < 2 ^ 31) (hb : b < 2 ^ 31) : signed a < signed b ↔ a < b := by
  rw [signed_of_lt ha, signed_of_lt hb, Int.ofNat_lt]

lemma not_signed_lt {a b : Nat} (ha : a < 2 ^ 31) (hb : 2 ^ 31 ≤ b) (hLt : b < 2 ^ 32) : ¬ signed a < signed b := by
  rw [signed_of_lt ha, signed, if_neg (Nat.not_lt.mpr hb)]
  omega

lemma add_of_lt {a b : Nat} (h : a + b < 2 ^ 32) : add a b = a + b := Nat.mod_eq_of_lt h

lemma sub_of_le {a b : Nat} (hLe : b ≤ a) (hLt : a < 2 ^ 32) : sub a b = a - b := by
  unfold sub
  omega

lemma mod_eq_wrap {i m : Nat} (h : i < 2 * m) : i % m = if i < m then i else i - m := by
  split
  · exact Nat.mod_eq_of_lt ‹_›
  · rw [Nat.mod_eq_sub_mod (by omega), Nat.mod_eq_of_lt (by omega)]

end Word
