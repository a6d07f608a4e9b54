import Mathlib.Algebra.Ring.Nat

/-! # Words in a memory of bytes

A memory gives a byte for every address. A word is four bytes, the highest first, and
a store leaves every byte outside of its word alone.
-/

namespace Bytes

open List

abbrev ByteMemory := Nat → UInt8

def loadWord (m : ByteMemory) (a : Nat) : Nat :=
  (m a).toNat * 2 ^ 24 + (m (a + 1)).toNat * 2 ^ 16 + (m (a + 2)).toNat * 2 ^ 8 + (m (a + 3)).toNat

def storeWord (m : ByteMemory) (a v : Nat) : ByteMemory := fun i =>
  if a ≤ i ∧ i < a + 4 then .ofNat (v / 2 ^ (8 * (3 - (i - a)))) else m i

def storeByte (m : ByteMemory) (a : Nat) (v : UInt8) : ByteMemory := fun i => if i = a then v else m i

def storeBytes (m : ByteMemory) (a : Nat) (bytes : List UInt8) : ByteMemory := fun i =>
  if a ≤ i ∧ i < a + bytes.length then bytes.getD (i - a) 0 else m i

def loadBytes (m : ByteMemory) (a n : Nat) : List UInt8 := (range n).map fun i => m (a + i)

variable {m m' : ByteMemory} {a b v : Nat}

lemma loadWord_congr (h : ∀ i, a ≤ i → i < a + 4 → m' i = m i) : loadWord m' a = loadWord m a := by
  unfold loadWord
  rw [h a (by omega) (by omega), h (a + 1) (by omega) (by omega), h (a + 2) (by omega) (by omega),
    h (a + 3) (by omega) (by omega)]

lemma loadWord_lt : loadWord m a < 2 ^ 32 := by
  have h0 := (m a).toNat_lt
  have h1 := (m (a + 1)).toNat_lt
  have h2 := (m (a + 2)).toNat_lt
  have h3 := (m (a + 3)).toNat_lt
  unfold loadWord
  omega

variable {i : Nat}

lemma storeWord_of_out (h : i < a ∨ a + 4 ≤ i) : storeWord m a v i = m i := if_neg (by omega)

variable {byte : UInt8}

lemma storeByte_of_ne (h : i ≠ a) : storeByte m a byte i = m i := if_neg h

variable {bytes : List UInt8}

lemma storeBytes_of_in (hLow : a ≤ i) (hHigh : i < a + bytes.length) : storeBytes m a bytes i = bytes.getD (i - a) 0 :=
  if_pos ⟨hLow, hHigh⟩

lemma storeBytes_of_out (h : i < a ∨ a + bytes.length ≤ i) : storeBytes m a bytes i = m i := if_neg (by omega)

lemma loadWord_storeWord (h : v < 2 ^ 32) : loadWord (storeWord m a v) a = v := by
  have hByte : ∀ k < 4, (storeWord m a v (a + k)).toNat = v / 2 ^ (8 * (3 - k)) % 256 := by
    intro k _
    rw [storeWord, if_pos (by omega), Nat.add_sub_cancel_left, UInt8.toNat_ofNat']
  have hFirst := hByte 0 (by omega)
  rw [Nat.add_zero] at hFirst
  rw [loadWord, hFirst, hByte 1 (by omega), hByte 2 (by omega), hByte 3 (by omega)]
  simp only [Nat.sub_zero, Nat.reduceSub, Nat.reduceMul, Nat.reducePow, Nat.sub_self, Nat.mul_zero, Nat.pow_zero]
  omega

lemma loadWord_storeWord_of_out (h : b + 4 ≤ a ∨ a + 4 ≤ b) : loadWord (storeWord m a v) b = loadWord m b :=
  loadWord_congr fun i hLow hHigh => storeWord_of_out (by omega)

lemma loadWord_storeByte_of_out (h : a < b ∨ b + 4 ≤ a) : loadWord (storeByte m a byte) b = loadWord m b :=
  loadWord_congr fun i hLow hHigh => storeByte_of_ne (by omega)

lemma loadBytes_congr {n : Nat} (h : ∀ i, a ≤ i → i < a + n → m' i = m i) : loadBytes m' a n = loadBytes m a n :=
  map_congr_left fun i hi => h (a + i) (Nat.le_add_right a i) (Nat.add_lt_add_left (mem_range.mp hi) a)

lemma loadBytes_storeBytes : loadBytes (storeBytes m a bytes) a bytes.length = bytes := by
  apply ext_getElem
  · rw [loadBytes, length_map, length_range]
  · intro i _ hi
    simp only [loadBytes, getElem_map, getElem_range]
    rw [storeBytes_of_in (Nat.le_add_right a i) (Nat.add_lt_add_left hi a), Nat.add_sub_cancel_left,
      getD_eq_getElem?_getD, getElem?_eq_getElem hi, Option.getD_some]

end Bytes
