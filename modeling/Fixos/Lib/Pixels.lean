import Mathlib.Algebra.Ring.Nat
import Mathlib.Logic.Function.Basic

/-! # Monochrome images in memory

A line takes `stride` bytes and the leftmost pixel of a byte is its most significant bit.
-/

namespace Pixels

open Function List

abbrev Raster := Nat → BitVec 8

def pixel (stride : Nat) (m : Raster) (x y : Nat) : Bool := (m (y * stride + x / 8)).getMsbD (x % 8)

def blend {w : Nat} (mask old new : BitVec w) : BitVec w := (old &&& ~~~mask) ||| (new &&& mask)

@[simp] lemma getMsbD_blend {w : Nat} (mask old new : BitVec w) (i : Nat) :
    (blend mask old new).getMsbD i = if mask.getMsbD i then new.getMsbD i else old.getMsbD i := by
  rw [blend, BitVec.getMsbD_or, BitVec.getMsbD_and, BitVec.getMsbD_and, BitVec.getMsbD_not]
  rcases Nat.lt_or_ge i w with hi | hi
  · cases mask.getMsbD i <;> simp [hi]
  · simp [BitVec.getMsbD, Nat.not_lt.mpr hi]

lemma getMsbD_mask {shift w i : Nat} (hFits : shift + w ≤ 8) (hi : i < 8) :
    ((0xFF#8 <<< (8 - (shift + w))) &&& (0xFF#8 >>> shift)).getMsbD i = decide (shift ≤ i ∧ i < shift + w) := by
  rw [show 0xFF#8 = BitVec.allOnes 8 from rfl, BitVec.getMsbD_and, BitVec.getMsbD_shiftLeft,
    BitVec.getMsbD_ushiftRight, BitVec.getMsbD_allOnes, BitVec.getMsbD_allOnes, Bool.eq_iff_iff]
  simp only [Bool.and_eq_true, Bool.not_eq_true', decide_eq_true_eq, decide_eq_false_iff_not]
  omega

section

variable {stride start : Nat} {line : Nat → BitVec 8 → BitVec 8}

def rows (stride start : Nat) (line : Nat → BitVec 8 → BitVec 8) (h : Nat) (m : Raster) : Raster :=
  (range h).foldl (fun m i => update m (start + stride * i) (line i (m (start + stride * i)))) m

lemma rows_succ (h : Nat) (m : Raster) : rows stride start line (h + 1) m =
    update (rows stride start line h m) (start + stride * h)
      (line h (rows stride start line h m (start + stride * h))) := by
  rw [rows, range_succ, foldl_append]
  rfl

lemma rows_of_ne (h : Nat) (m : Raster) {off : Nat} (hOff : ∀ i < h, off ≠ start + stride * i) :
    rows stride start line h m off = m off := by
  induction h with
  | zero => rfl
  | succ h ih =>
    rw [rows_succ, update_of_ne (hOff h h.lt_succ_self), ih fun i hi => hOff i (Nat.lt_succ_of_lt hi)]

lemma rows_hit (hStride : 0 < stride) {h i : Nat} (hi : i < h) (m : Raster) :
    rows stride start line h m (start + stride * i) = line i (m (start + stride * i)) := by
  induction h with
  | zero => exact absurd hi (Nat.not_lt_zero i)
  | succ h ih =>
    rw [rows_succ]
    rcases Nat.lt_succ_iff_lt_or_eq.mp hi with hEarlier | rfl
    · have hNe : start + stride * i ≠ start + stride * h := by
        have := Nat.mul_lt_mul_of_pos_left hEarlier hStride
        omega
      rw [update_of_ne hNe, ih hEarlier]
    · rw [update_self, rows_of_ne]
      intro j hj
      have := Nat.mul_lt_mul_of_pos_left hj hStride
      omega

lemma offset_inj {y y' k k' : Nat} (hk : k < stride) (hk' : k' < stride) (h : y * stride + k = y' * stride + k') :
    y = y' ∧ k = k' := by
  have hStride : 0 < stride := Nat.zero_lt_of_lt hk
  have hDiv := congrArg (· / stride) h
  have hMod := congrArg (· % stride) h
  simp only [Nat.mul_comm _ stride, Nat.mul_add_div hStride, Nat.div_eq_of_lt hk, Nat.div_eq_of_lt hk', Nat.add_zero,
    Nat.mul_add_mod, Nat.mod_eq_of_lt hk, Nat.mod_eq_of_lt hk'] at hDiv hMod
  exact ⟨hDiv, hMod⟩

lemma pixel_rows {k x y y₀ : Nat} (hk : k < stride) (hx : x / 8 < stride) (h : Nat) (m : Raster) :
    pixel stride (rows stride (y₀ * stride + k) line h m) x y =
      if y₀ ≤ y ∧ y < y₀ + h ∧ x / 8 = k then (line (y - y₀) (m (y * stride + k))).getMsbD (x % 8)
      else pixel stride m x y := by
  unfold pixel
  split_ifs with hIn
  · obtain ⟨hLow, _, hByte⟩ := hIn
    have hOff : y * stride + x / 8 = y₀ * stride + k + stride * (y - y₀) := by
      obtain ⟨d, rfl⟩ := Nat.exists_eq_add_of_le hLow
      rw [hByte, Nat.add_sub_cancel_left, Nat.add_mul, Nat.mul_comm d]
      omega
    rw [hOff, rows_hit (Nat.zero_lt_of_lt hk) (by omega), ← hOff, hByte]
  · rw [rows_of_ne]
    intro i _ hEq
    rw [Nat.add_right_comm, Nat.mul_comm stride, ← Nat.add_mul] at hEq
    obtain ⟨_, hByte⟩ := offset_inj hx hk hEq
    omega

lemma raster_ext (hStride : 0 < stride) {m m' : Raster}
    (h : ∀ x < 8 * stride, ∀ y, pixel stride m x y = pixel stride m' x y) : m = m' := by
  funext off
  refine BitVec.eq_of_getMsbD_eq fun i hi => ?_
  have hByte : off % stride < stride := Nat.mod_lt off hStride
  have hPixel := h (8 * (off % stride) + i) (by omega) (off / stride)
  have hOff : off / stride * stride + (8 * (off % stride) + i) / 8 = off := by
    rw [Nat.mul_add_div (by decide), Nat.div_eq_of_lt hi, Nat.add_zero, Nat.div_add_mod']
  rwa [pixel, pixel, hOff, Nat.mul_add_mod, Nat.mod_eq_of_lt hi] at hPixel

end

def copyWord (m : Raster) (i j : Nat) : Raster := fun off => if off / 4 = i then m (4 * j + off % 4) else m off

def fillWord (m : Raster) (b : BitVec 8) (i : Nat) : Raster := fun off => if off / 4 = i then b else m off

lemma foldl_copyWord (k n : Nat) (m : Raster) (off : Nat) : (range n).foldl (fun m i => copyWord m i (i + (k + 1))) m off =
      if off / 4 < n then m (off + 4 * (k + 1)) else m off := by
  induction n generalizing off with
  | zero => rfl
  | succ n ih =>
    rw [range_succ, foldl_append, foldl_cons, foldl_nil, copyWord, ih, ih]
    split
    · rw [if_neg (by omega), if_pos (by omega)]
      congr 1
      omega
    · split
      · rw [if_pos (by omega)]
      · rw [if_neg (by omega)]

lemma foldl_fillWord (b : BitVec 8) (start n : Nat) (m : Raster) (off : Nat) :
    (range' start n).foldl (fun m i => fillWord m b i) m off =
      if start ≤ off / 4 ∧ off / 4 < start + n then b else m off := by
  induction n with
  | zero =>
    rw [if_neg (by omega)]
    rfl
  | succ n ih =>
    rw [range'_concat, foldl_append, foldl_cons, foldl_nil, fillWord, ih]
    split
    · rw [if_pos (by omega)]
    · split
      · rw [if_pos (by omega)]
      · rw [if_neg (by omega)]

end Pixels
