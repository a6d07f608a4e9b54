import Fixos.Device.MonoDisplay

/-! # Single pixels (`device/display/T6K11/setpixel.s`)

The assembly routine has the leftmost pixel of a byte in its most significant bit, as the bitmaps have.
-/

namespace Fixos.Device

open Pixels Function

/-- The color is 0 for white, 1 for black and 2 to invert. -/
def dispMonoSetPixel (x y : Int) (color : BitVec 32) (vram : Vram) : Vram :=
  if 0 ≤ x ∧ 0 ≤ y ∧ y ≤ 63 ∧ x ≤ 127 then
    let offset := y.toNat * 16 + x.toNat / 8
    let bit := 1#8 <<< (7 - x.toNat % 8)
    if color = 0 then update vram offset (vram offset &&& ~~~bit)
    else if color = 1 then update vram offset (vram offset ||| bit)
    else if color = 2 then update vram offset (vram offset ^^^ bit)
    else vram
  else vram

def painted (color : BitVec 32) (old : Bool) : Bool :=
  if color = 0 then false else if color = 1 then true else if color = 2 then !old else old

/-- The column that is read where `x` is written. -/
def mirrored (x : Nat) : Nat := x / 8 * 8 + (7 - x % 8)

lemma getLsbD_bit {i j : Nat} (hi : i < 8) : (1#8 <<< (7 - j % 8)).getLsbD i = decide (i = 7 - j % 8) := by
  rw [BitVec.getLsbD_shiftLeft, BitVec.getLsbD_one, Bool.eq_iff_iff]
  simp only [Bool.and_eq_true, Bool.not_eq_true', decide_eq_true_eq, decide_eq_false_iff_not]
  omega

lemma getPixel_setPixel {x y X Y : Nat} (hx : x < 128) (hy : y < 64) (hX : X < 128) (color : BitVec 32)
    (vram : Vram) : dispMonoGetPixel X Y (dispMonoSetPixel x y color vram) =
      if X = mirrored x ∧ Y = y then painted color (dispMonoGetPixel X Y vram) else dispMonoGetPixel X Y vram := by
  have hBit : X % 8 < 8 := Nat.mod_lt X (by decide)
  have hPlace : X = mirrored x ↔ X / 8 = x / 8 ∧ X % 8 = 7 - x % 8 := by
    unfold mirrored
    omega
  have hOffset : Y * 16 + X / 8 = y * 16 + x / 8 ↔ Y = y ∧ X / 8 = x / 8 := by
    omega
  unfold dispMonoSetPixel dispMonoGetPixel painted
  rw [if_pos (by omega), Int.toNat_natCast, Int.toNat_natCast]
  by_cases hByte : Y = y ∧ X / 8 = x / 8
  · rw [hOffset.mpr hByte]
    simp only [hPlace, hByte]
    split_ifs <;> simp only [update_self, BitVec.getLsbD_and, BitVec.getLsbD_not, BitVec.getLsbD_or, BitVec.getLsbD_xor,
      getLsbD_bit hBit] <;> simp_all
  · have hOther : ¬ (X = mirrored x ∧ Y = y) := fun hEq => hByte ⟨hEq.2, (hPlace.mp hEq.1).1⟩
    rw [if_neg hOther]
    split_ifs <;> simp only [update_of_ne (mt hOffset.mp hByte)]

/-- The color written is read back, and nothing else changes, exactly if it was there already, and also where the pixel
is really written. Off the screen nothing changes. -/
theorem set_pixel_read_back_iff (vram : Vram) (color : BitVec 32) : (∀ (x : Fin 128) (y : Fin 64),
      (dispMonoGetPixel x y (dispMonoSetPixel x y color vram) = painted color (dispMonoGetPixel x y vram) ∧
        ∀ (X : Fin 128) (Y : Fin 64), (X, Y) ≠ (x, y) →
          dispMonoGetPixel X Y (dispMonoSetPixel x y color vram) = dispMonoGetPixel X Y vram) ↔
      painted color (dispMonoGetPixel x y vram) = dispMonoGetPixel x y vram ∧
        painted color (dispMonoGetPixel (mirrored x) y vram) = dispMonoGetPixel (mirrored x) y vram) ∧
    ∀ x y : Int, ¬ (0 ≤ x ∧ x < 128 ∧ 0 ≤ y ∧ y < 64) → dispMonoSetPixel x y color vram = vram := by
  constructor
  · intro x y
    have hSelf : (x : Nat) ≠ mirrored x := by
      unfold mirrored
      omega
    have hMirror : mirrored x < 128 := by
      unfold mirrored
      omega
    have hGet (X : Fin 128) (Y : Fin 64) := getPixel_setPixel x.isLt y.isLt (Y := Y) X.isLt color vram
    rw [hGet x y, if_neg fun hEq => hSelf hEq.1]
    refine and_congr eq_comm ⟨fun h => ?_, fun h X Y hNe => ?_⟩
    · have hThere := h ⟨mirrored x, hMirror⟩ y fun hEq => hSelf (congrArg (fun p => p.1.val) hEq).symm
      rwa [hGet, if_pos ⟨rfl, rfl⟩] at hThere
    · rw [hGet]
      split_ifs with hHere
      · rw [hHere.1, hHere.2, h]
      · rfl
  · intro x y _
    rw [dispMonoSetPixel, if_neg (by omega)]

/-- A black pixel at the top left corner of a white screen is read seven columns further on. -/
theorem set_pixel_read_mirrored : dispMonoGetPixel 0 0 (dispMonoSetPixel 0 0 1 fun _ => 0) = false ∧
    dispMonoGetPixel 7 0 (dispMonoSetPixel 0 0 1 fun _ => 0) = true := by decide

end Fixos.Device
