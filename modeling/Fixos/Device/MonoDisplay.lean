import Fixos.Lib.Pixels

/-! # The monochrome display (`device/display/T6K11/T6K11.c`)

Bitmaps are drawn with the leftmost pixel in the most significant bit, whereas `disp_mono_get_pixel` counts the bits of
a byte from the other end.
-/

namespace Fixos.Device

open Pixels Function

abbrev Vram := Raster

def dispMonoGetPixel (x y : Nat) (vram : Vram) : Bool := (vram (y * 16 + x / 8)).getLsbD (x % 8)

def drawLines (h start : Nat) (line : Nat → Nat → Vram → Vram) (vram : Vram) : Vram :=
  (List.range h).foldl (fun vram i => line i (start + 16 * i) vram) vram

def dispMonoDrawBitmap (x y : Int) (bitmap : Nat → BitVec 8) (w h : Nat) (vram : Vram) : Vram :=
  -- no clipping, only check of limits
  if 0 ≤ x ∧ 0 ≤ y ∧ x + w ≤ 128 ∧ y + h ≤ 64 then
    let shift := x.toNat % 8
    let start := y.toNat * 16 + x.toNat / 8
    if w = 8 ∧ shift = 0 then
      drawLines h start (fun i start vram => update vram start (bitmap i)) vram
    else if w < 8 ∧ shift + w ≤ 8 then
      let mask := (0xFF#8 <<< (8 - (shift + w))) &&& (0xFF#8 >>> shift)
      drawLines h start (fun i start vram =>
        update vram start (blend mask (vram start) (bitmap i >>> shift))) vram
    else
      let lMask := 0xFF#8 >>> shift
      let rMask := 0xFF#8 <<< (8 - (shift + w) % 8)
      let endShift := (x.toNat + w) % 8
      if w ≤ 8 then
        drawLines h start (fun i start vram =>
          let vram := update vram start
            ((vram start &&& ~~~lMask) ||| ((bitmap i >>> shift) &&& ~~~lMask))
          update vram (start + 1)
            ((vram (start + 1) &&& ~~~rMask) ||| ((bitmap i <<< endShift) &&& ~~~rMask))) vram
      else
        let lineLen := (w - 1) / 8 + 1
        if shift = 0 then
          let nbFull := w / 8
          drawLines h start (fun i start vram =>
            let pos := i * lineLen
            let vram := (List.range nbFull).foldl
              (fun vram offset => update vram (start + offset) (bitmap (pos + offset))) vram
            if endShift ≠ 0 then
              update vram (start + nbFull) ((vram (start + nbFull) &&& ~~~rMask) |||
                ((bitmap (pos + nbFull) <<< endShift) &&& ~~~rMask))
            else vram) vram
        else
          -- each byte needs two shifts before it is copied
          let nbFull := (w - shift) / 8
          drawLines h start (fun i start vram =>
            let pos := i * lineLen
            let vram := update vram start
              ((vram start &&& ~~~lMask) ||| ((bitmap pos >>> shift) &&& ~~~lMask))
            let vram := (List.range' 1 nbFull).foldl
              (fun vram offset => update vram (start + offset)
                ((bitmap (pos + offset - 1) <<< (8 - shift)) ||| (bitmap (pos + offset) >>> shift))) vram
            if endShift ≠ 0 then
              update vram (start + (nbFull + 1)) ((vram (start + (nbFull + 1)) &&& ~~~rMask) |||
                ((bitmap (pos + lineLen - 1) <<< endShift) &&& ~~~rMask))
            else vram) vram
  else vram

lemma pixel_drawBitmap {x y w h : Nat} (hPos : 0 < w) (hw : w < 8) (hFits : x % 8 + w ≤ 8) (hRight : x + w ≤ 128)
    (hBottom : y + h ≤ 64) (bitmap : Nat → BitVec 8) (vram : Vram) {X Y : Nat} (hX : X < 128) :
    pixel 16 (dispMonoDrawBitmap x y bitmap w h vram) X Y =
      if x ≤ X ∧ X < x + w ∧ y ≤ Y ∧ Y < y + h then (bitmap (Y - y)).getMsbD (X - x) else pixel 16 vram X Y := by
  have hMasked : dispMonoDrawBitmap x y bitmap w h vram = rows 16 (y * 16 + x / 8) (fun i b =>
      blend ((0xFF#8 <<< (8 - (x % 8 + w))) &&& (0xFF#8 >>> (x % 8))) b (bitmap i >>> (x % 8))) h vram := by
    unfold dispMonoDrawBitmap
    rw [if_pos (by omega), Int.toNat_natCast, Int.toNat_natCast]
    rw [if_neg (by omega), if_pos ⟨hw, hFits⟩]
    rfl
  rw [hMasked, pixel_rows (by omega) (by omega), getMsbD_blend, getMsbD_mask hFits (Nat.mod_lt X (by decide)),
    BitVec.getMsbD_ushiftRight]
  by_cases hIn : x ≤ X ∧ X < x + w ∧ y ≤ Y ∧ Y < y + h
  · have hBit : X % 8 - x % 8 = X - x := by omega
    have hKept : ¬ X % 8 < x % 8 := by omega
    rw [if_pos hIn, if_pos (by omega), if_pos (by simp only [decide_eq_true_eq]; omega), hBit]
    simp [hKept, Nat.mod_lt X]
  · rw [if_neg hIn]
    split
    · rename_i hLine
      rw [if_neg (by simp only [decide_eq_true_eq]; omega), ← hLine.2.2]
      rfl
    · rfl

end Fixos.Device
