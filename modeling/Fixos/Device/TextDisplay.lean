import Fixos.Lib.Word
import Fixos.Device.MonoDisplay

/-! # Text on the display (`device/terminal/fx9860/print_primitives.c`, `text_display.c`)

The terminal is 32 characters wide and 10 high, with cells of 4 by 6 pixels; the four lines of
pixels below are not used.
-/

namespace Fixos.Device

open Pixels

def fx9860TermWidth : Nat := 32
def fx9860TermHeight : Nat := 10

def fx9860TermCursorChar : UInt8 := 177

/-- Five lines of three pixels for each character, and the cursor at the end. -/
def font3x5 : List (List (BitVec 8)) :=
  List.replicate 12 [0, 224, 160, 224, 0] ++ [0, 0, 32, 96, 224] :: List.replicate 19 [0, 224, 160, 224, 0] ++
    [[0, 0, 0, 0, 0],
    [64, 64, 64, 0, 64], [160, 160, 0, 0, 0], [96, 224, 160, 224, 192], [224, 192, 224, 96, 224],
    [160, 32, 64, 128, 160], [64, 160, 64, 160, 64], [96, 32, 64, 0, 0], [32, 64, 64, 64, 32],
    [128, 64, 64, 64, 128], [0, 160, 64, 160, 0], [0, 64, 224, 64, 0], [0, 0, 96, 32, 64], [0, 0, 224, 0, 0],
    [0, 0, 0, 192, 192], [32, 64, 64, 128, 128], [224, 160, 160, 160, 224], [64, 192, 64, 64, 224],
    [224, 32, 224, 128, 224], [224, 32, 224, 32, 224], [160, 160, 224, 32, 32], [224, 128, 224, 32, 224],
    [224, 128, 224, 160, 224], [224, 32, 32, 32, 32], [224, 160, 224, 160, 224], [224, 160, 224, 32, 224],
    [192, 192, 0, 192, 192], [192, 192, 0, 64, 128], [32, 64, 128, 64, 32], [0, 224, 0, 224, 0],
    [128, 64, 32, 64, 128], [192, 32, 64, 0, 64], [192, 32, 96, 160, 64], [64, 160, 224, 160, 160],
    [192, 160, 192, 160, 192], [96, 128, 128, 128, 96], [192, 160, 160, 160, 192], [224, 128, 224, 128, 224],
    [224, 128, 224, 128, 128], [96, 128, 160, 160, 96], [160, 160, 224, 160, 160], [224, 64, 64, 64, 224],
    [32, 32, 32, 160, 64], [160, 160, 192, 160, 160], [128, 128, 128, 128, 224], [160, 224, 160, 160, 160],
    [192, 160, 160, 160, 160], [64, 160, 160, 160, 64], [192, 160, 192, 128, 128], [64, 160, 160, 64, 32],
    [192, 160, 192, 160, 160], [96, 128, 64, 32, 192], [224, 64, 64, 64, 64], [160, 160, 160, 160, 224],
    [160, 160, 160, 160, 64], [160, 160, 160, 224, 64], [160, 160, 64, 160, 160], [160, 160, 64, 64, 64],
    [224, 32, 64, 128, 224], [96, 64, 64, 64, 96], [128, 128, 64, 64, 32], [96, 32, 32, 32, 96],
    [64, 160, 0, 0, 0], [0, 0, 0, 0, 224], [192, 128, 64, 0, 0], [64, 32, 96, 160, 96],
    [128, 224, 160, 160, 192], [0, 96, 128, 128, 96], [32, 224, 160, 160, 96], [64, 160, 224, 128, 224],
    [32, 64, 224, 64, 64], [96, 160, 96, 32, 192], [128, 192, 160, 160, 160], [64, 0, 64, 64, 64],
    [32, 0, 32, 160, 64], [128, 128, 160, 192, 160], [192, 64, 64, 64, 224], [0, 96, 160, 160, 160],
    [0, 64, 160, 160, 160], [0, 64, 160, 160, 64], [0, 192, 160, 192, 128], [0, 96, 160, 96, 32],
    [0, 160, 192, 128, 128], [0, 96, 128, 32, 192], [64, 96, 64, 64, 32], [0, 160, 160, 160, 96],
    [0, 160, 160, 160, 64], [0, 160, 160, 224, 224], [0, 160, 64, 160, 160], [0, 160, 160, 64, 128],
    [0, 224, 32, 128, 224], [96, 64, 192, 64, 96], [64, 64, 64, 64, 64], [192, 64, 96, 64, 192],
    [0, 192, 96, 0, 0], [0, 224, 160, 224, 0], [160, 64, 160, 64, 160]]

def termPrimMaskColor (color : Int) : BitVec 8 := if color = 1 then 0xFF else 0x00

def rawChar (c : UInt8) : List (BitVec 8) := font3x5.getD (if c < 128 then c.toNat else 128) []

def charBmp (frontC backC : Int) (c : UInt8) (j : Nat) : BitVec 8 :=
  let bits := if j < 5 then (rawChar c).getD j 0 else 0x00
  (termPrimMaskColor frontC &&& bits) ||| (termPrimMaskColor backC &&& ~~~bits)

/-- A `char` is signed: the characters above 127 are not drawn, but for the cursor. -/
def termPrimWriteCharacter (posx posy : Nat) (frontC backC : Int) (c : UInt8) (vram : Vram) : Vram :=
  let x := Word.signed (posx * 4 % 2 ^ 32)
  let y := Word.signed (posy * 6 % 2 ^ 32)
  if (c < 128 ∨ c = fx9860TermCursorChar) ∧ -3 < x ∧ x < 128 ∧ -5 < y ∧ y < 64 then
    dispMonoDrawBitmap x y (charBmp frontC backC c) 4 6 vram
  else vram

def storedLine (vram : Vram) (x y : Nat) : BitVec 8 :=
  (List.range 4).foldl
    (fun curline i => curline ||| ((if dispMonoGetPixel (x + i) y vram then 1#8 else 0#8) <<< i)) 0x00

def termPrimStoreCharacter (posx posy : Nat) (vram : Vram) : Nat → BitVec 8 :=
  fun j => storedLine vram (posx * 4) (posy * 6 + j)

def termPrimRestoreCharacter (posx posy : Nat) (stored : Nat → BitVec 8) (vram : Vram) : Vram :=
  dispMonoDrawBitmap ↑(posx * 4) ↑(posy * 6) stored 4 6 vram

def termPrimScrollUp (vram : Vram) (backC : Int) : Vram :=
  let vram := (List.range (4 * (64 - 10))).foldl (fun vram i => copyWord vram i (i + 4 * 6)) vram
  (List.range' (4 * (64 - 10)) (4 * 6)).foldl (fun vram i => fillWord vram (termPrimMaskColor backC) i) vram

inductive TextCursor where
  | disable
  | normal
deriving DecidableEq

structure Tdisp where
  front : Int
  back : Int
  cursx : Nat
  cursy : Nat
  cursor : TextCursor
  vram : Vram

def fx9860TdispInitDisp : Tdisp where
  front := 1
  back := 0
  cursx := 0
  cursy := 0
  cursor := .normal
  vram := fun _ => 0

def fx9860TdispPrintChar (disp : Tdisp) (posx posy : Nat) (c : UInt8) : Tdisp :=
  { disp with vram := termPrimWriteCharacter posx posy disp.front disp.back c disp.vram }

def fx9860TdispScroll (disp : Tdisp) : Tdisp := { disp with vram := termPrimScrollUp disp.vram disp.back }

def fx9860TdispSetCursorPos (disp : Tdisp) (posx posy : Nat) : Tdisp := { disp with cursx := posx, cursy := posy }

def fx9860TdispClear (disp : Tdisp) : Tdisp := { disp with vram := fun _ => if disp.back ≠ 0 then 0xFF else 0x00 }

def Tdisp.ShowsCursor (disp : Tdisp) : Prop :=
  disp.cursor ≠ .disable ∧ disp.cursx < fx9860TermWidth ∧ disp.cursy < fx9860TermHeight
deriving Decidable

def fx9860TdispFlush (disp : Tdisp) : Tdisp × Vram :=
  if disp.ShowsCursor then
    let stored := termPrimStoreCharacter disp.cursx disp.cursy disp.vram
    let shown := termPrimWriteCharacter disp.cursx disp.cursy 1 0 fx9860TermCursorChar disp.vram
    ({ disp with vram := termPrimRestoreCharacter disp.cursx disp.cursy stored shown }, shown)
  else (disp, disp.vram)

variable {posx posy X Y : Nat} {frontC backC : Int} {c : UInt8}

def glyph (frontC backC : Int) (c : UInt8) (i j : Nat) : Bool :=
  if j < 5 ∧ ((rawChar c).getD j 0).getMsbD i = true then frontC = 1 else backC = 1

lemma getMsbD_maskColor (color : Int) {i : Nat} (hi : i < 8) :
    (termPrimMaskColor color).getMsbD i = decide (color = 1) := by
  unfold termPrimMaskColor
  split
  · rw [show (0xFF : BitVec 8) = BitVec.allOnes 8 from rfl, BitVec.getMsbD_allOnes]
    simp_all
  · simp_all

lemma getMsbD_charBmp (frontC backC : Int) (c : UInt8) {i : Nat} (hi : i < 8) (j : Nat) :
    (charBmp frontC backC c j).getMsbD i = glyph frontC backC c i j := by
  unfold charBmp glyph
  rw [BitVec.getMsbD_or, BitVec.getMsbD_and, BitVec.getMsbD_and, BitVec.getMsbD_not, getMsbD_maskColor frontC hi,
    getMsbD_maskColor backC hi]
  split
  · rename_i hj
    cases ((rawChar c).getD j 0).getMsbD i <;> simp [hi, hj]
  · rename_i hj
    simp [hi, hj]

section

variable (hx : posx < fx9860TermWidth) (hy : posy < fx9860TermHeight)
include hx hy

lemma pixel_drawCell (bitmap : Nat → BitVec 8) (vram : Vram) (hX : X < 128) :
    pixel 16 (dispMonoDrawBitmap ↑(posx * 4) ↑(posy * 6) bitmap 4 6 vram) X Y =
      if X / 4 = posx ∧ Y / 6 = posy then (bitmap (Y % 6)).getMsbD (X % 4) else pixel 16 vram X Y := by
  rw [fx9860TermWidth] at hx
  rw [fx9860TermHeight] at hy
  rw [pixel_drawBitmap (by omega) (by omega) (by omega) (by omega) (by omega) bitmap vram hX]
  by_cases hCell : X / 4 = posx ∧ Y / 6 = posy
  · rw [if_pos hCell, if_pos (by omega), show X - posx * 4 = X % 4 by omega, show Y - posy * 6 = Y % 6 by omega]
  · rw [if_neg hCell, if_neg (by omega)]

section

variable (hc : c < 128 ∨ c = fx9860TermCursorChar) (vram : Vram)
include hc vram

lemma writeCharacter_eq : termPrimWriteCharacter posx posy frontC backC c vram =
      dispMonoDrawBitmap ↑(posx * 4) ↑(posy * 6) (charBmp frontC backC c) 4 6 vram := by
  rw [fx9860TermWidth] at hx
  rw [fx9860TermHeight] at hy
  have hSmall (k : Nat) (hk : k < 1000) : Word.signed (k % 2 ^ 32) = k := by
    rw [Nat.mod_eq_of_lt (by omega), Word.signed_of_lt (by omega)]
  unfold termPrimWriteCharacter
  rw [hSmall (posx * 4) (by omega), hSmall (posy * 6) (by omega), if_pos ⟨hc, by omega⟩]

lemma pixel_writeCharacter (hX : X < 128) : pixel 16 (termPrimWriteCharacter posx posy frontC backC c vram) X Y =
      if X / 4 = posx ∧ Y / 6 = posy then glyph frontC backC c (X % 4) (Y % 6) else pixel 16 vram X Y := by
  rw [writeCharacter_eq hx hy hc, pixel_drawCell hx hy _ _ hX, getMsbD_charBmp _ _ _ (by omega)]

end

end

lemma pixel_scrollUp (vram : Vram) (backC : Int) (hX : X < 128) : pixel 16 (termPrimScrollUp vram backC) X Y =
      if Y < 54 then pixel 16 vram X (Y + 6) else if Y < 60 then decide (backC = 1) else pixel 16 vram X Y := by
  have hBit : X % 8 < 8 := Nat.mod_lt X (by decide)
  unfold pixel termPrimScrollUp
  rw [foldl_fillWord, foldl_copyWord 23]
  rcases Nat.lt_or_ge Y 54 with hTop | hRest
  · rw [if_pos hTop, if_neg (by omega), if_pos (by omega)]
    congr 2
    omega
  · rw [if_neg (Nat.not_lt.mpr hRest)]
    rcases Nat.lt_or_ge Y 60 with hLast | hBelow
    · rw [if_pos hLast, if_pos (by omega), getMsbD_maskColor backC hBit]
    · rw [if_neg (Nat.not_lt.mpr hBelow), if_neg (by omega), if_neg (by omega)]

end Fixos.Device
