import Fixos.Arch.Eeprom
import Mathlib.Data.Set.Operations

/-! # The contents of the flash memory

A word that is programmed becomes the conjunction of the old word and the new one.
-/

namespace Fixos.Arch

open Function List

def FlashOp.apply (mem : Nat → BitVec 16) : FlashOp → Nat → BitVec 16
  | .program addr data => update mem (addr / 2) (mem (addr / 2) &&& data)
  | .eraseSector addr => fun i => if 2 * i / 0x10000 = addr / 0x10000 then 0xFFFF else mem i

def flashContents (mem : Nat → BitVec 16) (ws : List BusWrite) : Nat → BitVec 16 :=
  (flashRun .read ws).2.foldl FlashOp.apply mem

/-- The first byte of a word is the high one. -/
def byteAt (mem : Nat → BitVec 16) (a : Nat) : BitVec 8 := (mem (a / 2)).extractLsb' (if a % 2 = 0 then 8 else 0) 8

section

variable {mem : Nat → BitVec 16}

lemma half_wordOf (high low : UInt8) :
    (wordOf high low).extractLsb' 8 8 = high.toBitVec ∧ (wordOf high low).extractLsb' 0 8 = low.toBitVec := by
  unfold wordOf
  constructor
  · rw [BitVec.extractLsb'_append_eq_of_le (by decide)]
    exact BitVec.extractLsb'_eq_self
  · rw [BitVec.extractLsb'_append_eq_of_add_le (by decide)]
    exact BitVec.extractLsb'_eq_self

lemma byteAt_program (addr : Nat) (high low : UInt8) (a : Nat) :
    byteAt (FlashOp.apply mem (.program addr (wordOf high low))) a =
      if a / 2 = addr / 2 then byteAt mem a &&& (if a % 2 = 0 then high else low).toBitVec else byteAt mem a := by
  unfold byteAt
  rw [FlashOp.apply, update_apply]
  split_ifs with hWord hHigh <;> simp_all only [BitVec.extractLsb'_and, half_wordOf]

lemma byteAt_programBytes (data : Nat → UInt8) {maskedlow pos size : Nat} (hEven : maskedlow % 2 = 0)
    (hEnd : maskedlow + size < 2 ^ 32) (a : Nat) :
    byteAt ((flashRun .bypass (programBytes data maskedlow pos size)).2.foldl FlashOp.apply mem) a =
      if maskedlow ≤ a ∧ a < maskedlow + size then byteAt mem a &&& (data (pos + (a - maskedlow))).toBitVec
      else byteAt mem a := by
  fun_induction programBytes data maskedlow pos size generalizing mem with
  | case1 => rw [if_neg (by omega)]; rfl
  | case2 maskedlow pos =>
    rw [flashRun_bypassProgram, foldl_cons, flashRun, foldl_nil, byteAt_program]
    split_ifs with hWord hFirst hIn
    · obtain rfl : a = maskedlow := by omega
      rw [Nat.sub_self, Nat.add_zero]
    · omega
    · omega
    · exact BitVec.and_allOnes
    · omega
    · rfl
  | case3 maskedlow pos size ih =>
    rw [Word.add_of_lt (by omega)] at ih ⊢
    rw [flashRun_bypassProgram, foldl_cons, ih (by omega) (by omega), byteAt_program]
    obtain rfl | rfl | hWord : a = maskedlow ∨ a = maskedlow + 1 ∨ a / 2 ≠ maskedlow / 2 := by omega
    · rw [if_neg (by omega), if_pos rfl, if_pos hEven, if_pos (by omega), Nat.sub_self, Nat.add_zero]
    · have hOdd : ¬(maskedlow + 1) % 2 = 0 := by omega
      rw [if_neg (by omega), if_pos (by omega), if_neg hOdd, if_pos (by omega), Nat.add_sub_cancel_left]
    · rw [if_neg hWord]
      split_ifs with hIn hAll
      · rw [show pos + 2 + (a - (maskedlow + 2)) = pos + (a - maskedlow) by omega]
      · omega
      · omega
      · rfl

end

/-- The other halves of the first and of the last word are programmed with ones. -/
theorem program_array_exact (addrDest size : UInt32) (data : Nat → UInt8) (mem : Nat → BitVec 16) (hSize : 1 ≤ size.toNat)
    (hLow : eepromModifyLow ≤ maskedAddr addrDest.toNat)
    (hHigh : maskedAddr addrDest.toNat + size.toNat ≤ eepromModifyHigh - 1)
    (hErased : ∀ i < size.toNat, byteAt mem (maskedAddr addrDest.toNat + i) = 0xFF) (a : Nat) :
    byteAt (flashContents mem (eepromProgramArray addrDest.toNat data size.toNat)) a =
      if maskedAddr addrDest.toNat ≤ a ∧ a < maskedAddr addrDest.toNat + size.toNat then
        (data (a - maskedAddr addrDest.toNat)).toBitVec
      else byteAt mem a := by
  have hBounds : eepromModifyLow = 0x1A0000 ∧ eepromModifyHigh = 0x200000 := ⟨rfl, rfl⟩
  have hParity : addrDest.toNat % 2 = maskedAddr addrDest.toNat % 2 := by
    unfold maskedAddr
    omega
  have hPassed : maskedAddr (Word.add addrDest.toNat size.toNat) < eepromModifyHigh := by
    unfold maskedAddr Word.add at *
    omega
  -- an erased byte takes the value that is written
  have hByte (hIn : maskedAddr addrDest.toNat ≤ a ∧ a < maskedAddr addrDest.toNat + size.toNat) (value : BitVec 8) :
      byteAt mem a &&& value = value := by
    have hOnes := hErased (a - maskedAddr addrDest.toNat) (by omega)
    rw [Nat.add_sub_cancel' hIn.1] at hOnes
    rw [hOnes]
    exact BitVec.allOnes_and
  unfold flashContents eepromProgramArray
  rw [if_pos ⟨hLow, hPassed⟩, hParity]
  generalize maskedAddr addrDest.toNat = maskedlow at *
  split
  · have hMode := (flashRun_programBytes data (maskedlow + 1) 1 (size.toNat - 1) (by omega)).1
    rw [Word.sub_of_le hSize size.toNat_lt, flashRun_bypassed (by exact hMode), flashRun_bypassProgram, foldl_cons,
      byteAt_programBytes data (by omega) (by omega), byteAt_program]
    obtain rfl | _ | hWord : a = maskedlow ∨ a + 1 = maskedlow ∨ a / 2 ≠ (maskedlow - 1) / 2 := by omega
    · rw [if_neg (by omega), if_pos (by omega), if_neg (by omega), if_pos (by omega), hByte (by omega), Nat.sub_self]
    · rw [if_neg (by omega), if_pos (by omega), if_pos (by omega), if_neg (by omega)]
      exact BitVec.and_allOnes
    · rw [if_neg hWord]
      split_ifs with hIn hAll
      · rw [hByte hAll, show 1 + (a - (maskedlow + 1)) = a - maskedlow by omega]
      · omega
      · omega
      · rfl
  · have hMode := (flashRun_programBytes data maskedlow 0 size.toNat (by omega)).1
    rw [flashRun_bypassed hMode, byteAt_programBytes data (by omega) (by omega), Nat.zero_add]
    split_ifs with hIn
    · exact hByte hIn _
    · rfl

theorem program_array_exact_odd :
    byteAt (flashContents (fun _ => 0xFFFF) (eepromProgramArray 0x801A0001 (fun _ => 0x42) 2)) 0x1A0002 = 0x42 :=
  program_array_exact 0x801A0001 2 (fun _ => 0x42) (fun _ => 0xFFFF) (by decide) (by decide) (by decide)
    (by decide) 0x1A0002

section

variable {mem : Nat → BitVec 16} {a : Nat} (h : a < eepromModifyLow ∨ eepromModifyHigh ≤ a)
include h

lemma FlashOp.Allowed.byteAt_apply {op : FlashOp} (hAllowed : op.Allowed) : byteAt (op.apply mem) a = byteAt mem a := by
  unfold byteAt
  cases op with
  | program addr data =>
    obtain ⟨_, _⟩ := hAllowed
    rw [FlashOp.apply, update_of_ne (by omega)]
  | eraseSector addr =>
    obtain ⟨_, _⟩ := hAllowed
    exact congrArg _ (if_neg (by omega))

lemma byteAt_foldl_allowed {ops : List FlashOp} (hAllowed : ∀ op ∈ ops, op.Allowed) :
    byteAt (ops.foldl FlashOp.apply mem) a = byteAt mem a := by
  induction ops generalizing mem with
  | nil => rfl
  | cons op ops ih =>
    obtain ⟨hHere, hRest⟩ := forall_mem_cons.mp hAllowed
    exact (ih hRest).trans (hHere.byteAt_apply h)

end

/-- No call changes a byte outside of the part that may be modified. -/
theorem fitting_calls_spare_rest (calls : List {call : EepromCall // call.Fits}) (mem : Nat → BitVec 16) :
    Set.EqOn (byteAt (flashContents mem (calls.flatMap fun call => call.1.writes))) (byteAt mem)
      {a | a < eepromModifyLow ∨ eepromModifyHigh ≤ a} := by
  intro a hOutside
  apply byteAt_foldl_allowed hOutside
  induction calls with
  | nil => exact fun op hOp => absurd hOp not_mem_nil
  | cons call calls ih =>
    obtain ⟨hMode, hAllowed⟩ := call.1.operations
    rw [flatMap_cons, flashRun_append, hMode, forall_mem_append]
    exact ⟨hAllowed.mpr call.2, ih⟩

theorem fitting_calls_spare_rest_erased : byteAt (flashContents (fun _ => 0x1234) ([EepromCall.eraseSector 0x801A0000,
      .programArray 0x801A0001 (fun _ => 0x42) 2, .programWord 0x80000000 0].flatMap EepromCall.writes)) 0x19FFFF = 0x34 :=
  fitting_calls_spare_rest [⟨.eraseSector 0x801A0000, trivial⟩,
    ⟨.programArray 0x801A0001 (fun _ => 0x42) 2, fun _ _ => by decide⟩, ⟨.programWord 0x80000000 0, trivial⟩]
    (fun _ => 0x1234) (Or.inl (by decide))

end Fixos.Arch
