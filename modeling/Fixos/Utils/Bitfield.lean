import Fixos.Lib.Run

/-! # Large bitfields (`utils/bitfield.h`)

A bitfield is an array of 32-bit cells. Reading or writing behind the last cell is an error.
-/

namespace Fixos.Utils

open Transition List Option

def bitfieldBits : Nat := 32

def bitfieldCells (bits : Nat) : Nat := (bits - 1) / bitfieldBits + 1

structure Bitfield (bits : Nat) where
  cells : List (BitVec 32)
  length_cells : cells.length = bitfieldCells bits
deriving DecidableEq

def bitMask (bit : Nat) : BitVec 32 := 1#32 <<< (bit % bitfieldBits)

section

variable {bits : Nat}

def Bitfield.write (field : Bitfield bits) (i : Nat) (f : BitVec 32 → BitVec 32) : Option (Bitfield bits) :=
  field.cells[i]?.map fun cell => ⟨field.cells.set i (f cell), by rw [length_set, field.length_cells]⟩

def bitfieldGet (field : Bitfield bits) (bit : Nat) : Option Bool :=
  field.cells[bit / bitfieldBits]?.map fun cell => decide (cell &&& bitMask bit ≠ 0#32)

def bitfieldSet (field : Bitfield bits) (bit : Nat) : Option (Bitfield bits) :=
  field.write (bit / bitfieldBits) (· ||| bitMask bit)

def bitfieldClear (field : Bitfield bits) (bit : Nat) : Option (Bitfield bits) :=
  field.write (bit / bitfieldBits) (· &&& ~~~ bitMask bit)

def bitfieldAllClear (field : Bitfield bits) (size : Nat) : Option (Bitfield bits) :=
  (range ((size - 1) / bitfieldBits + 1)).foldlM (fun field i => field.write i fun _ => 0#32) field

def Bitfield.Shows (field : Bitfield bits) (value : Nat → Bool) : Prop :=
  ∀ bit < bits, bitfieldGet field bit = some (value bit)

end

variable {bits bit i : Nat} {field field' : Bitfield bits}

lemma test_bitMask (cell : BitVec 32) (bit : Nat) :
    decide (cell &&& bitMask bit ≠ 0#32) = cell.getLsbD (bit % bitfieldBits) := by
  have hLt : bit % bitfieldBits < 32 := Nat.mod_lt _ (by decide)
  rw [bitMask, ← BitVec.twoPow_eq, BitVec.and_twoPow]
  split_ifs with hSet
  · rw [hSet, decide_eq_true_eq, ne_eq, BitVec.toNat_eq, BitVec.toNat_twoPow_of_lt hLt]
    exact (Nat.two_pow_pos _).ne'
  · simp [Bool.not_eq_true _ ▸ hSet]

lemma getLsbD_bitMask (bit k : Nat) (hk : k < 32) : (bitMask bit).getLsbD k = decide (k = bit % bitfieldBits) := by
  rw [bitMask, ← BitVec.twoPow_eq, BitVec.getLsbD_twoPow, eq_comm, Bool.eq_iff_iff]
  simp only [decide_eq_true_eq, Bool.and_eq_true]
  omega

lemma bitfieldGet_eq (field : Bitfield bits) (bit : Nat) :
    bitfieldGet field bit = field.cells[bit / bitfieldBits]?.map fun cell => cell.getLsbD (bit % bitfieldBits) := by
  simp only [bitfieldGet, test_bitMask]

lemma Bitfield.cell_lt (field : Bitfield bits) (h : bit < bits) : bit / bitfieldBits < field.cells.length := by
  rw [field.length_cells, bitfieldCells, Nat.lt_succ_iff]
  exact Nat.div_le_div_right (by omega)

variable {f : BitVec 32 → BitVec 32}

lemma Bitfield.write_total (h : i < field.cells.length) : ∃ field', field.write i f = some field' ∧
      ∀ j, field'.cells[j]? = if j = i then field.cells[j]?.map f else field.cells[j]? := by
  obtain ⟨cell, hCell⟩ : ∃ cell, field.cells[i]? = some cell := ⟨_, getElem?_eq_getElem h⟩
  refine ⟨⟨field.cells.set i (f cell), _⟩, by rw [Bitfield.write, hCell]; rfl, fun j => ?_⟩
  rw [getElem?_set]
  split
  · rename_i hEq
    subst hEq
    rw [if_pos rfl, hCell]
    rfl
  · rename_i hNe
    rw [if_neg (Ne.symm hNe)]

variable {value : Nat → Bool}

section

variable (h : field.Shows value) (hBit : bit < bits)
include h hBit

lemma Bitfield.Shows.write {b : Bool} (hBits : ∀ cell : BitVec 32, ∀ k < 32,
      (f cell).getLsbD k = if k = bit % bitfieldBits then b else cell.getLsbD k) :
    ∃ field', field.write (bit / bitfieldBits) f = some field' ∧ field'.Shows (Function.update value bit b) := by
  obtain ⟨field', hWrite, hCells⟩ := Bitfield.write_total (f := f) (field.cell_lt hBit)
  refine ⟨field', hWrite, fun other hOther => ?_⟩
  have hOld := h other hOther
  have hMod : other % bitfieldBits < 32 := Nat.mod_lt _ (by decide)
  rw [bitfieldGet_eq] at hOld ⊢
  rw [hCells, Function.update_apply]
  obtain ⟨cell, hCell, hValue⟩ := map_eq_some_iff.mp hOld
  split
  · rename_i hSame
    rw [hCell, map_some, map_some, hBits cell _ hMod, ← hValue]
    refine congrArg some (if_congr ?_ rfl rfl)
    -- within the cell, the bit is known by its position
    constructor
    · intro hPosition
      rw [← Nat.div_add_mod other bitfieldBits, hSame, hPosition, Nat.div_add_mod]
    · rintro rfl
      rfl
  · rename_i hDiff
    rw [if_neg fun hEq => hDiff (congrArg (· / bitfieldBits) hEq)]
    exact hOld

lemma Bitfield.Shows.set :
    ∃ field', bitfieldSet field bit = some field' ∧ field'.Shows (Function.update value bit true) := by
  refine h.write hBit fun cell k hk => ?_
  rw [BitVec.getLsbD_or, getLsbD_bitMask bit k hk]
  split <;> simp [*]

lemma Bitfield.Shows.clear :
    ∃ field', bitfieldClear field bit = some field' ∧ field'.Shows (Function.update value bit false) := by
  refine h.write hBit fun cell k hk => ?_
  rw [BitVec.getLsbD_and, BitVec.getLsbD_not, getLsbD_bitMask bit k hk]
  split <;> simp [*]

end

lemma bitfieldAllClear_shows (field : Bitfield bits) :
    ∃ field', bitfieldAllClear field bits = some field' ∧ field'.Shows fun _ => false := by
  -- after the first `n` turns the first `n` cells are zero
  have hTurns : ∀ n ≤ bitfieldCells bits, ∃ field' : Bitfield bits,
      (range n).foldlM (fun field i => field.write i fun _ => 0#32) field = some field' ∧
        ∀ i < n, field'.cells[i]? = some 0#32 := by
    intro n hn
    induction n with
    | zero => exact ⟨field, rfl, fun i hi => absurd hi (Nat.not_lt_zero i)⟩
    | succ n ih =>
      obtain ⟨mid, hMid, hZero⟩ := ih (Nat.le_of_succ_le hn)
      have hLt : n < mid.cells.length := by
        rw [mid.length_cells]
        exact hn
      obtain ⟨field', hWrite, hCells⟩ := Bitfield.write_total (f := fun _ => 0#32) hLt
      refine ⟨field', ?_, fun i hi => ?_⟩
      · rw [range_succ, foldlM_append, hMid]
        simpa using hWrite
      · rw [hCells]
        split_ifs with hEq
        · rw [hEq, getElem?_eq_getElem hLt]
          rfl
        · exact hZero i (by omega)
  obtain ⟨field', hClear, hZero⟩ := hTurns (bitfieldCells bits) le_rfl
  refine ⟨field', hClear, fun bit hBit => ?_⟩
  have hCell : bit / bitfieldBits < bitfieldCells bits := field.length_cells ▸ field.cell_lt hBit
  rw [bitfieldGet_eq, hZero _ hCell]
  simp

end Fixos.Utils
