import Fixos.Bootloader.SmemCursor

/-! # Where a seek goes (`fs/casio_smemfs/file.c`, `bootloader/smem_file.c`)

Whether the sum of a position and an offset is negative is tested by comparing `-offset` with the
position, as unsigned words.
-/

namespace Fixos.Bootloader

open Fs Word

def seekBase (pos size : Nat) : Whence → Option Nat
  | .seekSet => some 0
  | .seekCur => some pos
  | .seekEnd => some size
  | .other => none

def seekTarget (base size : Nat) (offset : Int) : Int := max 0 (min (base + offset) size)

def SeeksTo (target : Int) (pos : Nat) (ret : Int) : Prop := (pos : Int) = target ∧ ret = target

def seekPos (pos size : Nat) (offset : Int) (whence : Whence) : Nat :=
  let tmpPos := match whence with
    | .seekEnd => seekFrom size offset
    | .seekCur => seekFrom pos offset
    | .seekSet => if offset < 0 then 0 else offset.toNat
    | .other => pos
  if tmpPos > size then size else tmpPos

lemma smemfsLseek_eq (filep : SmemfsFile) (offset : Int) (whence : Whence) :
    smemfsLseek filep offset whence = (signed (seekPos filep.pos filep.entry.fileSize offset whence),
      { filep with pos := seekPos filep.pos filep.entry.fileSize offset whence }) := rfl

section

variable {base pos size : Nat} {offset : Int} {whence : Whence}

lemma seekFrom_of_nonpos (hBase : base < 2 ^ 31) (hLow : -2 ^ 31 ≤ offset) (h : offset ≤ 0) :
    (seekFrom base offset : Int) = max 0 (base + offset) := by
  unfold seekFrom
  split <;> omega

lemma seekFrom_of_pos (h : 0 < offset) (hSum : base + offset < 2 ^ 31) : seekFrom base offset = 0 := by
  unfold seekFrom
  rw [if_pos]
  omega

lemma seekPos_le (pos size : Nat) (offset : Int) (whence : Whence) : seekPos pos size offset whence ≤ size := by
  have hClip : ∀ tmpPos : Nat, (if tmpPos > size then size else tmpPos) ≤ size := by
    intro tmpPos
    split <;> omega
  exact hClip _

lemma seekPos_of_nonpos (hSize : size < 2 ^ 31) (hPos : pos ≤ size) (hBase : seekBase pos size whence = some base)
    (hLow : -2 ^ 31 ≤ offset) (h : offset ≤ 0) : (seekPos pos size offset whence : Int) = seekTarget base size offset := by
  unfold seekPos seekTarget
  cases whence with
  | seekSet =>
    cases hBase
    dsimp only
    split <;> split <;> omega
  | seekCur =>
    cases hBase
    have hSum := seekFrom_of_nonpos (Nat.lt_of_le_of_lt hPos hSize) hLow h
    dsimp only
    split <;> omega
  | seekEnd =>
    cases hBase
    have hSum := seekFrom_of_nonpos hSize hLow h
    dsimp only
    split <;> omega
  | other => cases hBase

lemma seekPos_seekSet (hOffset : 0 ≤ offset) : (seekPos pos size offset .seekSet : Int) = seekTarget 0 size offset := by
  unfold seekPos seekTarget
  dsimp only
  split <;> split <;> omega

lemma seekPos_of_pos (hBase : seekBase pos size whence = some base) (hSet : whence ≠ .seekSet) (h : 0 < offset)
    (hSum : base + offset < 2 ^ 31) : seekPos pos size offset whence = 0 := by
  unfold seekPos
  cases whence with
  | seekSet => exact absurd rfl hSet
  | seekCur =>
    cases hBase
    rw [seekFrom_of_pos h hSum, if_neg (Nat.not_lt_zero _)]
  | seekEnd =>
    cases hBase
    dsimp only
    rw [seekFrom_of_pos h hSum, if_neg (Nat.not_lt_zero _)]
  | other => cases hBase

section

variable (hSize : size < 2 ^ 31) (hPos : pos ≤ size) (hBase : seekBase pos size whence = some base)
  (hLow : -2 ^ 31 ≤ offset) (hSum : base + offset < 2 ^ 31)
include hSize hPos hBase hLow hSum

lemma seekPos_target_iff :
    (seekPos pos size offset whence : Int) = seekTarget base size offset ↔ whence = .seekSet ∨ offset ≤ 0 ∨ size = 0 := by
  rcases Int.lt_or_le 0 offset with hForward | hBack
  · rcases eq_or_ne whence .seekSet with rfl | hSet
    · cases hBase
      exact iff_of_true (seekPos_seekSet hForward.le) (Or.inl rfl)
    · rw [seekPos_of_pos hBase hSet hForward hSum]
      unfold seekTarget
      constructor
      · intro _
        exact Or.inr (Or.inr (by omega))
      · rintro (hIs | _ | _)
        · exact absurd hIs hSet
        · omega
        · omega
  · exact iff_of_true (seekPos_of_nonpos hSize hPos hBase hLow hBack) (Or.inr (Or.inl hBack))

lemma seeksTo_iff :
    SeeksTo (seekTarget base size offset) (seekPos pos size offset whence) (signed (seekPos pos size offset whence)) ↔
      whence = .seekSet ∨ offset ≤ 0 ∨ size = 0 := by
  have hRet := signed_of_lt (Nat.lt_of_le_of_lt (seekPos_le pos size offset whence) hSize)
  rw [SeeksTo, hRet, and_self]
  exact seekPos_target_iff hSize hPos hBase hLow hSum

end

end

/-- Either seek goes to the sum, kept in the file, exactly if it is from the start, not forwards, or in an empty file. -/
theorem seek_clamps_iff {size pos base : Nat} (hSize : size < 2 ^ 31) (hPos : pos ≤ size) {whence : Whence}
    (hBase : seekBase pos size whence = some base) {offset : Int} (hOffset : -2 ^ 31 ≤ offset ∧ offset < 2 ^ 31)
    (hSum : -2 ^ 31 ≤ base + offset ∧ base + offset < 2 ^ 31) :
    (∀ filep : SmemfsFile, filep.entry.fileSize = size → filep.pos = pos →
      (SeeksTo (seekTarget base size offset) (smemfsLseek filep offset whence).2.pos (smemfsLseek filep offset whence).1 ↔
        whence = .seekSet ∨ offset ≤ 0 ∨ size = 0)) ∧
    (∀ file : SmemFile, file.size = size → file.pos = pos →
      (SeeksTo (seekTarget base size offset) (smemSeek file offset whence).2.pos (smemSeek file offset whence).1 ↔
        whence = .seekSet ∨ offset ≤ 0 ∨ size = 0)) := by
  constructor
  · rintro filep rfl rfl
    rw [smemfsLseek_eq]
    exact seeksTo_iff hSize hPos hBase hOffset.1 hSum.2
  · rintro file rfl rfl
    exact seeksTo_iff hSize hPos hBase hOffset.1 hSum.2

theorem seek_clamps_back : SeeksTo 1 (smemfsLseek ⟨twoFragments, O_RDONLY, 3⟩ (-2) .seekCur).2.pos
        (smemfsLseek ⟨twoFragments, O_RDONLY, 3⟩ (-2) .seekCur).1 ∧
      SeeksTo 1 (smemSeek ⟨twoFragments.memory, 3, 5, [], 0⟩ (-2) .seekCur).2.pos
        (smemSeek ⟨twoFragments.memory, 3, 5, [], 0⟩ (-2) .seekCur).1 := by
  have hBase : seekBase 3 5 .seekCur = some 3 := rfl
  have hOffset : -2 ^ 31 ≤ (-2 : Int) ∧ (-2 : Int) < 2 ^ 31 := by decide
  have hBoth := seek_clamps_iff (by decide) (by decide) hBase hOffset (by decide)
  exact ⟨(hBoth.1 ⟨twoFragments, O_RDONLY, 3⟩ (by decide) rfl).mpr (Or.inr (Or.inl (by decide))),
    (hBoth.2 ⟨twoFragments.memory, 3, 5, [], 0⟩ rfl rfl).mpr (Or.inr (Or.inl (by decide)))⟩

theorem seek_forwards_to_start : (smemfsLseek ⟨twoFragments, O_RDONLY, 3⟩ 1 .seekCur).1 = 0 ∧
      (smemSeek ⟨twoFragments.memory, 3, 5, [], 0⟩ 1 .seekCur).1 = 0 ∧ seekTarget 3 5 1 = 4 := by
  decide

end Fixos.Bootloader
