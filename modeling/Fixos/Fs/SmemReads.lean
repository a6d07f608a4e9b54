import Fixos.Lib.Run
import Fixos.Fs.SmemFile

/-! # Reading a file from its beginning to its end (`fs/casio_smemfs/file.c`)

Seen from outside an open file is the list of the bytes that have not been read yet.
-/

namespace Fixos.Fs

open Word Transition List Option

def SmemEntry.readData (vol : SmemVolume) (entry : SmemEntry) (len atpos : Nat) : Option (Bytes × Int) :=
  (vol.readData entry.fileSize entry.memory len atpos).map fun bytes =>
    (bytes, signed (min (sub entry.fileSize atpos) len))

def readCall (vol : SmemVolume) (filep : SmemfsFile) (len : Nat) : Option (SmemfsFile × Bytes × Int) :=
  (smemfsRead vol filep len).map fun (bytes, ret, filep) => (filep, bytes, ret)

def takeFront (rest : Bytes) (len : Nat) : Bytes × Bytes × Int :=
  (rest.drop len, rest.take len, ((rest.take len).length : Int))

/-- A read gives the bytes that are there, and calls from the beginning on give them one after the other, and then none.
-/
structure ReadsRight (vol : SmemVolume) (entry : SmemEntry) (flags : BitVec 32) : Prop where
  data : ∀ pos ≤ entry.fileSize, ∀ len < 2 ^ 32, entry.readData vol len pos =
    some (((entry.bytes vol).drop pos).take len, ((min (entry.fileSize - pos) len : Nat) : Int))
  calls : ∀ lens : List Nat, (∀ len ∈ lens, len < 2 ^ 32) → ∃ filep outs,
    runOut (readCall vol) ⟨entry, flags, 0⟩ lens = some (filep, outs) ∧
      (outs.map Prod.fst).flatten = (entry.bytes vol).take lens.sum ∧
      (∀ out ∈ outs, out.2 = (out.1.length : Int)) ∧
      (entry.fileSize ≤ lens.sum → ∀ len < 2 ^ 32, readCall vol filep len = some (filep, [], 0))

lemma takeFront_flatten (rest : Bytes) (lens : List Nat) :
    ((specOut takeFront rest lens).2.map Prod.fst).flatten = rest.take lens.sum ∧
      (specOut takeFront rest lens).1 = rest.drop lens.sum := by
  induction lens generalizing rest with
  | nil => exact ⟨take_zero.symm, drop_zero.symm⟩
  | cons len lens ih =>
    obtain ⟨hTaken, hLeft⟩ := ih (rest.drop len)
    rw [sum_cons]
    constructor
    · rw [take_add, ← hTaken]
      rfl
    · rw [← drop_drop, ← hLeft]
      rfl

lemma takeFront_length (rest : Bytes) (lens : List Nat) :
    ∀ out ∈ (specOut takeFront rest lens).2, out.2 = (out.1.length : Int) := by
  induction lens generalizing rest with
  | nil => exact fun out hOut => absurd hOut not_mem_nil
  | cons len lens ih =>
    intro out hOut
    rcases mem_cons.mp hOut with rfl | hRest
    · rfl
    · exact ih _ out hRest

variable {vol : SmemVolume} {entry : SmemEntry} {flags : BitVec 32}

section

variable (h : entry.WellFormed vol) (hSize : entry.fileSize < 2 ^ 31)
include h hSize

lemma readData_eq {pos : Nat} (hPos : pos ≤ entry.fileSize) (len : Nat) : entry.readData vol len pos =
      some (((entry.bytes vol).drop pos).take len, ((min (entry.fileSize - pos) len : Nat) : Int)) := by
  have hMax : sub entry.fileSize pos = entry.fileSize - pos := sub_of_le hPos entry.fileSize_lt
  have hRet : signed (min (entry.fileSize - pos) len) = (min (entry.fileSize - pos) len : Nat) := signed_of_lt (by omega)
  rw [SmemEntry.readData, h.readData_volume hSize hPos, map_some, hMax, hRet]

lemma readCall_takeFront (hFlags : flags &&& O_RDONLY ≠ 0) {pos : Nat} (hPos : pos ≤ entry.fileSize) (len : Nat) :
    readCall vol ⟨entry, flags, pos⟩ len =
      some (⟨entry, flags, pos + min (entry.fileSize - pos) len⟩, (takeFront ((entry.bytes vol).drop pos) len).2) := by
  have hLength : ((((entry.bytes vol).drop pos).take len).length : Int) =
    ((min (entry.fileSize - pos) len : Nat) : Int) := by
    rw [length_take, length_drop, h.length_bytes, Nat.min_comm]
  rw [readCall, smemfsRead_eq h hSize hFlags hPos, map_some, takeFront, hLength]

lemma readCalls_takeFront (hFlags : flags &&& O_RDONLY ≠ 0) (lens : List Nat) :
    ∃ filep, runOut (readCall vol) ⟨entry, flags, 0⟩ lens = some (filep, (specOut takeFront (entry.bytes vol) lens).2) ∧
      ∃ pos ≤ entry.fileSize, filep = ⟨entry, flags, pos⟩ ∧
        (specOut takeFront (entry.bytes vol) lens).1 = (entry.bytes vol).drop pos := by
  refine runOut_refines (R := fun (filep : SmemfsFile) (rest : Bytes) => ∃ pos ≤ entry.fileSize,
    filep = ⟨entry, flags, pos⟩ ∧ rest = (entry.bytes vol).drop pos) ?_ lens _ _
    ⟨0, Nat.zero_le _, rfl, drop_zero.symm⟩
  rintro _ _ len ⟨pos, hPos, rfl, rfl⟩
  refine ⟨_, readCall_takeFront h hSize hFlags hPos len, _, ?_, rfl, ?_⟩
  · omega
  · have hLength := h.length_bytes
    rcases Nat.le_total len (entry.fileSize - pos) with hLen | hLen
    · rw [Nat.min_eq_right hLen]
      exact drop_drop
    · -- nothing is left in either case
      have hNone : ((entry.bytes vol).drop pos).drop len = [] := drop_eq_nil_of_le (by rw [length_drop]; omega)
      have hEnd : (entry.bytes vol).drop (pos + (entry.fileSize - pos)) = [] := drop_eq_nil_of_le (by omega)
      rw [Nat.min_eq_left hLen, hEnd]
      exact hNone

end

lemma readData_large (hSize : 2 ^ 31 ≤ entry.fileSize) {out : Bytes × Int}
    (h : entry.readData vol entry.fileSize 0 = some out) : out.2 < 0 := by
  have hLt := entry.fileSize_lt
  obtain ⟨_, _, rfl⟩ := map_eq_some_iff.mp h
  rw [sub_of_le (Nat.zero_le _) hLt, Nat.sub_zero, Nat.min_self, signed, if_neg hSize.not_gt]
  omega

/-- Every read gives the bytes of the file, in order, if and only if it has fewer than `2 ^ 31` bytes. -/
theorem reads_right_iff (vol : SmemVolume) (entry : SmemEntry) (h : entry.WellFormed vol) (flags : BitVec 32)
    (hFlags : flags &&& O_RDONLY ≠ 0) : ReadsRight vol entry flags ↔ entry.fileSize < 2 ^ 31 := by
  refine ⟨fun hRight => ?_, fun hSize => ⟨fun pos hPos len _ => readData_eq h hSize hPos len, fun lens _ => ?_⟩⟩
  · by_contra hLarge
    have hRead := hRight.data 0 (Nat.zero_le _) entry.fileSize entry.fileSize_lt
    have hNegative := readData_large (Nat.not_lt.mp hLarge) hRead
    exact absurd hNegative (by simp)
  · obtain ⟨_, hCalls, pos, hPos, rfl, hLeft⟩ := readCalls_takeFront h hSize hFlags lens
    obtain ⟨hBytes, hRest⟩ := takeFront_flatten (entry.bytes vol) lens
    refine ⟨_, _, hCalls, hBytes, takeFront_length _ _, fun hAll len _ => ?_⟩
    -- the position is the end of the file
    have hEnd : (entry.bytes vol).drop pos = [] := by
      rw [← hLeft, hRest]
      exact drop_eq_nil_of_le (by rw [h.length_bytes]; exact hAll)
    have hSame : pos = entry.fileSize := by
      have hLe := drop_eq_nil_iff.mp hEnd
      rw [h.length_bytes] at hLe
      omega
    rw [readCall_takeFront h hSize hFlags hPos, hEnd, hSame, Nat.sub_self, Nat.zero_min, Nat.add_zero, takeFront, take_nil]
    rfl

theorem reads_right_twoFragments : twoFragments.WellFormed twoBlocks ∧ ReadsRight twoBlocks twoFragments O_RDONLY := by
  have hEntry : twoFragments.WellFormed twoBlocks := ⟨rfl, by decide, by decide⟩
  exact ⟨hEntry, (reads_right_iff _ _ hEntry O_RDONLY (by decide)).mpr (by decide)⟩

theorem large_file_not_read : largeEntry.WellFormed twoBlocks ∧ (largeEntry.bytes twoBlocks).length = 2 ^ 31 ∧
    largeEntry.readData twoBlocks (2 ^ 31) 0 = some ([], -2 ^ 31) ∧
    (readCall twoBlocks ⟨largeEntry, O_RDONLY, 0⟩ (2 ^ 31)).map Prod.snd = some ([], -2 ^ 31) := by
  refine ⟨largeEntry_wellFormed, ?_, ?_, ?_⟩
  · rw [largeEntry_wellFormed.length_bytes, largeEntry_fileSize]
  · rw [SmemEntry.readData, largeEntry_fileSize, largeEntry_readData]
    decide
  · rw [readCall, smemfsRead_largeEntry]
    rfl

end Fixos.Fs
