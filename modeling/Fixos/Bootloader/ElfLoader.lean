import Fixos.Fs.SmemData
import Fixos.Lib.Bytes

/-! # Loading a segment in the boot loader (`bootloader/smem_file.c`, `bootloader/elf_loader.c`)

A segment is read to its physical address in one go, and the rest of its memory is zeroed.
-/

namespace Fixos.Bootloader

open Bytes Fs Word List

/-- `curFrag` are the fragments from the cursor on. -/
structure SmemFile where
  frags : List FragHeader
  pos : Nat
  size : Nat
  curFrag : List FragHeader
  fragPos : Nat

def smemSeek (file : SmemFile) (offset : Int) (whence : Whence) : Int × SmemFile :=
  let tmpPos := match whence with
    | .seekEnd => seekFrom file.size offset
    | .seekCur => seekFrom file.pos offset
    | .seekSet => if offset < 0 then 0 else offset.toNat
    | .other => file.pos
  let pos := if tmpPos > file.size then file.size else tmpPos
  let (frag, posTmp) := seekFrag pos file.frags 0
  (signed pos, { file with pos, curFrag := frag, fragPos := pos - posTmp })

def smemRead (vol : SmemVolume) (file : SmemFile) (len : Nat) : Option (Bytes × Int × SmemFile) :=
  if file.pos ≥ file.size then some ([], -1, file)
  else
    let maxRead := min (file.size - file.pos) len
    (vol.readFrags (file.pos + maxRead) file.curFrag file.fragPos file.pos).map fun (bytes, curFrag, fragPos) =>
      (bytes, signed maxRead, { file with pos := file.pos + maxRead, curFrag, fragPos })

structure ElfProgHeader where
  offset : Nat
  vaddr : Nat
  paddr : Nat
  filesz : Nat
  memsz : Nat

def elfLoadSegment (vol : SmemVolume) (file : SmemFile) (ph : ElfProgHeader) (mem : ByteMemory) :
    Option (ByteMemory × SmemFile) :=
  let file := (smemSeek file ph.offset .seekSet).2
  (smemRead vol file ph.filesz).map fun (bytes, _, file) =>
    let mem := storeBytes mem ph.paddr bytes
    (storeBytes mem (ph.paddr + ph.filesz) (replicate (sub ph.memsz ph.filesz) 0), file)

/-- The byte at an offset of a segment: that of the file, and zero behind them. -/
def ElfProgHeader.byte (ph : ElfProgHeader) (data : Bytes) (o : Nat) : UInt8 :=
  if o < ph.filesz then data.getD (ph.offset + o) 0 else 0

variable {vol : SmemVolume} {ph : ElfProgHeader}

section

variable {cursor : SmemFile} (file : FragFile vol) (hFrags : cursor.frags = file.frags)
  (hSize : cursor.size = smemfsPrimGetFileSize file.frags)
include file hFrags hSize

lemma smemRead_smemSeek {offset len : Nat} (h : offset + len ≤ smemfsPrimGetFileSize file.frags) :
    ∃ ret cursor', smemRead vol (smemSeek cursor offset .seekSet).2 len =
      some (((vol.fileBytes file.frags).drop offset).take len, ret, cursor') := by
  have hSeek : (smemSeek cursor offset .seekSet).2 = { cursor with
        pos := offset, curFrag := (seekFrag offset cursor.frags 0).1,
        fragPos := offset - (seekFrag offset cursor.frags 0).2 } := by
    have hOffset : (if (offset : Int) < 0 then 0 else (offset : Int).toNat) = offset := by
      rw [if_neg (by omega), Int.toNat_natCast]
    have hPos : (if offset > cursor.size then cursor.size else offset) = offset := if_neg (by omega)
    unfold smemSeek
    dsimp only
    rw [hOffset, hPos]
  rw [hSeek, smemRead]
  dsimp only
  by_cases hEnd : offset ≥ cursor.size
  · -- nothing is asked for, at the end of the file
    have hLen : len = 0 := by omega
    rw [if_pos hEnd, hLen, take_zero]
    exact ⟨_, _, rfl⟩
  · have hMax : min (cursor.size - offset) len = len := by omega
    have hAt := Fs.seekFrag_at offset (file.frags ++ [])
    obtain ⟨_, _, hCur, _⟩ := SmemVolume.readFrags_at (n := offset + len) (Nat.lt_of_le_of_lt h file.size_lt)
      (Nat.le_add_right _ _) file.stored h hAt
    rw [append_nil] at hCur
    rw [if_neg hEnd, hMax, hFrags, hCur, Option.map_some, Nat.add_sub_cancel_left]
    exact ⟨_, _, rfl⟩

lemma elfLoadSegment_image (hFilesz : ph.filesz ≤ ph.memsz)
    (hMemsz : ph.memsz < 2 ^ 32) (hEnd : ph.offset + ph.filesz ≤ smemfsPrimGetFileSize file.frags)
    (mem : ByteMemory) :
    ∃ mem' cursor', elfLoadSegment vol cursor ph mem = some (mem', cursor') ∧
      ∀ o < ph.memsz, mem' (ph.paddr + o) = ph.byte (vol.fileBytes file.frags) o := by
  obtain ⟨_, cursor', hRead⟩ := smemRead_smemSeek file hFrags hSize hEnd
  refine ⟨_, cursor', by rw [elfLoadSegment, hRead, Option.map_some], fun o ho => ?_⟩
  have hLength : (((vol.fileBytes file.frags).drop ph.offset).take ph.filesz).length = ph.filesz := by
    rw [length_take, length_drop, SmemVolume.length_fileBytes]
    omega
  have hZeros : (replicate (sub ph.memsz ph.filesz) (0 : UInt8)).length = ph.memsz - ph.filesz := by
    rw [length_replicate, sub_of_le hFilesz hMemsz]
  unfold ElfProgHeader.byte
  by_cases hData : o < ph.filesz
  · rw [if_pos hData, storeBytes_of_out (by omega), storeBytes_of_in (by omega) (by omega),
      Nat.add_sub_cancel_left, getD_eq_getElem?_getD, getD_eq_getElem?_getD,
      getElem?_take_of_lt hData, getElem?_drop]
  · rw [if_neg hData, storeBytes_of_in (by omega) (by omega), getD_eq_getElem?_getD, getElem?_replicate]
    split <;> rfl

end

end Fixos.Bootloader
