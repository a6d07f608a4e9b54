import Mathlib.Data.List.TakeWhile
import Fixos.Fs.File
import Fixos.Fs.FileSystem
import Fixos.Fs.SmemData

/-! # Open files of the SMEM volume (`fs/casio_smemfs/file.c`)

The headers of the fragments of a file follow its own header in the table.
-/

namespace Fixos.Fs

open Word Chunks List Option

def EISDIR : Int := 8

def smemfsFileFileFrag : UInt8 := 0x30

structure FragSlot extends FragHeader where
  type : UInt8
  fragTotalNum : Nat
  dataSize_lt : dataSize < 2 ^ 16
  fragTotalNum_lt : fragTotalNum < 2 ^ 16

structure SmemEntry where
  header : SmemHeader
  slots : List FragSlot

def SmemEntry.memory (entry : SmemEntry) : List FragHeader := entry.slots.map FragSlot.toFragHeader

def SmemEntry.fragNum (entry : SmemEntry) : Nat :=
  if entry.header.type = smemfsFileDir then 0 else (entry.slots.head?.map FragSlot.fragTotalNum).getD 0

def SmemEntry.fileSize (entry : SmemEntry) : Nat := smemfsPrimGetFileSize (entry.memory.take entry.fragNum)

def SmemEntry.frags (entry : SmemEntry) : List FragHeader :=
  (entry.slots.takeWhile fun slot => slot.type = smemfsFileFileFrag).map FragSlot.toFragHeader

/-- A file whose first fragment gives the number of its fragments, each in a block of the volume. -/
structure SmemEntry.WellFormed (vol : SmemVolume) (entry : SmemEntry) : Prop where
  file : entry.header.type = smemfsFileFileH
  total : (entry.slots.takeWhile fun slot => slot.type = smemfsFileFileFrag).length = entry.fragNum
  stored : ∀ frag ∈ entry.frags, (vol.getFragData frag).isSome

/-- `smemfs_prim_get_atomic_file`, with the slots behind the header that it returns. -/
def smemfsAtomicEntry (table : List SmemEntry) (filename : Bytes) (parentDir : Nat) : Option SmemEntry :=
  table.find? fun entry =>
    !entry.header.deleted && (parentDir = entry.header.parentId && cmpstr2fhn filename entry.header.name)

/-- The `st_size` of `smemfs_istat`: the inode has the header that its number belongs to. -/
def smemfsIstatSize (table : List SmemEntry) (inode : VfsInode) : Option Nat :=
  inode.abstract.bind fun header => (table.find? fun entry => entry.header = header).map SmemEntry.fileSize

structure SmemfsFile where
  entry : SmemEntry
  flags : BitVec 32
  pos : Nat

def smemfsLseek (filep : SmemfsFile) (offset : Int) (whence : Whence) : Int × SmemfsFile :=
  let size := filep.entry.fileSize
  let tmpPos := match whence with
    | .seekEnd => seekFrom size offset
    | .seekCur => seekFrom filep.pos offset
    | .seekSet => if offset < 0 then 0 else offset.toNat
    | .other => filep.pos
  let pos := if tmpPos > size then size else tmpPos
  (signed pos, { filep with pos })

def smemfsRead (vol : SmemVolume) (filep : SmemfsFile) (len : Nat) : Option (Bytes × Int × SmemfsFile) :=
  if filep.flags &&& O_RDONLY = 0 then some ([], -EBADF, filep)
  else if filep.entry.header.type = smemfsFileDir then some ([], -EISDIR, filep)
  else if len = 0 then some ([], 0, filep)
  else
    (vol.readData filep.entry.fileSize filep.entry.memory len filep.pos).map fun bytes =>
      let ret := signed (min (sub filep.entry.fileSize filep.pos) len)
      (bytes, ret, { filep with pos := if 0 < ret then filep.pos + ret.toNat else filep.pos })

section

variable {vol : SmemVolume} {entry : SmemEntry}

lemma smemfsPrimGetFileSize_le (slots : List FragSlot) :
    smemfsPrimGetFileSize (slots.map FragSlot.toFragHeader) ≤ slots.length * 2 ^ 16 := by
  induction slots with
  | nil => exact Nat.le_refl 0
  | cons slot slots ih =>
    have hHere : slot.toFragHeader.size ≤ 2 ^ 16 := slot.dataSize_lt
    have hSum : smemfsPrimGetFileSize ((slot :: slots).map FragSlot.toFragHeader) =
        slot.toFragHeader.size + smemfsPrimGetFileSize (slots.map FragSlot.toFragHeader) := total_cons _ _
    rw [hSum, length_cons]
    omega

namespace SmemEntry

lemma fragNum_lt (entry : SmemEntry) : entry.fragNum < 2 ^ 16 := by
  unfold fragNum
  split
  · decide
  · cases entry.slots with
    | nil => exact Nat.two_pow_pos 16
    | cons slot slots => exact slot.fragTotalNum_lt

lemma fileSize_lt (entry : SmemEntry) : entry.fileSize < 2 ^ 32 := by
  have hNum := entry.fragNum_lt
  have hSize := smemfsPrimGetFileSize_le (entry.slots.take entry.fragNum)
  rw [map_take] at hSize
  have hLength : (entry.slots.take entry.fragNum).length ≤ entry.fragNum := length_take_le _ _
  have hEq : entry.fileSize = smemfsPrimGetFileSize ((entry.slots.map FragSlot.toFragHeader).take entry.fragNum) := rfl
  omega

section

variable (h : entry.WellFormed vol)
include h

lemma WellFormed.take_memory : entry.memory.take entry.fragNum = entry.frags := by
  have hPrefix : (entry.slots.takeWhile fun slot => slot.type = smemfsFileFileFrag) <+: entry.slots := takeWhile_prefix _
  have hTake := prefix_iff_eq_take.mp hPrefix
  rw [h.total] at hTake
  rw [memory, ← map_take, ← hTake]
  rfl

lemma WellFormed.fileSize_eq : entry.fileSize = smemfsPrimGetFileSize entry.frags := by
  rw [fileSize, h.take_memory]

lemma WellFormed.memory_eq : entry.memory = entry.frags ++ entry.memory.drop entry.fragNum := by
  rw [← h.take_memory, take_append_drop]

end

def bytes (vol : SmemVolume) (entry : SmemEntry) : Bytes := vol.fileBytes entry.frags

lemma WellFormed.length_bytes (h : entry.WellFormed vol) : (entry.bytes vol).length = entry.fileSize := by
  rw [bytes, SmemVolume.length_fileBytes, h.fileSize_eq]

lemma WellFormed.readData_volume (h : entry.WellFormed vol) (hSize : entry.fileSize < 2 ^ 31) {pos : Nat}
    (hPos : pos ≤ entry.fileSize) (len : Nat) :
    vol.readData entry.fileSize entry.memory len pos = some (((entry.bytes vol).drop pos).take len) := by
  rw [h.fileSize_eq] at hSize hPos ⊢
  rw [h.memory_eq]
  exact SmemVolume.readData_eq _ h.stored hSize len hPos

end SmemEntry

lemma smemfsRead_eq (h : entry.WellFormed vol) (hSize : entry.fileSize < 2 ^ 31) {flags : BitVec 32}
    (hFlags : flags &&& O_RDONLY ≠ 0) {pos : Nat} (hPos : pos ≤ entry.fileSize) (len : Nat) :
    smemfsRead vol ⟨entry, flags, pos⟩ len = some (((entry.bytes vol).drop pos).take len,
      ((min (entry.fileSize - pos) len : Nat) : Int), ⟨entry, flags, pos + min (entry.fileSize - pos) len⟩) := by
  have hFile : entry.header.type ≠ smemfsFileDir := by
    rw [h.file]
    decide
  rw [smemfsRead, if_neg hFlags, if_neg hFile]
  rcases Nat.eq_zero_or_pos len with rfl | hLen
  · rw [if_pos rfl, take_zero, Nat.min_zero]
    rfl
  · have hMax : sub entry.fileSize pos = entry.fileSize - pos := sub_of_le hPos entry.fileSize_lt
    have hRet : signed (min (entry.fileSize - pos) len) = (min (entry.fileSize - pos) len : Nat) := signed_of_lt (by omega)
    rw [if_neg hLen.ne', h.readData_volume hSize hPos, map_some, hMax, hRet]
    dsimp only
    have hNext : (if (0 : Int) < (min (entry.fileSize - pos) len : Nat) then
        pos + ((min (entry.fileSize - pos) len : Nat) : Int).toNat else pos) = pos + min (entry.fileSize - pos) len := by
      rw [Int.toNat_natCast]
      split <;> omega
    rw [hNext]

end

section

variable {table : List SmemEntry} {entry : SmemEntry} {filename : Bytes} {parentDir : Nat}

lemma smemfsAtomicEntry_header (table : List SmemEntry) (filename : Bytes) (parentDir : Nat) :
    smemfsPrimGetAtomicFile (table.map SmemEntry.header) filename parentDir =
      (smemfsAtomicEntry table filename parentDir).map SmemEntry.header :=
  find?_map

lemma smemfsAtomicEntry_spec (h : smemfsAtomicEntry table filename parentDir = some entry) :
    entry ∈ table ∧ entry.header.deleted = false := by
  have hTest := find?_some h
  simp only [Bool.and_eq_true, Bool.not_eq_true'] at hTest
  exact ⟨mem_of_find?_eq_some h, hTest.1⟩

def UniqueEntries (table : List SmemEntry) : Prop :=
  ((table.filter fun entry => !entry.header.deleted).map fun entry => (entry.header.type, entry.header.entryId)).Nodup
deriving Decidable

lemma smemfsIstatSize_eq (hUnique : UniqueEntries table) (hMem : entry ∈ table) (hExists : entry.header.deleted = false)
    {inode : VfsInode} (hInode : inode.abstract = some entry.header) :
    smemfsIstatSize table inode = some entry.fileSize := by
  have hSome : (table.find? fun other => other.header = entry.header).isSome :=
    find?_isSome.mpr ⟨entry, hMem, decide_eq_true rfl⟩
  obtain ⟨other, hFind⟩ := isSome_iff_exists.mp hSome
  have hTest := find?_some hFind
  have hSame : other.header = entry.header := of_decide_eq_true hTest
  have hEq : other = entry := by
    refine inj_on_of_nodup_map hUnique (mem_filter.mpr ⟨mem_of_find?_eq_some hFind, ?_⟩) (mem_filter.mpr ⟨hMem, ?_⟩) ?_
    · rw [hSame, hExists]
      rfl
    · rw [hExists]
      rfl
    · rw [hSame]
  rw [smemfsIstatSize, hInode, bind_some, hFind, hEq]
  rfl

end

def twoFragments : SmemEntry where
  header := ⟨false, smemfsFileFileH, 1, smemfsFileRootId, [65] ++ replicate 11 0xFF⟩
  slots := [⟨⟨7, 16, 2⟩, smemfsFileFileFrag, 2, by decide, by decide⟩,
    ⟨⟨9, 0, 1⟩, smemfsFileFileFrag, 2, by decide, by decide⟩, ⟨⟨0, 0, 65535⟩, smemfsFileFileH, 0, by decide, by decide⟩]

def twoBlocks : SmemVolume := ⟨[⟨7, 0x4000⟩, ⟨9, 0x8000⟩], fun a => .ofNat (a + 1)⟩

def largeSlot : FragSlot := ⟨⟨7, 0, 65535⟩, smemfsFileFileFrag, 32768, by decide, by decide⟩

def largeEntry : SmemEntry :=
  ⟨⟨false, smemfsFileFileH, 1, smemfsFileRootId, [65] ++ replicate 11 0xFF⟩, replicate 32768 largeSlot⟩

lemma largeEntry_fragNum : largeEntry.fragNum = 32768 := by
  rw [SmemEntry.fragNum, largeEntry, if_neg (by decide), head?_replicate]
  rfl

lemma largeEntry_fileSize : largeEntry.fileSize = 2 ^ 31 := by
  rw [SmemEntry.fileSize, largeEntry_fragNum, SmemEntry.memory, largeEntry, map_replicate, take_replicate,
    smemfsPrimGetFileSize, map_replicate, sum_replicate]
  rfl

lemma largeEntry_wellFormed : largeEntry.WellFormed twoBlocks := by
  have hAll : (largeEntry.slots.takeWhile fun slot => slot.type = smemfsFileFileFrag) = largeEntry.slots := by
    refine takeWhile_eq_self_iff.mpr fun slot hSlot => ?_
    rw [eq_of_mem_replicate hSlot]
    rfl
  refine ⟨rfl, ?_, fun frag hFrag => ?_⟩
  · rw [hAll, largeEntry_fragNum]
    exact length_replicate
  · rw [SmemEntry.frags, hAll] at hFrag
    obtain ⟨slot, hSlot, rfl⟩ := mem_map.mp hFrag
    rw [eq_of_mem_replicate hSlot]
    decide

lemma largeEntry_readData : twoBlocks.readData (2 ^ 31) largeEntry.memory (2 ^ 31) 0 = some [] := by
  have hEnd : ¬ signed 0 < signed (2 ^ 31) := by decide
  have hMax : 0 + min (sub (2 ^ 31) 0) (2 ^ 31) = 2 ^ 31 := by decide
  rw [SmemVolume.readData, hMax]
  dsimp only
  rw [SmemVolume.readFrags_end hEnd]
  rfl

lemma smemfsRead_largeEntry : smemfsRead twoBlocks ⟨largeEntry, O_RDONLY, 0⟩ (2 ^ 31) =
    some ([], -2 ^ 31, ⟨largeEntry, O_RDONLY, 0⟩) := by
  have hFlags : ¬ O_RDONLY &&& O_RDONLY = 0 := by decide
  have hFile : ¬ largeEntry.header.type = smemfsFileDir := by decide
  have hSome : ¬ (2 ^ 31 : Nat) = 0 := by decide
  have hRet : signed (min (sub (2 ^ 31) 0) (2 ^ 31)) = -2 ^ 31 := by decide
  rw [smemfsRead, if_neg hFlags, if_neg hFile, if_neg hSome, largeEntry_fileSize, largeEntry_readData, map_some, hRet]
  rfl

end Fixos.Fs
