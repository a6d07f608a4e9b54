import Fixos.Lib.Run
import Fixos.Bootloader.ElfLoader
import Fixos.Fs.SmemFile

/-! # Two readers of one file (`bootloader/smem_file.c`, `fs/casio_smemfs/file.c`)

The boot loader keeps the fragment of its position, where the kernel looks for it at every read.
-/

namespace Fixos.Bootloader

open Fs Word Chunks Transition Option List

def smemReadchar (vol : SmemVolume) (file : SmemFile) : Option (Int × SmemFile) :=
  if file.pos ≥ file.size then some (-1, file)
  else
    match file.curFrag with
    | [] => none
    | frag :: rest => (vol.getFragData frag).map fun fragdata =>
      let ret := vol.rom (fragdata + file.fragPos)
      let fragPos := file.fragPos + 1
      ((ret.toNat : Int), if fragPos > frag.dataSize then { file with pos := file.pos + 1, curFrag := rest, fragPos := 0 }
        else { file with pos := file.pos + 1, fragPos })

def smemFileOf (entry : SmemEntry) : SmemFile := ⟨entry.memory, 0, entry.fileSize, entry.memory, 0⟩

inductive SmemCall where
  | seek (offset : Int) (whence : Whence)
  | read (len : Nat)
  | readchar
deriving DecidableEq

abbrev SmemAnswer := Bytes × Int × Nat

def SmemFile.answer (vol : SmemVolume) (file : SmemFile) : SmemCall → Option (SmemFile × SmemAnswer)
  | .seek offset whence =>
    let (ret, file) := smemSeek file offset whence
    some (file, [], ret, file.pos)
  | .read len => (smemRead vol file len).map fun (bytes, ret, file) => (file, bytes, ret, file.pos)
  | .readchar => (smemReadchar vol file).map fun (ret, file) => (file, [], ret, file.pos)

def SmemfsFile.orEnd (filep : SmemfsFile) (ret value : Int) : Int :=
  if ret = 0 ∧ filep.pos = filep.entry.fileSize then -1 else value

/-- The answer of the kernel, with -1 for the end of the file; a character is read as one byte. -/
def kernelAnswer (vol : SmemVolume) (filep : SmemfsFile) : SmemCall → Option (SmemfsFile × SmemAnswer)
  | .seek offset whence =>
    let (ret, filep) := smemfsLseek filep offset whence
    some (filep, [], ret, filep.pos)
  | .read len => (smemfsRead vol filep len).map fun (bytes, ret, next) =>
    (next, bytes, SmemfsFile.orEnd filep ret ret, next.pos)
  | .readchar => (smemfsRead vol filep 1).map fun (bytes, ret, next) =>
    (next, [], SmemfsFile.orEnd filep ret (bytes.headD 0).toNat, next.pos)

/-- The cursor designates the byte of its position, which is not behind the end of the file. -/
structure SmemFile.Consistent (entry : SmemEntry) (file : SmemFile) : Prop where
  frags_eq : file.frags = entry.memory
  size_eq : file.size = entry.fileSize
  designates : At FragHeader.size entry.memory file.pos file.curFrag file.fragPos
  pos_le : file.pos ≤ entry.fileSize

def Tracks (vol : SmemVolume) (entry : SmemEntry) (flags : BitVec 32) (calls : List SmemCall) : Prop :=
  ∃ file filep answers, runOut (SmemFile.answer vol) (smemFileOf entry) calls = some (file, answers) ∧
    runOut (kernelAnswer vol) ⟨entry, flags, 0⟩ calls = some (filep, answers) ∧ file.Consistent entry

section

variable {vol : SmemVolume} {entry : SmemEntry} {file : SmemFile} {flags : BitVec 32}

def Together (entry : SmemEntry) (flags : BitVec 32) (file : SmemFile) (filep : SmemfsFile) : Prop :=
  file.Consistent entry ∧ filep = ⟨entry, flags, file.pos⟩

lemma smemFileOf_consistent (entry : SmemEntry) : (smemFileOf entry).Consistent entry :=
  ⟨rfl, rfl, at_here fun frag _ => frag.size_pos, Nat.zero_le _⟩

lemma smemSeek_eq (flags : BitVec 32) (h : file.Consistent entry) (offset : Int) (whence : Whence) {pos : Nat}
    (hPos : (smemfsLseek ⟨entry, flags, file.pos⟩ offset whence).2.pos = pos) :
    smemSeek file offset whence = (signed pos, { file with
      pos, curFrag := (seekFrag pos file.frags 0).1, fragPos := pos - (seekFrag pos file.frags 0).2 }) := by
  subst hPos
  unfold smemSeek smemfsLseek
  cases whence <;> rw [h.size_eq]

lemma smemfsLseek_le (filep : SmemfsFile) (offset : Int) (whence : Whence) :
    (smemfsLseek filep offset whence).2.pos ≤ filep.entry.fileSize := by
  have hClip : ∀ tmpPos size : Nat, (if tmpPos > size then size else tmpPos) ≤ size := by
    intro tmpPos size
    split <;> omega
  exact hClip _ _

lemma seek_together (h : file.Consistent entry) (offset : Int) (whence : Whence) :
    ∃ file' filep' answer, file.answer vol (.seek offset whence) = some (file', answer) ∧
      kernelAnswer vol ⟨entry, flags, file.pos⟩ (.seek offset whence) = some (filep', answer) ∧
        Together entry flags file' filep' := by
  have hLe := smemfsLseek_le ⟨entry, flags, file.pos⟩ offset whence
  have hSeek := smemSeek_eq flags h offset whence rfl
  refine ⟨(smemSeek file offset whence).2, (smemfsLseek ⟨entry, flags, file.pos⟩ offset whence).2,
    ([], (smemSeek file offset whence).1, (smemSeek file offset whence).2.pos), rfl, ?_, ?_, ?_⟩
  · rw [hSeek]
    rfl
  · rw [hSeek]
    exact ⟨h.frags_eq, h.size_eq, h.frags_eq ▸ seekFrag_at _ file.frags, hLe⟩
  · rw [hSeek]
    rfl

section

variable (hEntry : entry.WellFormed vol)
include hEntry

lemma cursor_byte (h : file.Consistent entry) (hPos : file.pos < entry.fileSize) :
    ∃ frag rest data, file.curFrag = frag :: rest ∧ vol.getFragData frag = some data ∧
      ((entry.bytes vol).drop file.pos).take 1 = [vol.rom (data + file.fragPos)] := by
  obtain ⟨_, _, _, hInside⟩ := h.designates
  have hAt := h.designates
  rw [hEntry.memory_eq] at hAt
  rw [hEntry.fileSize_eq] at hPos
  obtain ⟨front, mid, hFrags, hCur, hFront⟩ := hAt.split FragHeader.size_pos hPos.le
  cases mid with
  | nil =>
    have hSize : smemfsPrimGetFileSize entry.frags = total FragHeader.size front := by
      rw [hFrags, append_nil]
      rfl
    omega
  | cons frag mid =>
    have hMem : frag ∈ entry.frags := by
      rw [hFrags]
      exact mem_append_right _ mem_cons_self
    obtain ⟨data, hData⟩ := isSome_iff_exists.mp (hEntry.stored frag hMem)
    have hLt : file.fragPos < frag.size := hInside frag (by rw [hCur]; rfl)
    have hCopy : vol.copyFrag frag file.fragPos 1 = some (((vol.fragBytes frag).drop file.fragPos).take 1) :=
      SmemVolume.copyFrag_eq (hEntry.stored frag hMem) hLt
    have hOne : vol.copyFrag frag file.fragPos 1 = some [vol.rom (data + file.fragPos)] := by
      rw [SmemVolume.copyFrag, hData]
      rfl
    refine ⟨frag, _, data, hCur, hData, ?_⟩
    rw [← some.inj (hCopy.symm.trans hOne), ← hFront, SmemEntry.bytes, hFrags, SmemVolume.drop_fileBytes]
    have hBytes : vol.fileBytes (frag :: mid) = vol.fragBytes frag ++ vol.fileBytes mid := flatMap_cons
    rw [hBytes, drop_append_of_le_length (by rw [SmemVolume.length_fragBytes]; omega),
      take_append_of_le_length (by rw [length_drop, SmemVolume.length_fragBytes]; omega)]

section

variable (hSize : entry.fileSize < 2 ^ 31) (hFlags : flags &&& O_RDONLY ≠ 0)
include hSize hFlags

lemma readchar_together (h : file.Consistent entry) :
    ∃ file' filep' answer, file.answer vol .readchar = some (file', answer) ∧
      kernelAnswer vol ⟨entry, flags, file.pos⟩ .readchar = some (filep', answer) ∧ Together entry flags file' filep' := by
  have hKernel := smemfsRead_eq hEntry hSize hFlags h.pos_le 1
  rcases h.pos_le.lt_or_eq with hMore | hEnd
  · obtain ⟨frag, _, _, hCur, hData, hByte⟩ := cursor_byte hEntry h hMore
    have hMin : min (entry.fileSize - file.pos) 1 = 1 := by omega
    rw [hMin, hByte] at hKernel
    have hAt := h.designates
    rw [hCur] at hAt
    have hStep := hAt.step FragHeader.size_pos
    have hNotEnd : ¬ file.pos ≥ file.size := by
      rw [h.size_eq]
      omega
    simp only [SmemFile.answer, smemReadchar, if_neg hNotEnd, hCur, hData, map_some, kernelAnswer, hKernel]
    by_cases hLast : file.fragPos + 1 > frag.dataSize
    · rw [if_neg (by rw [FragHeader.size]; omega)] at hStep
      rw [if_pos hLast]
      exact ⟨_, _, _, rfl, rfl, ⟨h.frags_eq, h.size_eq, hStep, hMore⟩, rfl⟩
    · rw [if_pos (by rw [FragHeader.size]; omega)] at hStep
      rw [if_neg hLast]
      exact ⟨_, _, _, rfl, rfl, ⟨h.frags_eq, h.size_eq, hStep, hMore⟩, rfl⟩
  · have hMin : min (entry.fileSize - file.pos) 1 = 0 := by omega
    have hStop : file.pos ≥ file.size := by
      rw [h.size_eq]
      exact hEnd.ge
    rw [hMin] at hKernel
    simp only [SmemFile.answer, smemReadchar, if_pos hStop, map_some, kernelAnswer, hKernel, SmemfsFile.orEnd]
    exact ⟨_, _, _, rfl, by simp [hEnd], h, rfl⟩

lemma read_together (h : file.Consistent entry) (len : Nat) :
    ∃ file' filep' answer, file.answer vol (.read len) = some (file', answer) ∧
      kernelAnswer vol ⟨entry, flags, file.pos⟩ (.read len) = some (filep', answer) ∧
        Together entry flags file' filep' := by
  have hKernel := smemfsRead_eq hEntry hSize hFlags h.pos_le len
  rcases h.pos_le.lt_or_eq with hMore | hEnd
  · have hNotEnd : ¬ file.pos ≥ entry.fileSize := by omega
    have hAt := h.designates
    rw [hEntry.memory_eq] at hAt
    have hFits : file.pos + min (entry.fileSize - file.pos) len ≤ entry.fileSize := by omega
    obtain ⟨_, _, hRead, hNext⟩ := SmemVolume.readFrags_at (n := file.pos + min (entry.fileSize - file.pos) len)
      (Nat.lt_of_le_of_lt hFits hSize) (Nat.le_add_right _ _) hEntry.stored (hEntry.fileSize_eq ▸ hFits) hAt
    -- the loop is asked for the bytes up to the end of the file at most
    have hBytes : ((entry.bytes vol).drop file.pos).take
        (file.pos + min (entry.fileSize - file.pos) len - file.pos) = ((entry.bytes vol).drop file.pos).take len := by
      rw [Nat.add_sub_cancel_left, ← hEntry.length_bytes, ← length_drop, Nat.min_comm, ← take_eq_take_min]
    rw [← SmemEntry.bytes, hBytes] at hRead
    have hRet : signed (min (entry.fileSize - file.pos) len) = (min (entry.fileSize - file.pos) len : Nat) :=
      signed_of_lt (by omega)
    have hReport : SmemfsFile.orEnd ⟨entry, flags, file.pos⟩ (min (entry.fileSize - file.pos) len : Nat)
        (min (entry.fileSize - file.pos) len : Nat) = (min (entry.fileSize - file.pos) len : Nat) :=
      if_neg fun hAll => hMore.ne hAll.2
    simp only [SmemFile.answer, smemRead, h.size_eq, if_neg hNotEnd, hRead, map_some, kernelAnswer, hKernel, hRet, hReport]
    refine ⟨_, _, _, rfl, rfl, ⟨h.frags_eq, rfl, ?_, hFits⟩, rfl⟩
    rw [hEntry.memory_eq]
    exact hNext
  · have hMin : min (entry.fileSize - file.pos) len = 0 := by omega
    have hStop : file.pos ≥ file.size := by
      rw [h.size_eq]
      exact hEnd.ge
    have hNone : ((entry.bytes vol).drop file.pos).take len = [] := by
      rw [drop_eq_nil_of_le (by rw [hEntry.length_bytes]; omega), take_nil]
    rw [hMin, hNone] at hKernel
    simp only [SmemFile.answer, smemRead, if_pos hStop, map_some, kernelAnswer, hKernel, SmemfsFile.orEnd]
    exact ⟨_, _, _, rfl, by simp [hEnd], h, rfl⟩

lemma calls_together (file : SmemFile) (filep : SmemfsFile) (call : SmemCall) (h : Together entry flags file filep) :
    ∃ file' filep' answer, file.answer vol call = some (file', answer) ∧
      kernelAnswer vol filep call = some (filep', answer) ∧ Together entry flags file' filep' := by
  obtain ⟨hConsistent, rfl⟩ := h
  cases call with
  | seek offset whence => exact seek_together hConsistent offset whence
  | read len => exact read_together hEntry hSize hFlags hConsistent len
  | readchar => exact readchar_together hEntry hSize hFlags hConsistent

end

end

lemma answer_large (hLarge : 2 ^ 31 ≤ entry.fileSize) : (smemFileOf entry).answer vol (.read entry.fileSize) =
      some (⟨entry.memory, entry.fileSize, entry.fileSize, entry.memory, 0⟩, [], signed entry.fileSize, entry.fileSize) := by
  have hEnd : ¬ signed 0 < signed entry.fileSize := not_signed_lt (by decide) hLarge entry.fileSize_lt
  have hStart : ¬ 0 ≥ entry.fileSize := by omega
  simp only [SmemFile.answer, smemRead, smemFileOf, if_neg hStart, Nat.sub_zero, Nat.min_self, Nat.zero_add,
    SmemVolume.readFrags_end hEnd, map_some]

end

/-- The boot loader answers every sequence of calls as the kernel does and keeps its cursor at its position, just when
the size of the file is that of a signed word. -/
theorem smem_cursor_tracks_iff (vol : SmemVolume) (entry : SmemEntry) (hEntry : entry.WellFormed vol) (flags : BitVec 32)
    (hFlags : flags &&& O_RDONLY ≠ 0) : (∀ calls, Tracks vol entry flags calls) ↔ entry.fileSize < 2 ^ 31 := by
  constructor
  · intro hTracks
    by_contra hSize
    have hLarge : 2 ^ 31 ≤ entry.fileSize := Nat.not_lt.mp hSize
    obtain ⟨file, filep, answers, hRun, _, hConsistent⟩ := hTracks [.read entry.fileSize]
    simp only [runOut, answer_large hLarge, bind_eq_bind, bind_some] at hRun
    cases hRun
    -- the fragment and the offset are still those of the first byte
    have hZero : At FragHeader.size entry.memory 0 entry.memory 0 := at_here fun frag _ => frag.size_pos
    have hSame : entry.fileSize = 0 := hConsistent.designates.pos_unique hZero
    omega
  · intro hSize calls
    obtain ⟨file, filep, answers, hRun, hKernel, hLast⟩ := runOut_agree
      (calls_together hEntry hSize hFlags) calls (smemFileOf entry) ⟨entry, flags, 0⟩ ⟨smemFileOf_consistent entry, rfl⟩
    exact ⟨file, filep, answers, hRun, hKernel, hLast.1⟩

theorem smem_cursor_tracks_twoFragments : twoFragments.WellFormed twoBlocks ∧ twoFragments.fileSize = 5 ∧
    ∀ calls, Tracks twoBlocks twoFragments O_RDONLY calls := by
  have hEntry : twoFragments.WellFormed twoBlocks := ⟨rfl, by decide, by decide⟩
  exact ⟨hEntry, by decide, (smem_cursor_tracks_iff _ _ hEntry O_RDONLY (by decide)).mpr (by decide)⟩

/-- Both return `-2 ^ 31` and have copied nothing, but the boot loader has moved and the kernel has not. -/
theorem large_read_diverges : largeEntry.WellFormed twoBlocks ∧
    ((smemFileOf largeEntry).answer twoBlocks (.read (2 ^ 31))).map Prod.snd = some ([], -2 ^ 31, 2 ^ 31) ∧
    (kernelAnswer twoBlocks ⟨largeEntry, O_RDONLY, 0⟩ (.read (2 ^ 31))).map Prod.snd = some ([], -2 ^ 31, 0) := by
  refine ⟨largeEntry_wellFormed, ?_, ?_⟩
  · have hAnswer : (smemFileOf largeEntry).answer twoBlocks (.read largeEntry.fileSize) = _ :=
      answer_large largeEntry_fileSize.ge
    rw [largeEntry_fileSize] at hAnswer
    rw [hAnswer]
    rfl
  · rw [kernelAnswer, smemfsRead_largeEntry]
    rfl

end Fixos.Bootloader
