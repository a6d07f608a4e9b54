import Fixos.Lib.Chunks
import Fixos.Lib.Word

/-! # File data on the SMEM volume (`fs/casio_smemfs/smemfs_primitives_ng.c`, `fs/casio_smemfs/file.c`)

The data of a file lies in fragments, each somewhere in a block of the memory.
-/

namespace Fixos.Fs

open Word Chunks Option List

structure BlockEntry where
  blId : Nat
  relOffset : Nat

/-- `dataSize` is one less than the number of bytes. -/
structure FragHeader where
  dataBlockId : Nat
  dataOffset : Nat
  dataSize : Nat

/-- The table of blocks, and the memory from `_smemfs_base_address` on. -/
structure SmemVolume where
  blocks : List BlockEntry
  rom : Nat → UInt8

def FragHeader.size (frag : FragHeader) : Nat := frag.dataSize + 1

lemma FragHeader.size_pos (frag : FragHeader) : 0 < frag.size := Nat.succ_pos _

def smemfsPrimGetFileSize (frags : List FragHeader) : Nat := (frags.map FragHeader.size).sum

section

variable (vol : SmemVolume)

def SmemVolume.getBlockHeader (blockId : Nat) : Option BlockEntry :=
  vol.blocks.find? fun block => block.blId = blockId

def SmemVolume.getFragData (frag : FragHeader) : Option Nat :=
  (vol.getBlockHeader frag.dataBlockId).map fun block => block.relOffset + frag.dataOffset

def SmemVolume.copyFrag (frag : FragHeader) (pos n : Nat) : Option Bytes :=
  (vol.getFragData frag).map fun data => (range n).map fun i => vol.rom (data + pos + i)

/-- The loop that looks for the fragment of `atpos`: the fragments from there on, and the position
of the first. -/
def seekFrag (atpos : Nat) : List FragHeader → Nat → List FragHeader × Nat
  | [], posTmp => ([], posTmp)
  | frag :: rest, posTmp =>
    if posTmp + frag.size ≤ atpos then seekFrag atpos rest (posTmp + frag.size) else (frag :: rest, posTmp)

/-- The loop that reads up to the position `n`: the bytes, and where it ends. Its two positions are signed. -/
def SmemVolume.readFrags (n : Nat) : List FragHeader → Nat → Nat → Option (Bytes × List FragHeader × Nat)
  | [], posFrag, j => if signed j < signed n then none else some ([], [], posFrag)
  | frag :: rest, posFrag, j =>
    if signed j < signed n then
      let chunkSize := frag.size - posFrag
      let toread := if j + chunkSize < n then chunkSize else n - j
      (vol.copyFrag frag posFrag toread).bind fun bytes =>
        if toread = chunkSize then
          (SmemVolume.readFrags n rest 0 (j + toread)).map fun (more, cur) => (bytes ++ more, cur)
        else some (bytes, frag :: rest, posFrag + toread)
    else some ([], frag :: rest, posFrag)

def SmemVolume.readData (fileSize : Nat) (frags : List FragHeader) (len atpos : Nat) : Option Bytes :=
  let maxRead := min (sub fileSize atpos) len
  let (frag, posTmp) := seekFrag atpos frags 0
  (vol.readFrags (atpos + maxRead) frag (atpos - posTmp) atpos).map Prod.fst

def SmemVolume.smemfsReadData (frags : List FragHeader) (len atpos : Nat) : Option Bytes :=
  vol.readData (smemfsPrimGetFileSize frags) frags len atpos

end

inductive Whence where
  | seekSet
  | seekCur
  | seekEnd
  | other
deriving DecidableEq

/-- The sum of a position and an offset, for which `-offset` is compared as an unsigned word. -/
def seekFrom (base : Nat) (offset : Int) : Nat :=
  if ((-offset) % 2 ^ 32).toNat > base then 0 else ((base + offset) % 2 ^ 32).toNat

structure FragFile (vol : SmemVolume) where
  frags : List FragHeader
  stored : ∀ frag ∈ frags, (vol.getFragData frag).isSome
  size_lt : smemfsPrimGetFileSize frags < 2 ^ 31

def SmemVolume.fragBytes (vol : SmemVolume) (frag : FragHeader) : Bytes :=
  (range frag.size).map fun i => vol.rom ((vol.getFragData frag).getD 0 + i)

def SmemVolume.fileBytes (vol : SmemVolume) (frags : List FragHeader) : Bytes :=
  frags.flatMap vol.fragBytes

variable {vol : SmemVolume} {frags : List FragHeader}

@[simp] lemma SmemVolume.length_fragBytes (frag : FragHeader) : (vol.fragBytes frag).length = frag.size := by
  rw [fragBytes, length_map, length_range]

@[simp] lemma SmemVolume.length_fileBytes (frags : List FragHeader) :
    (vol.fileBytes frags).length = smemfsPrimGetFileSize frags := by
  rw [fileBytes, length_flatMap, smemfsPrimGetFileSize]
  simp [length_fragBytes]

lemma SmemVolume.copyFrag_eq {frag : FragHeader} (h : (vol.getFragData frag).isSome) {pos n : Nat}
    (hFit : pos + n ≤ frag.size) : vol.copyFrag frag pos n = some (((vol.fragBytes frag).drop pos).take n) := by
  obtain ⟨_, hData⟩ := isSome_iff_exists.mp h
  rw [copyFrag, hData, map_some, some_inj]
  refine ext_getElem? fun i => ?_
  rw [getElem?_take, getElem?_drop, fragBytes, hData]
  by_cases hi : i < n
  · rw [if_pos hi, getElem?_map, getElem?_map, getElem?_range hi,
      getElem?_range (by omega), map_some, map_some, getD_some, Nat.add_assoc]
  · rw [if_neg hi, getElem?_eq_none]
    rw [length_map, length_range]
    omega

lemma seekFrag_spec (atpos : Nat) (frags : List FragHeader) (posTmp : Nat) (h : posTmp ≤ atpos) :
    ∃ front, frags = front ++ (seekFrag atpos frags posTmp).1 ∧
      (seekFrag atpos frags posTmp).2 = posTmp + smemfsPrimGetFileSize front ∧
      (seekFrag atpos frags posTmp).2 ≤ atpos := by
  induction frags generalizing posTmp with
  | nil => exact ⟨[], rfl, rfl, h⟩
  | cons frag rest ih =>
    rw [seekFrag]
    split_ifs with hPast
    · obtain ⟨front, hRest, hPos, hLe⟩ := ih (posTmp + frag.size) hPast
      refine ⟨frag :: front, congrArg (frag :: ·) hRest, ?_, hLe⟩
      rw [hPos, smemfsPrimGetFileSize, smemfsPrimGetFileSize, map_cons, sum_cons, Nat.add_assoc]
    · exact ⟨[], rfl, rfl, h⟩

lemma seekFrag_inside (atpos : Nat) (frags : List FragHeader) (posTmp : Nat) :
    ∀ frag ∈ (seekFrag atpos frags posTmp).1.head?, atpos < (seekFrag atpos frags posTmp).2 + frag.size := by
  induction frags generalizing posTmp with
  | nil => simp [seekFrag]
  | cons frag rest ih =>
    rw [seekFrag]
    split_ifs with hHere
    · exact ih (posTmp + frag.size)
    · intro _ hFound
      cases hFound
      omega

lemma seekFrag_at (atpos : Nat) (frags : List FragHeader) :
    At FragHeader.size frags atpos (seekFrag atpos frags 0).1 (atpos - (seekFrag atpos frags 0).2) := by
  obtain ⟨front, hSplit, hPos, _⟩ := seekFrag_spec atpos frags 0 (Nat.zero_le _)
  have hInside := seekFrag_inside atpos frags 0
  rw [Nat.zero_add] at hPos
  refine ⟨front, hSplit, ?_, fun frag hFrag => ?_⟩
  · have hTotal : total FragHeader.size front = (seekFrag atpos frags 0).2 := hPos.symm
    omega
  · have := hInside frag hFrag
    omega

lemma SmemVolume.readFrags_end {n j : Nat} (h : ¬ signed j < signed n) (frags : List FragHeader) (posFrag : Nat) :
    vol.readFrags n frags posFrag j = some ([], frags, posFrag) := by
  cases frags <;> rw [readFrags, if_neg h]

/-- What follows the fragments does not matter. -/
lemma SmemVolume.readFrags_spec {n : Nat} (hn : n < 2 ^ 31) (frags behind : List FragHeader) (posFrag j : Nat)
    (hj : j ≤ n) (hStored : ∀ frag ∈ frags, (vol.getFragData frag).isSome)
    (hInside : ∀ frag ∈ (frags ++ behind).head?, posFrag < frag.size)
    (hEnough : posFrag + (n - j) ≤ smemfsPrimGetFileSize frags) :
    ∃ cur off, vol.readFrags n (frags ++ behind) posFrag j =
      some (((vol.fileBytes frags).drop posFrag).take (n - j), cur, off) ∧
        At FragHeader.size (frags ++ behind) (posFrag + (n - j)) cur off := by
  induction frags generalizing posFrag j with
  | nil =>
    have hDone : n = j := by
      rw [smemfsPrimGetFileSize, map_nil, sum_nil] at hEnough
      omega
    subst hDone
    refine ⟨behind, posFrag, ?_, ?_⟩
    · rw [nil_append, readFrags_end (Int.lt_irrefl _), Nat.sub_self, take_zero]
    · rw [Nat.sub_self]
      exact at_here hInside
  | cons frag rest ih =>
    obtain ⟨hFrag, hRest⟩ := forall_mem_cons.mp hStored
    have hPos : posFrag < frag.size := hInside frag rfl
    have hBytes : vol.fileBytes (frag :: rest) = vol.fragBytes frag ++ vol.fileBytes rest := flatMap_cons
    rw [smemfsPrimGetFileSize, map_cons, sum_cons, ← smemfsPrimGetFileSize] at hEnough
    have hSigned : signed j < signed n ↔ j < n := signed_lt_signed (Nat.lt_of_le_of_lt hj hn) hn
    by_cases hMore : j < n
    · rw [cons_append, readFrags, if_pos (hSigned.mpr hMore)]
      dsimp only
      have hLength : ((vol.fragBytes frag).drop posFrag).length = frag.size - posFrag := by
        rw [length_drop, length_fragBytes]
      have hDrop : (vol.fileBytes (frag :: rest)).drop posFrag =
          (vol.fragBytes frag).drop posFrag ++ vol.fileBytes rest := by
        rw [hBytes, drop_append_of_le_length (by rw [length_fragBytes]; omega)]
      have hNext : ∀ next ∈ (rest ++ behind).head?, 0 < next.size := fun next _ => next.size_pos
      by_cases hWhole : j + (frag.size - posFrag) < n
      · obtain ⟨cur, off, hRead, hAt⟩ := ih 0 (j + (frag.size - posFrag)) hWhole.le hRest hNext (by omega)
        have hChunk : ((vol.fragBytes frag).drop posFrag).take (frag.size - posFrag) =
            (vol.fragBytes frag).drop posFrag := take_of_length_le hLength.le
        have hAll : ((vol.fragBytes frag).drop posFrag).take (n - j) = (vol.fragBytes frag).drop posFrag :=
          take_of_length_le (by omega)
        have hEnd : posFrag + (n - j) = frag.size + (0 + (n - (j + (frag.size - posFrag)))) := by omega
        refine ⟨cur, off, ?_, hEnd ▸ hAt.cons frag⟩
        rw [if_pos hWhole, copyFrag_eq hFrag (by omega), bind_some, if_pos rfl, hRead, map_some,
          hDrop, take_append, hLength, hChunk, hAll, drop_zero, Nat.sub_sub]
      · rw [if_neg hWhole, copyFrag_eq hFrag (by omega), bind_some, hDrop, take_append_of_le_length (by omega)]
        split
        · obtain ⟨cur, off, hRead, hAt⟩ := ih 0 (j + (n - j)) (by omega) hRest hNext (by omega)
          have hDone : n - (j + (n - j)) = 0 := by omega
          have hEnd : posFrag + (n - j) = frag.size + (0 + (n - (j + (n - j)))) := by omega
          refine ⟨cur, off, ?_, hEnd ▸ hAt.cons frag⟩
          rw [hRead, map_some, hDone, take_zero, append_nil]
        · refine ⟨_, _, rfl, at_here fun next hHead => ?_⟩
          rw [head?_cons, mem_some] at hHead
          rw [← hHead]
          omega
    · rw [readFrags_end fun hLess => hMore (hSigned.mp hLess), Nat.sub_eq_zero_of_le (Nat.not_lt.mp hMore), take_zero]
      exact ⟨_, _, rfl, at_here hInside⟩

lemma SmemVolume.drop_fileBytes (vol : SmemVolume) (front rest : List FragHeader) (off : Nat) :
    (vol.fileBytes (front ++ rest)).drop (total FragHeader.size front + off) = (vol.fileBytes rest).drop off := by
  have hBytes : vol.fileBytes (front ++ rest) = vol.fileBytes front ++ vol.fileBytes rest := flatMap_append
  have hFront : total FragHeader.size front = (vol.fileBytes front).length := (length_fileBytes front).symm
  rw [hBytes, hFront, ← drop_drop, drop_left]

lemma SmemVolume.readFrags_at {behind cur : List FragHeader} {atpos n off : Nat} (hn : n < 2 ^ 31) (hLe : atpos ≤ n)
    (hStored : ∀ frag ∈ frags, (vol.getFragData frag).isSome) (hEnd : n ≤ smemfsPrimGetFileSize frags)
    (hAt : At FragHeader.size (frags ++ behind) atpos cur off) :
    ∃ cur' off', vol.readFrags n cur off atpos = some (((vol.fileBytes frags).drop atpos).take (n - atpos), cur', off') ∧
      At FragHeader.size (frags ++ behind) n cur' off' := by
  have hInside : ∀ frag ∈ cur.head?, off < frag.size := by
    obtain ⟨_, _, _, hInside⟩ := hAt
    exact hInside
  obtain ⟨front, mid, rfl, rfl, rfl⟩ := hAt.split FragHeader.size_pos (hLe.trans hEnd)
  have hSize : smemfsPrimGetFileSize (front ++ mid) = total FragHeader.size front + smemfsPrimGetFileSize mid :=
    total_append front mid
  obtain ⟨cur', off', hRead, hAt'⟩ := readFrags_spec hn mid behind off (total FragHeader.size front + off) hLe
    (fun frag hFrag => hStored frag (mem_append_right _ hFrag)) hInside (by omega)
  have hPos : total FragHeader.size front + (off + (n - (total FragHeader.size front + off))) = n := by omega
  refine ⟨cur', off', ?_, ?_⟩
  · rw [hRead, drop_fileBytes]
  · rw [append_assoc, ← hPos]
    exact hAt'.append_left front

lemma SmemVolume.readData_eq (behind : List FragHeader) (hStored : ∀ frag ∈ frags, (vol.getFragData frag).isSome)
    (hSize : smemfsPrimGetFileSize frags < 2 ^ 31) (len : Nat) {atpos : Nat} (h : atpos ≤ smemfsPrimGetFileSize frags) :
    vol.readData (smemfsPrimGetFileSize frags) (frags ++ behind) len atpos =
      some (((vol.fileBytes frags).drop atpos).take len) := by
  have hMax : sub (smemfsPrimGetFileSize frags) atpos = smemfsPrimGetFileSize frags - atpos := sub_of_le h (by omega)
  have hLen : atpos + min (smemfsPrimGetFileSize frags - atpos) len - atpos =
      min (smemfsPrimGetFileSize frags - atpos) len := by omega
  rw [readData, hMax]
  dsimp only
  obtain ⟨_, _, hRead, _⟩ := readFrags_at (n := atpos + min (smemfsPrimGetFileSize frags - atpos) len) (by omega)
    (by omega) hStored (by omega) (seekFrag_at atpos (frags ++ behind))
  rw [hRead, map_some, hLen, ← length_fileBytes, ← length_drop, Nat.min_comm, ← take_eq_take_min]

lemma SmemVolume.smemfsReadData_eq (file : FragFile vol) (len : Nat) {atpos : Nat}
    (h : atpos ≤ smemfsPrimGetFileSize file.frags) :
    vol.smemfsReadData file.frags len atpos = some (((vol.fileBytes file.frags).drop atpos).take len) := by
  have hRead := readData_eq [] file.stored file.size_lt len h
  rwa [append_nil] at hRead

end Fixos.Fs
