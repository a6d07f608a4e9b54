import Fixos.Lib.Records
import Fixos.Fs.Directory
import Fixos.Fs.SmemFile
import Fixos.Fs.SmemName

/-! # The table of the SMEM volume (`fs/casio_smemfs/smemfs_primitives_ng.c`)

An entry of the table is a header and one header for each fragment, all of one size.
-/

namespace Fixos.Fs

open Buffer Records List Option

/-- A slot of the table, read as the header of an entry (`struct smemfs_file_preheader`). -/
structure TableSlot where
  magic : UInt8
  type : UInt8
  entryId : UInt16
  parentId : UInt16
  name : List UInt16
  name_length : name.length = 12
deriving DecidableEq

def smemfsFileExists : UInt8 := 0x51

def smemfsFileDeleted : UInt8 := 0x01

def tableFormat : Format TableSlot where
  goesOn slot := slot.magic = smemfsFileExists || slot.magic = smemfsFileDeleted
  isTail slot := slot.type = smemfsFileFileFrag

abbrev SmemTable := Table tableFormat

/-- `smemfs_prim_get_atomic_file`; `frames` has what the stack holds where the name is compared with each header. -/
def primGetAtomicFile (frames : Nat → Bytes) (slots : List TableSlot) (filename : Bytes) (parentDir : UInt16) :
    Option (Option Nat) :=
  walk tableFormat (fun place slot =>
    if slot.magic = smemfsFileExists then
      if parentDir = slot.parentId then (cmpstr2fhnCall (frames place) filename slot.name .auto).map fun ret => ret = 0
      else some false
    else some false) slots false 0

def primGetNextChild (slots : List TableSlot) (parentDir : UInt16) (prev : Option Nat) : Option (Option Nat) :=
  walk tableFormat (fun _ slot => some (slot.magic = smemfsFileExists && slot.parentId = parentDir)) slots prev.isSome
    (prev.getD 0)

def copyName : List UInt16 → Bytes → Nat → Option (Bytes × Nat)
  | [], buffer, bpos => some (buffer, bpos)
  | c :: name, buffer, bpos =>
    if c.toUInt8 ≠ 0xFF then (store buffer bpos c.toUInt8).bind fun buffer => copyName name buffer (bpos + 1)
    else copyName name buffer bpos

/-- `smemfs_prim_get_file_name` with `CHAR_ASCII_AUTO`. -/
def primGetFileName (header : TableSlot) (buffer : Bytes) : Option Bytes :=
  (copyName header.name buffer 0).bind fun copied => store copied.1 copied.2 0

def stringOf (buffer : Bytes) : Bytes := buffer.takeWhile (· ≠ 0)

def TableSlot.lowName (slot : TableSlot) : Bytes := slot.name.map UInt16.toUInt8

def TableSlot.header (slot : TableSlot) : SmemHeader where
  deleted := slot.magic ≠ smemfsFileExists
  type := slot.type
  entryId := slot.entryId.toNat
  parentId := slot.parentId.toNat
  name := slot.lowName

def tableHeaders (table : SmemTable) : List SmemHeader := table.heads.map fun e => e.2.header

def tableChildren (table : SmemTable) (parentDir : UInt16) : List (Nat × TableSlot) :=
  table.heads.filter fun e => e.2.magic = smemfsFileExists && e.2.parentId = parentDir

/-- An ASCII name of at most eight characters and an extension of at most three, with 0xFF behind it. -/
structure Stored83 (name : Bytes) (header : TableSlot) : Prop where
  ascii : ∀ c ∈ name, 0 < c ∧ c < 128
  parts : ∃ base ext, DotSplit name base ext ∧ base.length ≤ 8 ∧ ext.length ≤ 4
  padded : header.lowName = name ++ replicate (12 - name.length) 0xFF

def TableSlot.sameName (slot other : TableSlot) : Bool := slot.lowName.map toLower = other.lowName.map toLower

section

variable (table : SmemTable)

lemma walk_refines {found : Nat → TableSlot → Option Bool} {p : SmemHeader → Bool}
    (hFound : ∀ e ∈ table.heads, found e.1 e.2 = some (p e.2.header)) :
    ∃ entry : Option (Nat × TableSlot), walk tableFormat found table.slots false 0 = some (entry.map Prod.fst) ∧
      (tableHeaders table).find? p = entry.map fun e => e.2.header := by
  refine ⟨table.heads.find? fun e => p e.2.header, walk_eq_find table hFound, ?_⟩
  rw [tableHeaders, find?_map]
  rfl

lemma header_deleted (slot : TableSlot) : (!slot.header.deleted) = decide (slot.magic = smemfsFileExists) := by
  have hNot : slot.header.deleted = decide (slot.magic ≠ smemfsFileExists) := rfl
  rw [hNot, decide_not, Bool.not_not]

lemma header_parentId (slot : TableSlot) (id : UInt16) :
    decide (id.toNat = slot.header.parentId) = decide (id = slot.parentId) :=
  decide_eq_decide.mpr UInt16.toNat_inj

lemma atomicTest_eq {frame filename : Bytes} (hFrame : frame.length = 13) (hNul : 0 ∉ filename) (parentDir : UInt16)
    (slot : TableSlot) :
    (if slot.magic = smemfsFileExists then
      if parentDir = slot.parentId then (cmpstr2fhnCall frame filename slot.name .auto).map fun ret => decide (ret = 0)
      else some false
    else some false) = some (decide (slot.magic = smemfsFileExists) &&
        (decide (parentDir = slot.parentId) && cmpstr2fhn filename slot.lowName)) := by
  by_cases hExists : slot.magic = smemfsFileExists
  · by_cases hParent : parentDir = slot.parentId
    · obtain ⟨ret, hCall, hZero⟩ := cmpstr2fhnCall_spec hNul hFrame slot.name
      have hTest : decide (ret = 0) = cmpstr2fhn filename slot.lowName := by
        rw [Bool.eq_iff_iff, decide_eq_true_iff]
        exact hZero
      rw [if_pos hExists, if_pos hParent, hCall, map_some, hTest, decide_eq_true hExists, decide_eq_true hParent,
        Bool.true_and, Bool.true_and]
    · rw [if_pos hExists, if_neg hParent, decide_eq_false hParent, Bool.false_and, Bool.and_false]
  · rw [if_neg hExists, decide_eq_false hExists, Bool.false_and]

lemma primGetAtomicFile_refines {frames : Nat → Bytes} (hFrames : ∀ place, (frames place).length = 13)
    {filename : Bytes} (hNul : 0 ∉ filename) (parentDir : UInt16) :
    ∃ entry : Option (Nat × TableSlot), primGetAtomicFile frames table.slots filename parentDir = some (entry.map Prod.fst) ∧
      smemfsPrimGetAtomicFile (tableHeaders table) filename parentDir.toNat = entry.map fun e => e.2.header := by
  refine walk_refines table fun e _ => ?_
  rw [atomicTest_eq (hFrames e.1) hNul, header_deleted, header_parentId]
  rfl

end

section

variable {buffer front name : Bytes} {slot other : TableSlot}

lemma copyName_spec (stored : List UInt16) (h : front <+: buffer) (hRoom : front.length + stored.length ≤ buffer.length) :
    ∃ buffer', copyName stored buffer front.length =
        some (buffer', (front ++ (stored.map UInt16.toUInt8).filter (· ≠ 0xFF)).length) ∧
      front ++ (stored.map UInt16.toUInt8).filter (· ≠ 0xFF) <+: buffer' ∧ buffer'.length = buffer.length := by
  induction stored generalizing buffer front with
  | nil => exact ⟨buffer, by rw [copyName]; simp, by simpa using h, rfl⟩
  | cons c stored ih =>
    rw [length_cons] at hRoom
    rw [copyName, map_cons]
    by_cases hFill : c.toUInt8 = 0xFF
    · rw [if_neg (not_not_intro hFill), filter_cons_of_neg (by simpa using hFill)]
      exact ih h (by omega)
    · obtain ⟨buffer₁, hStore, hFront, hLength⟩ := store_next h (by omega) c.toUInt8
      have hNext : (front ++ [c.toUInt8]).length = front.length + 1 := length_append
      obtain ⟨buffer', hCopy, hAll, hSame⟩ := ih hFront (by omega)
      rw [hNext, append_assoc, singleton_append] at hCopy
      rw [append_assoc, singleton_append] at hAll
      rw [if_pos hFill, hStore, bind_some, filter_cons_of_pos (by simpa using hFill)]
      exact ⟨buffer', hCopy, hAll, hSame.trans hLength⟩

lemma takeWhile_zero (front rest : Bytes) : (front ++ ([0] ++ rest)).takeWhile (· ≠ 0) = front.takeWhile (· ≠ 0) := by
  induction front with
  | nil => rfl
  | cons c front ih =>
    rw [cons_append, takeWhile_cons, takeWhile_cons, ih]

lemma primGetFileName_spec (slot : TableSlot) (hBuffer : 13 ≤ buffer.length) :
    ∃ buffer', primGetFileName slot buffer = some buffer' ∧ stringOf buffer' = smemfsPrimGetFileName slot.header := by
  have hEmpty : [] <+: buffer := nil_prefix
  obtain ⟨_, hCopy, hFront, _⟩ := copyName_spec slot.name hEmpty (by rw [slot.name_length]; simpa using by omega)
  rw [nil_append] at hCopy hFront
  rw [length_nil] at hCopy
  have hName : ((slot.name.map UInt16.toUInt8).filter (· ≠ 0xFF)).length ≤ 12 := by
    have hFilter := length_filter_le (· ≠ 0xFF) (slot.name.map UInt16.toUInt8)
    rw [length_map, slot.name_length] at hFilter
    exact hFilter
  obtain ⟨buffer', hStore, hAll, _⟩ := store_next hFront (by omega) 0
  refine ⟨buffer', ?_, ?_⟩
  · rw [primGetFileName, hCopy, bind_some]
    exact hStore
  · obtain ⟨_, rfl⟩ := hAll
    rw [stringOf, append_assoc, takeWhile_zero]
    rfl

section

variable (h : Stored83 name slot)
include h

lemma Stored83.shortName_eq : shortName name = name := by
  obtain ⟨_, _, hSplit, hBase, hExt⟩ := h.parts
  rw [Fs.shortName_eq hSplit, shortBase, if_neg hBase.not_gt, take_of_length_le hExt, ← hSplit.append]

lemma Stored83.paddedName_eq : paddedName name = slot.lowName.map toLower := by
  rw [h.padded, map_append, map_replicate]
  rfl

lemma Stored83.fileName : smemfsPrimGetFileName slot.header = name := by
  have hName : slot.header.name = name ++ replicate (12 - name.length) 0xFF := h.padded
  have hKept : name.filter (· ≠ 0xFF) = name := by
    refine filter_eq_self.mpr fun c hc => decide_eq_true ?_
    rintro rfl
    exact absurd (h.ascii _ hc).2 (by decide)
  have hFill : (replicate (12 - name.length) (0xFF : UInt8)).filter (· ≠ 0xFF) = [] :=
    filter_eq_nil_iff.mpr fun c hc => by simp [eq_of_mem_replicate hc]
  rw [smemfsPrimGetFileName, hName, filter_append, hKept, hFill, append_nil]
  refine takeWhile_eq_self_iff.mpr fun c hc => decide_eq_true ?_
  rintro rfl
  exact absurd (h.ascii _ hc).1 (by decide)

lemma Stored83.matches_iff : cmpstr2fhn name other.lowName = other.sameName slot := by
  have hLength : other.lowName.length = 12 := by
    rw [TableSlot.lowName, length_map, other.name_length]
  rw [Bool.eq_iff_iff, cmpstr2fhn_iff (fun c hc => (h.ascii c hc).2) hLength, h.shortName_eq, h.paddedName_eq,
    TableSlot.sameName, decide_eq_true_iff]

end

end

/-- The calls give the existing entries of a directory, each once and in order, and a name leads to the first with it.
-/
theorem children_and_names (table : SmemTable) (parentDir : UInt16) (frames : Nat → Bytes)
    (hFrames : ∀ place, (frames place).length = 13) :
    (∀ calls, (tableChildren table parentDir).length < calls → collect (primGetNextChild table.slots parentDir) calls none =
        some ((tableChildren table parentDir).map Prod.fst)) ∧
      (tableChildren table parentDir).Pairwise (·.1 < ·.1) ∧
      (∀ e ∈ tableChildren table parentDir, table.slots[e.1]? = some e.2) ∧
      ∀ e ∈ tableChildren table parentDir, ∀ name, Stored83 name e.2 → ∀ buffer : Bytes, 13 ≤ buffer.length →
        ∃ buffer', primGetFileName e.2 buffer = some buffer' ∧ stringOf buffer' = name ∧
          primGetAtomicFile frames table.slots (stringOf buffer') parentDir =
            some (((tableChildren table parentDir).find? fun e' => e'.2.sameName e.2).map Prod.fst) := by
  refine ⟨fun calls hCalls => ?_, table.heads_pairwise.filter _, fun e he => ?_, fun e he name hName buffer hBuffer => ?_⟩
  · exact collect_eq_filter table (fun _ _ => rfl) rfl (fun _ => rfl) hCalls
  · exact table.getElem?_head (mem_filter.mp he).1
  · obtain ⟨buffer', hCopy, hString⟩ := primGetFileName_spec e.2 hBuffer
    rw [hName.fileName] at hString
    refine ⟨buffer', hCopy, hString, ?_⟩
    have hNul : 0 ∉ name := fun hMem => absurd (hName.ascii 0 hMem).1 (by decide)
    rw [hString, primGetAtomicFile, walk_eq_find table fun e' _ => atomicTest_eq (hFrames e'.1) hNul parentDir e'.2,
      tableChildren, find?_filter]
    congr 3
    funext e'
    have hParent : decide (parentDir = e'.2.parentId) = decide (e'.2.parentId = parentDir) := decide_eq_decide.mpr eq_comm
    rw [hName.matches_iff, hParent, ← Bool.and_assoc, Bool.decide_and, Bool.decide_eq_true, Bool.decide_eq_true]

def rootSlot (magic type : UInt8) (entryId : UInt16) (name : List UInt16) (h : name.length ≤ 12) : TableSlot where
  magic := magic
  type := type
  entryId := entryId
  parentId := 0xFFFF
  name := name ++ replicate (12 - name.length) 0xFFFF
  name_length := by
    rw [length_append, length_replicate]
    omega

def threeEntries : SmemTable where
  records := [
    ⟨rootSlot 0x01 0x20 1 [65] (by decide), [rootSlot 0x01 0x30 1 [] (by decide), rootSlot 0x01 0x30 2 [] (by decide)],
      by decide, by decide, by decide⟩,
    ⟨rootSlot 0x51 0x10 1 [66] (by decide), [], by decide, by decide, by decide⟩,
    ⟨rootSlot 0x51 0x20 2 [97] (by decide), [rootSlot 0x51 0x30 1 [] (by decide)], by decide, by decide, by decide⟩]
  stop := rootSlot 0xFF 0xFF 0xFFFF [] (by decide)
  behind := []
  ends := by decide
  isHead := by decide

theorem children_and_names_threeEntries : tableChildren threeEntries 0xFFFF = [(3, rootSlot 0x51 0x10 1 [66] (by decide)),
      (4, rootSlot 0x51 0x20 2 [97] (by decide))] ∧
      collect (primGetNextChild threeEntries.slots 0xFFFF) 3 none = some [3, 4] ∧
      ∃ buffer', primGetFileName (rootSlot 0x51 0x20 2 [97] (by decide)) (replicate 13 0) = some buffer' ∧
        stringOf buffer' = [97] ∧
        primGetAtomicFile (fun _ => replicate 13 0) threeEntries.slots (stringOf buffer') 0xFFFF = some (some 4) := by
  have hChildren : tableChildren threeEntries 0xFFFF =
      [(3, rootSlot 0x51 0x10 1 [66] (by decide)), (4, rootSlot 0x51 0x20 2 [97] (by decide))] := by decide +kernel
  obtain ⟨hCollect, _, _, hNames⟩ := children_and_names threeEntries 0xFFFF (fun _ => replicate 13 0) fun _ => rfl
  have hName : Stored83 [97] (rootSlot 0x51 0x20 2 [97] (by decide)) :=
    ⟨by decide +kernel, ⟨[97], [], ⟨rfl, by decide, by decide +kernel⟩, by decide, by decide⟩, by decide⟩
  rw [hChildren] at hCollect hNames
  refine ⟨hChildren, hCollect 3 (by decide), ?_⟩
  obtain ⟨buffer', hCopy, hString, hFile⟩ := hNames (4, _) (mem_cons_of_mem _ mem_cons_self) [97] hName (replicate 13 0)
    (by decide)
  exact ⟨buffer', hCopy, hString, hFile.trans (by decide +kernel)⟩

end Fixos.Fs
