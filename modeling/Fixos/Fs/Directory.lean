import Mathlib.Algebra.Order.BigOperators.Group.List
import Mathlib.Algebra.Order.Ring.Nat
import Fixos.Lib.Bytes
import Fixos.Lib.Word
import Fixos.Fs.File
import Fixos.Fs.PathLookup

/-! # Reading directories (`fs/vfs_directory.c`)

A file system finds the next sibling from what the inode of a child says, its number and its parent or its header.
-/

namespace Fixos.Fs

open Bytes MountTree Word List Option

def protofsFirstChild (page : Nat → ProtofsNode) (typeParent : Bool) (node : Nat) : Option Nat :=
  if typeParent then
    let parent := if node = protofsRootNode then none else some node
    (range protofsPerPage).find? fun i => !(page i).typeEmpty && (page i).parent = parent
  else none

def protofsNextSibling (page : Nat → ProtofsNode) (node parent : Nat) : Option Nat :=
  if node ≠ protofsRootNode then
    let parent := if parent = protofsRootNode then none else some parent
    -- the search starts behind the node
    ((range protofsPerPage).drop (node + 1)).find? fun i => !(page i).typeEmpty && (page i).parent = parent
  else none

/-- The search starts at the first header, or behind the one that is given. -/
def smemfsPrimGetNextChild (headers : List SmemHeader) (prev : Option SmemHeader) (parentDir : Nat) : Option SmemHeader :=
  (prev.elim headers fun prev => (headers.dropWhile (· ≠ prev)).tail).find? fun header =>
    !header.deleted && header.parentId = parentDir

def smemfsFirstChild (headers : List SmemHeader) (typeParent : Bool) (node : Nat) : Option Nat :=
  if typeParent then (smemfsPrimGetNextChild headers none (node % 2 ^ 16)).map SmemHeader.fullNodeId else none

def smemfsNextSibling (headers : List SmemHeader) (node parent : Nat) (abstract : Option SmemHeader) : Option Nat :=
  if node ≠ smemfsFileRootId then (smemfsPrimGetNextChild headers abstract (parent % 2 ^ 16)).map SmemHeader.fullNodeId
  else none

def FsData.firstChild (target : VfsInode) : FsData → Option Nat
  | .protofs page => protofsFirstChild page target.typeFlags.parent target.node
  | .smemfs headers => smemfsFirstChild headers target.typeFlags.parent target.node

def FsData.nextSibling (target : VfsInode) : FsData → Option Nat
  | .protofs page => protofsNextSibling page target.node target.parent
  | .smemfs headers => smemfsNextSibling headers target.node target.parent target.abstract

def FsData.children (node : Nat) : FsData → List Nat
  | .protofs page => (range protofsPerPage).filter fun i =>
      !(page i).typeEmpty && (page i).parent = if node = protofsRootNode then none else some node
  | .smemfs headers => (headers.filter fun header =>
      !header.deleted && header.parentId = node % 2 ^ 16).map SmemHeader.fullNodeId

/-- Names fit into their fields, and no two entries of one type have one number. -/
def FsData.Listable : FsData → Prop
  | .protofs page => ∀ i < protofsPerPage, (page i).typeEmpty = false → (page i).name.length < protofsMaxName
  | .smemfs headers => (∀ header ∈ headers, header.name.length = 12) ∧
      ((headers.filter fun header => !header.deleted).map fun header => (header.type, header.entryId)).Nodup

section

lemma find?_behind {α : Type} [DecidableEq α] {l front rest : List α} {x : α} {p : α → Bool}
    (hNodup : (l.filter p).Nodup) (h : l.filter p = front ++ x :: rest) :
    (l.dropWhile (· ≠ x)).tail.find? p = rest.head? := by
  induction l generalizing front with
  | nil => exact absurd h (by simp)
  | cons a l ih =>
    by_cases hx : a = x
    · subst hx
      have hPass : p a = true := (mem_filter.mp (by rw [h]; simp : a ∈ (a :: l).filter p)).2
      rw [dropWhile_cons_of_neg (by simp), tail_cons]
      rw [filter_cons_of_pos hPass] at h hNodup
      -- `x` is not in the front, since it is the first
      cases front with
      | nil =>
        rw [nil_append, cons.injEq] at h
        rw [← h.2, head?_filter]
      | cons b front =>
        rw [cons_append, cons.injEq] at h
        refine absurd ?_ (nodup_cons.mp hNodup).1
        rw [h.2]
        simp
    · rw [dropWhile_cons_of_pos (by simpa using hx)]
      by_cases hPass : p a = true
      · rw [filter_cons_of_pos hPass] at h hNodup
        cases front with
        | nil =>
          rw [nil_append, cons.injEq] at h
          exact absurd h.1 hx
        | cons b front =>
          rw [cons_append, cons.injEq] at h
          exact ih (nodup_cons.mp hNodup).2 h.2
      · rw [filter_cons_of_neg hPass] at h hNodup
        exact ih hNodup h

lemma dropWhile_range {n x : Nat} (h : x < n) : ((range n).dropWhile (· ≠ x)).tail = (range n).drop (x + 1) := by
  have hSplit : range n = range x ++ x :: (range n).drop (x + 1) := by
    have hLength : x < (range n).length := by rwa [length_range]
    have hDrop : (range n).drop x = x :: (range n).drop (x + 1) := by
      rw [drop_eq_getElem_cons hLength, getElem_range]
    have hTake : (range n).take x = range x := by
      rw [take_range, Nat.min_eq_left h.le]
    rw [← hDrop, ← hTake, take_append_drop]
  have hBefore : ∀ i ∈ range x, decide (i ≠ x) = true := fun i hi =>
    decide_eq_true (Nat.ne_of_lt (mem_range.mp hi))
  rw [hSplit, dropWhile_append_of_pos hBefore, dropWhile_cons_of_neg (by simp), tail_cons, ← hSplit]

variable {fs : FsData} {node x p : Nat} {inode : VfsInode} {front rest : List Nat}

lemma mem_children_protofs {page : Nat → ProtofsNode} : x ∈ (FsData.protofs page).children node ↔
    x < protofsPerPage ∧ (page x).typeEmpty = false ∧ (page x).parent =
      if node = protofsRootNode then none else some node := by
  simp [FsData.children]

lemma mem_children_smemfs {headers : List SmemHeader} : x ∈ (FsData.smemfs headers).children node ↔
    ∃ header ∈ headers, header.deleted = false ∧ header.parentId = node % 2 ^ 16 ∧ header.fullNodeId = x := by
  simp only [FsData.children, List.mem_map, mem_filter, Bool.and_eq_true, Bool.not_eq_true', decide_eq_true_eq, and_assoc]

lemma FsData.children_handsOut (h : x ∈ fs.children node) : fs.HandsOut x := by
  cases fs with
  | protofs page =>
    obtain ⟨hLt, hUsed, _⟩ := mem_children_protofs.mp h
    exact Or.inr ⟨hLt, hUsed⟩
  | smemfs headers =>
    obtain ⟨header, hMem, hExists, _, hNode⟩ := mem_children_smemfs.mp h
    exact Or.inr ⟨header, hMem, hExists, hNode⟩

lemma FsData.children_parentOf (hLegible : fs.Legible) (h : x ∈ fs.children node) : (fs.parentOf x).isSome := by
  cases fs with
  | protofs page =>
    obtain ⟨hLt, _⟩ := mem_children_protofs.mp h
    simp [parentOf, protofsNodePtr_node hLt]
  | smemfs headers =>
    obtain ⟨_, hMem, hExists, _, rfl⟩ := mem_children_smemfs.mp h
    simp [parentOf, smemfsNodeHeader_self hLegible hMem hExists]

lemma FsData.firstChild_eq (hParent : inode.typeFlags.parent = true) : fs.firstChild inode =
    (fs.children inode.node).head? := by
  cases fs with
  | protofs page => rw [firstChild, protofsFirstChild, if_pos hParent, children, head?_filter]
  | smemfs headers =>
    rw [firstChild, smemfsFirstChild, if_pos hParent, children, head?_map, head?_filter]
    rfl

lemma FsData.Listable.filter_nodup {headers : List SmemHeader} (h : (FsData.smemfs headers).Listable) (parentDir : Nat) :
    (headers.filter fun header => !header.deleted && header.parentId = parentDir).Nodup := by
  have hExisting : (headers.filter fun header => !header.deleted).Nodup := h.2.of_map
  have hSplit : (headers.filter fun header => !header.deleted && header.parentId = parentDir) =
      (headers.filter fun header => !header.deleted).filter fun header => header.parentId = parentDir := by
    rw [List.filter_filter]
    exact filter_congr fun header _ => Bool.and_comm _ _
  rw [hSplit]
  exact hExisting.filter _

lemma FsData.Listable.children_nodup (h : fs.Listable) (hLegible : fs.Legible) (node : Nat) : (fs.children node).Nodup := by
  cases fs with
  | protofs page => exact nodup_range.filter _
  | smemfs headers =>
    refine List.Nodup.map_on (fun a ha b hb hSame => ?_) (h.filter_nodup _)
    simp only [mem_filter, Bool.and_eq_true, Bool.not_eq_true'] at ha hb
    -- the number leads back to the header
    have hBack := smemfsNodeHeader_self hLegible ha.1 ha.2.1
    rw [hSame, smemfsNodeHeader_self hLegible hb.1 hb.2.1] at hBack
    exact (some.inj (some.inj hBack)).symm

lemma FsData.Listable.nextSibling_eq (h : fs.Listable) (hLegible : fs.Legible)
    (hParent : ∀ p, fs.parentOf inode.node = some p → inode.parent = p)
    (hShown : (fs.attrs inode.node).Shown inode) (hChildren : fs.children node = front ++ inode.node :: rest) :
    fs.nextSibling inode = rest.head? := by
  have hMem : inode.node ∈ fs.children node := by
    rw [hChildren]
    simp
  cases fs with
  | protofs page =>
    obtain ⟨hLt, _, hOf⟩ := mem_children_protofs.mp hMem
    have hSame : (if inode.parent = protofsRootNode then none else some inode.parent) =
        if node = protofsRootNode then none else some node := by
      have hGiven := hParent ((page inode.node).parent.getD protofsRootNode) (by simp [parentOf, protofsNodePtr_node hLt])
      rw [hGiven, hOf]
      split
      · rfl
      · rename_i hNode
        rw [getD_some, if_neg hNode]
    rw [nextSibling, protofsNextSibling, if_pos (ne_protofsRootNode hLt)]
    rw [hSame, ← dropWhile_range hLt]
    exact find?_behind (nodup_range.filter _) hChildren
  | smemfs headers =>
    obtain ⟨_, _, hSplit, rfl, hRest⟩ := map_eq_append_iff.mp hChildren
    obtain ⟨header, _, rfl, hNode, rfl⟩ := map_eq_cons_iff.mp hRest
    obtain ⟨hHeader, hTest⟩ := mem_filter.mp (by rw [hSplit]; simp :
      header ∈ headers.filter fun header => !header.deleted && header.parentId = node % 2 ^ 16)
    simp only [Bool.and_eq_true, Bool.not_eq_true', decide_eq_true_eq] at hTest
    have hSelf := smemfsNodeHeader_self hLegible hHeader hTest.1
    have hNe : inode.node ≠ smemfsFileRootId := by
      rw [← hNode]
      exact SmemHeader.fullNodeId_ne_root (hLegible.1.1 header hHeader hTest.1)
    have hAbstract : inode.abstract = some header := by
      refine hShown.abstract header ?_
      rw [← hNode, attrs, hSelf]
      rfl
    have hMod : inode.parent % 2 ^ 16 = node % 2 ^ 16 := by
      rw [hParent header.parentNode (by simp [parentOf, ← hNode, hSelf]), ← hTest.2]
      exact SmemHeader.parentNode_mod (hLegible.2 header hHeader hTest.1).2
    rw [nextSibling, smemfsNextSibling, if_pos hNe, hAbstract, hMod, smemfsPrimGetNextChild, elim_some,
      find?_behind (h.filter_nodup _) hSplit, head?_map]

end

def vfsFirstChild (fs : FsTable) (c : VfsCache) (target : InodeRef) : Option (VfsCache × InodeRef) :=
  let inode := c.inode target
  if inode.typeFlags.parent then
    let real := if inode.typeFlags.mountpoint then inode.typespec else target
    ((fs (c.inode real).fsOp).firstChild (c.inode real)).elim (some (c, 0)) (vfsGetInode fs c (c.inode real).fsOp)
  else some (c, 0)

def vfsNextSibling (fs : FsTable) (c : VfsCache) (target : InodeRef) : Option (VfsCache × InodeRef) :=
  let inode := c.inode target
  if inode.typeFlags.root then some (c, 0)
  else ((fs inode.fsOp).nextSibling inode).elim (some (c, 0)) (vfsGetInode fs c inode.fsOp)

def nextEntry (fs : FsTable) (c : VfsCache) (swap : InodeRef) : Option (VfsCache × InodeRef) := do
  let (c, cur) ← vfsNextSibling fs c swap
  let c ← vfsReleaseInode c swap
  return (c, cur)

def skipEntries (fs : FsTable) : Nat → VfsCache → InodeRef → Option (VfsCache × InodeRef)
  | 0, c, cur => some (c, cur)
  | n + 1, c, cur =>
    if cur = 0 then some (c, 0)
    else do
      let (c, cur) ← nextEntry fs c cur
      skipEntries fs n c cur

structure Dirent where
  ino : Nat
  name : Bytes
deriving DecidableEq

def direntBaseSize : Nat := 9

def dtUnknown : UInt8 := 0

/-- The length with the end of the name and the alignment padding. -/
def Dirent.size (entry : Dirent) : Nat :=
  let dirlen := direntBaseSize + entry.name.length + 1
  if dirlen % 4 ≠ 0 then dirlen + (4 - dirlen % 4) else dirlen

def VfsInode.dirent (inode : VfsInode) : Dirent := ⟨inode.node, inode.name⟩

def Dirent.store (mem : ByteMemory) (curbuf : Nat) (entry : Dirent) : ByteMemory :=
  let mem := storeWord mem curbuf entry.ino
  let mem := storeWord mem (curbuf + 4) entry.size
  let mem := storeByte mem (curbuf + 8) dtUnknown
  storeBytes mem (curbuf + 9) (entry.name ++ [0])

structure DirCopy where
  cache : VfsCache
  cur : InodeRef
  pos : Nat
  mem : ByteMemory
  curlen : Nat

/-- The position is a word, so no directory has more entries. -/
def direntLimit : Nat := 2 ^ 32

/-- `curbuf` is `curlen` bytes behind the start of the buffer. -/
def copyEntries (fs : FsTable) (buf len : Nat) : Nat → DirCopy → Option DirCopy
  | 0, _ => none
  | fuel + 1, s =>
    if s.cur = 0 then some s
    else
      let entry := (s.cache.inode s.cur).dirent
      let curlen := Word.add s.curlen entry.size
      if curlen ≥ len then some s
      else do
        let mem := entry.store s.mem (buf + s.curlen)
        let (cache, cur) ← nextEntry fs s.cache s.cur
        copyEntries fs buf len fuel ⟨cache, cur, s.pos + 1, mem, curlen⟩

structure DirFile where
  inode : InodeRef
  pos : Nat
deriving DecidableEq

def vfsDirGetdents (fs : FsTable) (c : VfsCache) (filep : DirFile) (mem : ByteMemory) (buf len : Nat) :
    Option (VfsCache × DirFile × ByteMemory × Int) :=
  if filep.inode ≠ 0 ∧ (c.inode filep.inode).typeFlags.parent then do
    let (c, cur) ← vfsFirstChild fs c filep.inode
    let (c, cur) ← skipEntries fs filep.pos c cur
    if cur ≠ 0 then
      let s ← copyEntries fs buf len direntLimit ⟨c, cur, filep.pos, mem, 0⟩
      let c ← (if s.cur ≠ 0 then vfsReleaseInode s.cache s.cur else some s.cache)
      return (c, { filep with pos := s.pos }, s.mem, if s.curlen > 0 then Word.signed s.curlen else -EINVAL)
    else return (c, filep, mem, -EINVAL)
  else return (c, filep, mem, -EINVAL)

structure Dirent.At (entry : Dirent) (mem : ByteMemory) (a : Nat) : Prop where
  ino : loadWord mem a = entry.ino
  off : loadWord mem (a + 4) = entry.size
  type : mem (a + 8) = dtUnknown
  name : loadBytes mem (a + 9) (entry.name.length + 1) = entry.name ++ [0]

def HoldsDirents (mem : ByteMemory) : Nat → List Dirent → Prop
  | _, [] => True
  | a, entry :: entries => entry.At mem a ∧ HoldsDirents mem (a + entry.size) entries

def direntsSize (entries : List Dirent) : Nat := (entries.map Dirent.size).sum

section

variable {entry : Dirent} {entries : List Dirent} {mem mem' : ByteMemory} {a i : Nat}

lemma direntsSize_cons : direntsSize (entry :: entries) = entry.size + direntsSize entries := sum_cons

lemma direntsSize_append (entries entries' : List Dirent) :
    direntsSize (entries ++ entries') = direntsSize entries + direntsSize entries' := by
  rw [direntsSize, map_append, sum_append]
  rfl

lemma Dirent.size_bounds (entry : Dirent) : entry.name.length + 10 ≤ entry.size ∧ entry.size ≤ entry.name.length + 13 := by
  unfold Dirent.size direntBaseSize
  dsimp only
  split <;> omega

lemma Dirent.store_of_out (h : i < a ∨ a + entry.size ≤ i) : entry.store mem a i = mem i := by
  have hSize := entry.size_bounds
  unfold Dirent.store
  rw [storeBytes_of_out (by rw [length_append, length_singleton]; omega), storeByte_of_ne (by omega),
    storeWord_of_out (by omega), storeWord_of_out (by omega)]

lemma Dirent.At.congr (h : entry.At mem a) (hSame : ∀ i, a ≤ i → i < a + entry.size → mem' i = mem i) : entry.At mem' a := by
  have hSize := entry.size_bounds
  constructor
  case ino =>
    rw [← h.ino]
    exact loadWord_congr fun i hLow hHigh => hSame i hLow (by omega)
  case off =>
    rw [← h.off]
    exact loadWord_congr fun i hLow hHigh => hSame i (by omega) (by omega)
  case type =>
    rw [← h.type]
    exact hSame _ (by omega) (by omega)
  case name =>
    rw [← h.name]
    exact loadBytes_congr fun i hLow hHigh => hSame i (by omega) (by omega)

lemma Dirent.store_at (hIno : entry.ino < 2 ^ 32) (hSize : entry.size < 2 ^ 32) : entry.At (entry.store mem a) a := by
  unfold Dirent.store
  constructor
  case ino =>
    rw [loadWord_congr fun i hLow hHigh => storeBytes_of_out (by omega), loadWord_storeByte_of_out (by omega),
      loadWord_storeWord_of_out (by omega), loadWord_storeWord hIno]
  case off =>
    rw [loadWord_congr fun i hLow hHigh => storeBytes_of_out (by omega), loadWord_storeByte_of_out (by omega),
      loadWord_storeWord hSize]
  case type =>
    rw [storeBytes_of_out (by omega)]
    exact if_pos rfl
  case name =>
    have hLength : entry.name.length + 1 = (entry.name ++ [0]).length := by
      rw [length_append, length_singleton]
    rw [hLength, loadBytes_storeBytes]

end

def FsData.direntOf (fs : FsData) (x : Nat) : Dirent := ⟨x, (fs.attrs x).name⟩

def FsData.dirents (fs : FsData) (node : Nat) : List Dirent := (fs.children node).map fs.direntOf

variable {fs : FsData} {node : Nat}

section

variable (h : fs.Listable) (hLegible : fs.Legible)
include h hLegible

lemma FsData.Listable.child_bounds {x : Nat} (hx : x ∈ fs.children node) :
    x < 2 ^ 18 ∧ (fs.attrs x).name.length < protofsMaxName := by
  cases fs with
  | protofs page =>
    obtain ⟨hLt, hUsed, _⟩ := mem_children_protofs.mp hx
    refine ⟨?_, ?_⟩
    · simp only [protofsPerPage] at hLt
      omega
    · rw [attrs, protofsNodePtr_node hLt]
      exact h x hLt hUsed
  | smemfs headers =>
    obtain ⟨header, hMem, hExists, _, rfl⟩ := mem_children_smemfs.mp hx
    refine ⟨?_, ?_⟩
    · have hId := hLegible.1.1 header hMem hExists
      rw [SmemHeader.fullNodeId_eq hId]
      simp only [smemfsFileRootId, fileFlagIsdir] at hId ⊢
      split <;> omega
    · rw [attrs, smemfsNodeHeader_self hLegible hMem hExists]
      have hName : (smemfsPrimGetFileName header).length ≤ header.name.length :=
        Nat.le_trans (IsPrefix.length_le <| takeWhile_prefix _) (length_filter_le _ _)
      rw [h.1 header hMem] at hName
      exact Nat.lt_of_le_of_lt hName (by decide)

lemma FsData.Listable.dirent_bounds {entry : Dirent} (hEntry : entry ∈ fs.dirents node) :
    entry.ino < 2 ^ 32 ∧ entry.size ≤ 28 := by
  obtain ⟨x, hx, rfl⟩ := mem_map.mp hEntry
  obtain ⟨_, hName⟩ := h.child_bounds hLegible hx
  have hSize := (fs.direntOf x).size_bounds
  simp only [protofsMaxName] at hName
  dsimp only [direntOf] at hSize ⊢
  omega

lemma FsData.Listable.direntsSize_lt (node : Nat) :
    (fs.dirents node).length < direntLimit ∧ direntsSize (fs.dirents node) < 2 ^ 31 := by
  have hSub : fs.children node ⊆ range (2 ^ 18) := fun x hx => mem_range.mpr (h.child_bounds hLegible hx).1
  have hCount := (subperm_of_subset (h.children_nodup hLegible node) hSub).length_le
  rw [length_range] at hCount
  have hLength : (fs.dirents node).length = (fs.children node).length := length_map _
  have hSum : direntsSize (fs.dirents node) ≤ (fs.dirents node).length * 28 := by
    have hLe := sum_le_card_nsmul ((fs.dirents node).map Dirent.size) 28 fun n hn => by
      obtain ⟨_, hEntry, rfl⟩ := mem_map.mp hn
      exact (h.dirent_bounds hLegible hEntry).2
    rwa [length_map, Nat.nsmul_eq_mul] at hLe
  rw [hLength] at hSum ⊢
  refine ⟨?_, ?_⟩
  · simp only [direntLimit]
    omega
  · omega

end

end Fixos.Fs
