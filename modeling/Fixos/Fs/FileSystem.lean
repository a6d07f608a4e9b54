import Mathlib.Data.Nat.Bitwise
import Fixos.Fs.VfsCache

/-! # The nodes of a file system (`fs/protofs/file_system.c`, `fs/casio_smemfs/file_system.c`)

Protofs has a page of nodes with the number of their parent, and smemfs a table of headers.
-/

namespace Fixos.Fs

def inodeFlagRead : BitVec 32 := 4#32
def inodeFlagWrite : BitVec 32 := 2#32
def inodeFlagExec : BitVec 32 := 1#32

def rootTypeFlags : TypeFlags := ⟨true, false, true, false⟩

def protofsPerPage : Nat := 36

def protofsMaxName : Nat := 16

def protofsRootNode : Nat := 0xFFFFFFFF

/-- `parent` is the number of the node that the pointer leads to, `none` for `NULL`. -/
structure ProtofsNode where
  name : Bytes
  parent : Option Nat
  typeFlags : TypeFlags
  typeEmpty : Bool
  mode : BitVec 32
  dev : Nat

def protofsNodePtr (node : Nat) : Option (Option Nat) :=
  if node = protofsRootNode then some none
  else if node < protofsPerPage then some (some node)
  else none

def protofsFillInode (page : Nat → ProtofsNode) (inst : Nat) (node : Option Nat) (ret : VfsInode) : VfsInode :=
  match node with
  | none =>
    -- neither the parent nor the mount point is set
    { ret with
      fsOp := inst
      typeFlags := rootTypeFlags
      node := protofsRootNode
      flags := inodeFlagRead ||| inodeFlagWrite ||| inodeFlagExec
      name := []
      abstract := none }
  | some i =>
    { ret with
      fsOp := inst
      typeFlags := (page i).typeFlags
      typespec := if (page i).typeFlags.dev then (page i).dev else ret.typespec
      node := i
      parent := (page i).parent.getD protofsRootNode
      flags := (page i).mode
      name := (page i).name
      abstract := if (page i).typeFlags.dev then ret.abstract else none }

/-- The target is given by its flag `INODE_TYPE_PARENT` and its number. -/
def protofsFindSubNode (page : Nat → ProtofsNode) (typeParent : Bool) (node : Nat) (name : Bytes) : Option Nat :=
  if typeParent then
    let parent := if node = protofsRootNode then none else some node
    (List.range protofsPerPage).find? fun i =>
      !(page i).typeEmpty && ((page i).parent = parent && (page i).name = name)
  else none

def smemfsFileDir : UInt8 := 0x10

def smemfsFileFileH : UInt8 := 0x20

def smemfsFileRootId : Nat := 0xFFFF

def smemfsInvalidNode : Nat := 0xFFFFFFFF

def fileFlagIsdir : Nat := 0x20000

def SmemHeader.fullNodeId (header : SmemHeader) : Nat :=
  header.entryId ||| (if header.type = smemfsFileDir then fileFlagIsdir else 0)

def toUpper (c : UInt8) : UInt8 := if 97 ≤ c ∧ c ≤ 122 then c - 97 + 65 else c

def toLower (c : UInt8) : UInt8 := if 65 ≤ c ∧ c ≤ 90 then c - 65 + 97 else c

/-- The name in the form of the table: eight characters, or six and a tilde, and the extension with
its dot. -/
def shortName (str : Bytes) : Bytes :=
  let base := str.takeWhile (· ≠ 46)
  (if base.length > 8 then base.take 6 ++ [126, 49] else base) ++ (str.drop base.length).take 4

/-- The characters of `str` are signed, so none above 127 is equal to one of the table. -/
def cmpstr2fhn (str fileName : Bytes) : Bool :=
  let s := shortName str
  (List.range 12).all fun i =>
    match s[i]? with
    | some c => c < 128 && (toUpper c = fileName.getD i 0 || toLower c = fileName.getD i 0)
    | none => fileName.getD i 0 = 0xFF

def smemfsPrimGetAtomicFile (headers : List SmemHeader) (filename : Bytes) (parentDir : Nat) :
    Option SmemHeader :=
  headers.find? fun header =>
    !header.deleted && (parentDir = header.parentId && cmpstr2fhn filename header.name)

def smemfsPrimGetFileById (headers : List SmemHeader) (entryId : Nat) (isdir : Bool) : Option SmemHeader :=
  headers.find? fun header =>
    !header.deleted && (header.type = (if isdir then smemfsFileDir else smemfsFileFileH) &&
      header.entryId = entryId)

def smemfsNodeHeader (headers : List SmemHeader) (lnode : Nat) : Option (Option SmemHeader) :=
  if lnode = smemfsInvalidNode then none
  else if lnode % 2 ^ 16 ≠ smemfsFileRootId then
    (smemfsPrimGetFileById headers (lnode % 2 ^ 16) (lnode &&& fileFlagIsdir ≠ 0)).map some
  else some none

def smemfsPrimGetFileName (header : SmemHeader) : Bytes :=
  (header.name.filter (· ≠ 0xFF)).takeWhile (· ≠ 0)

def smemfsFillInode (inst : Nat) (header : Option SmemHeader) (ret : VfsInode) : VfsInode :=
  match header with
  | none =>
    { ret with
      fsOp := inst
      typeFlags := rootTypeFlags
      node := smemfsFileRootId
      flags := inodeFlagRead ||| inodeFlagExec
      name := []
      abstract := none }
  | some header =>
    { ret with
      fsOp := inst
      node := header.fullNodeId
      flags := inodeFlagRead
      parent := if header.parentId ≠ smemfsFileRootId then header.parentId ||| fileFlagIsdir else header.parentId
      typeFlags := ⟨header.type = smemfsFileDir, false, false, false⟩
      name := smemfsPrimGetFileName header
      abstract := some header }

/-- The number of the target is cut to 16 bits, and whether it is a directory is not checked. -/
def smemfsFindSubNode (headers : List SmemHeader) (node : Nat) (name : Bytes) : Option Nat :=
  (smemfsPrimGetAtomicFile headers name (node % 2 ^ 16)).map SmemHeader.fullNodeId

inductive FsData where
  | protofs (page : Nat → ProtofsNode)
  | smemfs (headers : List SmemHeader)

def FsData.rootNode : FsData → Nat
  | .protofs _ => protofsRootNode
  | .smemfs _ => smemfsFileRootId

def FsData.fillOf (inst nodeid : Nat) : FsData → Option (VfsInode → VfsInode)
  | .protofs page => (protofsNodePtr nodeid).map (protofsFillInode page inst)
  | .smemfs headers => (smemfsNodeHeader headers nodeid).map (smemfsFillInode inst)

def FsData.findSubNode (typeParent : Bool) (node : Nat) (name : Bytes) : FsData → Option Nat
  | .protofs page => protofsFindSubNode page typeParent node name
  | .smemfs headers => smemfsFindSubNode headers node name

def vfsAllocInode (c : VfsCache) (inst node : Nat) : Option (VfsCache × InodeRef) :=
  (vfsCacheAlloc c inst node).map fun (c, ret) => (c.setInode ret { c.inode ret with count := 0 }, ret)

def FsData.getInode (fs : FsData) (c : VfsCache) (inst nodeid : Nat) : Option (VfsCache × InodeRef) :=
  match fs.fillOf inst nodeid with
  | none => some (c, 0)
  | some fill => (vfsAllocInode c inst nodeid).map fun (c, ret) => (c.setInode ret (fill (c.inode ret)), ret)

def FsData.HandsOut (nodeid : Nat) : FsData → Prop
  | .protofs page => nodeid = protofsRootNode ∨ (nodeid < protofsPerPage ∧ (page nodeid).typeEmpty = false)
  | .smemfs headers => nodeid = smemfsFileRootId ∨
      ∃ header ∈ headers, header.deleted = false ∧ header.fullNodeId = nodeid

instance (nodeid : Nat) (fs : FsData) : Decidable (fs.HandsOut nodeid) := by
  unfold FsData.HandsOut
  split <;> infer_instance

lemma FsData.handsOut_rootNode (fs : FsData) : fs.HandsOut fs.rootNode := by
  cases fs <;> exact Or.inl rfl

/-- Entry numbers of smemfs are unique for each type and different from the one of the root. -/
def FsData.EntryIds : FsData → Prop
  | .protofs _ => True
  | .smemfs headers =>
    (∀ header ∈ headers, header.deleted = false → header.entryId < smemfsFileRootId) ∧
    ∀ header ∈ headers, ∀ other ∈ headers, header.deleted = false → other.deleted = false →
      header.type = other.type → header.entryId = other.entryId → header = other

section

variable {x : Nat}

lemma or_isdir (h : x < 2 ^ 16) : x ||| fileFlagIsdir = x + fileFlagIsdir := by
  have hOr := Nat.two_pow_add_eq_or_of_lt (show x < 2 ^ 17 by omega) 1
  rw [Nat.mul_one] at hOr
  rw [Nat.or_comm, Nat.add_comm]
  exact hOr.symm

lemma and_isdir_eq_zero (h : x < 2 ^ 16) : x &&& fileFlagIsdir = 0 := by
  have hBit : x.testBit 17 = false := Nat.testBit_lt_two_pow (by omega)
  rw [show fileFlagIsdir = 2 ^ 17 from rfl, Nat.and_two_pow, hBit]
  rfl

lemma and_isdir_ne_zero (h : x < 2 ^ 16) : (x + fileFlagIsdir) &&& fileFlagIsdir ≠ 0 := by
  have hBit : (2 ^ 17 + x).testBit 17 = true := by
    rw [Nat.testBit_two_pow_add_eq, Nat.testBit_lt_two_pow (show x < 2 ^ 17 by omega)]
    rfl
  rw [Nat.add_comm, show fileFlagIsdir = 2 ^ 17 from rfl, Nat.and_two_pow, hBit]
  decide

variable {header : SmemHeader}

namespace SmemHeader

section

variable (h : header.entryId < smemfsFileRootId)
include h

lemma fullNodeId_eq : header.fullNodeId = header.entryId + if header.type = smemfsFileDir then fileFlagIsdir else 0 := by
  unfold fullNodeId
  split
  · exact or_isdir (by simp only [smemfsFileRootId] at h; omega)
  · rw [Nat.or_zero, Nat.add_zero]

lemma fullNodeId_mod : header.fullNodeId % 2 ^ 16 = header.entryId := by
  rw [fullNodeId_eq h]
  simp only [smemfsFileRootId, fileFlagIsdir] at h ⊢
  split <;> omega

lemma fullNodeId_ne_root : header.fullNodeId ≠ smemfsFileRootId := by
  intro hEq
  have hMod := fullNodeId_mod h
  rw [hEq] at hMod
  exact h.ne hMod.symm

lemma fullNodeId_isdir : (header.fullNodeId &&& fileFlagIsdir ≠ 0) ↔ header.type = smemfsFileDir := by
  have hLt : header.entryId < 2 ^ 16 := by simp only [smemfsFileRootId] at h; omega
  rw [fullNodeId_eq h]
  split_ifs with hDir
  · exact ⟨fun _ => hDir, fun _ => and_isdir_ne_zero hLt⟩
  · rw [Nat.add_zero, and_isdir_eq_zero hLt]
    exact ⟨fun hNe => absurd rfl hNe, fun hType => absurd hType hDir⟩

lemma fullNodeId_ne_invalid : header.fullNodeId ≠ smemfsInvalidNode := by
  rw [fullNodeId_eq h]
  simp only [smemfsFileRootId, fileFlagIsdir, smemfsInvalidNode] at h ⊢
  split <;> omega

end

end SmemHeader

end

variable {headers : List SmemHeader} {header : SmemHeader}

lemma smemfsPrimGetFileById_spec {entryId : Nat} {isdir : Bool}
    (h : smemfsPrimGetFileById headers entryId isdir = some header) :
    header ∈ headers ∧ header.deleted = false ∧
      header.type = (if isdir then smemfsFileDir else smemfsFileFileH) ∧ header.entryId = entryId := by
  have hTest := List.find?_some h
  simp only [Bool.and_eq_true, Bool.not_eq_true', decide_eq_true_eq] at hTest
  exact ⟨List.mem_of_find?_eq_some h, hTest.1, hTest.2.1, hTest.2.2⟩

lemma smemfsNodeHeader_fullNodeId (hId : header.entryId < smemfsFileRootId) : smemfsNodeHeader headers header.fullNodeId =
    (smemfsPrimGetFileById headers header.entryId (header.fullNodeId &&& fileFlagIsdir ≠ 0)).map some := by
  rw [smemfsNodeHeader, if_neg (SmemHeader.fullNodeId_ne_invalid hId), SmemHeader.fullNodeId_mod hId, if_pos hId.ne]

lemma smemfsNodeHeader_handed (hIds : (FsData.smemfs headers).EntryIds)
    {found : SmemHeader} (hMem : header ∈ headers) (hExists : header.deleted = false)
    (h : smemfsNodeHeader headers header.fullNodeId = some (some found)) :
    found ∈ headers ∧ found.deleted = false ∧ found.fullNodeId = header.fullNodeId ∧
      found.type = (if header.type = smemfsFileDir then smemfsFileDir else smemfsFileFileH) := by
  have hId := hIds.1 header hMem hExists
  rw [smemfsNodeHeader_fullNodeId hId] at h
  obtain ⟨_, hFind, ⟨⟩⟩ := Option.map_eq_some_iff.mp h
  obtain ⟨hFoundMem, hFoundExists, hType, hEntry⟩ := smemfsPrimGetFileById_spec hFind
  simp only [SmemHeader.fullNodeId_isdir hId, decide_eq_true_eq] at hType
  refine ⟨hFoundMem, hFoundExists, ?_, hType⟩
  rw [SmemHeader.fullNodeId_eq hId, SmemHeader.fullNodeId_eq (hIds.1 found hFoundMem hFoundExists), hEntry, hType]
  split
  · rfl
  · rw [if_neg (by decide)]

lemma FsData.fillOf_key {fs : FsData} {inst nodeid : Nat} {fill : VfsInode → VfsInode} (hIds : fs.EntryIds)
    (hHanded : fs.HandsOut nodeid) (h : fs.fillOf inst nodeid = some fill) (ret : VfsInode) :
    ((fill ret).fsOp, (fill ret).node) = (inst, nodeid) ∧ (fill ret).count = ret.count := by
  cases fs with
  | protofs page =>
    obtain ⟨ptr, hPtr, rfl⟩ := Option.map_eq_some_iff.mp h
    unfold protofsNodePtr at hPtr
    split at hPtr
    · rename_i hRoot
      cases hPtr
      rw [hRoot]
      exact ⟨rfl, rfl⟩
    · split at hPtr <;> cases hPtr
      exact ⟨rfl, rfl⟩
  | smemfs headers =>
    obtain ⟨ptr, hPtr, rfl⟩ := Option.map_eq_some_iff.mp h
    rcases hHanded with rfl | ⟨header, hMem, hExists, rfl⟩
    · obtain rfl : none = ptr := Option.some.inj hPtr
      exact ⟨rfl, rfl⟩
    · cases ptr with
      | some found =>
        obtain ⟨_, _, hNode, _⟩ := smemfsNodeHeader_handed hIds hMem hExists hPtr
        exact ⟨by rw [← hNode]; rfl, rfl⟩
      | none =>
        rw [smemfsNodeHeader_fullNodeId (hIds.1 header hMem hExists)] at hPtr
        obtain ⟨_, _, ⟨⟩⟩ := Option.map_eq_some_iff.mp hPtr

end Fixos.Fs
