import Fixos.Lib.MountTree
import Fixos.Fs.Vfs

/-! # The tree of a file system

In a well-formed file system every node that is handed out can be read, has a directory for its parent, and is a child
of it.
-/

namespace Fixos.Fs

open MountTree Option List

def SmemHeader.parentNode (header : SmemHeader) : Nat :=
  if header.parentId ≠ smemfsFileRootId then header.parentId ||| fileFlagIsdir else header.parentId

def FsData.parentOf (nodeid : Nat) : FsData → Option Nat
  | .protofs page => (protofsNodePtr nodeid).bind fun ptr =>
      ptr.map fun i => (page i).parent.getD protofsRootNode
  | .smemfs headers => (smemfsNodeHeader headers nodeid).bind fun ptr => ptr.map SmemHeader.parentNode

def FsData.isDirectory (nodeid : Nat) : FsData → Bool
  | .protofs page => (protofsNodePtr nodeid).any fun ptr => ptr.all fun i => (page i).typeFlags.parent
  | .smemfs headers => (smemfsNodeHeader headers nodeid).any fun ptr =>
      ptr.all fun header => header.type = smemfsFileDir

def FsTable.forest (fs : FsTable) : Forest Nat Nat Bytes where
  rootOf inst := (fs inst).rootNode
  parentOf inst nodeid := (fs inst).parentOf nodeid
  childOf inst nodeid name := (fs inst).findSubNode ((fs inst).isDirectory nodeid) nodeid name

/-- Nodes have the kinds with which they are made, and every parent is an existing directory. -/
def FsData.WellFormed : FsData → Prop
  | .protofs page => ∀ i < protofsPerPage, (page i).typeEmpty = false →
      (page i).typeFlags.root = false ∧ (page i).typeFlags.mountpoint = false ∧
      ∀ p ∈ (page i).parent, p < protofsPerPage ∧ (page p).typeEmpty = false ∧ (page p).typeFlags.parent
  | .smemfs headers => (FsData.smemfs headers).EntryIds ∧ ∀ header ∈ headers, header.deleted = false →
      (header.type = smemfsFileDir ∨ header.type = smemfsFileFileH) ∧
      (header.parentId = smemfsFileRootId ∨
        ∃ dir ∈ headers, dir.deleted = false ∧ dir.type = smemfsFileDir ∧ dir.entryId = header.parentId)

/-- Parents in protofs exist, and the numbers of smemfs lead back to their headers, whose directories need not exist. -/
def FsData.Legible : FsData → Prop
  | .protofs page => ∀ i < protofsPerPage, (page i).typeEmpty = false →
      (page i).typeFlags.root = false ∧ (page i).typeFlags.mountpoint = false ∧
      ∀ p ∈ (page i).parent, p < protofsPerPage ∧ (page p).typeEmpty = false
  | .smemfs headers => (FsData.smemfs headers).EntryIds ∧ ∀ header ∈ headers, header.deleted = false →
      (header.type = smemfsFileDir ∨ header.type = smemfsFileFileH) ∧ header.parentId < 2 ^ 16

variable {fs : FsData}

lemma FsData.Legible.entryIds (h : fs.Legible) : fs.EntryIds := by
  cases fs with
  | protofs page => trivial
  | smemfs headers => exact h.1

lemma FsData.WellFormed.legible (h : fs.WellFormed) : fs.Legible := by
  cases fs with
  | protofs page =>
    intro i hi hUsed
    obtain ⟨hRoot, hMount, hParent⟩ := h i hi hUsed
    exact ⟨hRoot, hMount, fun p hp => ⟨(hParent p hp).1, (hParent p hp).2.1⟩⟩
  | smemfs headers =>
    refine ⟨h.1, fun header hMem hExists => ⟨(h.2 header hMem hExists).1, ?_⟩⟩
    rcases (h.2 header hMem hExists).2 with hRoot | ⟨dir, hDirMem, hDirExists, _, _⟩
    · rw [hRoot]
      decide
    · have hId := h.1.1 dir hDirMem hDirExists
      simp only [smemfsFileRootId] at hId
      omega

section

variable {page : Nat → ProtofsNode} {i : Nat}

lemma protofsNodePtr_root : protofsNodePtr protofsRootNode = some none := if_pos rfl

lemma ne_protofsRootNode (h : i < protofsPerPage) : i ≠ protofsRootNode := by
  simp only [protofsPerPage, protofsRootNode] at h ⊢
  omega

lemma protofsNodePtr_node (h : i < protofsPerPage) : protofsNodePtr i = some (some i) := by
  rw [protofsNodePtr, if_neg (ne_protofsRootNode h), if_pos h]

lemma protofsFindSubNode_spec {typeParent : Bool} {node x : Nat} {name : Bytes}
    (h : protofsFindSubNode page typeParent node name = some x) :
    x < protofsPerPage ∧ (page x).typeEmpty = false ∧ (page x).parent.getD protofsRootNode = node := by
  unfold protofsFindSubNode at h
  split at h
  · have hTest := find?_some h
    simp only [Bool.and_eq_true, Bool.not_eq_true', decide_eq_true_eq] at hTest
    refine ⟨mem_range.mp (mem_of_find?_eq_some h), hTest.1, ?_⟩
    rw [hTest.2.1]
    split_ifs with hRoot
    · exact hRoot.symm
    · rfl
  · cases h

end

section

variable {headers : List SmemHeader} {header : SmemHeader}

lemma SmemHeader.parentNode_mod (h : header.parentId < 2 ^ 16) : header.parentNode % 2 ^ 16 = header.parentId := by
  unfold SmemHeader.parentNode
  split
  · rw [or_isdir h]
    simp only [fileFlagIsdir]
    omega
  · exact Nat.mod_eq_of_lt h

lemma smemfsNodeHeader_root : smemfsNodeHeader headers smemfsFileRootId = some none := rfl

lemma smemfsNodeHeader_self (h : (FsData.smemfs headers).Legible) (hMem : header ∈ headers)
    (hExists : header.deleted = false) : smemfsNodeHeader headers header.fullNodeId = some (some header) := by
  obtain ⟨hIds, hTypes⟩ := h
  have hId := hIds.1 header hMem hExists
  have hType := (hTypes header hMem hExists).1
  obtain ⟨found, hFound⟩ : ∃ found, smemfsPrimGetFileById headers header.entryId
      (header.type = smemfsFileDir) = some found := by
    refine isSome_iff_exists.mp (find?_isSome.mpr ⟨header, hMem, ?_⟩)
    rcases hType with hDir | hFile
    · simp [hExists, hDir]
    · simp [hExists, hFile, show smemfsFileFileH ≠ smemfsFileDir by decide]
  obtain ⟨hFoundMem, hFoundExists, hFoundType, hEntry⟩ := smemfsPrimGetFileById_spec hFound
  have hSame : found = header := by
    refine hIds.2 found hFoundMem header hMem hFoundExists hExists ?_ hEntry
    rw [hFoundType]
    rcases hType with hDir | hFile
    · simp [hDir]
    · simp [hFile, show smemfsFileFileH ≠ smemfsFileDir by decide]
  rw [smemfsNodeHeader_fullNodeId hId]
  simp only [SmemHeader.fullNodeId_isdir hId]
  rw [hFound, hSame]
  rfl

lemma smemfsFindSubNode_spec {node x : Nat} {name : Bytes} (h : smemfsFindSubNode headers node name = some x) :
    ∃ header ∈ headers, header.deleted = false ∧ header.fullNodeId = x ∧ header.parentId = node % 2 ^ 16 := by
  obtain ⟨header, hFind, rfl⟩ := map_eq_some_iff.mp h
  have hTest := find?_some hFind
  simp only [Bool.and_eq_true, Bool.not_eq_true', decide_eq_true_eq] at hTest
  exact ⟨header, mem_of_find?_eq_some hFind, hTest.1, rfl, hTest.2.1.symm⟩

end

variable {fs : FsData} {nodeid : Nat}

lemma FsData.isDirectory_rootNode (fs : FsData) : fs.isDirectory fs.rootNode = true := by
  cases fs with
  | protofs page =>
    rw [isDirectory, rootNode, protofsNodePtr_root]
    rfl
  | smemfs headers => rfl

structure NodeAttrs where
  device : Option Nat
  flags : BitVec 32
  name : Bytes
  header : Option SmemHeader

def FsData.attrs (nodeid : Nat) : FsData → NodeAttrs
  | .protofs page =>
    match (protofsNodePtr nodeid).join with
    | none => ⟨none, inodeFlagRead ||| inodeFlagWrite ||| inodeFlagExec, [], none⟩
    | some i => ⟨if (page i).typeFlags.dev then some (page i).dev else none, (page i).mode, (page i).name, none⟩
  | .smemfs headers =>
    match (smemfsNodeHeader headers nodeid).join with
    | none => ⟨none, inodeFlagRead ||| inodeFlagExec, [], none⟩
    | some header => ⟨none, inodeFlagRead, smemfsPrimGetFileName header, some header⟩

lemma FsData.attrs_rootNode_device (fs : FsData) : (fs.attrs fs.rootNode).device = none := by
  cases fs with
  | protofs page =>
    rw [attrs, rootNode, protofsNodePtr_root]
    rfl
  | smemfs headers => rfl

/-- The inode has the attributes of its node. The device number shares a word with the mounted root. -/
structure NodeAttrs.Shown (attrs : NodeAttrs) (inode : VfsInode) : Prop where
  dev : inode.typeFlags.dev = attrs.device.isSome
  special : ∀ dev, attrs.device = some dev → inode.typeFlags.mountpoint = false → inode.typespec = dev
  flags : inode.flags = attrs.flags
  name : inode.name = attrs.name
  abstract : ∀ header, attrs.header = some header → inode.abstract = some header

structure FsData.Describes (fs : FsData) (nodeid : Nat) (inode : VfsInode) : Prop where
  root : inode.typeFlags.root = (fs.parentOf nodeid).isNone
  mountpoint : inode.typeFlags.mountpoint = false
  directory : inode.typeFlags.parent = fs.isDirectory nodeid
  parent : ∀ p, fs.parentOf nodeid = some p → inode.parent = p
  shown : (fs.attrs nodeid).Shown inode

lemma FsData.Legible.fillOf_some (h : fs.Legible) (inst : Nat) (hHanded : fs.HandsOut nodeid) :
    ∃ fill, fs.fillOf inst nodeid = some fill ∧ ∀ ret, fs.Describes nodeid (fill ret) := by
  cases fs with
  | protofs page =>
    rcases hHanded with rfl | ⟨hLt, hUsed⟩
    · have hAttrs : (FsData.protofs page).attrs protofsRootNode =
          ⟨none, inodeFlagRead ||| inodeFlagWrite ||| inodeFlagExec, [], none⟩ := by
        rw [attrs, protofsNodePtr_root]
        rfl
      refine ⟨protofsFillInode page inst none, by rw [fillOf, protofsNodePtr_root]; rfl, fun ret => ?_⟩
      constructor
      case shown => constructor <;> simp [hAttrs, protofsFillInode, rootTypeFlags]
      all_goals simp [parentOf, isDirectory, protofsNodePtr_root, protofsFillInode, rootTypeFlags]
    · obtain ⟨hRoot, hMount, _⟩ := h nodeid hLt hUsed
      have hAttrs : (FsData.protofs page).attrs nodeid =
        ⟨if (page nodeid).typeFlags.dev then some (page nodeid).dev else none,
          (page nodeid).mode, (page nodeid).name, none⟩ := by
        rw [attrs, protofsNodePtr_node hLt]
        rfl
      refine ⟨protofsFillInode page inst (some nodeid), by rw [fillOf, protofsNodePtr_node hLt]; rfl, fun ret => ?_⟩
      constructor
      case shown => constructor <;> by_cases hDev : (page nodeid).typeFlags.dev <;> simp [hAttrs, protofsFillInode, hDev]
      all_goals simp [parentOf, isDirectory, protofsNodePtr_node hLt, protofsFillInode, hRoot, hMount]
  | smemfs headers =>
    rcases hHanded with rfl | ⟨header, hMem, hExists, rfl⟩
    · have hAttrs : (FsData.smemfs headers).attrs smemfsFileRootId = ⟨none, inodeFlagRead ||| inodeFlagExec, [], none⟩ := by
        rw [attrs, smemfsNodeHeader_root]
        rfl
      refine ⟨smemfsFillInode inst none, rfl, fun ret => ?_⟩
      constructor
      case shown => constructor <;> simp [hAttrs, smemfsFillInode, rootTypeFlags]
      all_goals simp [parentOf, isDirectory, smemfsNodeHeader_root, smemfsFillInode, rootTypeFlags]
    · have hSelf := smemfsNodeHeader_self h hMem hExists
      have hAttrs : (FsData.smemfs headers).attrs header.fullNodeId =
          ⟨none, inodeFlagRead, smemfsPrimGetFileName header, some header⟩ := by
        rw [attrs, hSelf]
        rfl
      refine ⟨smemfsFillInode inst (some header), by rw [fillOf, hSelf]; rfl, fun ret => ?_⟩
      constructor
      case shown => constructor <;> simp [hAttrs, smemfsFillInode]
      all_goals simp [parentOf, isDirectory, hSelf, smemfsFillInode, SmemHeader.parentNode]

lemma FsData.Legible.parentOf_eq_none (h : fs.Legible) (hHanded : fs.HandsOut nodeid) :
    fs.parentOf nodeid = none ↔ nodeid = fs.rootNode := by
  cases fs with
  | protofs page =>
    rcases hHanded with rfl | ⟨hLt, _⟩
    · simp [parentOf, rootNode, protofsNodePtr_root]
    · simp [parentOf, rootNode, protofsNodePtr_node hLt, ne_protofsRootNode hLt]
  | smemfs headers =>
    rcases hHanded with rfl | ⟨header, hMem, hExists, rfl⟩
    · simp [parentOf, rootNode, smemfsNodeHeader_root]
    · have hNe := SmemHeader.fullNodeId_ne_root (h.1.1 header hMem hExists)
      simp [parentOf, rootNode, smemfsNodeHeader_self h hMem hExists, hNe]

lemma FsData.Legible.fillOf_parent (h : fs.Legible) (inst : Nat) (hHanded : fs.HandsOut nodeid) {p : Nat}
    (hParent : fs.parentOf nodeid = some p) (hNot : ¬ fs.HandsOut p) : fs.fillOf inst p = none := by
  cases fs with
  | protofs page =>
    rcases hHanded with rfl | ⟨hLt, hUsed⟩
    · simp [parentOf, protofsNodePtr_root] at hParent
    · simp only [parentOf, protofsNodePtr_node hLt, bind_some, map_some, some.injEq] at hParent
      subst hParent
      refine absurd ?_ hNot
      cases hNode : (page nodeid).parent with
      | none => exact Or.inl rfl
      | some q => exact Or.inr ((h nodeid hLt hUsed).2.2 q hNode)
  | smemfs headers =>
    rcases hHanded with rfl | ⟨header, hMem, hExists, rfl⟩
    · simp [parentOf, smemfsNodeHeader_root] at hParent
    · simp only [parentOf, smemfsNodeHeader_self h hMem hExists, bind_some, map_some, some.injEq] at hParent
      subst hParent
      have hLt := (h.2 header hMem hExists).2
      by_cases hRoot : header.parentId = smemfsFileRootId
      · refine absurd (Or.inl ?_) hNot
        rw [SmemHeader.parentNode, if_neg (not_not.mpr hRoot), hRoot]
      · have hNode : header.parentNode = header.parentId + fileFlagIsdir := by
          rw [SmemHeader.parentNode, if_pos hRoot, or_isdir hLt]
        have hIsdir : (header.parentNode &&& fileFlagIsdir ≠ 0) = True := by
          rw [hNode, eq_true (and_isdir_ne_zero hLt)]
        rw [fillOf, smemfsNodeHeader]
        split
        · rfl
        · rw [SmemHeader.parentNode_mod hLt, if_pos hRoot]
          simp only [hIsdir, decide_true]
          cases hFind : smemfsPrimGetFileById headers header.parentId true with
          | none => rfl
          | some dir =>
            -- a directory with the number would be handed out under it
            obtain ⟨hDirMem, hDirExists, hType, hEntry⟩ := smemfsPrimGetFileById_spec hFind
            rw [if_pos rfl] at hType
            refine absurd (Or.inr ⟨dir, hDirMem, hDirExists, ?_⟩) hNot
            rw [SmemHeader.fullNodeId, if_pos hType, hEntry, SmemHeader.parentNode, if_pos hRoot]

lemma SmemHeader.parentNode_dir {header dir : SmemHeader} (hId : dir.entryId < smemfsFileRootId)
    (hDir : dir.type = smemfsFileDir) (hParent : header.parentId = dir.entryId) :
    header.parentNode = dir.fullNodeId := by
  rw [parentNode, hParent, if_pos hId.ne, fullNodeId, if_pos hDir]

lemma FsData.WellFormed.parentOf_directory (h : fs.WellFormed) (hHanded : fs.HandsOut nodeid) {p : Nat}
    (hParent : fs.parentOf nodeid = some p) : fs.HandsOut p ∧ fs.isDirectory p = true := by
  cases fs with
  | protofs page =>
    rcases hHanded with rfl | ⟨hLt, hUsed⟩
    · simp [parentOf, protofsNodePtr_root] at hParent
    · simp only [parentOf, protofsNodePtr_node hLt, bind_some, map_some, some.injEq] at hParent
      subst hParent
      cases hNode : (page nodeid).parent with
      | none => exact ⟨Or.inl rfl, (FsData.protofs page).isDirectory_rootNode⟩
      | some q =>
        obtain ⟨hqLt, hqUsed, hqDir⟩ := (h nodeid hLt hUsed).2.2 q hNode
        refine ⟨Or.inr ⟨hqLt, hqUsed⟩, ?_⟩
        simp [isDirectory, protofsNodePtr_node hqLt, hqDir]
  | smemfs headers =>
    rcases hHanded with rfl | ⟨header, hMem, hExists, rfl⟩
    · simp [parentOf, smemfsNodeHeader_root] at hParent
    · simp only [parentOf, smemfsNodeHeader_self h.legible hMem hExists, bind_some, map_some, some.injEq] at hParent
      subst hParent
      rcases (h.2 header hMem hExists).2 with hRoot | ⟨dir, hDirMem, hDirExists, hDirType, hEntry⟩
      · rw [SmemHeader.parentNode, hRoot]
        exact ⟨Or.inl rfl, rfl⟩
      · have hId := h.1.1 dir hDirMem hDirExists
        rw [SmemHeader.parentNode_dir hId hDirType hEntry.symm]
        refine ⟨Or.inr ⟨dir, hDirMem, hDirExists, rfl⟩, ?_⟩
        simp [isDirectory, smemfsNodeHeader_self h.legible hDirMem hDirExists, hDirType]

variable {typeParent : Bool} {name : Bytes} {x : Nat}

lemma FsData.findSubNode_handsOut (hFind : fs.findSubNode typeParent nodeid name = some x) : fs.HandsOut x := by
  cases fs with
  | protofs page =>
    obtain ⟨hLt, hUsed, _⟩ := protofsFindSubNode_spec hFind
    exact Or.inr ⟨hLt, hUsed⟩
  | smemfs headers =>
    obtain ⟨header, hMem, hExists, hNode, _⟩ := smemfsFindSubNode_spec hFind
    exact Or.inr ⟨header, hMem, hExists, hNode⟩

lemma FsData.Legible.findSubNode_parentOf (h : fs.Legible) (hHanded : fs.HandsOut nodeid)
    (hDir : fs.isDirectory nodeid = true)
    (hFind : fs.findSubNode typeParent nodeid name = some x) : fs.parentOf x = some nodeid := by
  cases fs with
  | protofs page =>
    obtain ⟨hLt, _, hParent⟩ := protofsFindSubNode_spec hFind
    simp [parentOf, protofsNodePtr_node hLt, hParent]
  | smemfs headers =>
    obtain ⟨header, hMem, hExists, rfl, hParent⟩ := smemfsFindSubNode_spec hFind
    have hParentOf : (FsData.smemfs headers).parentOf header.fullNodeId = some header.parentNode := by
      simp [parentOf, smemfsNodeHeader_self h hMem hExists]
    rw [hParentOf]
    rcases hHanded with rfl | ⟨dir, hDirMem, hDirExists, rfl⟩
    · rw [SmemHeader.parentNode, hParent]
      rfl
    · have hId := h.1.1 dir hDirMem hDirExists
      rw [SmemHeader.fullNodeId_mod hId] at hParent
      have hType : dir.type = smemfsFileDir := by
        simpa [isDirectory, smemfsNodeHeader_self h hDirMem hDirExists] using hDir
      rw [SmemHeader.parentNode_dir hId hType hParent]

end Fixos.Fs
