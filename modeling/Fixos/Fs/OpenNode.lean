import Fixos.Fs.CacheRun
import Fixos.Fs.File
import Fixos.Fs.PathLookup

/-! # Opening the inode of a node

Whether `vfs_open` succeeds depends on a few fields of the inode.
-/

namespace Fixos.Fs

def devMajor (dev : Nat) : Nat := dev >>> 16

def devMinor (dev : Nat) : Nat := dev &&& 0xFFFF

def FsData.kind : FsData → FileSystem
  | .protofs _ => .protofs
  | .smemfs _ => .smemfs

def openView (fs : FsTable) (inode : VfsInode) : Inode where
  fsOp := some (fs inode.fsOp).kind
  typeParent := inode.typeFlags.parent
  typeDev := inode.typeFlags.dev
  flags := inode.flags
  major := if inode.typeFlags.dev then devMajor inode.typespec else 0
  minor := if inode.typeFlags.dev then devMinor inode.typespec else 0

def nodeView (fs : FsTable) (k : NodeKey) : Option Inode :=
  ((fs k.1).fillOf k.1 k.2).map fun fill => openView fs (fill blankInode)

def deviceExists (major minor : Nat) : Bool :=
  (major = 4 && minor < 10) || (major = 0x20 && minor = 1) || (major = 0x21 && minor = 0)

def Inode.HasOpen (inode : Inode) : Prop :=
  inode.typeParent ∨ (inode.fsOp = some .protofs ∧ inode.typeDev ∧ deviceExists inode.major inode.minor) ∨
    (inode.fsOp = some .smemfs ∧ inode.flags &&& O_WRONLY = 0)

def Inode.Openable (inode : Inode) (flags : BitVec 32) : Prop :=
  flags &&& O_RDWR ≠ 0 ∧ (inode.typeParent → flags &&& O_WRONLY = 0) ∧ inode.HasOpen

instance (inode : Inode) (flags : BitVec 32) : Decidable (inode.Openable flags) :=
  inferInstanceAs (Decidable (_ ∧ _ ∧ (_ ∨ (_ ∧ _ ∧ _) ∨ (_ ∧ _))))

section

variable {inode : Inode} {flags : BitVec 32}

section

variable (s : FileState) (filep : FileRef)
include s filep

lemma vfsOpenDev_ret : (vfsOpenDev s inode filep).2 = 0 ↔ inode.typeDev ∧ deviceExists inode.major inode.minor := by
  unfold vfsOpenDev
  by_cases hDev : inode.typeDev
  · rw [if_pos hDev]
    unfold devDeviceFromMajor deviceExists
    by_cases hTty : inode.major = 4
    · by_cases hMinor : inode.minor < 10 <;> simp [hTty, hDev, hMinor, ttydevOpen, ENXIO]
    · by_cases hDisplay : inode.major = 0x20
      · by_cases hMinor : inode.minor = 1 <;> simp [hDisplay, hDev, hMinor, displayOpen, ENXIO]
      · by_cases hKeyboard : inode.major = 0x21
        · by_cases hMinor : inode.minor = 0 <;> simp [hKeyboard, hDev, hMinor, fxkdbOpen, ENXIO]
        · simp [hTty, hDisplay, hKeyboard, ENXIO]
  · rw [if_neg hDev]
    simp [hDev, ENOENT]

lemma inodeOpen_ret : (inodeOpen s inode filep).2 = 0 ↔ inode.HasOpen := by
  unfold inodeOpen Inode.HasOpen
  by_cases hParent : inode.typeParent
  · rw [if_pos hParent, vfsDirOpen, if_pos hParent]
    simp [hParent]
  · rw [if_neg hParent]
    rcases hFs : inode.fsOp with _ | _ | _
    · simp [hParent]
    · have hDevice : (protofsOpen s inode filep).2 = 0 ↔ (vfsOpenDev s inode filep).2 = 0 := by
        unfold protofsOpen
        split_ifs with hDev
        · exact Iff.rfl
        · rw [vfsOpenDev_ret]
          simp [hDev, EINVAL]
      simp only [hDevice, vfsOpenDev_ret, hParent]
      simp
    · simp only [smemfsOpen, hParent]
      split_ifs with hWrite
      · simp only [hWrite]
        simp [EROFS]
      · simp [not_not.mp hWrite]

lemma vfsOpen_openable : (vfsOpen s inode flags (some filep)).2 = some filep ↔ inode.Openable flags := by
  unfold vfsOpen Inode.Openable
  by_cases hRefused : flags &&& O_RDWR = 0 ∨ (flags &&& O_WRONLY ≠ 0 ∧ inode.typeParent)
  · rw [if_pos hRefused]
    constructor
    · intro h
      cases h
    · rintro ⟨hMode, hWrite, _⟩
      rcases hRefused with hNone | ⟨hWanted, hParent⟩
      · exact absurd hNone hMode
      · exact absurd (hWrite hParent) hWanted
  · rw [if_neg hRefused, ← inodeOpen_ret (prepareFile s inode flags filep) filep]
    obtain ⟨hMode, hWrite⟩ := not_or.mp hRefused
    have hDirectory : inode.typeParent → flags &&& O_WRONLY = 0 := fun hParent => by
      by_contra hWanted
      exact hWrite ⟨hWanted, hParent⟩
    dsimp only
    split
    · rename_i hRet
      exact ⟨fun _ => ⟨hMode, hDirectory, hRet⟩, fun _ => rfl⟩
    · rename_i hRet
      exact ⟨fun h => (Option.some_ne_none filep h.symm).elim, fun h => absurd h.2.2 hRet⟩

end

end

variable {fs : FsTable} {ns : Namespace} {c : VfsCache} {r : InodeRef}

lemma openView_eq {attrs : NodeAttrs} {inode inode' : VfsInode} (hFs : inode.fsOp = inode'.fsOp)
    (hDirectory : inode.typeFlags.parent = inode'.typeFlags.parent) (h : attrs.Shown inode) (h' : attrs.Shown inode')
    (hMount : inode.typeFlags.mountpoint = false) (hMount' : inode'.typeFlags.mountpoint = false) :
    openView fs inode = openView fs inode' := by
  have hDev := h.dev
  have hDev' := h'.dev
  cases hDevice : attrs.device with
  | none =>
    rw [hDevice, Option.isSome_none] at hDev hDev'
    simp [openView, hFs, hDirectory, hDev, hDev', h.flags, h'.flags]
  | some dev =>
    rw [hDevice, Option.isSome_some] at hDev hDev'
    simp [openView, hFs, hDirectory, hDev, hDev', h.flags, h'.flags, h.special dev hDevice hMount,
      h'.special dev hDevice hMount']

lemma Faithful.nodeView (h : Faithful fs ns c r) (hLegible : ns.Legible fs) (hPinned : (c.inode r).pinned = false) :
    Fs.nodeView fs (c.key r) = some (openView fs (c.inode r)) := by
  have hFile := hLegible.legible _ h.inst
  obtain ⟨fill, hFill, hDescribes⟩ := hFile.fillOf_some (c.inode r).fsOp h.handed
  have hBlank := hDescribes blankInode
  have hKey := (FsData.fillOf_key hFile.entryIds h.handed hFill blankInode).1
  have hMount : (c.inode r).typeFlags.mountpoint = false := (Bool.or_eq_false_iff.mp hPinned).2
  have hView : Fs.nodeView fs (c.key r) = some (openView fs (fill blankInode)) := congrArg (Option.map _) hFill
  rw [hView, openView_eq (congrArg Prod.fst hKey) (hBlank.directory.trans h.directory.symm) hBlank.shown h.shown
    hBlank.mountpoint hMount]

end Fixos.Fs
