import Mathlib.Data.Finset.Basic

/-! # Struct files (`fs/vfs_file.c`, `fs/pipe.c`) and the devices behind them

A `struct file` keeps its contents when it is freed. `releases` counts the calls of the release operation, and no code
reads it.
-/

namespace Fixos.Fs

open Function

abbrev FileRef := Nat

abbrev PageRef := Nat

def O_RDONLY : BitVec 32 := 1#32
def O_WRONLY : BitVec 32 := 2#32
def O_RDWR : BitVec 32 := O_RDONLY ||| O_WRONLY
def O_CLOEXEC : BitVec 32 := 1#32 <<< 10
def FD_CLOEXEC : BitVec 8 := 1#8

def EBADF : Int := 3
def EINVAL : Int := 6
def EMFILE : Int := 10
def ENOTDIR : Int := 11
def ENXIO : Int := 12
def EROFS : Int := 14
def ENOENT : Int := 15

inductive FileSystem where
  | protofs
  | smemfs
deriving DecidableEq

structure Inode where
  fsOp : Option FileSystem
  typeParent : Bool
  typeDev : Bool
  flags : BitVec 32
  major : Nat
  minor : Nat
deriving DecidableEq

inductive FileOps where
  | pipe
  | fxkdb
  | display
  | ttydev
  | smemfs
  | directory
deriving DecidableEq

inductive PrivateData where
  | null
  | page (page : PageRef)
  | activated
  | tty (minor : Nat)
deriving DecidableEq

structure File where
  pos : Nat
  flags : BitVec 32
  inode : Option Inode
  op : FileOps
  count : Int
  privateData : PrivateData
deriving DecidableEq

structure FileState where
  file : FileRef → File
  inUse : Finset FileRef
  pipeCount : PageRef → Int
  pipePages : Finset PageRef
  listener : Int
  activated : Int
  releases : FileRef → Nat

def FileState.setFile (s : FileState) (filep : FileRef) (file : File) : FileState :=
  { s with file := update s.file filep file }

def vfsFileAlloc (s : FileState) (filep : FileRef) : FileState :=
  { s with inUse := insert filep s.inUse }

def vfsFileFree (s : FileState) (filep : FileRef) : FileState :=
  { s with inUse := s.inUse.erase filep }

def fxkdbOpen (s : FileState) (minor : Nat) (filep : FileRef) : FileState × Int :=
  if minor = 0 then
    let s := s.setFile filep { s.file filep with op := .fxkdb }
    ({ s with listener := s.listener + 1 }, 0)
  else (s, - ENXIO)

def displayOpen (s : FileState) (minor : Nat) (filep : FileRef) : FileState × Int :=
  if minor = 1 then
    (s.setFile filep { s.file filep with op := .display, privateData := .null }, 0)
  else (s, - ENXIO)

/-- No terminal has an `open` operation, so `tty_open` succeeds. -/
def ttydevOpen (s : FileState) (minor : Nat) (filep : FileRef) : FileState × Int :=
  if minor < 10 then
    (s.setFile filep { s.file filep with op := .ttydev, privateData := .tty minor }, 0)
  else (s, - ENXIO)

def devDeviceFromMajor (major : Nat) :
    Option (FileState → Nat → FileRef → FileState × Int) :=
  if major = 4 then some ttydevOpen
  else if major = 0x20 then some displayOpen
  else if major = 0x21 then some fxkdbOpen
  else none

def vfsOpenDev (s : FileState) (inode : Inode) (filep : FileRef) : FileState × Int :=
  if inode.typeDev then
    match devDeviceFromMajor inode.major with
    | none => (s, - ENXIO)
    | some devOpen =>
      let opened := devOpen s inode.minor filep
      if opened.2 = 0 then
        (opened.1.setFile filep { opened.1.file filep with inode := some inode }, 0)
      else opened
  else (s, -ENOENT)

def protofsOpen (s : FileState) (inode : Inode) (filep : FileRef) : FileState × Int :=
  if inode.typeDev then vfsOpenDev s inode filep
  else if inode.typeParent then (s, 0)
  else (s, -EINVAL)

def smemfsOpen (s : FileState) (inode : Inode) (filep : FileRef) : FileState × Int :=
  if inode.flags &&& O_WRONLY ≠ 0 then (s, -EROFS)
  else (s.setFile filep { s.file filep with privateData := .null, op := .smemfs }, 0)

def vfsDirOpen (s : FileState) (inode : Inode) (filep : FileRef) : FileState × Int :=
  if inode.typeParent then
    (s.setFile filep { s.file filep with pos := 0, op := .directory }, 0)
  else (s, -ENOTDIR)

def inodeOpen (s : FileState) (inode : Inode) (filep : FileRef) : FileState × Int :=
  if inode.typeParent then vfsDirOpen s inode filep
  else
    match inode.fsOp with
    | some .protofs => protofsOpen s inode filep
    | some .smemfs => smemfsOpen s inode filep
    | none => (s, -1)

def prepareFile (s : FileState) (inode : Inode) (flags : BitVec 32) (filep : FileRef) : FileState :=
  (vfsFileAlloc s filep).setFile filep
    { s.file filep with flags, inode := some inode, pos := 0, count := 1 }

def vfsOpen (s : FileState) (inode : Inode) (flags : BitVec 32) (object : Option FileRef) :
    FileState × Option FileRef :=
  if flags &&& O_RDWR = 0 ∨ (flags &&& O_WRONLY ≠ 0 ∧ inode.typeParent) then (s, none)
  else
    match object with
    | none => (s, none)
    | some filep =>
      let opened := inodeOpen (prepareFile s inode flags filep) inode filep
      if opened.2 = 0 then (opened.1, some filep) else (vfsFileFree opened.1 filep, none)

def pipeRelease (s : FileState) (filep : FileRef) : FileState × Int :=
  match (s.file filep).privateData with
  | .page page =>
    let count := s.pipeCount page - 1
    ({ s with
      pipeCount := update s.pipeCount page count
      pipePages := if count ≤ 0 then s.pipePages.erase page else s.pipePages }, 0)
  | _ => (s, 0)

def fxkdbRelease (s : FileState) : FileState × Int :=
  ({ s with listener := s.listener - 1 }, 0)

def displayRelease (s : FileState) (filep : FileRef) : FileState × Int :=
  (if (s.file filep).privateData ≠ .null then { s with activated := 0 } else s, 0)

def FileOps.release : FileOps → Option (FileState → FileRef → FileState × Int)
  | .pipe => some pipeRelease
  | .fxkdb => some fun s _ => fxkdbRelease s
  | .display => some displayRelease
  | .ttydev => some fun s _ => (s, 0)
  | .smemfs => some fun s _ => (s, 0)
  | .directory => none

def callRelease (s : FileState) (filep : FileRef) : FileState × Int :=
  match (s.file filep).op.release with
  | none => (s, 0)
  | some release =>
    release { s with releases := update s.releases filep (s.releases filep + 1) } filep

def vfsClose (s : FileState) (filep : FileRef) : FileState × Int :=
  let released := callRelease s filep
  let s := released.1
  let s := s.setFile filep { s.file filep with count := (s.file filep).count - 1 }
  (if (s.file filep).count ≤ 0 then vfsFileFree s filep else s, released.2)

/-- The fields of a pipe end that `pipe_create` sets; `count` is not one of them. -/
def pipeEnd (file : File) (flags : BitVec 32) (page : PageRef) : File :=
  { file with inode := none, pos := 0, flags, privateData := .page page, op := .pipe }

def pipeCreate (s : FileState) (objIn objOut : Option FileRef) (page : Option PageRef) :
    FileState × Option (FileRef × FileRef) :=
  match objIn, objOut, page with
  | some fin, some fout, some page =>
    let s := vfsFileAlloc (vfsFileAlloc s fin) fout
    let s := { s with
      pipePages := insert page s.pipePages
      pipeCount := update s.pipeCount page 2 }
    let s := s.setFile fin (pipeEnd (s.file fin) O_RDONLY page)
    (s.setFile fout (pipeEnd (s.file fout) O_WRONLY page), some (fin, fout))
  -- what was allocated is freed again
  | _, _, _ => (s, none)

def countUp (s : FileState) (filep : FileRef) : FileState :=
  s.setFile filep { s.file filep with count := (s.file filep).count + 1 }

structure OpenEffect (s : FileState) (filep : FileRef) (result : FileState × Int) : Prop where
  rest : result.1 = { s with
    file := update s.file filep (result.1.file filep)
    listener := result.1.listener }
  count : (result.1.file filep).count = (s.file filep).count
  success : result.2 = 0 → (result.1.file filep).op ≠ .pipe ∧
    result.1.listener = s.listener + if (result.1.file filep).op = .fxkdb then 1 else 0
  failure : result.2 ≠ 0 → result.1.listener = s.listener

lemma OpenEffect.failed (s : FileState) (filep : FileRef) {ret : Int} (h : ret ≠ 0) : OpenEffect s filep (s, ret) where
  rest := by rw [update_eq_self]
  count := rfl
  success := fun hRet => absurd hRet h
  failure := fun _ => rfl

lemma OpenEffect.filled (s : FileState) (filep : FileRef) {file : File}
    (hCount : file.count = (s.file filep).count) (hPipe : file.op ≠ .pipe) (hKbd : file.op ≠ .fxkdb) :
    OpenEffect s filep (s.setFile filep file, 0) := by
  constructor
  · simp [FileState.setFile]
  · simp [FileState.setFile, hCount]
  · intro _
    simp only [FileState.setFile, update_self, if_neg hKbd]
    exact ⟨hPipe, (Int.add_zero _).symm⟩
  · exact fun hRet => absurd rfl hRet

lemma fxkdbOpen_effect (s : FileState) (minor : Nat) (filep : FileRef) : OpenEffect s filep (fxkdbOpen s minor filep) := by
  unfold fxkdbOpen
  split
  · constructor
    · simp [FileState.setFile]
    · simp [FileState.setFile]
    · intro _
      simp [FileState.setFile]
    · exact fun hRet => absurd rfl hRet
  · exact .failed s filep (by decide)

lemma devOpen_effect {major : Nat} {devOpen : FileState → Nat → FileRef → FileState × Int}
    (h : devDeviceFromMajor major = some devOpen) (s : FileState) (minor : Nat) (filep : FileRef) :
    OpenEffect s filep (devOpen s minor filep) := by
  unfold devDeviceFromMajor at h
  split at h
  · cases h
    unfold ttydevOpen
    split
    · exact .filled s filep rfl (by simp) (by simp)
    · exact .failed s filep (by decide)
  · split at h
    · cases h
      unfold displayOpen
      split
      · exact .filled s filep rfl (by simp) (by simp)
      · exact .failed s filep (by decide)
    · split at h <;> cases h
      exact fxkdbOpen_effect s minor filep

lemma vfsOpenDev_effect (s : FileState) (inode : Inode) (filep : FileRef) :
    OpenEffect s filep (vfsOpenDev s inode filep) := by
  unfold vfsOpenDev
  split
  · cases hDev : devDeviceFromMajor inode.major with
    | none => exact .failed s filep (by decide)
    | some devOpen =>
      have hOpen := devOpen_effect hDev s inode.minor filep
      simp only
      split_ifs with hRet
      · obtain ⟨hOp, hListener⟩ := hOpen.success hRet
        constructor
        · conv_lhs => rw [hOpen.rest]
          simp [FileState.setFile]
        · simp [FileState.setFile, hOpen.count]
        · intro _
          simp only [FileState.setFile, update_self]
          exact ⟨hOp, hListener⟩
        · exact fun hRet => absurd rfl hRet
      · exact hOpen
  · exact .failed s filep (by decide)

lemma inodeOpen_effect (s : FileState) (inode : Inode) (filep : FileRef) :
    OpenEffect s filep (inodeOpen s inode filep) := by
  unfold inodeOpen
  split_ifs with hParent
  · rw [vfsDirOpen, if_pos hParent]
    exact .filled s filep rfl (by simp) (by simp)
  · split
    · unfold protofsOpen
      split
      · exact vfsOpenDev_effect s inode filep
      · exact .failed s filep (by decide)
    · unfold smemfsOpen
      split
      · exact .failed s filep (by decide)
      · exact .filled s filep rfl (by simp) (by simp)
    · exact .failed s filep (by decide)

structure Opened (s : FileState) (filep : FileRef) (s' : FileState) : Prop where
  rest : s' = { s with
    file := update s.file filep (s'.file filep)
    inUse := insert filep s.inUse
    listener := s'.listener }
  count : (s'.file filep).count = 1
  op_ne_pipe : (s'.file filep).op ≠ .pipe
  listener : s'.listener = s.listener + if (s'.file filep).op = .fxkdb then 1 else 0

lemma vfsOpen_cases {s s' : FileState} {inode : Inode} {flags : BitVec 32}
    {object result : Option FileRef} (hFree : ∀ f ∈ object, f ∉ s.inUse)
    (h : vfsOpen s inode flags object = (s', result)) :
    (result = none ∧ s' = s) ∨
    (∃ filep file, object = some filep ∧ result = none ∧ s' = s.setFile filep file) ∨
    ∃ filep, object = some filep ∧ result = some filep ∧ Opened s filep s' := by
  unfold vfsOpen at h
  split at h
  · cases h
    exact Or.inl ⟨rfl, rfl⟩
  · cases object with
    | none =>
      cases h
      exact Or.inl ⟨rfl, rfl⟩
    | some filep =>
      have hEffect := inodeOpen_effect (prepareFile s inode flags filep) inode filep
      simp only at h
      generalize inodeOpen (prepareFile s inode flags filep) inode filep = opened at h hEffect
      obtain ⟨fs, _⟩ := opened
      have hRest := hEffect.rest
      simp only [prepareFile, vfsFileAlloc, FileState.setFile, update_idem] at hRest
      split_ifs at h with hRet
      · cases h
        obtain ⟨hOp, hListener⟩ := hEffect.success hRet
        refine Or.inr (Or.inr ⟨filep, rfl, rfl, hRest, ?_, hOp, hListener⟩)
        simpa [prepareFile, FileState.setFile] using hEffect.count
      · cases h
        refine Or.inr (Or.inl ⟨filep, fs.file filep, rfl, rfl, ?_⟩)
        have hListener := hEffect.failure hRet
        simp only at hListener
        rw [hRest, hListener]
        simp only [vfsFileFree, FileState.setFile, update_self]
        rw [Finset.erase_insert (hFree filep rfl)]
        rfl

end Fixos.Fs
