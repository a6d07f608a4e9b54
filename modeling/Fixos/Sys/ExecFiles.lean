import Fixos.Sys.Exec
import Fixos.Sys.FileCounts

/-! # Descriptors across `sys_execve` (`sys/process.c`)

The call closes the descriptors that are marked close-on-exec and keeps the pointers in their slots. `unheld` lists the
references that it has taken and that no slot or area holds: the one of the open itself, and that of a segment which
found no room.
-/

namespace Fixos.Sys

open Fs RefCount Transition List Option Function

def ENOMEM : Int := 19

structure ExecFds where
  fds : FdState
  unheld : List FileRef

/-- A loadable segment, and whether the pool of areas has an object for it. -/
structure ElfSegment where
  vaddr : Nat
  memsz : Nat
  offset : Nat
  filesz : Nat
  allocated : Bool
deriving DecidableEq

/-- The segments up to the first header that cannot be read, and whether the pool has an area for the stack. -/
structure ElfImage where
  segments : List ElfSegment
  complete : Bool
  stackAllocated : Bool
deriving DecidableEq

def ElfSegment.area (segment : ElfSegment) (filep : FileRef) : MemArea :=
  ⟨segment.vaddr, segment.memsz, .file filep segment.offset segment.filesz true⟩

def userStack : MemArea := ⟨archUnewprocDefaultStack - processDefaultStackSize, processDefaultStackSize, .anon⟩

def FileProc.setAreas (proc : FileProc) (areas : List MemArea) : FileProc := { proc with memAreas := areas }

def FdState.setAreas (k : FdState) (cur : ProcRef) (fs : FileState) (areas : List MemArea) : FdState :=
  { k with fs }.setProc cur ((k.proc cur).setAreas areas)

/-- Only files of the flash file system can be mapped; `smemfs_map_area` counts the reference. -/
def vfsMapArea (r : ExecFds) (cur : ProcRef) (filep : FileRef) (segment : ElfSegment) : ExecFds × Int :=
  if (r.fds.fs.file filep).op ≠ .smemfs then (r, -EINVAL)
  else if segment.allocated = false then (r, -ENOMEM)
  else
    let inserted := memAreaInsert (r.fds.proc cur).memAreas (segment.area filep)
    ({ fds := r.fds.setAreas cur (countUp r.fds.fs filep) inserted.1
       unheld := if inserted.2 = 0 then r.unheld else filep :: r.unheld }, inserted.2)

def loadSegment (r : ExecFds) (cur : ProcRef) (filep : FileRef) (segment : ElfSegment) : ExecFds × Int :=
  if segment.vaddr % Arch.pmPageBytes = 0 then vfsMapArea r cur filep segment else (r, -1)

def loadFileSegments (r : ExecFds) (cur : ProcRef) (filep : FileRef) : List ElfSegment → ExecFds × Int
  | [] => (r, 0)
  | segment :: rest =>
    let loaded := loadSegment r cur filep segment
    if loaded.2 = 0 then loadFileSegments loaded.1 cur filep rest else (loaded.1, -1)

def insertStack (r : ExecFds) (cur : ProcRef) : ExecFds :=
  { r with fds := r.fds.setAreas cur r.fds.fs (memAreaInsert (r.fds.proc cur).memAreas userStack).1 }

def loadFile (r : ExecFds) (cur : ProcRef) (filep : FileRef) (image : ElfImage) : ExecFds :=
  let loaded := loadFileSegments r cur filep image.segments
  if loaded.2 = 0 ∧ image.complete ∧ image.stackAllocated then insertStack loaded.1 cur else loaded.1

def FileProc.cloexec (proc : FileProc) : List FileRef :=
  (range processMaxFile).filterMap fun i =>
    if proc.fdflags.getD i 0 &&& FD_CLOEXEC ≠ 0 then proc.files.getD i none else none

def closeAll (fs : FileState) (files : List FileRef) : FileState :=
  files.foldl (fun fs filep => (vfsClose fs filep).1) fs

/-- The slots keep what they held, whether it was closed or not. -/
def closeOnExec (r : ExecFds) (cur : ProcRef) : ExecFds :=
  { r with fds := { r.fds with fs := closeAll r.fds.fs (r.fds.proc cur).cloexec } }

def releaseAreas (r : ExecFds) (cur : ProcRef) : ExecFds :=
  let fs := closeAll r.fds.fs ((r.fds.proc cur).memAreas.filterMap MemArea.filep)
  { r with fds := r.fds.setAreas cur fs [] }

def openImage (fs : FileState) (inode : Option Inode) (object : Option FileRef) : FileState × Option FileRef :=
  match inode with
  | none => (fs, none)
  | some inode => vfsOpen fs inode O_RDONLY object

def execveFiles (r : ExecFds) (cur : ProcRef) (inode : Option Inode) (object : Option FileRef) (image : ElfImage) :
    ExecFds :=
  let opened := openImage r.fds.fs inode object
  let r := { r with fds := { r.fds with fs := opened.1 } }
  match opened.2 with
  | none => r
  | some elf =>
    let r := { r with unheld := elf :: r.unheld }
    loadFile (releaseAreas (closeOnExec r cur) cur) cur elf image

inductive ExecFdAction where
  | openName (cur : ProcRef) (inode : Option Inode) (flags : BitVec 32) (object : Option FileRef)
  | fork (cur fresh : ProcRef)
  | execve (cur : ProcRef) (inode : Option Inode) (object : Option FileRef) (image : ElfImage)
  | close (cur : ProcRef) (fd : Int)
  | exit (cur : ProcRef)
deriving DecidableEq

def ExecFds.call (r : ExecFds) (a : FdAction) : Option ExecFds := (r.fds.step a).map fun fds => { r with fds }

def ExecFds.step (r : ExecFds) : ExecFdAction → Option ExecFds
  | .openName cur inode flags object => r.call (.openName cur inode flags object)
  | .fork cur fresh => r.call (.fork cur fresh)
  | .execve cur inode object image =>
    if cur ∈ r.fds.live ∧ ∀ f ∈ object, f ∉ r.fds.fs.inUse then some (execveFiles r cur inode object image)
    else none
  | .close cur fd => r.call (.close cur fd)
  | .exit cur => r.call (.exit cur)

def ExecFdAction.Unmarked (r : ExecFds) : ExecFdAction → Prop
  | .execve cur inode object _ =>
    (openImage r.fds.fs inode object).2.isSome → (r.fds.proc cur).cloexec = []
  | _ => True

instance (r : ExecFds) (a : ExecFdAction) : Decidable (a.Unmarked r) := by
  unfold ExecFdAction.Unmarked
  split <;> infer_instance

/-- No call can meet a struct file that was given back, and every reference is counted once. -/
structure ExecFds.DroppedOnce (r : ExecFds) : Prop where
  counted : ∀ f ∈ r.fds.fs.inUse,
    (r.fds.fs.file f).count = r.fds.slotRefs f + r.fds.areaRefs f + r.unheld.count f
  inUse : ∀ p ∈ r.fds.live, ∀ f ∈ (r.fds.proc p).refs, f ∈ r.fds.fs.inUse

structure ExecFds.Sound (r : ExecFds) : Prop where
  tidy : r.fds.Tidy
  balanced : Balanced (countStore r.fds.fs) fun f => r.fds.refs f + r.unheld.count f

lemma ExecFds.Sound.droppedOnce {r : ExecFds} (h : r.Sound) : r.DroppedOnce := by
  constructor
  · intro f hf
    have hCount := h.balanced.count_eq f hf
    rw [r.fds.refs_eq f] at hCount
    exact_mod_cast hCount
  · intro p hp f hf
    refine h.balanced.inUse_of_refs f ?_
    have hRef := r.fds.refs_ne_zero hp hf
    omega

section

variable {r : ExecFds} {cur : ProcRef}

variable {r' : ExecFds}

lemma ExecFds.Sound.call {a : FdAction} (h : r.Sound) (hCounts : a.Counts r.fds)
    (hStep : r.call a = some r') : r'.Sound := by
  obtain ⟨_, hFds, rfl⟩ := map_eq_some_iff.mp hStep
  have hEnabled := (ite_none_right_eq_some.mp hFds).1
  obtain ⟨hEffect, hTidy⟩ := FdState.step_effect h.tidy hCounts.noDup hFds
  exact ⟨hTidy, hEffect.balanced (fun f => r.unheld.count f) hEnabled hCounts h.balanced⟩

lemma countStore_closeAll (fs : FileState) (files : List FileRef) :
    countStore (closeAll fs files) = files.foldl Store.drop (countStore fs) :=
  countStore_closes fs files

variable {k : FdState} {areas : List MemArea}

lemma FdState.Tidy.setAreas (h : k.Tidy) (fs : FileState) (hAreas : Disjoint areas) : (k.setAreas cur fs areas).Tidy := by
  refine ⟨h.nodup, fun q hq => ?_⟩
  rcases eq_or_ne q cur with rfl | hNe
  · simp only [FdState.setAreas, FdState.setProc, update_self]
    exact hAreas
  · simp only [FdState.setAreas, FdState.setProc, update_of_ne hNe]
    exact h.disjoint q hq

lemma FdState.refs_setAreas (h : k.Tidy) (hLive : cur ∈ k.live) (fs : FileState) (areas : List MemArea) (f : FileRef) :
    (k.setAreas cur fs areas).refs f + ((k.proc cur).memAreas.filterMap MemArea.filep).count f =
      k.refs f + (areas.filterMap MemArea.filep).count f := by
  have hProc := k.refs_setProc h.nodup hLive fs ((k.proc cur).setAreas areas) f
  simp only [FileProc.refs, count_append, FileProc.setAreas] at hProc
  simp only [FdState.setAreas, FileProc.setAreas]
  omega

lemma memAreaInsert_disjoint (h : Disjoint areas) (area : MemArea) : Disjoint (memAreaInsert areas area).1 := by
  unfold memAreaInsert
  split_ifs with hRange
  · exact h
  · refine pairwise_cons.mpr ⟨fun other hOther => ?_, h⟩
    rw [MemArea.meets_comm]
    by_contra hMeets
    exact hRange (any_eq_true.mpr ⟨other, hOther, Bool.eq_true_of_not_eq_false hMeets⟩)

lemma ExecFds.Sound.releaseAreas (h : r.Sound) (hLive : cur ∈ r.fds.live) : (releaseAreas r cur).Sound := by
  refine ⟨h.tidy.setAreas _ List.Pairwise.nil, ?_⟩
  show Balanced (countStore (closeAll _ _)) _
  rw [countStore_closeAll]
  refine h.balanced.dropAll _ fun f => ?_
  have hRefs := FdState.refs_setAreas h.tidy hLive
    (closeAll r.fds.fs ((r.fds.proc cur).memAreas.filterMap MemArea.filep)) [] f
  simp only [Sys.releaseAreas, filterMap_nil, count_nil] at hRefs ⊢
  omega

lemma memAreaInsert_cases (areas : List MemArea) (area : MemArea) :
    memAreaInsert areas area = (areas, -1) ∨ memAreaInsert areas area = (area :: areas, 0) := by
  unfold memAreaInsert
  split
  · exact Or.inl rfl
  · exact Or.inr rfl

lemma ExecFds.Sound.mapped {filep : FileRef} (h : r.Sound) (hLive : cur ∈ r.fds.live)
    (hUse : filep ∈ r.fds.fs.inUse) (segment : ElfSegment) : (vfsMapArea r cur filep segment).1.Sound := by
  unfold vfsMapArea
  split
  · exact h
  · split
    · exact h
    · refine ⟨h.tidy.setAreas _ (memAreaInsert_disjoint (h.tidy.disjoint cur hLive) _), ?_⟩
      show Balanced (countStore (countUp _ _)) _
      rw [countStore_countUp]
      refine h.balanced.acquire hUse fun f => ?_
      -- the reference is held by the new area, or by nobody
      rcases memAreaInsert_cases (r.fds.proc cur).memAreas (segment.area filep) with hFull | hRoom
      · have hRefs := FdState.refs_setAreas h.tidy hLive (countUp r.fds.fs filep) (r.fds.proc cur).memAreas f
        simp only [hFull, show ¬ (-1 : Int) = 0 by decide, if_false, count_cons, beq_iff_eq]
        omega
      · have hRefs := FdState.refs_setAreas h.tidy hLive (countUp r.fds.fs filep)
          (segment.area filep :: (r.fds.proc cur).memAreas) f
        simp only [hRoom, if_true]
        simp only [filterMap_cons, ElfSegment.area, MemArea.filep, count_cons, beq_iff_eq] at hRefs ⊢
        omega

/-- Between the open of the image and the end of the call. The reference of the open keeps the file in
use. -/
structure ExecFds.Loading (r : ExecFds) (cur : ProcRef) (elf : FileRef) : Prop where
  sound : r.Sound
  live : cur ∈ r.fds.live
  unheld : elf ∈ r.unheld

variable {elf : FileRef}

section

variable (h : r.Loading cur elf)
include h

lemma ExecFds.Loading.inUse : elf ∈ r.fds.fs.inUse := by
  refine h.sound.balanced.inUse_of_refs elf ?_
  have hPos := count_pos_iff.mpr h.unheld
  omega

lemma ExecFds.Loading.vfsMapArea (segment : ElfSegment) : (vfsMapArea r cur elf segment).1.Loading cur elf := by
  refine ⟨h.sound.mapped h.live h.inUse segment, ?_, ?_⟩
  · unfold Sys.vfsMapArea
    split
    · exact h.live
    · split <;> exact h.live
  · unfold Sys.vfsMapArea
    split
    · exact h.unheld
    · split
      · exact h.unheld
      · dsimp only
        split
        · exact h.unheld
        · exact mem_cons_of_mem elf h.unheld

lemma ExecFds.Loading.loadSegment (segment : ElfSegment) : (loadSegment r cur elf segment).1.Loading cur elf := by
  unfold Sys.loadSegment
  split
  · exact h.vfsMapArea segment
  · exact h

lemma ExecFds.Loading.loadFileSegments (segments : List ElfSegment) :
    (loadFileSegments r cur elf segments).1.Loading cur elf := by
  induction segments generalizing r with
  | nil => exact h
  | cons segment rest ih =>
    have hFirst := h.loadSegment segment
    unfold Sys.loadFileSegments
    dsimp only
    split
    · exact ih hFirst
    · exact hFirst

end

lemma ExecFds.Sound.insertStack (h : r.Sound) (hLive : cur ∈ r.fds.live) : (insertStack r cur).Sound := by
  refine ⟨h.tidy.setAreas _ (memAreaInsert_disjoint (h.tidy.disjoint cur hLive) _), ?_⟩
  have hRefs : ∀ f, (Sys.insertStack r cur).fds.refs f = r.fds.refs f := by
    intro f
    unfold Sys.insertStack
    rcases memAreaInsert_cases (r.fds.proc cur).memAreas userStack with hFull | hRoom
    · have hExchanged := FdState.refs_setAreas h.tidy hLive r.fds.fs (r.fds.proc cur).memAreas f
      rw [hFull]
      exact Nat.add_right_cancel hExchanged
    · have hExchanged := FdState.refs_setAreas h.tidy hLive r.fds.fs (userStack :: (r.fds.proc cur).memAreas) f
      rw [hRoom]
      exact Nat.add_right_cancel hExchanged
  rw [funext hRefs]
  exact h.balanced

lemma ExecFds.Loading.loadFile (h : r.Loading cur elf) (image : ElfImage) : (loadFile r cur elf image).Sound := by
  have hLoaded := h.loadFileSegments image.segments
  unfold Sys.loadFile
  dsimp only
  split
  · exact hLoaded.sound.insertStack hLoaded.live
  · exact hLoaded.sound

variable {fs : FileState} {inode : Option Inode} {object : Option FileRef}

lemma openImage_cases {fs' : FileState} {result : Option FileRef}
    (hFree : ∀ f ∈ object, f ∉ fs.inUse) (h : openImage fs inode object = (fs', result)) :
    (result = none ∧ fs' = fs) ∨
    (∃ filep file, object = some filep ∧ result = none ∧ fs' = fs.setFile filep file) ∨
    ∃ filep, object = some filep ∧ result = some filep ∧ Opened fs filep fs' := by
  cases inode with
  | none =>
    cases h
    exact Or.inl ⟨rfl, rfl⟩
  | some inode => exact vfsOpen_cases hFree h

lemma ExecFds.Sound.openedImage (h : r.Sound) (hFree : elf ∉ r.fds.fs.inUse) (hOpened : Opened r.fds.fs elf fs) :
    ExecFds.Sound { fds := { r.fds with fs }, unheld := elf :: r.unheld } := by
  refine ⟨⟨h.tidy.nodup, h.tidy.disjoint⟩, ?_⟩
  rw [countStore_opened hOpened]
  refine h.balanced.take hFree fun f => ?_
  show r.fds.refs f + (elf :: r.unheld).count f = _
  rw [count_cons, Nat.add_assoc]
  simp

lemma ExecFds.Sound.execveFiles (h : r.Sound) (hLive : cur ∈ r.fds.live) (hFree : ∀ f ∈ object, f ∉ r.fds.fs.inUse)
    (hUnmarked : (openImage r.fds.fs inode object).2.isSome → (r.fds.proc cur).cloexec = []) (image : ElfImage) :
    (execveFiles r cur inode object image).Sound := by
  unfold Sys.execveFiles
  cases hOpen : openImage r.fds.fs inode object with
  | mk fs result =>
    rw [hOpen] at hUnmarked
    rcases openImage_cases hFree hOpen with ⟨rfl, rfl⟩ | ⟨filep, file, rfl, rfl, rfl⟩ | ⟨elf, rfl, rfl, hOpened⟩
    · exact h
    · exact ⟨⟨h.tidy.nodup, h.tidy.disjoint⟩, Balanced_setFile h.balanced (hFree filep rfl) file⟩
    · have hImage := h.openedImage (hFree elf rfl) hOpened
      have hNone : closeOnExec { fds := { r.fds with fs }, unheld := elf :: r.unheld } cur =
          { fds := { r.fds with fs }, unheld := elf :: r.unheld } := by
        unfold closeOnExec
        rw [hUnmarked rfl]
        rfl
      dsimp only
      rw [hNone]
      exact ExecFds.Loading.loadFile ⟨hImage.releaseAreas hLive, hLive, mem_cons_self⟩ image

lemma ExecFds.Sound.step {a : ExecFdAction} (h : r.Sound) (hUnmarked : a.Unmarked r)
    (hStep : r.step a = some r') : r'.Sound := by
  cases a with
  | openName cur inode flags object => exact h.call (a := .openName cur inode flags object) trivial hStep
  | fork cur fresh => exact h.call (a := .fork cur fresh) trivial hStep
  | execve cur inode object image =>
    obtain ⟨⟨hLive, hFree⟩, ⟨⟩⟩ := ite_none_right_eq_some.mp hStep
    exact h.execveFiles hLive hFree hUnmarked image
  | close cur fd => exact h.call (a := .close cur fd) trivial hStep
  | exit cur => exact h.call (a := .exit cur) trivial hStep

end

section

variable (r : ExecFds) (cur p : ProcRef)

lemma FdState.files_setAreas (k : FdState) (fs : FileState) (areas : List MemArea) :
    ((k.setAreas cur fs areas).proc p).files = (k.proc p).files := by
  unfold FdState.setAreas FdState.setProc
  rcases eq_or_ne p cur with rfl | hNe
  · simp only [update_self]
    rfl
  · simp [update_of_ne hNe]

lemma vfsMapArea_files (filep : FileRef) (segment : ElfSegment) :
    ((vfsMapArea r cur filep segment).1.fds.proc p).files = (r.fds.proc p).files := by
  unfold vfsMapArea
  split
  · rfl
  · split
    · rfl
    · exact r.fds.files_setAreas cur p _ _

lemma loadFileSegments_files (filep : FileRef) (segments : List ElfSegment) :
    ((loadFileSegments r cur filep segments).1.fds.proc p).files = (r.fds.proc p).files := by
  induction segments generalizing r with
  | nil => rfl
  | cons segment rest ih =>
    have hFirst : ((loadSegment r cur filep segment).1.fds.proc p).files = (r.fds.proc p).files := by
      unfold loadSegment
      split
      · exact vfsMapArea_files r cur p filep segment
      · rfl
    unfold loadFileSegments
    dsimp only
    split
    · exact (ih _).trans hFirst
    · exact hFirst

lemma loadFile_files (filep : FileRef) (image : ElfImage) :
    ((loadFile r cur filep image).fds.proc p).files = (r.fds.proc p).files := by
  have hSegments := loadFileSegments_files r cur p filep image.segments
  unfold loadFile
  dsimp only
  split
  · exact (FdState.files_setAreas cur p _ _ _).trans hSegments
  · exact hSegments

lemma execveFiles_files (inode : Option Inode) (object : Option FileRef) (image : ElfImage) :
    ((execveFiles r cur inode object image).fds.proc p).files = (r.fds.proc p).files := by
  unfold execveFiles
  dsimp only
  split
  · rfl
  · rw [loadFile_files]
    exact FdState.files_setAreas cur p _ _ _

end

lemma FileProc.empty_of_cloexec_nil {proc : FileProc} (h : proc.cloexec = []) {fd : Nat}
    (hFd : fd < processMaxFile) (hFlag : proc.fdflags.getD fd 0 &&& FD_CLOEXEC ≠ 0) :
    proc.files.getD fd none = none := by
  have hNone := filterMap_eq_nil_iff.mp h fd (mem_range.mpr hFd)
  rwa [if_pos hFlag] at hNone

def ExecFds.boot (contents : FileRef → File) : ExecFds := ⟨.boot contents, []⟩

lemma ExecFds.boot_sound (contents : FileRef → File) : (ExecFds.boot contents).Sound where
  tidy := FdState.boot_tidy contents
  balanced := (FdState.boot_counted contents).balanced

/-- As long as images are replaced only with no open descriptor marked close-on-exec, every struct file in use is
counted by its references and no slot or area names a freed one; and a further such `sys_execve` only empties the marked
slots. -/
theorem execve_drops_once (contents : FileRef → File) (actions : List ExecFdAction) (r : ExecFds)
    (hRun : Run ExecFds.step (fun r a => a.Unmarked r) (ExecFds.boot contents) actions r) :
    r.DroppedOnce ∧
    ∀ cur inode object image, (ExecFdAction.execve cur inode object image).Unmarked r →
      ∀ fd < processMaxFile, ((execveFiles r cur inode object image).fds.proc cur).files.getD fd none =
        if (openImage r.fds.fs inode object).2.isSome ∧ (r.fds.proc cur).fdflags.getD fd 0 &&& FD_CLOEXEC ≠ 0
        then none else (r.fds.proc cur).files.getD fd none := by
  constructor
  · have hSound : r.Sound := hRun.invariant (fun _ _ _ hUnmarked h hStep => h.step hUnmarked hStep)
      (ExecFds.boot_sound contents)
    exact hSound.droppedOnce
  · intro cur inode object image hUnmarked fd hFd
    rw [execveFiles_files]
    split_ifs with hMarked
    · exact FileProc.empty_of_cloexec_nil (hUnmarked hMarked.1) hFd hMarked.2
    · rfl

def flashInode : Inode := ⟨some .smemfs, false, false, 0, 0, 0⟩

def smallElf : ElfImage := ⟨[⟨0x10000000, 0x500, 0x80, 0x480, true⟩], true, true⟩

theorem execve_drops_once_child : ∃ r, Run ExecFds.step (fun r a => a.Unmarked r) (ExecFds.boot fun _ => leftOver 0)
        [.openName 0 (some rootInode) O_RDONLY (some 5), .fork 0 1, .execve 1 (some flashInode) (some 6) smallElf,
          .close 1 0, .exit 1] r ∧
      (r.fds.proc 0).fileOf 0 = some 5 ∧ r.DroppedOnce := by
  have hExec : ((exec (guarded ExecFds.step fun r a => a.Unmarked r) (ExecFds.boot fun _ => leftOver 0)
      [.openName 0 (some rootInode) O_RDONLY (some 5), .fork 0 1, .execve 1 (some flashInode) (some 6) smallElf,
        .close 1 0, .exit 1]).map fun r => (r.fds.proc 0).fileOf 0) = some (some 5) := by
    decide +kernel
  obtain ⟨r, hRun, hFile⟩ := map_eq_some_iff.mp hExec
  have hRun := run_of_exec_guarded hRun
  exact ⟨r, hRun, hFile, (execve_drops_once _ _ r hRun).1⟩

/-- The next open gets the struct file of a marked descriptor, and closing the old one takes it away. -/
theorem cloexec_slot_dangles : ((exec ExecFds.step (ExecFds.boot fun _ => leftOver 0)
      [.openName 0 (some rootInode) (O_RDONLY ||| O_CLOEXEC) (some 5),
        .execve 0 (some flashInode) (some 6) smallElf]).map fun r =>
      ((r.fds.proc 0).fileOf 0, decide (5 ∈ r.fds.fs.inUse))) = some (some 5, false) ∧
    ((exec ExecFds.step (ExecFds.boot fun _ => leftOver 0) [.openName 0 (some rootInode) (O_RDONLY ||| O_CLOEXEC) (some 5),
        .execve 0 (some flashInode) (some 6) smallElf, .openName 0 (some rootInode) O_RDONLY (some 5),
        .close 0 0]).map fun r =>
      ((r.fds.proc 0).fileOf 1, decide (5 ∈ r.fds.fs.inUse))) = some (some 5, false) := by
  decide +kernel

end Fixos.Sys
