import Fixos.Lib.RefCount
import Fixos.Sys.MemArea
import Fixos.Sys.Scheduler

/-! # Descriptors (`sys/files.c`) and their part in fork and exit (`sys/process.c`)

The inode a name resolves to and the objects that the pools hand out are inputs of the calls.
-/

namespace Fixos.Sys

open Fs RefCount

def processMaxFile : Nat := 12

lemma length_noFiles : (List.replicate processMaxFile (none : Option FileRef)).length = processMaxFile :=
  List.length_replicate

structure FileProc where
  files : List (Option FileRef)
  fdflags : List (BitVec 8)
  memAreas : List MemArea
  length_files : files.length = processMaxFile

structure FdState where
  fs : FileState
  proc : ProcRef → FileProc
  live : List ProcRef

def FileProc.refs (proc : FileProc) : List FileRef :=
  proc.files.filterMap id ++ proc.memAreas.filterMap MemArea.filep

def FdState.slotRefs (k : FdState) (filep : FileRef) : Nat :=
  (k.live.map fun p => (k.proc p).files.count (some filep)).sum

def FdState.areaRefs (k : FdState) (filep : FileRef) : Nat :=
  (k.live.map fun p => (k.proc p).memAreas.countP fun area => area.filep == some filep).sum

def FdState.refs (k : FdState) : FileRef → Nat := total k.live fun p => (k.proc p).refs

def FileProc.setFd (proc : FileProc) (fd : Nat) (filep : Option FileRef) : FileProc :=
  { proc with
    files := proc.files.set fd filep
    length_files := (List.length_set).trans proc.length_files }

def FileProc.setFlags (proc : FileProc) (fd : Nat) (flags : BitVec 8) : FileProc :=
  { proc with fdflags := proc.fdflags.set fd flags }

def FdState.setProc (k : FdState) (p : ProcRef) (proc : FileProc) : FdState :=
  { k with proc := Function.update k.proc p proc }

def FileProc.fileOf (proc : FileProc) (fd : Int) : Option FileRef :=
  if 0 ≤ fd ∧ fd < processMaxFile then proc.files.getD fd.toNat none else none

def FileProc.freeFd (proc : FileProc) (start : Nat) : Nat :=
  start + (proc.files.drop start).findIdx fun slot => slot.isNone

def sysOpen (k : FdState) (cur : ProcRef) (inode : Option Inode) (flags : BitVec 32)
    (object : Option FileRef) : FdState × Int :=
  let proc := k.proc cur
  let fd := proc.freeFd 0
  if fd < processMaxFile then
    match inode with
    | none => (k, -1)
    | some inode =>
      let proc := proc.setFlags fd (if flags &&& O_CLOEXEC ≠ 0 then FD_CLOEXEC else 0)
      let opened := vfsOpen k.fs inode (flags &&& ~~~O_CLOEXEC) object
      let k := { k with fs := opened.1 }.setProc cur (proc.setFd fd opened.2)
      (k, if opened.2.isSome then fd else -1)
  else (k, -1)

def sysPipe2 (k : FdState) (cur : ProcRef) (objIn objOut : Option FileRef) (page : Option PageRef) :
    FdState × Int :=
  let proc := k.proc cur
  let fdin := proc.freeFd 0
  let fdout := proc.freeFd (fdin + 1)
  if fdin < processMaxFile ∧ fdout < processMaxFile then
    let created := pipeCreate k.fs objIn objOut page
    match created.2 with
    | some (fin, fout) =>
      ({ k with fs := created.1 }.setProc cur
        ((proc.setFd fdin (some fin)).setFd fdout (some fout)), 0)
    | none => ({ k with fs := created.1 }, -1)
  else (k, -1)

def sysClose (k : FdState) (cur : ProcRef) (fd : Int) : FdState × Int :=
  match (k.proc cur).fileOf fd with
  | some filep =>
    let closed := vfsClose k.fs filep
    ({ k with fs := closed.1 }.setProc cur ((k.proc cur).setFd fd.toNat none), closed.2)
  | none => (k, -EBADF)

def sysDup (k : FdState) (cur : ProcRef) (oldfd : Int) : FdState × Int :=
  let proc := k.proc cur
  let fd := proc.freeFd 0
  if fd ≥ processMaxFile then (k, -EMFILE)
  else if oldfd < 0 ∨ oldfd ≥ processMaxFile then (k, -EBADF)
  else (k.setProc cur ((proc.setFlags fd 0).setFd fd (proc.files.getD oldfd.toNat none)), fd)

def sysDup2 (k : FdState) (cur : ProcRef) (oldfd newfd : Int) : FdState × Int :=
  let proc := k.proc cur
  if oldfd < 0 ∨ oldfd ≥ processMaxFile ∨ newfd < 0 ∨ newfd ≥ processMaxFile then (k, -EBADF)
  else
    match proc.fileOf oldfd with
    | none => (k, -EBADF)
    | some filep =>
      if oldfd ≠ newfd then
        let fs := match proc.fileOf newfd with
          | some old => (vfsClose k.fs old).1
          | none => k.fs
        ({ k with fs }.setProc cur
          ((proc.setFlags newfd.toNat 0).setFd newfd.toNat (some filep)), newfd)
      else (k, newfd)

/-- `mem_area_clone`: a copy, after `area_duplicate` for a file area. -/
def memAreaClone (fs : FileState) (area : MemArea) : FileState :=
  match area.filep with
  | some filep => countUp fs filep
  | none => fs

def forkAreas (fs : FileState) (areas : List MemArea) : FileState × List MemArea :=
  areas.foldl (fun (fs, copies) area => (memAreaClone fs area, (memAreaInsert copies area).1))
    (fs, [])

def forkFiles (k : FdState) (cur fresh : ProcRef) : FdState :=
  let proc := k.proc cur
  let fs := (proc.files.filterMap id).foldl countUp k.fs
  let cloned := forkAreas fs proc.memAreas
  { fs := cloned.1
    proc := Function.update k.proc fresh { proc with memAreas := cloned.2 }
    live := fresh :: k.live }

def terminateFiles (k : FdState) (cur : ProcRef) : FdState :=
  let proc := k.proc cur
  let fs := (proc.files.filterMap id).foldl (fun fs filep => (vfsClose fs filep).1) k.fs
  let fs := (proc.memAreas.filterMap MemArea.filep).foldl
    (fun fs filep => (vfsClose fs filep).1) fs
  { fs
    proc := Function.update k.proc cur
      { proc with
        files := List.replicate processMaxFile none
        memAreas := []
        length_files := length_noFiles }
    live := k.live.erase cur }

inductive FdAction where
  | openName (cur : ProcRef) (inode : Option Inode) (flags : BitVec 32) (object : Option FileRef)
  | pipe2 (cur : ProcRef) (objIn objOut : Option FileRef) (page : Option PageRef)
  | close (cur : ProcRef) (fd : Int)
  | dup (cur : ProcRef) (oldfd : Int)
  | dup2 (cur : ProcRef) (oldfd newfd : Int)
  | fork (cur fresh : ProcRef)
  | exit (cur : ProcRef)
deriving DecidableEq

def FdAction.Enabled (k : FdState) : FdAction → Prop
  | .openName cur _ _ object => cur ∈ k.live ∧ ∀ f ∈ object, f ∉ k.fs.inUse
  | .pipe2 cur objIn objOut page =>
    cur ∈ k.live ∧ (∀ f ∈ objIn, f ∉ k.fs.inUse) ∧ (∀ f ∈ objOut, f ∉ k.fs.inUse) ∧
      (∀ f ∈ objIn, objOut ≠ some f) ∧ ∀ p ∈ page, p ∉ k.fs.pipePages
  | .fork cur fresh => cur ∈ k.live ∧ fresh ∉ k.live
  | .close cur _ | .dup cur _ | .dup2 cur _ _ | .exit cur => cur ∈ k.live

instance (k : FdState) (a : FdAction) : Decidable (a.Enabled k) := by
  unfold FdAction.Enabled
  split <;> infer_instance

def FdAction.call (k : FdState) : FdAction → FdState × Int
  | .openName cur inode flags object => sysOpen k cur inode flags object
  | .pipe2 cur objIn objOut page => sysPipe2 k cur objIn objOut page
  | .close cur fd => sysClose k cur fd
  | .dup cur oldfd => sysDup k cur oldfd
  | .dup2 cur oldfd newfd => sysDup2 k cur oldfd newfd
  | .fork cur fresh => (forkFiles k cur fresh, 0)
  | .exit cur => (terminateFiles k cur, 0)

def FdState.step (k : FdState) (a : FdAction) : Option FdState :=
  if a.Enabled k then some (a.call k).1 else none

end Fixos.Sys
