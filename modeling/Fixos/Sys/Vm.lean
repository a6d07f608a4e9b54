import Fixos.Sys.Exec
import Fixos.Sys.Scheduler

/-! # The memory of all processes

Processes fault pages in, resize their heap, fork, replace their image, store and exit, in any order. In between the
kernel takes, writes and gives back pages for itself.
-/

namespace Fixos.Sys

open Arch Fs RefCount Transition Option Function List

structure Vm where
  m : Memory
  proc : ProcRef → VmProc
  procs : List ProcRef
  smem : FileRef → SmemFile

def Vm.boot (free : List Ppn) (cells : Ppn → Nat → Cell) (smem : FileRef → SmemFile) : Vm where
  m := ⟨⟨free, cells⟩, Utils.poolInit, []⟩
  proc := fun _ => .blank
  procs := []
  smem := smem

inductive VmAction where
  | spawn (p : ProcRef) (image : Image)
  | fault (p : ProcRef) (vpn : Nat)
  | sbrk (p : ProcRef) (incr : Int)
  | fork (cur child : ProcRef)
  | execve (p : ProcRef) (image : Image) (argv envp : Option (List Bytes))
  | exit (p : ProcRef)
  | write (p : ProcRef) (addr : Nat) (byte : UInt8)
  | kernelTake
  | kernelRelease (ppn : Ppn)
  | kernelWrite (ppn pos : Nat) (bytes : Bytes)

/-- `process_alloc` gives out a `struct process` that no other process has, up to a limit. -/
def Vm.CanAlloc (s : Vm) (p : ProcRef) : Prop := p ∉ s.procs ∧ s.procs.length < configProcMax
deriving Decidable

def VmAction.Enabled (s : Vm) : VmAction → Prop
  | .spawn p _ => s.CanAlloc p
  | .fork cur child => cur ∈ s.procs ∧ s.CanAlloc child
  | .fault p _ | .sbrk p _ | .execve p _ _ _ | .exit p | .write p _ _ => p ∈ s.procs
  | .kernelTake | .kernelRelease _ => True
  | .kernelWrite ppn pos bytes => ppn ∈ s.m.kernel ∧ pos + bytes.length ≤ pmPageBytes

instance VmAction.decidableEnabled (s : Vm) (a : VmAction) : Decidable (a.Enabled s) := by
  unfold VmAction.Enabled
  split <;> infer_instance

def Vm.setProc (s : Vm) (p : ProcRef) (m : Memory) (proc : VmProc) : Vm :=
  { s with m, proc := update s.proc p proc }

@[simp] lemma Vm.setProc_self (s : Vm) (p : ProcRef) (m : Memory) (proc : VmProc) : (s.setProc p m proc).proc p = proc := by
  simp [setProc]

lemma Vm.setProc_of_ne (s : Vm) {p q : ProcRef} (hq : q ≠ p) (m : Memory) (proc : VmProc) :
    (s.setProc p m proc).proc q = s.proc q :=
  update_of_ne hq _ _

def Vm.addProc (s : Vm) (p : ProcRef) (m : Memory) (proc : VmProc) : Vm :=
  { s.setProc p m proc with procs := p :: s.procs }

def Vm.removeProc (s : Vm) (p : ProcRef) (m : Memory) (proc : VmProc) : Vm :=
  { s.setProc p m proc with procs := s.procs.erase p }

def Vm.userWrite (s : Vm) (p : ProcRef) (addr : Nat) (byte : UInt8) : Option Vm :=
  ((s.proc p).dirs.pageAt (addr / pmPageBytes)).map fun ppn =>
    { s with m := { s.m with pm := s.m.pm.store ppn (addr % pmPageBytes) (some p) [byte] } }

def Vm.call (s : Vm) : VmAction → Option Vm
  | .spawn p image => (elfloaderLoad s.m .blank image).map fun (m, proc) => s.addProc p m proc
  | .fault p vpn => (tlbmissHandler s.smem s.m (s.proc p) vpn).map fun (m, proc, _) => s.setProc p m proc
  | .sbrk p incr => (sysSbrk s.m (s.proc p) incr).map fun (m, proc, _) => s.setProc p m proc
  | .fork cur child => (forkMemory s.m (s.proc cur)).map fun (m, proc) => s.addProc child m proc
  | .execve p image argv envp =>
    (execveMemory s.m (s.proc p) image argv envp).map fun (m, proc) => s.setProc p m proc
  | .exit p => (terminateMemory s.m (s.proc p)).map fun (m, proc) => s.removeProc p m proc
  | .write p addr byte => s.userWrite p addr byte
  | .kernelTake => s.m.getKernelPage.map fun (_, m) => { s with m }
  | .kernelRelease ppn => (s.m.releaseKernelPage ppn).map fun m => { s with m }
  | .kernelWrite ppn pos bytes => some { s with m := { s.m with pm := s.m.pm.store ppn pos none bytes } }

def Vm.step (s : Vm) (a : VmAction) : Option Vm := if a.Enabled s then s.call a else none

/-- A page that the kernel gives back was taken from the allocator and not given back since. -/
def VmAction.KernelOwned (s : Vm) : VmAction → Prop
  | .kernelRelease ppn => ppn ∈ s.m.kernel
  | .execve p _ _ _ => (s.proc p).kernelStack ∈ s.m.kernel
  | _ => True

instance (s : Vm) (a : VmAction) : Decidable (a.KernelOwned s) := by
  unfold VmAction.KernelOwned
  split <;> infer_instance

def Vm.mapped (s : Vm) : List Ppn := s.procs.flatMap fun p => (s.proc p).dirs.owned

def Vm.uses (s : Vm) (r : Ppn) : Nat := s.m.holds r + total s.procs (fun p => (s.proc p).dirs.owned) r

lemma Vm.uses_eq_count (s : Vm) (r : Ppn) : s.uses r = (s.m.pm.free ++ s.m.kernel ++ s.mapped).count r := by
  simp only [uses, Memory.holds, total, mapped, count_append, count_flatMap]
  rfl

section

variable {s : Vm} {p : ProcRef} {m : Memory} {proc : VmProc} {r : Ppn}

lemma Vm.owned_setProc (s : Vm) (p : ProcRef) (m : Memory) (proc : VmProc) :
    (fun q => ((s.setProc p m proc).proc q).dirs.owned) = update (fun q => (s.proc q).dirs.owned) p proc.dirs.owned := by
  funext q
  simp only [setProc, update_apply]
  split <;> rfl

lemma Vm.uses_setProc_le (hNodup : s.procs.Nodup) (hp : p ∈ s.procs)
    (h : m.holds r + proc.dirs.owned.count r ≤ s.m.holds r + (s.proc p).dirs.owned.count r) :
    (s.setProc p m proc).uses r ≤ s.uses r := by
  have hTotal := total_update hNodup hp (fun q => (s.proc q).dirs.owned) proc.dirs.owned r
  unfold uses
  rw [owned_setProc]
  simp only [setProc] at hTotal ⊢
  omega

lemma Vm.total_setProc_of_notMem (s : Vm) (m : Memory) (proc : VmProc) (r : Ppn) {procs : List ProcRef} (hp : p ∉ procs) :
    total procs (fun q => ((s.setProc p m proc).proc q).dirs.owned) r = total procs (fun q => (s.proc q).dirs.owned) r := by
  refine total_congr (fun q hq => ?_) r
  have hNe : q ≠ p := by
    rintro rfl
    exact hp hq
  simp [setProc, update_of_ne hNe]

lemma Vm.uses_addProc_le (hp : p ∉ s.procs) (h : m.holds r + proc.dirs.owned.count r ≤ s.m.holds r) :
    (s.addProc p m proc).uses r ≤ s.uses r := by
  have hOthers := total_setProc_of_notMem s m proc r hp
  show m.holds r + total (p :: s.procs) (fun q => ((s.setProc p m proc).proc q).dirs.owned) r ≤ _
  rw [total_cons, hOthers, uses]
  simp only [setProc, update_self]
  omega

lemma Vm.uses_removeProc_le (hNodup : s.procs.Nodup) (hp : p ∈ s.procs)
    (h : m.holds r ≤ s.m.holds r + (s.proc p).dirs.owned.count r) :
    (s.removeProc p m proc).uses r ≤ s.uses r := by
  have hOthers := total_setProc_of_notMem s m proc r (hNodup.not_mem_erase (a := p))
  have hTotal := total_erase hp (fun q => (s.proc q).dirs.owned) r
  show m.holds r + total (s.procs.erase p) (fun q => ((s.setProc p m proc).proc q).dirs.owned) r ≤ _
  rw [hOthers, uses]
  omega

end

variable {s t : Vm} {a : VmAction}

lemma Vm.uses_call_le (hNodup : s.procs.Nodup) (hEnabled : a.Enabled s)
    (hKernel : a.KernelOwned s) (h : s.call a = some t) (r : Ppn) : t.uses r ≤ s.uses r := by
  cases a with
  | spawn p image =>
    obtain ⟨⟨m, proc⟩, hLoad, rfl⟩ := map_eq_some_iff.mp h
    obtain ⟨hDirs, hHolds, _⟩ := elfloaderLoad_effect hLoad
    refine uses_addProc_le hEnabled.1 ?_
    rw [hHolds r, hDirs]
    exact Nat.le_refl _
  | fault p vpn =>
    obtain ⟨⟨m, proc, ppn⟩, hFault, rfl⟩ := map_eq_some_iff.mp h
    exact uses_setProc_le hNodup hEnabled ((tlbmissHandler_faulted hFault).1.count_le r)
  | sbrk p incr =>
    obtain ⟨⟨m, proc, _⟩, hSbrk, rfl⟩ := map_eq_some_iff.mp h
    exact uses_setProc_le hNodup hEnabled ((sysSbrk_released hSbrk).count_eq r).le
  | fork cur child =>
    obtain ⟨⟨m, proc⟩, hFork, rfl⟩ := map_eq_some_iff.mp h
    exact uses_addProc_le hEnabled.2.1 (forkMemory_le hFork r)
  | execve p image argv envp =>
    obtain ⟨⟨m, proc⟩, hExec, rfl⟩ := map_eq_some_iff.mp h
    exact uses_setProc_le hNodup hEnabled (execveMemory_le hKernel hExec r)
  | exit p =>
    obtain ⟨⟨m, proc⟩, hExit, rfl⟩ := map_eq_some_iff.mp h
    obtain ⟨_, hRelease, ⟨⟩⟩ := map_eq_some_iff.mp hExit
    exact uses_removeProc_le hNodup hEnabled (memReleaseDirs_holds hRelease r).le
  | write p addr byte =>
    obtain ⟨ppn, _, rfl⟩ := map_eq_some_iff.mp h
    exact Nat.le_refl _
  | kernelTake =>
    obtain ⟨⟨ppn, m⟩, hTake, rfl⟩ := map_eq_some_iff.mp h
    exact Nat.add_le_add_right (Memory.holds_getKernelPage hTake r).le _
  | kernelRelease ppn =>
    obtain ⟨m, hRelease, rfl⟩ := map_eq_some_iff.mp h
    exact Nat.add_le_add_right (Memory.holds_releaseKernel (Or.inl hKernel) hRelease).le _
  | kernelWrite ppn pos bytes =>
    cases h
    exact Nat.le_refl _

lemma Vm.procs_call (hNodup : s.procs.Nodup) (hEnabled : a.Enabled s) (h : s.call a = some t) : t.procs.Nodup := by
  cases a with
  | spawn p image =>
    obtain ⟨_, _, rfl⟩ := map_eq_some_iff.mp h
    exact nodup_cons.mpr ⟨hEnabled.1, hNodup⟩
  | fork cur child =>
    obtain ⟨_, _, rfl⟩ := map_eq_some_iff.mp h
    exact nodup_cons.mpr ⟨hEnabled.2.1, hNodup⟩
  | exit p =>
    obtain ⟨_, _, rfl⟩ := map_eq_some_iff.mp h
    exact hNodup.erase p
  | kernelWrite ppn pos bytes =>
    cases h
    exact hNodup
  | fault | sbrk | execve | write | kernelTake | kernelRelease =>
    obtain ⟨_, _, rfl⟩ := map_eq_some_iff.mp h
    exact hNodup

structure Vm.Exclusive (s : Vm) : Prop where
  procs : s.procs.Nodup
  uses_le : ∀ r, s.uses r ≤ 1

lemma Vm.Exclusive.step (hs : s.Exclusive) (h : s.step a = some t) (hKernel : a.KernelOwned s) : t.Exclusive := by
  obtain ⟨hEnabled, hCall⟩ := ite_none_right_eq_some.mp h
  exact ⟨Vm.procs_call hs.procs hEnabled hCall,
    fun r => (Vm.uses_call_le hs.procs hEnabled hKernel hCall r).trans (hs.uses_le r)⟩

lemma Vm.boot_exclusive {free : List Ppn} (hFree : free.Nodup) (cells : Ppn → Nat → Cell)
    (smem : FileRef → SmemFile) : (Vm.boot free cells smem).Exclusive where
  procs := nodup_nil
  uses_le r := by
    rw [Vm.uses_eq_count]
    simpa [Vm.boot, Vm.mapped] using nodup_iff_count_le_one.mp hFree r

lemma Vm.Exclusive.mapped_notMem_free (hs : s.Exclusive) {p : ProcRef} (hp : p ∈ s.procs)
    {ppn : Ppn} (hOwned : ppn ∈ (s.proc p).dirs.owned) : ppn ∉ s.m.pm.free := by
  intro hFree
  have hUses := hs.uses_le ppn
  rw [Vm.uses_eq_count, count_append, count_append] at hUses
  have hMapped : 0 < s.mapped.count ppn := count_pos_iff.mpr (mem_flatMap.mpr ⟨p, hp, hOwned⟩)
  have hCount := count_pos_iff.mpr hFree
  omega

def smallImage : Image := ⟨[⟨0x100000, 1024, .file 3 0 512 true⟩], true⟩

def smallBoot : Vm :=
  Vm.boot [20, 21, 22, 23, 24, 25, 26, 27, 28, 29] (fun _ _ => ⟨0, none⟩) (fun _ => ⟨512, fun _ => 7⟩)

def smallRun : List VmAction :=
  [.spawn 0 smallImage, .fault 0 0x400, .fault 0 0xFFFFF, .sbrk 0 1024, .fault 0 0x401, .fork 0 1,
    .sbrk 0 (-1024), .execve 0 smallImage (some [[65, 0]]) none, .exit 1]

end Fixos.Sys
