import Fixos.Sys.ArgCopy

/-! # Replacing the memory of a process (`sys/process.c`, `loader/elfloader/loader.c`)

`sys_execve` copies the arguments to new pages before it gives up the old memory.
-/

namespace Fixos.Sys

open Arch Fs Word RefCount Transition Option Function List

def processDefaultStackSize : Nat := 64 * 1024

/-- What the loader finds in a file: the loadable segments in order, and whether the headers could
be read to the end. -/
structure Image where
  segments : List MemArea
  complete : Bool

def elfloaderLoadSegment (proc : VmProc) (segment : MemArea) : VmProc × Int :=
  if segment.address % pmPageBytes = 0 then (proc.allocArea segment).insertArea proc.nextArea
  else (proc, -1)

def loadSegments (proc : VmProc) (brk : Nat) : List MemArea → VmProc × Nat × Int
  | [] => (proc, brk, 0)
  | segment :: rest =>
    let (proc, ret) := elfloaderLoadSegment proc segment
    if ret = 0 then loadSegments proc (max brk (add segment.address segment.maxSize)) rest
    else (proc, brk, -1)

def elfloaderLoadAll (proc : VmProc) (image : Image) : VmProc × Int :=
  let (proc, brk, ret) := loadSegments proc 0 image.segments
  if ret = 0 ∧ image.complete then ({ proc with initialBrk := brk }, 0) else (proc, -1)

/-- A file that cannot be loaded leaves no stack area and the old kernel stack; 0 is returned all the same. -/
def elfloaderLoad (m : Memory) (proc : VmProc) (image : Image) : Option (Memory × VmProc) :=
  let (proc, ret) := elfloaderLoadAll proc image
  if ret = 0 then
    let stack : MemArea :=
      ⟨archUnewprocDefaultStack - processDefaultStackSize, processDefaultStackSize, .anon⟩
    let proc := ((proc.allocArea stack).insertArea proc.nextArea).1
    m.getKernelPage.map fun (kernelStack, m) => (m, { proc with kernelStack })
  else some (m, proc)

def insertArgPage (pages : ArgTable) (st : Memory × DirList)
    (i : Fin processArgMaxPages) : Option (Memory × DirList) :=
  match pages i with
  | none => some st
  | some ppn => memInsertPage st.1 st.2 ⟨ppn, true, true, true⟩
      (archUnewprocDefaultStack - (i + 1) * pmPageBytes)

def execveMemory (m : Memory) (proc : VmProc) (image : Image) (argv envp : Option (List Bytes)) :
    Option (Memory × VmProc) := do
  let args ← copyArgs m argv envp
  let m ← memReleaseDirs args.m proc.dirs
  let (m, loaded) ← elfloaderLoad m { proc with dirs := .empty, areas := [], heap := none } image
  let (m, dirs) ← (finRange processArgMaxPages).foldlM (insertArgPage args.pages) (m, loaded.dirs)
  let m ← m.releaseKernelPage proc.kernelStack
  return (m, { loaded with dirs })

def argCount (pages : ArgTable) (r : Ppn) : Nat :=
  total (finRange processArgMaxPages) (fun i => (pages i).toList) r

variable {pages : ArgTable}

lemma argCount_update {i : Fin processArgMaxPages} (hNone : pages i = none) (ppn r : Ppn) :
    argCount (update pages i (some ppn)) r = argCount pages r + [ppn].count r := by
  have hHeld : (fun j => (update pages i (some ppn) j).toList) = update (fun j => (pages j).toList) i [ppn] := by
    funext j
    rw [update_apply, update_apply]
    split <;> rfl
  have hTotal := total_update (nodup_finRange _) (mem_finRange i) (fun j => (pages j).toList) [ppn] r
  rw [hNone, toList_none, count_nil, Nat.add_zero] at hTotal
  rw [argCount, hHeld, hTotal]
  rfl

structure ArgsTaken (m : Memory) (pages : ArgTable) (m' : Memory)
    (pages' : ArgTable) : Prop where
  count_eq : ∀ r, m'.holds r + argCount pages' r = m.holds r + argCount pages r
  kernel : m'.kernel = m.kernel

lemma ArgsTaken.refl (m : Memory) (pages : ArgTable) : ArgsTaken m pages m pages := ⟨fun _ => rfl, rfl⟩

variable {m : Memory}

lemma ArgsTaken.trans {m₁ m₂ : Memory} {pages₁ pages₂ : ArgTable}
    (h : ArgsTaken m pages m₁ pages₁) (h' : ArgsTaken m₁ pages₁ m₂ pages₂) :
    ArgsTaken m pages m₂ pages₂ :=
  ⟨fun r => (h'.count_eq r).trans (h.count_eq r), h'.kernel.trans h.kernel⟩

variable {st st' : ArgCopy}

lemma ArgCopy.exec_taken {op : ArgOp} (h : st.exec op = some st') : ArgsTaken st.m st.pages st'.m st'.pages := by
  cases op with
  | need i =>
    simp only [exec, needPage] at h
    split at h
    · split at h
      · cases h
        exact .refl _ _
      · rename_i hNone
        obtain ⟨⟨ppn, m⟩, hGet, ⟨⟩⟩ := map_eq_some_iff.mp h
        constructor
        · intro r
          show m.holds r + argCount (update st.pages _ (some ppn)) r = _
          rw [Memory.holds_getFreePage hGet r, argCount_update hNone]
          omega
        · obtain ⟨_, _, ⟨⟩⟩ := map_eq_some_iff.mp hGet
          rfl
    · cases h
  | store i pos bytes =>
    simp only [exec, storeAt] at h
    split at h
    · obtain ⟨ppn, _, rfl⟩ := map_eq_some_iff.mp h
      exact ⟨fun _ => rfl, rfl⟩
    · cases h

lemma copyArgArray_taken {beginPos argv : Nat} {args : List Bytes}
    (h : copyArgArray m pages beginPos args = some (st', argv)) :
    ArgsTaken m pages st'.m st'.pages := by
  rw [copyArgArray_plan] at h
  obtain ⟨st, hOps, ⟨⟩⟩ := map_eq_some_iff.mp h
  have hTaken : ArgsTaken m pages st.m st.pages :=
    foldlM_invariant (I := fun st : ArgCopy => ArgsTaken m pages st.m st.pages)
      (fun _ _ _ _ hTaken hOp => hTaken.trans (ArgCopy.exec_taken hOp)) (.refl m pages) hOps
  exact hTaken

lemma ArgPages.copy_taken {st st' : ArgPages} {args : Option (List Bytes)}
    (h : st.copy args = some st') : ArgsTaken st.m st.pages st'.m st'.pages := by
  cases args with
  | none =>
    cases h
    exact .refl _ _
  | some args =>
    obtain ⟨⟨_, _⟩, hCopy, ⟨⟩⟩ := map_eq_some_iff.mp h
    exact copyArgArray_taken hCopy

variable {argv envp : Option (List Bytes)}

lemma copyArgs_taken {args : ArgPages} (h : copyArgs m argv envp = some args) :
    (∀ r, args.m.holds r + argCount args.pages r = m.holds r) ∧ args.m.kernel = m.kernel := by
  obtain ⟨_, hArgv, hEnvp⟩ := bind_eq_some_iff.mp h
  have hTaken := (ArgPages.copy_taken hArgv).trans (ArgPages.copy_taken hEnvp)
  exact ⟨hTaken.count_eq, hTaken.kernel⟩

lemma elfloaderLoadSegment_keeps (proc : VmProc) (segment : MemArea) :
    (elfloaderLoadSegment proc segment).1.dirs = proc.dirs ∧
      (elfloaderLoadSegment proc segment).1.kernelStack = proc.kernelStack := by
  unfold elfloaderLoadSegment
  split
  · exact ⟨VmProc.insertArea_dirs _ _, VmProc.insertArea_kernelStack _ _⟩
  · exact ⟨rfl, rfl⟩

lemma loadSegments_keeps (proc : VmProc) (brk : Nat) (segments : List MemArea) :
    (loadSegments proc brk segments).1.dirs = proc.dirs ∧
      (loadSegments proc brk segments).1.kernelStack = proc.kernelStack := by
  induction segments generalizing proc brk with
  | nil => exact ⟨rfl, rfl⟩
  | cons segment rest ih =>
    obtain ⟨hDirs, hStack⟩ := elfloaderLoadSegment_keeps proc segment
    simp only [loadSegments]
    split
    · obtain ⟨hRestDirs, hRestStack⟩ := ih (elfloaderLoadSegment proc segment).1
        (max brk (add segment.address segment.maxSize))
      exact ⟨hRestDirs.trans hDirs, hRestStack.trans hStack⟩
    · exact ⟨hDirs, hStack⟩

lemma elfloaderLoadAll_keeps (proc : VmProc) (image : Image) : (elfloaderLoadAll proc image).1.dirs = proc.dirs ∧
      (elfloaderLoadAll proc image).1.kernelStack = proc.kernelStack := by
  simp only [elfloaderLoadAll]
  split <;> exact loadSegments_keeps _ _ _

variable {m' : Memory} {proc proc' : VmProc} {image : Image}

section

variable (h : elfloaderLoad m proc image = some (m', proc'))
include h

lemma elfloaderLoad_effect : proc'.dirs = proc.dirs ∧ (∀ r, m'.holds r = m.holds r) ∧ m.kernel ⊆ m'.kernel := by
  simp only [elfloaderLoad] at h
  split at h
  · obtain ⟨⟨_, _⟩, hStack, ⟨⟩⟩ := map_eq_some_iff.mp h
    refine ⟨?_, Memory.holds_getKernelPage hStack, Memory.kernel_getKernelPage hStack⟩
    exact (VmProc.insertArea_dirs _ _).trans (elfloaderLoadAll_keeps proc image).1
  · cases h
    exact ⟨(elfloaderLoadAll_keeps proc image).1, fun _ => rfl, List.Subset.refl _⟩

lemma elfloaderLoad_kernelStack : proc'.kernelStack = proc.kernelStack ∨ 0 < m'.holds proc'.kernelStack := by
  simp only [elfloaderLoad] at h
  split at h
  · obtain ⟨⟨_, _⟩, hStack, ⟨⟩⟩ := map_eq_some_iff.mp h
    exact Or.inr (Memory.holds_kernelPage_pos hStack)
  · cases h
    exact Or.inl (elfloaderLoadAll_keeps proc image).2

end

lemma insertArgPage_effect {st st' : Memory × DirList} {i : Fin processArgMaxPages}
    (h : insertArgPage pages st i = some st') :
    (∀ r, st'.1.holds r = st.1.holds r ∧
      st'.2.owned.count r ≤ st.2.owned.count r + (pages i).toList.count r) ∧ st.1.kernel ⊆ st'.1.kernel := by
  unfold insertArgPage at h
  split at h
  · cases h
    exact ⟨fun _ => ⟨rfl, Nat.le_add_right _ _⟩, List.Subset.refl _⟩
  · rename_i ppn hPage
    obtain ⟨_, _⟩ := st'
    have hInserted := memInsertPage_inserted h
    refine ⟨fun r => ⟨hInserted.holds r, ?_⟩, hInserted.kernel⟩
    have hOwned := hInserted.owned r
    have hNew : (PageEntry.owned ⟨ppn, true, true, true⟩).toList = [ppn] := rfl
    rw [hNew] at hOwned
    rw [hPage, toList_some]
    simp only
    omega

lemma execveMemory_holds {r : Ppn} (hStack : proc.kernelStack ∈ m.kernel ∨ proc.kernelStack ≠ r)
    (h : execveMemory m proc image argv envp = some (m', proc')) :
    ∃ taken ≤ m.holds r, m'.holds r + taken = m.holds r + proc.dirs.owned.count r ∧ proc'.dirs.owned.count r ≤ taken := by
  obtain ⟨args, hArgs, hRest⟩ := bind_eq_some_iff.mp h
  obtain ⟨_, hRelease, hRest⟩ := bind_eq_some_iff.mp hRest
  obtain ⟨⟨m₂, loaded⟩, hLoad, hRest⟩ := bind_eq_some_iff.mp hRest
  obtain ⟨⟨m₃, _⟩, hInsert, hRest⟩ := bind_eq_some_iff.mp hRest
  obtain ⟨_, hOld, ⟨⟩⟩ := bind_eq_some_iff.mp hRest
  obtain ⟨hTaken, hTakenKernel⟩ := copyArgs_taken hArgs
  obtain ⟨hDirs, hLoadHolds, hLoadKernel⟩ := elfloaderLoad_effect hLoad
  -- the old kernel stack is still the kernel's when it is given back
  have hKernel : proc.kernelStack ∈ m₃.kernel ∨ proc.kernelStack ≠ r := by
    refine hStack.imp_left fun hMem => ?_
    refine foldlM_invariant (I := fun st : Memory × DirList => proc.kernelStack ∈ st.1.kernel)
      (fun i _ st st' hMem hTurn => (insertArgPage_effect hTurn).2 hMem) (hLoadKernel ?_) hInsert
    rwa [memReleaseDirs_kernel hRelease, hTakenKernel]
  have hSame : m₃.holds r = m₂.holds r := foldlM_invariant (I := fun st : Memory × DirList => st.1.holds r = m₂.holds r)
    (fun i _ st st' hEq hTurn => ((insertArgPage_effect hTurn).1 r).1.trans hEq) rfl hInsert
  have hPages := foldlM_measure_le (μ := fun st : Memory × DirList => st.2.owned.count r)
    (fun _ _ _ hTurn => ((insertArgPage_effect hTurn).1 r).2) hInsert
  have hEmpty : loaded.dirs.owned.count r = 0 := by rw [hDirs]; rfl
  have hArgsHolds := hTaken r
  have hReleased := memReleaseDirs_holds hRelease r
  have hLoaded := hLoadHolds r
  have hLast := Memory.holds_releaseKernel hKernel hOld
  refine ⟨argCount args.pages r, by omega, by omega, ?_⟩
  simp only [hEmpty, Nat.zero_add] at hPages
  exact hPages

lemma execveMemory_le (hStack : proc.kernelStack ∈ m.kernel)
    (h : execveMemory m proc image argv envp = some (m', proc')) (r : Ppn) :
    m'.holds r + proc'.dirs.owned.count r ≤ m.holds r + proc.dirs.owned.count r := by
  obtain ⟨_, _, _, _⟩ := execveMemory_holds (r := r) (Or.inl hStack) h
  omega

lemma execveMemory_kernelStack (h : execveMemory m proc image argv envp = some (m', proc')) :
    (proc'.kernelStack = proc.kernelStack ∨ 0 < m'.holds proc'.kernelStack) ∧ proc.kernelStack ≠ 0 := by
  obtain ⟨_, _, hRest⟩ := bind_eq_some_iff.mp h
  obtain ⟨_, _, hRest⟩ := bind_eq_some_iff.mp hRest
  obtain ⟨⟨m₂, loaded⟩, hLoad, hRest⟩ := bind_eq_some_iff.mp hRest
  obtain ⟨⟨m₃, _⟩, hInsert, hRest⟩ := bind_eq_some_iff.mp hRest
  obtain ⟨_, hOld, ⟨⟩⟩ := bind_eq_some_iff.mp hRest
  constructor
  · by_cases hSame : proc.kernelStack = loaded.kernelStack
    · exact Or.inl hSame.symm
    · right
      have hHolds : m₃.holds loaded.kernelStack = m₂.holds loaded.kernelStack :=
        foldlM_invariant (I := fun st : Memory × DirList => st.1.holds loaded.kernelStack = m₂.holds loaded.kernelStack)
          (fun i _ st st' hEq hTurn => ((insertArgPage_effect hTurn).1 _).1.trans hEq) rfl hInsert
      rw [Memory.holds_releaseKernel (Or.inr hSame) hOld, hHolds]
      exact (elfloaderLoad_kernelStack hLoad).resolve_left (Ne.symm hSame)
  · obtain ⟨_, hFree, _⟩ := map_eq_some_iff.mp hOld
    intro hZero
    rw [pmFreePage, if_pos hZero] at hFree
    cases hFree

end Fixos.Sys
