import Fixos.Sys.FileCounts
import Fixos.Sys.ForkMemory
import Fixos.Sys.TaskTable
import Fixos.Utils.PoolDemand

/-! # `sys_fork` with little left (`sys/process.c`)

The call looks at no result of its allocations. Without a process it stores through `NULL`; without a physical page the
kernel stops in `pm_get_free_page`; and a child for which the task table has no slot is never run.
-/

namespace Fixos.Sys

open Arch Fs Utils Interface Budget Option Function List

def freePages (m : Memory) : Nat := m.pm.free.length

structure Memory.Supplied (m : Memory) : Prop where
  free : m.pm.free.Nodup
  pool : m.dirPool.Sound m.pm.free

lemma kernelPages : PageSource Memory.getKernelPage fun m => m.pm.free where
  empty m h := by rw [Memory.getKernelPage, pmGetFreePage, h]; rfl
  next m p rest h := by
    refine ⟨{ m with pm := { m.pm with free := rest }, kernel := p :: m.kernel }, ?_, rfl⟩
    rw [Memory.getKernelPage, pmGetFreePage, h]
    rfl

section

variable {m : Memory} {list : DirList} {dir : PageDir}

structure Copying (shape : PoolShape) (present : Nat → Bool) (st : Memory × DirList) : Prop where
  supplied : st.1.Supplied
  shape_eq : st.1.dirPool.shape = shape
  present_eq : ∀ dirId, (findDir dirId st.2.dirs).isSome = present dirId

variable {shape : PoolShape} {present : Nat → Bool} {st : Memory × DirList}

lemma isSome_findDir_setPage (list : DirList) (addr : Nat) (page : PageEntry) (dirId : Nat) :
    (findDir dirId (list.setPage addr page).dirs).isSome = (findDir dirId list.dirs).isSome := by
  rw [DirList.setPage, findDir_map_setPage, isSome_map]

section

variable (h : Copying shape present st) (page : PageEntry) (addr : Nat)
include h page addr

lemma Copying.insert_present (hThere : present (memAddressDirectory addr) = true) :
    Spends (fun r => freePages r.1) (freePages st.1) 0 (memInsertPage st.1 st.2 page addr) ∧
    ∀ st', memInsertPage st.1 st.2 page addr = some st' → Copying shape present st' := by
  have hInsert : memInsertPage st.1 st.2 page addr = some (st.1, st.2.setPage addr page) := by
    unfold memInsertPage
    split
    · rfl
    · rename_i hNone
      have hHere := h.present_eq (memAddressDirectory addr)
      rw [hNone, hThere] at hHere
      cases hHere
  rw [hInsert]
  refine ⟨Nat.add_zero _, fun st' hEq => ?_⟩
  cases hEq
  refine ⟨h.supplied, h.shape_eq, fun dirId => ?_⟩
  rw [isSome_findDir_setPage]
  exact h.present_eq dirId

lemma Copying.insert_absent (hAbsent : present (memAddressDirectory addr) = false) :
    Spends (fun r => freePages r.1) (freePages st.1) shape.pages (memInsertPage st.1 st.2 page addr) ∧
    ∀ st', memInsertPage st.1 st.2 page addr = some st' →
      Copying (shape.take dirPerpage) (update present (memAddressDirectory addr) true) st' := by
  have hNone : findDir (memAddressDirectory addr) st.2.dirs = none := by
    rw [← not_isSome_iff_eq_none, h.present_eq, hAbsent]
    exact Bool.false_ne_true
  have hInsert : memInsertPage st.1 st.2 page addr =
      (poolAlloc Memory.getKernelPage dirPerpage st.1 st.1.dirPool).map fun r =>
        ({ r.2.1 with dirPool := r.2.2 }, (st.2.linkNew (memAddressDirectory addr) r.1 hNone).setPage addr page) := by
    unfold memInsertPage
    split
    · rename_i hSome
      rw [hNone] at hSome
      cases hSome
    · rfl
  obtain ⟨hSpends, hNext⟩ := poolAlloc_spends kernelPages (by decide : 0 < dirPerpage) h.supplied.free h.supplied.pool
  rw [hInsert, ← h.shape_eq]
  refine ⟨hSpends.map fun _ => rfl, fun st' hr => ?_⟩
  obtain ⟨⟨_, _, dirPool⟩, hAlloc, rfl⟩ := map_eq_some_iff.mp hr
  obtain ⟨hSuffix, hSound, hShape⟩ := hNext _ hAlloc
  refine ⟨⟨h.supplied.free.sublist hSuffix.sublist, hSound⟩, hShape, fun dirId => ?_⟩
  rw [isSome_findDir_setPage, DirList.linkNew, findDir_linkDir _ st.2.sorted hNone, update_apply]
  show (if dirId = memAddressDirectory addr then _ else _ : Option PageDir).isSome = _
  split
  · rfl
  · exact h.present_eq dirId

end

lemma memAddressDirectory_memPageAddress (dirId : Nat) (i : Fin memDirectoryPages) :
    memAddressDirectory (memPageAddress dirId i) = dirId := by
  unfold memAddressDirectory memPageAddress
  unfold pmPageBytes memDirectoryPages at *
  omega

lemma Copying.getPage (h : Copying shape present st) (orig : Ppn) :
    Spends (fun r => freePages r.2) (freePages st.1) 1 st.1.archPmGetFreePage ∧
    ∀ r, st.1.archPmGetFreePage = some r → Copying shape present ({ r.2 with pm := r.2.pm.copy r.1 orig }, st.2) := by
  unfold Memory.archPmGetFreePage pmGetFreePage freePages
  cases hFree : st.1.pm.free with
  | nil => exact ⟨Nat.one_pos, fun r hr => absurd hr (by simp)⟩
  | cons p rest =>
    refine ⟨rfl, fun r hr => ?_⟩
    cases hr
    have hNodup := h.supplied.free
    rw [hFree] at hNodup
    refine ⟨⟨(nodup_cons.mp hNodup).2, h.supplied.pool.mono ?_⟩, h.shape_eq, h.present_eq⟩
    rw [hFree]
    exact subset_cons_self p rest

end

section

def PageDir.copies (dir : PageDir) (i : Fin memDirectoryPages) : Bool := (dir.pages i).isPrivate && (dir.pages i).valid

def entryCost (a : PoolShape × (Nat → Bool)) (entry : PageDir × Fin memDirectoryPages) : Nat :=
  if entry.1.copies entry.2 then 1 + if a.2 entry.1.dirId then 0 else a.1.pages else 0

def entryNext (a : PoolShape × (Nat → Bool)) (entry : PageDir × Fin memDirectoryPages) : PoolShape × (Nat → Bool) :=
  if entry.1.copies entry.2 && !a.2 entry.1.dirId then
    (a.1.take dirPerpage, update a.2 entry.1.dirId true)
  else a

lemma Copying.copyEntry {a : PoolShape × (Nat → Bool)} {st : Memory × DirList} (h : Copying a.1 a.2 st)
    (entry : PageDir × Fin memDirectoryPages) :
    Spends (fun r => freePages r.1) (freePages st.1) (entryCost a entry) (copyEntry entry.1 st entry.2) ∧
    ∀ st', copyEntry entry.1 st entry.2 = some st' → Copying (entryNext a entry).1 (entryNext a entry).2 st' := by
  obtain ⟨dir, i⟩ := entry
  unfold Sys.copyEntry entryCost entryNext
  cases hCopies : dir.copies i with
  | false =>
    rw [show ((dir.pages i).isPrivate && (dir.pages i).valid) = false from hCopies]
    refine ⟨Nat.add_zero _, fun st' hEq => ?_⟩
    cases hEq
    exact h
  | true =>
    rw [show ((dir.pages i).isPrivate && (dir.pages i).valid) = true from hCopies, memCopyPage,
      if_pos (Bool.and_eq_true_iff.mp hCopies).1]
    obtain ⟨hSpends, hPage⟩ := h.getPage (dir.pages i).ppn
    have hHere := memAddressDirectory_memPageAddress dir.dirId i
    cases hThere : a.2 dir.dirId with
    | false =>
      have hInsert := fun r hr => (hPage r hr).insert_absent { dir.pages i with ppn := r.1 }
        (memPageAddress dir.dirId i) (by rw [hHere, hThere])
      rw [hHere] at hInsert
      refine ⟨hSpends.bind fun r hr => (hInsert r hr).1, fun st' hEq => ?_⟩
      obtain ⟨r, hr, hEnd⟩ := bind_eq_some_iff.mp hEq
      exact (hInsert r hr).2 st' hEnd
    | true =>
      have hInsert := fun r hr => (hPage r hr).insert_present { dir.pages i with ppn := r.1 }
        (memPageAddress dir.dirId i) (by rw [hHere, hThere])
      refine ⟨hSpends.bind fun r hr => (hInsert r hr).1, fun st' hEq => ?_⟩
      obtain ⟨r, hr, hEnd⟩ := bind_eq_some_iff.mp hEq
      exact (hInsert r hr).2 st' hEnd

variable {dir : PageDir} {a : PoolShape × (Nat → Bool)} (l : List (Fin memDirectoryPages))

lemma total_present (h : a.2 dir.dirId = true) : total entryCost entryNext a (l.map (dir, ·)) = l.countP dir.copies ∧
      (l.map (dir, ·)).foldl entryNext a = a := by
  induction l with
  | nil => exact ⟨rfl, rfl⟩
  | cons i l ih =>
    have hNext : entryNext a (dir, i) = a := by
      rw [entryNext, h, Bool.not_true, Bool.and_false]
      rfl
    have hCost : entryCost a (dir, i) = if dir.copies i then 1 else 0 := by
      rw [entryCost, h]
      rfl
    rw [map_cons, total, foldl_cons, hNext, hCost, ih.1, ih.2, countP_cons, Nat.add_comm]
    exact ⟨rfl, rfl⟩

lemma total_absent (h : a.2 dir.dirId = false) : total entryCost entryNext a (l.map (dir, ·)) =
      l.countP dir.copies + (if l.any dir.copies then a.1.pages else 0) ∧
    (l.map (dir, ·)).foldl entryNext a =
      if l.any dir.copies then (a.1.take dirPerpage, update a.2 dir.dirId true) else a := by
  induction l with
  | nil => exact ⟨rfl, rfl⟩
  | cons i l ih =>
    rw [map_cons, total, foldl_cons, countP_cons, any_cons]
    cases hCopies : dir.copies i with
    | false =>
      have hNext : entryNext a (dir, i) = a := by
        rw [entryNext, hCopies]
        rfl
      have hCost : entryCost a (dir, i) = 0 := by
        rw [entryCost, hCopies]
        rfl
      rw [hNext, hCost, Bool.false_or, Nat.zero_add]
      exact ih
    | true =>
      have hNext : entryNext a (dir, i) = (a.1.take dirPerpage, update a.2 dir.dirId true) := by
        rw [entryNext, hCopies, h]
        rfl
      have hCost : entryCost a (dir, i) = 1 + a.1.pages := by
        rw [entryCost, hCopies, h]
        rfl
      have hThere : (entryNext a (dir, i)).2 dir.dirId = true := by
        rw [hNext]
        exact update_self _ _ _
      have hRest := total_present l hThere
      rw [hRest.1, hRest.2, hCost, hNext]
      refine ⟨?_, rfl⟩
      simp only [if_true, Bool.true_or]
      omega

lemma length_owned (dir : PageDir) : dir.owned.length = (finRange memDirectoryPages).countP dir.copies := by
  unfold PageDir.owned
  induction finRange memDirectoryPages with
  | nil => rfl
  | cons i l ih =>
    rw [flatMap_cons, length_append, ih, countP_cons, Nat.add_comm]
    congr 1
    unfold PageEntry.owned PageDir.copies
    split <;> rfl

def DirList.usedDirs (list : DirList) : Nat := list.dirs.countP fun dir => !dir.owned.isEmpty

lemma any_copies (dir : PageDir) : (finRange memDirectoryPages).any dir.copies = !dir.owned.isEmpty := by
  rw [Bool.eq_iff_iff, List.any_eq_true, Bool.not_eq_true', isEmpty_eq_false_iff, ← length_pos_iff,
    length_owned, countP_pos_iff]

lemma total_entries {dirs : List PageDir} (hIds : (dirs.map PageDir.dirId).Nodup)
    (hAbsent : ∀ dir ∈ dirs, a.2 dir.dirId = false) :
    total entryCost entryNext a (dirs.flatMap fun dir => (finRange memDirectoryPages).map (dir, ·)) =
      (dirs.flatMap PageDir.owned).length + a.1.demand dirPerpage (dirs.countP fun dir => !dir.owned.isEmpty) := by
  induction dirs generalizing a with
  | nil => rfl
  | cons dir dirs ih =>
    obtain ⟨hNew, hIds⟩ := nodup_cons.mp hIds
    obtain ⟨hTotal, hLast⟩ := total_absent (finRange memDirectoryPages) (hAbsent dir mem_cons_self)
    rw [flatMap_cons, total_append, hTotal, hLast, flatMap_cons, length_append, countP_cons, any_copies, length_owned]
    have hOthers : ∀ other ∈ dirs, a.2 other.dirId = false := fun other hOther => hAbsent other (mem_cons_of_mem dir hOther)
    cases hUsed : !dir.owned.isEmpty with
    | false =>
      simp only [Bool.false_eq_true, if_false, Nat.add_zero]
      rw [ih hIds hOthers, Nat.add_assoc]
    | true =>
      simp only [if_true]
      rw [ih hIds ?_]
      · simp only [PoolShape.demand]
        omega
      · intro other hOther
        have hNe : other.dirId ≠ dir.dirId := fun hEq => hNew (hEq ▸ mem_map_of_mem hOther)
        exact (update_of_ne hNe _ _).trans (hOthers other hOther)

variable {m : Memory}

lemma copyDirs_spends (h : m.Supplied) (list : DirList) : Spends (fun r => freePages r.1) (freePages m)
      (list.owned.length + m.dirPool.shape.demand dirPerpage list.usedDirs) (list.dirs.foldlM copyDir (m, .empty)) := by
  have hStart : Copying m.dirPool.shape (fun _ => false) (m, .empty) := ⟨h, rfl, fun _ => rfl⟩
  have hIds : (list.dirs.map PageDir.dirId).Nodup := pairwise_map.mpr (list.sorted.imp fun hLt => Nat.ne_of_lt hLt)
  rw [copyDirs_eq, DirList.owned, DirList.usedDirs,
    ← total_entries (a := (m.dirPool.shape, fun _ => false)) hIds fun _ _ => rfl]
  exact (spends_foldlM (I := fun _ st (a : PoolShape × (Nat → Bool)) => Copying a.1 a.2 st)
    (fun entry _ _ _ hI => hI.copyEntry entry) hStart).1

lemma getKernelPage_spends (m : Memory) : Spends (fun r => freePages r.2) (freePages m) 1 m.getKernelPage := by
  unfold Memory.getKernelPage pmGetFreePage freePages
  cases m.pm.free with
  | nil => exact Nat.one_pos
  | cons p rest => rfl

lemma forkMemory_spends (h : m.Supplied) (parent : VmProc) : Spends (fun r => freePages r.1) (freePages m)
      (parent.dirs.owned.length + m.dirPool.shape.demand dirPerpage parent.dirs.usedDirs + 1) (forkMemory m parent) := by
  exact (copyDirs_spends h parent.dirs).bind fun st _ =>
    (getKernelPage_spends st.1).bind_free fun _ _ => ⟨_, rfl, rfl⟩

end

structure ForkProc where
  files : List (Option FileRef)
  fdflags : List (BitVec 8)
  cwd : Option Nat
  pgid : Nat
  ctty : Option Nat
  acnt : Context
  sigBlocked : Sigset
  sigPending : Sigset
  sigArray : Nat → Sigaction

structure PoolSizes where
  proc : Nat
  area : Nat
  proc_pos : 0 < proc
  area_pos : 0 < area

structure ForkState where
  sched : Sched
  fs : FileState
  inodeCount : Nat → Nat
  proc : ProcRef → ForkProc
  vm : ProcRef → VmProc
  mem : Memory
  procPool : Pool
  areaPool : Pool

inductive ForkOutcome where
  | returned (ret : Int) (s : ForkState)
  /-- A store through `NULL`. -/
  | nullPointer
  /-- The loop without end in `pm_get_free_page`. -/
  | stopped

def ForkProc.child (proc : ForkProc) : ForkProc :=
  { proc with
    acnt := { proc.acnt with reg := update proc.acnt.reg 0 0 }
    sigPending := sigemptyset }

def incInode (count : Nat → Nat) : Option Nat → Nat → Nat
  | none => count
  | some inode => update count inode ((count inode + 1) % 2 ^ 16)

def allocAreas (perpage : Nat) (st : Memory × Pool) (_ : Nat) : Option (Memory × Pool) :=
  (poolAlloc Memory.getKernelPage perpage st.1 st.2).map fun (_, mem, pool) => (mem, pool)

/-- `child` is the object that the pool hands out. The area objects are taken before the areas are cloned into them. -/
def forkChild (sizes : PoolSizes) (s : ForkState) (cur child : ProcRef) : Option (Int × ForkState) := do
  let proc := s.proc cur
  let parent := s.vm cur
  let (_, mem, procPool) ← poolAlloc Memory.getKernelPage sizes.proc s.mem s.procPool
  let (mem, areaPool) ← parent.areas.foldlM (allocAreas sizes.area) (mem, s.areaPool)
  let (mem, vm) ← forkMemory mem parent
  let sched ← sysFork s.sched cur child vm.kernelStack
  return ((sched.proc child).pid, {
    sched, mem, procPool, areaPool
    fs := (parent.areas.map parent.area).foldl memAreaClone ((proc.files.filterMap id).foldl countUp s.fs)
    inodeCount := incInode s.inodeCount proc.cwd
    proc := update s.proc child proc.child
    vm := update s.vm child vm })

def sysForkCall (sizes : PoolSizes) (s : ForkState) (cur child : ProcRef) : ForkOutcome :=
  if (s.proc cur).acnt.previous ≠ 0 then .returned (-1) s
  else if s.sched.processNumber < configProcMax then
    match forkChild sizes s cur child with
    | some (ret, s) => .returned ret s
    | none => .stopped
  else .nullPointer

structure Forked (s : ForkState) (cur child : ProcRef) (ret : Int) (s' : ForkState) : Prop where
  ret_eq : ret = (s'.sched.proc child).pid
  listed : s'.sched.processList = child :: s.sched.processList
  parent_eq : (s'.sched.proc child).parent = some cur
  runs : (s'.sched.proc child).state = .running
  slot : ∃ i < schedMaxTasks, s.sched.tasks i = none ∧ s'.sched.tasks i = some child
  proc_eq : s'.proc child = (s.proc cur).child
  counted : ∀ f, (s'.fs.file f).count = (s.fs.file f).count + (s.proc cur).files.count (some f) +
    ((s.vm cur).areas.map (s.vm cur).area).countP fun area => area.filep == some f
  cwd_counted : s'.inodeCount = incInode s.inodeCount (s.proc cur).cwd
  memory : AddressSpaceCopied s.mem (s.vm cur) s'.mem (s'.vm child)
  others : ∀ p ≠ child, s'.proc p = s.proc p ∧ s'.vm p = s.vm p

def ForkOutcome.Clean (s : ForkState) (cur child : ProcRef) : ForkOutcome → Prop
  | .returned ret s' => Forked s cur child ret s' ∨ ret < 0 ∧ s' = s
  | .nullPointer => False
  | .stopped => False

def ForkState.pagesNeeded (sizes : PoolSizes) (s : ForkState) (cur : ProcRef) : Nat :=
  s.procPool.shape.demand sizes.proc 1 + s.areaPool.shape.demand sizes.area (s.vm cur).areas.length +
    (s.vm cur).dirs.owned.length + s.mem.dirPool.shape.demand dirPerpage (s.vm cur).dirs.usedDirs + 1

/-- The pools and the free pages agree, areas and pages of the caller are its own, and an object and a process number
are left. -/
structure ForkState.Ready (s : ForkState) (cur child : ProcRef) : Prop where
  supplied : s.mem.Supplied
  procPool : s.procPool.Sound s.mem.pm.free
  areaPool : s.areaPool.Sound s.mem.pm.free
  areas : (s.vm cur).areas.Nodup
  apart : Disjoint ((s.vm cur).areas.map (s.vm cur).area)
  owned : ∀ ppn ∈ (s.vm cur).dirs.owned, ppn ∉ s.mem.pm.free
  fresh : child ∉ s.sched.processList
  pid : (processGetPid s.sched).isSome
  ne : child ≠ cur

section

variable {sizes : PoolSizes} {s : ForkState} {cur child : ProcRef}

structure Memory.Kept (m m' : Memory) : Prop where
  free : m'.pm.free <:+ m.pm.free
  cells : m'.pm.cells = m.pm.cells
  dirPool : m'.dirPool = m.dirPool

variable {m m' : Memory}

lemma Memory.Kept.supplied (h : m.Kept m') (hm : m.Supplied) : m'.Supplied := by
  refine ⟨hm.free.sublist h.free.sublist, ?_⟩
  rw [h.dirPool]
  exact hm.pool.mono h.free.subset

variable {perpage : Nat} {pool : Pool}

lemma poolAlloc_kept {r : Ppn × Memory × Pool}
    (h : poolAlloc Memory.getKernelPage perpage m pool = some r) : m.Kept r.2.1 := by
  obtain ⟨_, _, _⟩ := r
  rcases poolAlloc_cases h with rfl | hGet
  · exact ⟨suffix_refl _, rfl, rfl⟩
  · obtain ⟨⟨_, _⟩, hTake, ⟨⟩⟩ := map_eq_some_iff.mp hGet
    obtain ⟨hFree, hCells⟩ := pmGetFreePage_eq_some hTake
    exact ⟨hFree ▸ suffix_cons _ _, hCells, rfl⟩

lemma total_pages (perpage : Nat) (shape : PoolShape) (l : List Nat) :
    total (fun shape _ => PoolShape.pages shape) (fun shape _ => PoolShape.take perpage shape) shape l =
      shape.demand perpage l.length := by
  induction l generalizing shape with
  | nil => rfl
  | cons _ l ih => rw [total, ih, length_cons, PoolShape.demand]

lemma allocAreas_spends (hPos : 0 < perpage) (hFree : m.pm.free.Nodup) (h : pool.Sound m.pm.free) (l : List Nat) :
    Spends (fun r => freePages r.1) (freePages m) (pool.shape.demand perpage l.length)
      (l.foldlM (allocAreas perpage) (m, pool)) ∧
    ∀ r, l.foldlM (allocAreas perpage) (m, pool) = some r → m.Kept r.1 := by
  have hStep : ∀ (y : Nat) (l : List Nat) (st : Memory × Pool) (shape : PoolShape),
      (m.Kept st.1 ∧ st.2.Sound st.1.pm.free ∧ st.2.shape = shape) →
      Spends (fun r => freePages r.1) (freePages st.1) shape.pages (allocAreas perpage st y) ∧
      ∀ st', allocAreas perpage st y = some st' →
        m.Kept st'.1 ∧ st'.2.Sound st'.1.pm.free ∧ st'.2.shape = shape.take perpage := by
    rintro y l st shape ⟨hKept, hSound, rfl⟩
    obtain ⟨hSpends, hNext⟩ := poolAlloc_spends kernelPages hPos (hFree.sublist hKept.free.sublist) hSound
    refine ⟨hSpends.map fun _ => rfl, fun st' hEq => ?_⟩
    obtain ⟨r, hAlloc, rfl⟩ := map_eq_some_iff.mp hEq
    obtain ⟨_, hSound', hShape⟩ := hNext r hAlloc
    have hMore := poolAlloc_kept hAlloc
    exact ⟨⟨hMore.free.trans hKept.free, hMore.cells.trans hKept.cells, hMore.dirPool.trans hKept.dirPool⟩, hSound', hShape⟩
  have hStart : m.Kept m ∧ pool.Sound m.pm.free ∧ pool.shape = pool.shape := ⟨⟨suffix_refl _, rfl, rfl⟩, h, rfl⟩
  obtain ⟨hSpends, hLast⟩ := spends_foldlM
    (I := fun _ (st : Memory × Pool) shape => m.Kept st.1 ∧ st.2.Sound st.1.pm.free ∧ st.2.shape = shape)
    (t := (m, pool)) (a := pool.shape) hStep hStart
  rw [total_pages] at hSpends
  exact ⟨hSpends, fun r hr => (hLast r hr).1⟩

lemma sysFork_some (h : s.Ready cur child) (hNumber : s.sched.processNumber < configProcMax) (kstack : Nat) :
    ∃ sched, sysFork s.sched cur child kstack = some sched := by
  obtain ⟨⟨_, t⟩, hPid⟩ := isSome_iff_exists.mp h.pid
  rw [sysFork, processAlloc, if_pos ⟨hNumber, h.fresh⟩, hPid]
  exact ⟨_, rfl⟩

lemma forkChild_spends (sizes : PoolSizes) (h : s.Ready cur child) (hNumber : s.sched.processNumber < configProcMax) :
    Spends (fun r => freePages r.2.mem) (freePages s.mem) (s.pagesNeeded sizes cur) (forkChild sizes s cur child) := by
  have hSum : s.pagesNeeded sizes cur = s.procPool.shape.pages +
      (s.areaPool.shape.demand sizes.area (s.vm cur).areas.length +
        ((s.vm cur).dirs.owned.length + s.mem.dirPool.shape.demand dirPerpage (s.vm cur).dirs.usedDirs + 1)) := by
    simp only [ForkState.pagesNeeded, PoolShape.demand]
    omega
  rw [hSum]
  refine (poolAlloc_spends kernelPages sizes.proc_pos h.supplied.free h.procPool).1.bind fun r hr => ?_
  have hKept := poolAlloc_kept hr
  obtain ⟨hAreas, hAreasKept⟩ := allocAreas_spends sizes.area_pos (h.supplied.free.sublist hKept.free.sublist)
    (h.areaPool.mono hKept.free.subset) (s.vm cur).areas
  refine hAreas.bind fun r' hr' => ?_
  have hKept' := hAreasKept r' hr'
  have hMemory := forkMemory_spends (hKept'.supplied (hKept.supplied h.supplied)) (s.vm cur)
  rw [hKept'.dirPool, hKept.dirPool] at hMemory
  refine hMemory.bind_free fun st _ => ?_
  obtain ⟨_, hSched⟩ := sysFork_some h hNumber st.2.kernelStack
  dsimp only
  rw [hSched]
  exact ⟨_, rfl, rfl⟩

lemma count_countUp (fs : FileState) (filep f : FileRef) :
    ((countUp fs filep).file f).count = (fs.file f).count + if filep = f then 1 else 0 := by
  unfold countUp FileState.setFile
  rcases eq_or_ne f filep with rfl | hNe
  · simp
  · simp [update_of_ne hNe, hNe.symm]

lemma count_foldl_countUp (fs : FileState) (l : List (Option FileRef)) (f : FileRef) :
    (((l.filterMap id).foldl countUp fs).file f).count = (fs.file f).count + l.count (some f) := by
  induction l generalizing fs with
  | nil => simp
  | cons slot l ih =>
    cases slot with
    | none => simpa using ih fs
    | some filep =>
      rw [filterMap_cons, id, foldl_cons, ih, count_countUp, count_cons]
      simp only [beq_iff_eq, some.injEq, Nat.cast_add, Nat.cast_ite, Nat.cast_one, Nat.cast_zero]
      omega

lemma count_foldl_clone (fs : FileState) (areas : List MemArea) (f : FileRef) :
    ((areas.foldl memAreaClone fs).file f).count = (fs.file f).count + areas.countP fun area => area.filep == some f := by
  induction areas generalizing fs with
  | nil => simp
  | cons area areas ih =>
    rw [foldl_cons, ih, countP_cons, memAreaClone]
    cases area.filep with
    | none => simp
    | some filep =>
      rw [count_countUp]
      simp only [beq_iff_eq, some.injEq, Nat.cast_add, Nat.cast_ite, Nat.cast_one, Nat.cast_zero]
      omega

lemma AddressSpaceCopied.of_cells {m₁ : Memory} {parent vm : VmProc} (h : AddressSpaceCopied m₁ parent m' vm)
    (hCells : m₁.pm.cells = m.pm.cells) : AddressSpaceCopied m parent m' vm := by
  refine { h with pages := ?_, kept := ?_ }
  · rw [← hCells]
    exact h.pages
  · rw [← hCells]
    exact h.kept

lemma sysFork_slot {sched sched' : Sched} {kstack : Nat} (h : sysFork sched cur child kstack = some sched')
    (hFree : sched.FreeSlot) : (sched'.proc child).state = .running ∧
      ∃ i < schedMaxTasks, sched.tasks i = none ∧ sched'.tasks i = some child := by
  obtain ⟨t, hAlloc, rfl⟩ := map_eq_some_iff.mp h
  have hTasks := (processAlloc_adds hAlloc).2
  obtain ⟨j, hj, hEmpty⟩ := hFree
  rw [← hTasks] at hEmpty
  unfold schedAddTask
  split
  · rename_i i hFind
    have hHere : t.tasks i = none := by simpa using find?_some hFind
    refine ⟨by simp, i, mem_range.mp (mem_of_find?_eq_some hFind), hTasks ▸ hHere, ?_⟩
    exact update_self _ _ _
  · rename_i hNone
    exact absurd (decide_eq_true hEmpty) (find?_eq_none.mp hNone j (mem_range.mpr hj))

lemma forkChild_forked {ret : Int} {s' : ForkState} (h : s.Ready cur child)
    (hFork : forkChild sizes s cur child = some (ret, s')) : 0 ≤ ret ∧ (Forked s cur child ret s' ↔ s.sched.FreeSlot) := by
  obtain ⟨r, hProc, hRest⟩ := bind_eq_some_iff.mp hFork
  obtain ⟨r', hAreas, hRest⟩ := bind_eq_some_iff.mp hRest
  obtain ⟨⟨_, _⟩, hMemory, hRest⟩ := bind_eq_some_iff.mp hRest
  obtain ⟨_, hSched, ⟨⟩⟩ := bind_eq_some_iff.mp hRest
  have hKept := poolAlloc_kept hProc
  have hKept' := (allocAreas_spends sizes.area_pos (h.supplied.free.sublist hKept.free.sublist)
    (h.areaPool.mono hKept.free.subset) (s.vm cur).areas).2 r' hAreas
  have hAdds := sysFork_adds hSched
  refine ⟨Int.natCast_nonneg _, fun hForked => ?_, fun hFree => ?_⟩
  · obtain ⟨i, hi, hEmpty, _⟩ := hForked.slot
    exact ⟨i, hi, hEmpty⟩
  · obtain ⟨hRuns, hSlot⟩ := sysFork_slot hSched hFree
    constructor
    case ret_eq => rfl
    case listed => exact hAdds.processList
    case parent_eq => exact hAdds.parent_eq
    case runs => exact hRuns
    case slot => exact hSlot
    case proc_eq => exact update_self _ _ _
    case counted =>
      intro f
      rw [count_foldl_clone, count_foldl_countUp]
    case cwd_counted => rfl
    case memory =>
      have hCopied := forkMemory_copied h.areas h.apart
        ((h.supplied.free.sublist hKept.free.sublist).sublist hKept'.free.sublist)
        (fun ppn hOwned hFreePage => h.owned ppn hOwned (hKept.free.subset (hKept'.free.subset hFreePage))) hMemory
      dsimp only
      rw [update_self]
      exact hCopied.of_cells (hKept'.cells.trans hKept.cells)
    case others =>
      intro p hp
      exact ⟨update_of_ne hp _ _, update_of_ne hp _ _⟩

end

/-- The call is clean exactly when it is refused at once, or a process, a slot and all the pages it takes are left. -/
theorem fork_clean_iff (sizes : PoolSizes) (s : ForkState) (cur child : ProcRef) (h : s.Ready cur child) :
    (sysForkCall sizes s cur child).Clean s cur child ↔ (s.proc cur).acnt.previous ≠ 0 ∨
        s.sched.processNumber < configProcMax ∧ s.sched.FreeSlot ∧ s.pagesNeeded sizes cur ≤ s.mem.pm.free.length := by
  unfold sysForkCall
  by_cases hNested : (s.proc cur).acnt.previous ≠ 0
  · rw [if_pos hNested]
    exact ⟨fun _ => Or.inl hNested, fun _ => Or.inr ⟨by decide, rfl⟩⟩
  · rw [if_neg hNested, or_iff_right hNested]
    by_cases hNumber : s.sched.processNumber < configProcMax
    · rw [if_pos hNumber, and_iff_right hNumber]
      have hPages := (forkChild_spends sizes h hNumber).isSome_iff
      cases hFork : forkChild sizes s cur child with
      | none =>
        rw [hFork] at hPages
        exact ⟨False.elim, fun hEnough => absurd (hPages.mpr hEnough.2) Bool.false_ne_true⟩
      | some result =>
        obtain ⟨_, _⟩ := result
        rw [hFork] at hPages
        obtain ⟨hRet, hForked⟩ := forkChild_forked h hFork
        constructor
        · rintro (hDone | ⟨hNeg, _⟩)
          · exact ⟨hForked.mp hDone, hPages.mp rfl⟩
          · exact absurd hRet (not_le.mpr hNeg)
        · exact fun hEnough => Or.inl (hForked.mpr hEnough.1)
    · rw [if_neg hNumber]
      exact ⟨False.elim, fun hEnough => absurd hEnough.1 hNumber⟩

def smallFork (number : Int) (free : List Ppn) : ForkState where
  sched := { schedInit ⟨1, none, .running, 0, 0⟩ with
    tasks := fun i => if i = 0 then some 1 else none
    processList := [1]
    processNumber := number }
  fs := (FdState.boot fun _ => leftOver 1).fs
  inodeCount := fun _ => 1
  proc := fun _ => ⟨[some 5], [0], some 0, 1, none, ⟨fun _ => 0, 0, 0, 0, 0, 0, 0, 0⟩, 0, 0, fun _ => ⟨0, 0, 0⟩⟩
  vm := fun _ => { VmProc.blank with
    areas := [0]
    area := fun _ => ⟨0x100000, 1024, .anon⟩
    dirs := ⟨[⟨32, 9, fun i => ⟨20, true, i.val = 0, false⟩⟩], pairwise_singleton _ _⟩ }
  mem := ⟨⟨free, fun _ _ => ⟨0, none⟩⟩, poolInit, []⟩
  procPool := poolInit
  areaPool := poolInit

def smallSizes : PoolSizes := ⟨4, 28, by decide, by decide⟩

/-- Five pages are enough: one for each of the three pools, the copy and the kernel stack. -/
theorem fork_clean_iff_five_pages : (smallFork 1 [21, 22, 23, 24, 25]).Ready 1 2 ∧
    (sysForkCall smallSizes (smallFork 1 [21, 22, 23, 24, 25]) 1 2).Clean (smallFork 1 [21, 22, 23, 24, 25]) 1 2 := by
  have hEmpty : poolInit.Sound [21, 22, 23, 24, 25] := ⟨by decide, fun _ h => absurd h not_mem_nil, fun _ h => nomatch h⟩
  have hReady : (smallFork 1 [21, 22, 23, 24, 25]).Ready 1 2 := by
    constructor
    case supplied => exact ⟨by decide, hEmpty⟩
    case procPool => exact hEmpty
    case areaPool => exact hEmpty
    case areas => decide
    case apart => exact pairwise_singleton _ _
    case owned => decide
    case fresh => decide
    case pid => decide +kernel
    case ne => decide
  refine ⟨hReady, (fork_clean_iff smallSizes _ 1 2 hReady).mpr (Or.inr ⟨by decide, ⟨1, by decide, rfl⟩, ?_⟩)⟩
  decide +kernel

/-- With a hundred processes the call stores through `NULL`, with four free pages the kernel stops. -/
theorem fork_out_of_memory : sysForkCall smallSizes (smallFork 100 [21, 22, 23, 24, 25]) 1 2 = .nullPointer ∧
    sysForkCall smallSizes (smallFork 1 [21, 22, 23, 24]) 1 2 = .stopped ∧
    ¬ ForkOutcome.nullPointer.Clean (smallFork 100 [21, 22, 23, 24, 25]) 1 2 ∧
    ¬ ForkOutcome.stopped.Clean (smallFork 1 [21, 22, 23, 24]) 1 2 :=
  ⟨rfl, rfl, id, id⟩

end Fixos.Sys
