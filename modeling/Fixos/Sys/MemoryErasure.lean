import Fixos.Sys.Vm

/-! # Forgetting what one process has stored

No function looks at the bytes in the pages, so each does the same when the stores of process `q` are forgotten.
-/

namespace Fixos.Sys

open Arch Fs Utils Transition Option List

section

variable (q : ProcRef)

def Memory.erase (m : Memory) : Memory := { m with pm := m.pm.erase q }

lemma Memory.getFreePage_erase (m : Memory) :
    (m.erase q).archPmGetFreePage = m.archPmGetFreePage.map fun r => (r.1, r.2.erase q) := by
  unfold archPmGetFreePage
  rw [show (m.erase q).pm = m.pm.erase q from rfl, pmGetFreePage_erase]
  cases pmGetFreePage m.pm <;> rfl

lemma Memory.getKernelPage_erase (m : Memory) :
    (m.erase q).getKernelPage = m.getKernelPage.map fun r => (r.1, r.2.erase q) := by
  unfold getKernelPage
  rw [show (m.erase q).pm = m.pm.erase q from rfl, pmGetFreePage_erase]
  cases pmGetFreePage m.pm <;> rfl

lemma Memory.releasePage_erase (m : Memory) (ppn : Ppn) :
    (m.erase q).archPmReleasePage ppn = (m.archPmReleasePage ppn).map (Memory.erase q) := by
  unfold archPmReleasePage
  rw [show (m.erase q).pm = m.pm.erase q from rfl, pmFreePage_erase]
  cases pmFreePage m.pm ppn <;> rfl

lemma Memory.releaseKernelPage_erase (m : Memory) (ppn : Ppn) :
    (m.erase q).releaseKernelPage ppn = (m.releaseKernelPage ppn).map (Memory.erase q) := by
  unfold releaseKernelPage
  rw [show (m.erase q).pm = m.pm.erase q from rfl, pmFreePage_erase]
  cases pmFreePage m.pm ppn <;> rfl

lemma poolAlloc_erase (perpage : Nat) (m : Memory) (pool : Pool) : poolAlloc Memory.getKernelPage perpage (m.erase q) pool =
      (poolAlloc Memory.getKernelPage perpage m pool).map fun r => (r.1, r.2.1.erase q, r.2.2) := by
  unfold poolAlloc
  cases pool.firstNonfull with
  | some page => rfl
  | none =>
    simp only [Memory.getKernelPage_erase]
    cases m.getKernelPage <;> rfl

def erasePair (st : Memory × DirList) : Memory × DirList := (st.1.erase q, st.2)

section

variable (m : Memory)
include m

lemma memInsertPage_erase (list : DirList) (page : PageEntry) (addr : Nat) :
    memInsertPage (m.erase q) list page addr = (memInsertPage m list page addr).map (erasePair q) := by
  unfold memInsertPage
  split
  · rfl
  · rw [show (m.erase q).dirPool = m.dirPool from rfl, poolAlloc_erase]
    cases poolAlloc Memory.getKernelPage dirPerpage m m.dirPool <;> rfl

lemma memCopyPage_erase (orig : PageEntry) (list : DirList) (addr : Nat) :
    memCopyPage (m.erase q) orig list addr = (memCopyPage m orig list addr).map (erasePair q) := by
  unfold memCopyPage
  split
  · rw [Memory.getFreePage_erase]
    cases m.archPmGetFreePage with
    | none => rfl
    | some r =>
      obtain ⟨dest, m₁⟩ := r
      have hInsert := memInsertPage_erase q { m₁ with pm := m₁.pm.copy dest orig.ppn } list { orig with ppn := dest } addr
      rw [Memory.erase, PhysMem.erase_copy] at hInsert
      exact hInsert
  · rfl

lemma memReleasePage_erase (page : PageEntry) :
    memReleasePage (m.erase q) page = (memReleasePage m page).map fun r => (r.1.erase q, r.2) := by
  unfold memReleasePage
  split
  · rw [Memory.releasePage_erase]
    cases m.archPmReleasePage page.ppn <;> rfl
  · rfl

lemma memReleaseDir_erase (dir : PageDir) : memReleaseDir (m.erase q) dir = (memReleaseDir m dir).map (Memory.erase q) := by
  unfold memReleaseDir
  rw [foldlM_hom (f := fun m i => (memReleasePage m (dir.pages i)).map Prod.fst)]
  · cases (finRange memDirectoryPages).foldlM (fun m i => (memReleasePage m (dir.pages i)).map Prod.fst) m <;> rfl
  · intro s i
    rw [memReleasePage_erase]
    cases memReleasePage s (dir.pages i) <;> rfl

lemma memReleaseDirs_erase (list : DirList) :
    memReleaseDirs (m.erase q) list = (memReleaseDirs m list).map (Memory.erase q) :=
  foldlM_hom (memReleaseDir_erase q) list.dirs m

end

end

section

variable (q : ProcRef)

lemma memAreaFillPartialPage_erase (pm : PhysMem) (area : MemArea) (offset : Nat) (dest : Ppn) :
    memAreaFillPartialPage (pm.erase q) area offset dest = ((memAreaFillPartialPage pm area offset dest).1.erase q,
        (memAreaFillPartialPage pm area offset dest).2) := by
  unfold memAreaFillPartialPage
  split
  · split
    · simp [PhysMem.erase_store]
    · rfl
  · rfl

lemma smemfsFillPage_erase (file : SmemFile) (baseOffset : Nat) (pm : PhysMem) (area : MemArea) (offset : Nat) (ppn : Ppn) :
    smemfsFillPage file baseOffset (pm.erase q) area offset ppn =
      (smemfsFillPage file baseOffset pm area offset ppn).erase q := by
  simp only [smemfsFillPage, memAreaFillPartialPage_erase]
  split
  · rw [PhysMem.erase_store]
  · rfl

section

variable (smem : FileRef → SmemFile) (m : Memory)
include smem m

lemma memAreaPagefault_erase (area : MemArea) (addrFault : Nat) : memAreaPagefault smem (m.erase q) area addrFault =
      (memAreaPagefault smem m area addrFault).map fun r => (r.1.erase q, r.2) := by
  unfold memAreaPagefault
  split
  · unfold anonAreaPagefault
    split
    · rw [Memory.getFreePage_erase]
      cases m.archPmGetFreePage <;> rfl
    · rfl
  · unfold smemfsAreaPagefault
    rw [Memory.getFreePage_erase]
    cases m.archPmGetFreePage with
    | none => rfl
    | some r =>
      simp [Memory.erase, smemfsFillPage_erase]

lemma majorFault_erase (proc : VmProc) (virtaddr : Nat) : majorFault smem (m.erase q) proc virtaddr =
      (majorFault smem m proc virtaddr).map (erasePair q) := by
  unfold majorFault
  split
  · rfl
  · rename_i area _
    rw [memAreaPagefault_erase]
    cases memAreaPagefault smem m area virtaddr with
    | none => rfl
    | some r =>
      obtain ⟨m₁, pmpage⟩ := r
      simp only [map_some, bind_eq_bind, bind_some]
      split
      · exact memInsertPage_erase q m₁ proc.dirs pmpage virtaddr
      · rfl

lemma tlbmissHandler_erase (proc : VmProc) (vpn : Nat) : tlbmissHandler smem (m.erase q) proc vpn =
      (tlbmissHandler smem m proc vpn).map fun r => (r.1.erase q, r.2) := by
  have hPage : pageIn smem (m.erase q) proc (vpn * pmPageBytes) =
      (pageIn smem m proc (vpn * pmPageBytes)).map (erasePair q) := by
    unfold pageIn
    split
    · exact majorFault_erase q smem m proc _
    · rfl
  unfold tlbmissHandler
  rw [hPage]
  cases pageIn smem m proc (vpn * pmPageBytes) with
  | none => rfl
  | some r =>
    obtain ⟨_, dirs⟩ := r
    simp only [map_some, bind_eq_bind, bind_some, erasePair]
    cases (memFindPage dirs (vpn * pmPageBytes)).bind PageEntry.owned <;> rfl

end

lemma releaseAt_erase (st : Memory × DirList) (addr : Nat) :
    releaseAt (erasePair q st) addr = (releaseAt st addr).map (erasePair q) := by
  unfold releaseAt
  simp only [erasePair]
  cases memFindPage st.2 addr with
  | none => rfl
  | some page =>
    simp only [memReleasePage_erase]
    cases memReleasePage st.1 page <;> rfl

lemma memAreaResize_erase (m : Memory) (proc : VmProc) (key newSize : Nat) : memAreaResize (m.erase q) proc key newSize =
      (memAreaResize m proc key newSize).map fun r => (r.1.erase q, r.2) := by
  simp only [memAreaResize]
  split
  · have hLoop := foldlM_hom (releaseAt_erase q)
      (shrinkPages (proc.area key).address (proc.area key).maxSize newSize) (m, proc.dirs)
    simp only [erasePair] at hLoop
    rw [hLoop]
    cases (shrinkPages (proc.area key).address (proc.area key).maxSize newSize).foldlM releaseAt (m, proc.dirs) <;> rfl
  · rfl

lemma sysSbrk_erase (m : Memory) (proc : VmProc) (incr : Int) :
    sysSbrk (m.erase q) proc incr = (sysSbrk m proc incr).map fun r => (r.1.erase q, r.2) := by
  simp only [sysSbrk]
  cases hHeap : proc.makeHeap.heap with
  | none => rfl
  | some key =>
    simp only [memAreaResize_erase]
    cases memAreaResize m proc.makeHeap key (sbrkSize (proc.makeHeap.area key).maxSize incr) <;> rfl

lemma copyDir_erase (st : Memory × DirList) (dir : PageDir) :
    copyDir (erasePair q st) dir = (copyDir st dir).map (erasePair q) := by
  refine foldlM_hom (fun s i => ?_) (finRange memDirectoryPages) st
  unfold copyEntry
  split
  · exact memCopyPage_erase q s.1 (dir.pages i) s.2 _
  · rfl

lemma forkMemory_erase (m : Memory) (parent : VmProc) :
    forkMemory (m.erase q) parent = (forkMemory m parent).map fun r => (r.1.erase q, r.2) := by
  have hLoop := foldlM_hom (copyDir_erase q) parent.dirs.dirs (m, .empty)
  simp only [erasePair] at hLoop
  unfold forkMemory
  rw [hLoop]
  cases parent.dirs.dirs.foldlM copyDir (m, .empty) with
  | none => rfl
  | some r =>
    simp only [map_some, bind_eq_bind, bind_some, erasePair, Memory.getKernelPage_erase]
    cases r.1.getKernelPage <;> rfl

lemma terminateMemory_erase (m : Memory) (proc : VmProc) :
    terminateMemory (m.erase q) proc = (terminateMemory m proc).map fun r => (r.1.erase q, r.2) := by
  unfold terminateMemory
  rw [memReleaseDirs_erase]
  cases memReleaseDirs m proc.dirs <;> rfl

end

variable (q : ProcRef)

def ArgCopy.erase (st : ArgCopy) : ArgCopy := { st with m := st.m.erase q }

lemma ArgCopy.exec_erase (st : ArgCopy) (op : ArgOp) : (st.erase q).exec op = (st.exec op).map (ArgCopy.erase q) := by
  cases op with
  | need i =>
    simp only [exec, needPage]
    split_ifs with hi
    · rw [show (st.erase q).pages = st.pages from rfl, show (st.erase q).m = st.m.erase q from rfl]
      cases st.pages ⟨i, hi⟩ with
      | some ppn => rfl
      | none =>
        simp only [Memory.getFreePage_erase]
        cases st.m.archPmGetFreePage <;> rfl
    · rfl
  | store i pos bytes =>
    simp only [exec, storeAt]
    split_ifs with hi
    · rw [show (st.erase q).pages = st.pages from rfl]
      cases st.pages ⟨i, hi⟩ with
      | none => rfl
      | some ppn => simp [ArgCopy.erase, Memory.erase, PhysMem.erase_store]
    · rfl

lemma copyArgArray_erase (m : Memory) (pages : ArgTable) (beginPos : Nat) (args : List Bytes) :
    copyArgArray (m.erase q) pages beginPos args =
      (copyArgArray m pages beginPos args).map fun r => (r.1.erase q, r.2) := by
  rw [copyArgArray_plan, copyArgArray_plan]
  generalize alignPos (beginPos + (args.length + 1) * 4) = abspos
  rw [show argStart (m.erase q) pages abspos = (argStart m pages abspos).erase q from rfl,
    foldlM_hom (ArgCopy.exec_erase q)]
  cases (arrayPlan beginPos args).1.foldlM ArgCopy.exec (argStart m pages abspos) <;> rfl

def ArgPages.erase (st : ArgPages) : ArgPages := { st with m := st.m.erase q }

lemma ArgPages.copy_erase (st : ArgPages) (args : Option (List Bytes)) :
    (st.erase q).copy args = (st.copy args).map (ArgPages.erase q) := by
  cases args with
  | none => rfl
  | some args =>
    simp only [ArgPages.copy, ArgPages.erase, copyArgArray_erase]
    cases copyArgArray st.m st.pages st.pos args <;> rfl

lemma copyArgs_erase (m : Memory) (argv envp : Option (List Bytes)) :
    copyArgs (m.erase q) argv envp = (copyArgs m argv envp).map (ArgPages.erase q) := by
  unfold copyArgs
  rw [show (⟨m.erase q, fun _ => none, 0⟩ : ArgPages) = ArgPages.erase q ⟨m, fun _ => none, 0⟩ from rfl,
    ArgPages.copy_erase]
  cases ArgPages.copy ⟨m, fun _ => none, 0⟩ argv with
  | none => rfl
  | some st => exact ArgPages.copy_erase q st envp

lemma elfloaderLoad_erase (m : Memory) (proc : VmProc) (image : Image) : elfloaderLoad (m.erase q) proc image =
      (elfloaderLoad m proc image).map fun r => (r.1.erase q, r.2) := by
  simp only [elfloaderLoad]
  split
  · rw [Memory.getKernelPage_erase]
    cases m.getKernelPage <;> rfl
  · rfl

lemma insertArgPage_erase (pages : ArgTable) (st : Memory × DirList) (i : Fin processArgMaxPages) :
    insertArgPage pages (erasePair q st) i = (insertArgPage pages st i).map (erasePair q) := by
  unfold insertArgPage
  split
  · rfl
  · exact memInsertPage_erase q st.1 st.2 _ _

lemma execveMemory_erase (m : Memory) (proc : VmProc) (image : Image) (argv envp : Option (List Bytes)) :
    execveMemory (m.erase q) proc image argv envp =
      (execveMemory m proc image argv envp).map fun r => (r.1.erase q, r.2) := by
  unfold execveMemory
  rw [copyArgs_erase]
  cases copyArgs m argv envp with
  | none => rfl
  | some args =>
    simp only [map_some, bind_eq_bind, bind_some, ArgPages.erase, memReleaseDirs_erase]
    cases memReleaseDirs args.m proc.dirs with
    | none => rfl
    | some m₁ =>
      simp only [map_some, bind_some, elfloaderLoad_erase]
      cases elfloaderLoad m₁ { proc with dirs := .empty, areas := [], heap := none } image with
      | none => rfl
      | some r =>
        have hInsert := foldlM_hom (insertArgPage_erase q args.pages) (finRange processArgMaxPages) (r.1, r.2.dirs)
        simp only [erasePair] at hInsert
        simp only [map_some, bind_some, hInsert]
        cases (finRange processArgMaxPages).foldlM (insertArgPage args.pages) (r.1, r.2.dirs) with
        | none => rfl
        | some r' =>
          simp only [map_some, bind_some, erasePair, Memory.releaseKernelPage_erase]
          cases r'.1.releaseKernelPage proc.kernelStack <;> rfl

end Fixos.Sys
