import Fixos.Sys.MemoryErasure
import Fixos.Sys.PageOrigin

/-! # What a newly mapped page holds

Two runs in which only the bytes stored by one process differ hand out the same pages at the same
steps.
-/

namespace Fixos.Sys

open Arch Fs Transition Option List

structure NewPage where
  proc : ProcRef
  vpn : Nat
  cells : List Cell
deriving DecidableEq

def NewPage.content (page : NewPage) : ProcRef × Nat × Bytes :=
  (page.proc, page.vpn, page.cells.map Cell.value)

def NewPage.Clean (q : ProcRef) (page : NewPage) : Prop := ∀ c ∈ page.cells, c.writer ≠ some q

def argVpns : List Nat :=
  (range processArgMaxPages).map fun i =>
    (archUnewprocDefaultStack - (i + 1) * pmPageBytes) / pmPageBytes

def Vm.pageOf (s : Vm) (p : ProcRef) (vpn : Nat) : List NewPage :=
  ((s.proc p).dirs.pageAt vpn).toList.map fun ppn =>
    ⟨p, vpn, (range pmPageBytes).map (s.m.pm.cells ppn)⟩

/-- By a page fault where nothing was mapped, or for the arguments of `execve`. -/
def Vm.newPages (s t : Vm) : VmAction → List NewPage
  | .fault p vpn => if (s.proc p).dirs.pageAt vpn = none then t.pageOf p vpn else []
  | .execve p _ _ _ => argVpns.flatMap (t.pageOf p)
  | _ => []

structure PageRun where
  vm : Vm
  maps : List NewPage

def PageRun.step (s : PageRun) (a : VmAction) : Option PageRun :=
  (s.vm.step a).map fun vm => ⟨vm, s.maps ++ s.vm.newPages vm a⟩

/-- No byte stored by process `q` is in the part of a page, mapped for a watched process, that the action leaves as it
was. -/
def VmAction.NothingLeft (q : ProcRef) (watched : ProcRef → Bool) (s : Vm) : VmAction → Prop
  | .fault p vpn => watched p → (s.proc p).dirs.pageAt vpn = none →
      ∀ area ∈ memAreaFind (s.proc p) (vpn * pmPageBytes), ∀ ppn ∈ s.m.pm.free.head?,
        ∀ i < pmPageBytes, area.LeavesByte s.smem (vpn * pmPageBytes) i → s.m.pm.CleanAt q ppn i
  | .execve p _ argv envp => watched p →
      ∀ i < (argLayout argv envp).pages, ∀ ppn ∈ s.m.pm.free[i]?,
        ∀ j < pmPageBytes, (argLayout argv envp).written i j = false → s.m.pm.CleanAt q ppn j
  | _ => True

instance (q : ProcRef) (watched : ProcRef → Bool) (s : Vm) : (a : VmAction) → Decidable (a.NothingLeft q watched s)
  | .fault .. => inferInstanceAs (Decidable (_ → _ → ∀ _ ∈ _, ∀ _ ∈ _, ∀ _ < _, _ → _))
  | .execve .. => inferInstanceAs (Decidable (_ → ∀ _ < _, ∀ _ ∈ _, ∀ _ < _, _ → _))
  | .spawn .. | .sbrk .. | .fork .. | .exit _ | .write .. | .kernelTake | .kernelRelease _ | .kernelWrite .. => isTrue trivial

section

variable (q : ProcRef)

def Vm.erase (s : Vm) : Vm := { s with m := s.m.erase q }

def VmAction.erase : VmAction → VmAction
  | .write p addr byte => .write p addr (if p = q then 0 else byte)
  | a => a

def NewPage.erase (page : NewPage) : NewPage := { page with cells := page.cells.map (Cell.erase q) }

def PageRun.erase (s : PageRun) : PageRun := ⟨s.vm.erase q, s.maps.map (NewPage.erase q)⟩

lemma Vm.call_erase (s : Vm) (a : VmAction) : (s.erase q).call (a.erase q) = (s.call a).map (Vm.erase q) := by
  cases a with
  | spawn p image =>
    simp only [VmAction.erase, Vm.call, Vm.erase, elfloaderLoad_erase]
    cases elfloaderLoad s.m .blank image <;> rfl
  | fault p vpn =>
    simp only [VmAction.erase, Vm.call, Vm.erase, tlbmissHandler_erase]
    cases tlbmissHandler s.smem s.m (s.proc p) vpn <;> rfl
  | sbrk p incr =>
    simp only [VmAction.erase, Vm.call, Vm.erase, sysSbrk_erase]
    cases sysSbrk s.m (s.proc p) incr <;> rfl
  | fork cur child =>
    simp only [VmAction.erase, Vm.call, Vm.erase, forkMemory_erase]
    cases forkMemory s.m (s.proc cur) <;> rfl
  | execve p image argv envp =>
    simp only [VmAction.erase, Vm.call, Vm.erase, execveMemory_erase]
    cases execveMemory s.m (s.proc p) image argv envp <;> rfl
  | exit p =>
    simp only [VmAction.erase, Vm.call, Vm.erase, terminateMemory_erase]
    cases terminateMemory s.m (s.proc p) <;> rfl
  | write p addr byte =>
    simp only [VmAction.erase, Vm.call, Vm.erase, Vm.userWrite]
    cases (s.proc p).dirs.pageAt (addr / pmPageBytes) with
    | none => rfl
    | some ppn => simp [Vm.erase, Memory.erase, PhysMem.erase_userStore]
  | kernelTake =>
    simp only [VmAction.erase, Vm.call, Vm.erase, Memory.getKernelPage_erase]
    cases s.m.getKernelPage <;> rfl
  | kernelRelease ppn =>
    simp only [VmAction.erase, Vm.call, Vm.erase, Memory.releaseKernelPage_erase]
    cases s.m.releaseKernelPage ppn <;> rfl
  | kernelWrite ppn pos bytes =>
    simp [VmAction.erase, Vm.call, Vm.erase, Memory.erase, PhysMem.erase_store]

lemma VmAction.enabled_erase (s : Vm) (a : VmAction) : (a.erase q).Enabled (s.erase q) ↔ a.Enabled s := by
  cases a <;> rfl

lemma Vm.step_erase (s : Vm) (a : VmAction) : (s.erase q).step (a.erase q) = (s.step a).map (Vm.erase q) := by
  simp only [Vm.step, VmAction.enabled_erase, Vm.call_erase]
  split <;> rfl

lemma Vm.pageOf_erase (s : Vm) (p : ProcRef) (vpn : Nat) :
    (s.erase q).pageOf p vpn = (s.pageOf p vpn).map (NewPage.erase q) := by
  unfold Vm.pageOf
  rw [List.map_map, show ((s.erase q).proc p) = s.proc p from rfl]
  refine map_congr_left fun ppn _ => ?_
  simp only [Function.comp_apply, NewPage.erase, List.map_map]
  rfl

lemma Vm.newPages_erase (s t : Vm) (a : VmAction) :
    (s.erase q).newPages (t.erase q) (a.erase q) = (s.newPages t a).map (NewPage.erase q) := by
  cases a with
  | fault p vpn =>
    simp only [VmAction.erase, Vm.newPages, Vm.pageOf_erase]
    rw [show ((s.erase q).proc p) = s.proc p from rfl]
    split <;> rfl
  | execve p image argv envp =>
    simp only [VmAction.erase, Vm.newPages, map_flatMap]
    exact flatMap_congr fun vpn _ => Vm.pageOf_erase q t p vpn
  | _ => rfl

lemma PageRun.step_erase (s : PageRun) (a : VmAction) :
    (s.erase q).step (a.erase q) = (s.step a).map (PageRun.erase q) := by
  unfold PageRun.step
  rw [show (s.erase q).vm = s.vm.erase q from rfl, Vm.step_erase]
  cases s.vm.step a with
  | none => rfl
  | some t => simp [PageRun.erase, Vm.newPages_erase]

end

variable {q : ProcRef} {page : NewPage}

lemma NewPage.Clean.erase_eq (h : page.Clean q) : page.erase q = page := by
  have hCells : page.cells.map (Cell.erase q) = page.cells :=
    (map_congr_left fun c hc => Cell.erase_of_ne q (h c hc)).trans (map_id _)
  rw [NewPage.erase, hCells]

lemma NewPage.clean_erase : (page.erase q).Clean q ↔ page.Clean q := by
  unfold NewPage.Clean NewPage.erase
  simp

lemma Vm.mem_pageOf {s : Vm} {p : ProcRef} {vpn : Nat} (h : page ∈ s.pageOf p vpn) :
    page.proc = p ∧ ∃ ppn, (s.proc p).dirs.pageAt vpn = some ppn ∧
      ∀ q, (∀ i, i < pmPageBytes → s.m.pm.CleanAt q ppn i) → page.Clean q := by
  obtain ⟨ppn, hMapped, rfl⟩ := mem_map.mp h
  refine ⟨rfl, ppn, mem_toList.mp hMapped, fun q hClean c hc => ?_⟩
  simp only [List.mem_map, mem_range] at hc
  obtain ⟨i, hi, rfl⟩ := hc
  exact hClean i hi

variable {watched : ProcRef → Bool} {a : VmAction}

lemma Vm.newPages_clean {s t : Vm} (hLeft : a.NothingLeft q watched s) (hStep : s.step a = some t) :
    ∀ page ∈ s.newPages t a, watched page.proc → page.Clean q := by
  obtain ⟨_, hCall⟩ := ite_none_right_eq_some.mp hStep
  intro page hPage hWatched
  cases a with
  | fault p vpn =>
    obtain ⟨⟨m', proc', ppn'⟩, hFault, rfl⟩ := map_eq_some_iff.mp hCall
    simp only [Vm.newPages] at hPage
    split_ifs at hPage with hUnmapped
    · obtain ⟨rfl, ppn, hMapped, hClean⟩ := Vm.mem_pageOf hPage
      rw [Vm.setProc_self] at hMapped
      obtain ⟨area, hFind, hHead, hKeeps, hFilled⟩ := tlbmissHandler_fromFree hFault hUnmapped q
      have hEntered := (tlbmissHandler_faulted hFault).2.1
      obtain rfl : ppn' = ppn := some_inj.mp (hEntered.symm.trans hMapped)
      refine hClean q fun i hi => ?_
      by_cases hKept : area.LeavesByte s.smem (vpn * pmPageBytes) i
      · exact hKeeps ppn' i (hLeft hWatched hUnmapped area hFind ppn' hHead i hi hKept)
      · exact hFilled i hi hKept
    · exact absurd hPage not_mem_nil
  | execve p image argv envp =>
    obtain ⟨⟨m', proc'⟩, hExec, rfl⟩ := map_eq_some_iff.mp hCall
    obtain ⟨vpn, _, hOf⟩ := mem_flatMap.mp hPage
    obtain ⟨rfl, ppn, hMapped, hClean⟩ := Vm.mem_pageOf hOf
    rw [Vm.setProc_self] at hMapped
    obtain ⟨i, hi, hFree, hKeeps, hStored⟩ := execveMemory_fromFree hExec hMapped q
    refine hClean q fun j hj => ?_
    cases hWritten : (argLayout argv envp).written i j with
    | true => exact hStored j hWritten
    | false => exact hKeeps ppn j (hLeft hWatched i hi ppn hFree j hj hWritten)
  | _ => exact absurd hPage not_mem_nil

def PageRun.watchedPages (s : PageRun) (watched : ProcRef → Bool) : List NewPage :=
  s.maps.filter fun page => watched page.proc

lemma PageRun.clean_step {s t : PageRun}
    (hLeft : a.NothingLeft q watched s.vm) (hClean : ∀ page ∈ s.watchedPages watched, page.Clean q)
    (hStep : s.step a = some t) : ∀ page ∈ t.watchedPages watched, page.Clean q := by
  obtain ⟨_, hVm, rfl⟩ := map_eq_some_iff.mp hStep
  intro page hPage
  obtain ⟨hMem, hWatched⟩ := mem_filter.mp hPage
  rcases mem_append.mp hMem with hOld | hNew
  · exact hClean page (mem_filter.mpr ⟨hOld, hWatched⟩)
  · exact Vm.newPages_clean hLeft hVm page hNew hWatched

lemma PageRun.watchedPages_erase (q : ProcRef) (s : PageRun) (watched : ProcRef → Bool) :
    (s.erase q).watchedPages watched = (s.watchedPages watched).map (NewPage.erase q) :=
  filter_map

lemma map_erase_of_clean {pages : List NewPage} (h : ∀ page ∈ pages, page.Clean q) : pages.map (NewPage.erase q) = pages :=
  (map_congr_left fun page hPage => (h page hPage).erase_eq).trans (map_id _)

/-- Two runs differ only in the data that process `q` stores, and in the first none of it is left in pages mapped for
the watched processes. Then the same pages are mapped for these with the same content. -/
theorem new_pages_independent {q : ProcRef} {watched : ProcRef → Bool} {vm : Vm}
    {actions actions' : List VmAction} {s s' : PageRun}
    (hRun : Run PageRun.step (fun s a => a.NothingLeft q watched s.vm) ⟨vm, []⟩ actions s)
    (hRun' : Run PageRun.step always ⟨vm, []⟩ actions' s')
    (hSame : actions.map (VmAction.erase q) = actions'.map (VmAction.erase q)) :
    (s.watchedPages watched).map NewPage.content = (s'.watchedPages watched).map NewPage.content := by
  have hClean : ∀ page ∈ s.watchedPages watched, page.Clean q :=
    hRun.invariant (I := fun s => ∀ page ∈ s.watchedPages watched, page.Clean q)
      (fun _ _ _ hLeft hClean hStep => PageRun.clean_step hLeft hClean hStep)
      (fun page hPage => absurd hPage not_mem_nil)
  have hErased : s.erase q = s'.erase q := hRun.map_eq (PageRun.step_erase q) hRun' rfl hSame
  have hPages : (s.watchedPages watched).map (NewPage.erase q) = (s'.watchedPages watched).map (NewPage.erase q) := by
    rw [← PageRun.watchedPages_erase, hErased, PageRun.watchedPages_erase]
  -- the second run is as clean as the first, since the erased pages tell who stored what
  have hClean' : ∀ page ∈ s'.watchedPages watched, page.Clean q := by
    intro page hPage
    have hMem := mem_map_of_mem (f := NewPage.erase q) hPage
    rw [← hPages, map_erase_of_clean hClean] at hMem
    exact NewPage.clean_erase.mp (hClean _ hMem)
  rw [map_erase_of_clean hClean, map_erase_of_clean hClean'] at hPages
  rw [hPages]

def PageRun.bytesAt (i : Nat) (s : PageRun) : List (ProcRef × Nat × Option UInt8) :=
  s.maps.map fun page => (page.proc, page.vpn, page.cells[i]?.map Cell.value)

def shortImage : Image := ⟨[⟨0x100000, 1024, .file 3 0 1024 true⟩], true⟩

def storeAndExit (vpns : List Nat) (byte : UInt8) : List VmAction :=
  .spawn 0 smallImage ::
    (vpns.flatMap fun vpn => [.fault 0 vpn, .write 0 (vpn * pmPageBytes + 600) byte]) ++ [.exit 0]

def leakRun (byte : UInt8) : List VmAction :=
  storeAndExit [0xFFFFB, 0xFFFFC, 0xFFFFD, 0xFFFFE, 0xFFFFF] byte ++
    [.spawn 1 shortImage, .fault 1 0xFFFFF, .fault 1 0x400, .execve 1 shortImage (some [[65, 0]]) none]

/-- In its first stack page, in a page of its file and in the page of its arguments. -/
theorem recycled_pages_leak : (leakRun 42).map (VmAction.erase 0) = (leakRun 43).map (VmAction.erase 0) ∧
      ∃ s s', exec PageRun.step ⟨smallBoot, []⟩ (leakRun 42) = some s ∧
        exec PageRun.step ⟨smallBoot, []⟩ (leakRun 43) = some s' ∧
        (s.bytesAt 600).filter (·.1 = 1) = [(1, 0xFFFFF, some 42), (1, 0x400, some 42), (1, 0xFFFFF, some 42)] ∧
        (s'.bytesAt 600).filter (·.1 = 1) = [(1, 0xFFFFF, some 43), (1, 0x400, some 43), (1, 0xFFFFF, some 43)] := by
  have hFirst : (exec PageRun.step ⟨smallBoot, []⟩ (leakRun 42)).map (fun s => (s.bytesAt 600).filter (·.1 = 1)) =
        some [(1, 0xFFFFF, some 42), (1, 0x400, some 42), (1, 0xFFFFF, some 42)] := by
    decide +kernel
  have hSecond : (exec PageRun.step ⟨smallBoot, []⟩ (leakRun 43)).map (fun s => (s.bytesAt 600).filter (·.1 = 1)) =
        some [(1, 0xFFFFF, some 43), (1, 0x400, some 43), (1, 0xFFFFF, some 43)] := by
    decide +kernel
  obtain ⟨s, hExec, hs⟩ := map_eq_some_iff.mp hFirst
  obtain ⟨s', hExec', hs'⟩ := map_eq_some_iff.mp hSecond
  exact ⟨rfl, s, s', hExec, hExec', hs, hs'⟩

def fillRun (byte : UInt8) : List VmAction :=
  storeAndExit [0xFFFFD, 0xFFFFE, 0xFFFFF] byte ++
    [.spawn 1 smallImage, .fault 1 0x400, .execve 1 smallImage (some [replicate 600 65 ++ [0]]) none]

theorem new_pages_independent_filled :
    ∃ s s', Run PageRun.step (fun s a => a.NothingLeft 0 (· = 1) s.vm) ⟨smallBoot, []⟩ (fillRun 42) s ∧
      Run PageRun.step always ⟨smallBoot, []⟩ (fillRun 43) s' ∧
      (s.bytesAt 600).filter (·.1 = 1) = [(1, 0x400, some 0), (1, 0xFFFFF, some 65)] ∧
      (s.watchedPages (· = 1)).map NewPage.content = (s'.watchedPages (· = 1)).map NewPage.content := by
  have hFirst : (exec (guarded PageRun.step fun s a => a.NothingLeft 0 (· = 1) s.vm) ⟨smallBoot, []⟩
      (fillRun 42)).map (fun s => (s.bytesAt 600).filter (·.1 = 1)) = some [(1, 0x400, some 0), (1, 0xFFFFF, some 65)] := by
    decide +kernel
  have hSecond : (exec PageRun.step ⟨smallBoot, []⟩ (fillRun 43)).isSome := by
    decide +kernel
  obtain ⟨s, hExec, hs⟩ := map_eq_some_iff.mp hFirst
  obtain ⟨s', hExec'⟩ := isSome_iff_exists.mp hSecond
  have hRun := run_of_exec_guarded hExec
  have hRun' := run_of_exec hExec'
  exact ⟨s, s', hRun, hRun', hs, new_pages_independent hRun hRun' rfl⟩

end Fixos.Sys
