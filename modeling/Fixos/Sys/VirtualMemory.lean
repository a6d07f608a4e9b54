import Fixos.Sys.MemArea
import Fixos.Sys.Memory

/-! # The memory of a process (`sys/mem_area.c`, `arch/sh/exception.c`, `sys/process.c`)

Areas say what an address may hold, and page directories what it holds already. The functions stop, giving `none`, where
the kernel stops: no page left, or an access outside of every area.
-/

namespace Fixos.Sys

open Arch Fs Word Transition Option List

structure SmemFile where
  size : Nat
  byte : Nat → UInt8

/-- The areas are known by the address of their `struct mem_area`; `areas` lists those inserted. -/
structure VmProc where
  dirs : DirList
  areas : List Nat
  area : Nat → MemArea
  nextArea : Nat
  heap : Option Nat
  initialBrk : Nat
  kernelStack : Ppn

def VmProc.blank : VmProc where
  dirs := .empty
  areas := []
  area := fun _ => ⟨0, 0, .anon⟩
  nextArea := 0
  heap := none
  initialBrk := 0
  kernelStack := 0

def smemfsReadData (file : SmemFile) (len atpos : Nat) : Bytes :=
  (range (min (sub file.size atpos) len)).map fun i => file.byte (atpos + i)

def memAreaFind (proc : VmProc) (address : Nat) : Option MemArea :=
  (proc.areas.map proc.area).find? fun area =>
    area.address ≤ address && address < add area.address area.maxSize

def VmProc.insertArea (proc : VmProc) (key : Nat) : VmProc × Int :=
  if memAreaCheckRange (proc.areas.map proc.area) (proc.area key) then (proc, -1)
  else ({ proc with areas := key :: proc.areas }, 0)

def VmProc.allocArea (proc : VmProc) (area : MemArea) : VmProc :=
  { proc with area := Function.update proc.area proc.nextArea area, nextArea := proc.nextArea + 1 }

/-- The page after the zeroes, and how many bytes are to be read from the file. -/
def memAreaFillPartialPage (pm : PhysMem) (area : MemArea) (offset : Nat) (dest : Ppn) : PhysMem × Nat :=
  match area.kind with
  | .file _ _ infileSize true =>
    if infileSize < add offset pmPageBytes then
      let (readsize, zeroed) :=
        if infileSize > offset then (infileSize - offset, add offset pmPageBytes - infileSize)
        else (0, pmPageBytes)
      (pm.store dest readsize none (replicate zeroed 0), readsize)
    else (pm, pmPageBytes)
  | _ => (pm, pmPageBytes)

def anonAreaPagefault (m : Memory) (area : MemArea) (addrFault : Nat) : Option (Memory × PageEntry) :=
  if sub addrFault area.address < area.maxSize then
    m.archPmGetFreePage.map fun (ppn, m) => (m, ⟨ppn, true, true, false⟩)
  else some (m, ⟨0, true, false, false⟩)

/-- The page after `smemfs_area_pagefault` has filled it. A short read leaves the rest as it was. -/
def smemfsFillPage (file : SmemFile) (baseOffset : Nat) (pm : PhysMem) (area : MemArea) (offset : Nat)
    (ppn : Ppn) : PhysMem :=
  let (pm, readsize) := memAreaFillPartialPage pm area offset ppn
  if 0 < readsize then pm.store ppn 0 none (smemfsReadData file readsize (add baseOffset offset)) else pm

def smemfsAreaPagefault (file : SmemFile) (baseOffset : Nat) (m : Memory) (area : MemArea)
    (addrFault : Nat) : Option (Memory × PageEntry) :=
  m.archPmGetFreePage.map fun (ppn, m) =>
    ({ m with pm := smemfsFillPage file baseOffset m.pm area (sub addrFault area.address) ppn },
      ⟨ppn, true, true, false⟩)

def memAreaPagefault (smem : FileRef → SmemFile) (m : Memory) (area : MemArea) (addrFault : Nat) :
    Option (Memory × PageEntry) :=
  match area.kind with
  | .anon => anonAreaPagefault m area addrFault
  | .file filep baseOffset _ _ => smemfsAreaPagefault (smem filep) baseOffset m area addrFault

def majorFault (smem : FileRef → SmemFile) (m : Memory) (proc : VmProc) (virtaddr : Nat) :
    Option (Memory × DirList) :=
  match memAreaFind proc virtaddr with
  | none => some (m, proc.dirs)
  | some area => do
    let (m, pmpage) ← memAreaPagefault smem m area virtaddr
    if pmpage.ppn ≠ 0 then memInsertPage m proc.dirs pmpage virtaddr else some (m, proc.dirs)

def pageIn (smem : FileRef → SmemFile) (m : Memory) (proc : VmProc) (virtaddr : Nat) :
    Option (Memory × DirList) :=
  if (memFindPage proc.dirs virtaddr).all fun page => !page.valid then majorFault smem m proc virtaddr
  else some (m, proc.dirs)

/-- The page that the TLB entry is loaded with comes last. Without one the kernel stops. -/
def tlbmissHandler (smem : FileRef → SmemFile) (m : Memory) (proc : VmProc) (vpn : Nat) :
    Option (Memory × VmProc × Ppn) := do
  let (m, dirs) ← pageIn smem m proc (vpn * pmPageBytes)
  let ppn ← (memFindPage dirs (vpn * pmPageBytes)).bind PageEntry.owned
  return (m, { proc with dirs }, ppn)

def shrinkPages (address oldSize newSize : Nat) : List Nat :=
  let oldLastPage := memPageBegining (add address oldSize)
  let newLastPage := memPageBegining (add address newSize)
  (range ((oldLastPage - newLastPage) / pmPageBytes)).map fun i => newLastPage + i * pmPageBytes

def releaseAt (st : Memory × DirList) (addr : Nat) : Option (Memory × DirList) :=
  match memFindPage st.2 addr with
  | none => some st
  | some page => (memReleasePage st.1 page).map fun (m, page) => (m, st.2.setPage addr page)

def memAreaResize (m : Memory) (proc : VmProc) (key newSize : Nat) : Option (Memory × VmProc) :=
  let area := proc.area key
  let proc := { proc with area := Function.update proc.area key { area with maxSize := newSize } }
  if newSize < area.maxSize then
    ((shrinkPages area.address area.maxSize newSize).foldlM releaseAt (m, proc.dirs)).map
      fun (m, dirs) => (m, { proc with dirs })
  else some (m, proc)

/-- The heap is created at the first call, at the initial break rounded up to a page. -/
def VmProc.makeHeap (proc : VmProc) : VmProc :=
  if proc.heap = none ∧ proc.initialBrk ≠ 0 then
    let brkAlign := proc.initialBrk % pmPageBytes
    let realBrk := if brkAlign = 0 then proc.initialBrk else add proc.initialBrk (pmPageBytes - brkAlign)
    let key := proc.nextArea
    { ((proc.allocArea ⟨realBrk, 0, .anon⟩).insertArea key).1 with heap := some key }
  else proc

def sbrkSize (maxSize : Nat) (incr : Int) : Nat :=
  if incr < 0 ∧ (maxSize : Int) < -incr then 0 else ((maxSize + incr) % 2 ^ 32).toNat

def sysSbrk (m : Memory) (proc : VmProc) (incr : Int) : Option (Memory × VmProc × Nat) :=
  let proc := proc.makeHeap
  match proc.heap with
  | none => some (m, proc, 2 ^ 32 - 1)
  | some key => (memAreaResize m proc key (sbrkSize (proc.area key).maxSize incr)).map fun (m, resized) =>
      (m, resized, (proc.area key).address)

def cloneArea (parent child : VmProc) (key : Nat) : VmProc :=
  let child := ({ child with area := Function.update child.area key (parent.area key) }.insertArea key).1
  if parent.heap = some key then { child with heap := some key } else child

def copyEntry (dir : PageDir) (st : Memory × DirList) (i : Fin memDirectoryPages) :
    Option (Memory × DirList) :=
  if (dir.pages i).isPrivate && (dir.pages i).valid then
    memCopyPage st.1 (dir.pages i) st.2 (memPageAddress dir.dirId i)
  else some st

def copyDir (st : Memory × DirList) (dir : PageDir) : Option (Memory × DirList) :=
  (finRange memDirectoryPages).foldlM (copyEntry dir) st

def forkMemory (m : Memory) (parent : VmProc) : Option (Memory × VmProc) := do
  let child := parent.areas.foldl (cloneArea parent) { VmProc.blank with nextArea := parent.nextArea }
  let (m, dirs) ← parent.dirs.dirs.foldlM copyDir (m, .empty)
  let (kernelStack, m) ← m.getKernelPage
  return (m, { child with dirs, initialBrk := parent.initialBrk, kernelStack })

/-- The areas and pages of `process_terminate`; the kernel stack stays until `wait`. -/
def terminateMemory (m : Memory) (proc : VmProc) : Option (Memory × VmProc) :=
  (memReleaseDirs m proc.dirs).map fun m => (m, { proc with dirs := .empty, areas := [] })

@[simp] lemma memAreaFillPartialPage_free (pm : PhysMem) (area : MemArea) (offset : Nat) (dest : Ppn) :
    (memAreaFillPartialPage pm area offset dest).1.free = pm.free := by
  unfold memAreaFillPartialPage
  split
  · split <;> rfl
  · rfl

@[simp] lemma smemfsFillPage_free (file : SmemFile) (baseOffset : Nat) (pm : PhysMem) (area : MemArea)
    (offset : Nat) (ppn : Ppn) : (smemfsFillPage file baseOffset pm area offset ppn).free = pm.free := by
  simp only [smemfsFillPage]
  split
  · rw [PhysMem.store_free, memAreaFillPartialPage_free]
  · rw [memAreaFillPartialPage_free]

variable {smem : FileRef → SmemFile} {m m' : Memory}

lemma memAreaPagefault_holds {area : MemArea} {addrFault : Nat} {page : PageEntry}
    (h : memAreaPagefault smem m area addrFault = some (m', page)) (r : Ppn) :
    m.holds r = m'.holds r + page.owned.toList.count r := by
  unfold memAreaPagefault at h
  split at h
  · unfold anonAreaPagefault at h
    split at h
    · obtain ⟨⟨ppn, m₁⟩, hGet, ⟨⟩⟩ := map_eq_some_iff.mp h
      exact Memory.holds_getFreePage hGet r
    · cases h
      rfl
  · obtain ⟨⟨ppn, m₁⟩, hGet, ⟨⟩⟩ := map_eq_some_iff.mp h
    simp only [Memory.holds, smemfsFillPage_free]
    exact Memory.holds_getFreePage hGet r

structure Faulted (m : Memory) (dirs : DirList) (m' : Memory) (dirs' : DirList) : Prop where
  count_le : ∀ r, m'.holds r + dirs'.owned.count r ≤ m.holds r + dirs.owned.count r
  keeps : ∀ vpn ppn, dirs.pageAt vpn = some ppn → dirs'.pageAt vpn = some ppn

variable {proc : VmProc}

lemma majorFault_faulted {virtaddr : Nat} {dirs : DirList} (hUnmapped : proc.dirs.pageAt (virtaddr / pmPageBytes) = none)
    (h : majorFault smem m proc virtaddr = some (m', dirs)) : Faulted m proc.dirs m' dirs := by
  unfold majorFault at h
  split at h
  · cases h
    exact ⟨fun _ => Nat.le_refl _, fun _ _ hMapped => hMapped⟩
  · obtain ⟨⟨_, _⟩, hFault, hRest⟩ := bind_eq_some_iff.mp h
    have hHolds := memAreaPagefault_holds hFault
    simp only at hRest
    split at hRest
    · have hInserted := memInsertPage_inserted hRest
      constructor
      · intro r
        have hOwned := hInserted.owned r
        rw [hInserted.holds r, hHolds r]
        omega
      · intro vpn _ hMapped
        rw [hInserted.pageAt vpn, if_neg, hMapped]
        rintro rfl
        rw [hUnmapped] at hMapped
        cases hMapped
    · cases hRest
      refine ⟨fun r => ?_, fun _ _ hMapped => hMapped⟩
      rw [hHolds r]
      omega

variable {proc' : VmProc}

lemma tlbmissHandler_faulted {vpn : Nat} {ppn : Ppn} (h : tlbmissHandler smem m proc vpn = some (m', proc', ppn)) :
    Faulted m proc.dirs m' proc'.dirs ∧ proc'.dirs.pageAt vpn = some ppn ∧ proc' = { proc with dirs := proc'.dirs } := by
  obtain ⟨⟨_, dirs⟩, hDirs, hRest⟩ := bind_eq_some_iff.mp h
  obtain ⟨_, hPage, ⟨⟩⟩ := bind_eq_some_iff.mp hRest
  refine ⟨?_, hPage, rfl⟩
  unfold pageIn at hDirs
  split_ifs at hDirs with hInvalid
  · refine majorFault_faulted ?_ hDirs
    rw [vpn_of_address, DirList.pageAt]
    cases hFind : memFindPage proc.dirs (vpn * pmPageBytes) with
    | none => rfl
    | some page =>
      rw [hFind] at hInvalid
      simp_all [PageEntry.owned]
  · cases hDirs
    exact ⟨fun _ => Nat.le_refl _, fun _ _ hMapped => hMapped⟩

structure PagesReleased (m : Memory) (dirs : DirList) (vpns : List Nat) (m' : Memory) (dirs' : DirList) : Prop where
  count_eq : ∀ r, m'.holds r + dirs'.owned.count r = m.holds r + dirs.owned.count r
  pageAt : ∀ vpn, dirs'.pageAt vpn = if vpn ∈ vpns then none else dirs.pageAt vpn

variable {st st' : Memory × DirList}

lemma releaseAt_released {addr : Nat} (h : releaseAt st addr = some st') :
    PagesReleased st.1 st.2 [addr / pmPageBytes] st'.1 st'.2 := by
  unfold releaseAt at h
  split at h
  · rename_i hNone
    cases h
    refine ⟨fun _ => rfl, fun vpn => ?_⟩
    simp only [mem_singleton]
    split_ifs with hVpn
    · rw [hVpn, DirList.pageAt_page, hNone]
      rfl
    · rfl
  · rename_i page hFind
    obtain ⟨⟨m₁, page'⟩, hRelease, ⟨⟩⟩ := map_eq_some_iff.mp h
    have hInserted := DirList.inserted_setPage m₁ hFind page'
    constructor
    · intro r
      obtain ⟨_, hNone⟩ := memReleasePage_holds hRelease r
      have hOwned := hInserted.owned r
      rw [DirList.pageAt_page, hFind, bind_some, hNone] at hOwned
      simp only [toList_none, count_nil] at hOwned
      show m₁.holds r + (st.2.setPage addr page').owned.count r = _
      omega
    · intro vpn
      simp [hInserted.pageAt vpn, (memReleasePage_holds hRelease 0).2]

lemma releaseAll_released {addrs : List Nat} (h : addrs.foldlM releaseAt st = some st') :
    PagesReleased st.1 st.2 (addrs.map (· / pmPageBytes)) st'.1 st'.2 := by
  induction addrs generalizing st with
  | nil =>
    cases h
    exact ⟨fun _ => rfl, fun _ => rfl⟩
  | cons addr rest ih =>
    rw [foldlM_cons] at h
    obtain ⟨_, hHere, hRest⟩ := bind_eq_some_iff.mp h
    have hFirst := releaseAt_released hHere
    have hOthers := ih hRest
    refine ⟨fun r => (hOthers.count_eq r).trans (hFirst.count_eq r), fun vpn => ?_⟩
    rw [hOthers.pageAt vpn, hFirst.pageAt vpn, map_cons]
    simp only [mem_cons, not_mem_nil, or_false]
    split <;> split <;> simp_all

def resizedVpns (area : MemArea) (newSize : Nat) : List Nat :=
  if newSize < area.maxSize then
    (shrinkPages area.address area.maxSize newSize).map (· / pmPageBytes)
  else []

lemma memAreaResize_released {key newSize : Nat} (h : memAreaResize m proc key newSize = some (m', proc')) :
    PagesReleased m proc.dirs (resizedVpns (proc.area key) newSize) m' proc'.dirs := by
  simp only [memAreaResize] at h
  unfold resizedVpns
  split_ifs at h with hLess
  · obtain ⟨⟨_, _⟩, hLoop, ⟨⟩⟩ := map_eq_some_iff.mp h
    rw [if_pos hLess]
    exact releaseAll_released hLoop
  · cases h
    rw [if_neg hLess]
    exact ⟨fun _ => rfl, fun _ => rfl⟩

@[simp] lemma VmProc.insertArea_dirs (proc : VmProc) (key : Nat) : (proc.insertArea key).1.dirs = proc.dirs := by
  unfold insertArea
  split <;> rfl

@[simp] lemma VmProc.insertArea_kernelStack (proc : VmProc) (key : Nat) :
    (proc.insertArea key).1.kernelStack = proc.kernelStack := by
  unfold insertArea
  split <;> rfl

@[simp] lemma VmProc.makeHeap_dirs (proc : VmProc) : proc.makeHeap.dirs = proc.dirs := by
  unfold makeHeap
  split
  · exact VmProc.insertArea_dirs _ _
  · rfl

def sbrkVpns (proc : VmProc) (incr : Int) : List Nat :=
  match proc.makeHeap.heap with
  | none => []
  | some key =>
    resizedVpns (proc.makeHeap.area key) (sbrkSize (proc.makeHeap.area key).maxSize incr)

lemma sysSbrk_released {incr : Int} {ret : Nat} (h : sysSbrk m proc incr = some (m', proc', ret)) :
    PagesReleased m proc.dirs (sbrkVpns proc incr) m' proc'.dirs := by
  simp only [sysSbrk] at h
  unfold sbrkVpns
  split at h
  · cases h
    rw [VmProc.makeHeap_dirs]
    exact ⟨fun _ => rfl, fun _ => rfl⟩
  · obtain ⟨⟨_, _⟩, hResize, ⟨⟩⟩ := map_eq_some_iff.mp h
    have hReleased := memAreaResize_released hResize
    rwa [VmProc.makeHeap_dirs] at hReleased

lemma copyDir_le {dir : PageDir} (h : copyDir st dir = some st') (r : Ppn) :
    st'.1.holds r + st'.2.owned.count r ≤ st.1.holds r + st.2.owned.count r := by
  refine foldlM_invariant (I := fun t : Memory × DirList =>
    t.1.holds r + t.2.owned.count r ≤ st.1.holds r + st.2.owned.count r) ?_ (Nat.le_refl _) h
  intro i _ s t hLe hCopy
  unfold copyEntry at hCopy
  split at hCopy
  · exact (memCopyPage_le hCopy r).trans hLe
  · cases hCopy
    exact hLe

section

variable {parent child : VmProc} (h : forkMemory m parent = some (m', child))
include h

lemma forkMemory_le (r : Ppn) : m'.holds r + child.dirs.owned.count r ≤ m.holds r := by
  obtain ⟨⟨m₁, dirs⟩, hCopy, hRest⟩ := bind_eq_some_iff.mp h
  obtain ⟨⟨_, _⟩, hStack, ⟨⟩⟩ := bind_eq_some_iff.mp hRest
  have hPages : m₁.holds r + dirs.owned.count r ≤ m.holds r + DirList.empty.owned.count r := by
    refine foldlM_invariant (I := fun t : Memory × DirList =>
      t.1.holds r + t.2.owned.count r ≤ m.holds r + DirList.empty.owned.count r) ?_ (Nat.le_refl _) hCopy
    exact fun dir _ s t hLe hDir => (copyDir_le hDir r).trans hLe
  have hStackHolds := Memory.holds_getKernelPage hStack r
  rw [hStackHolds]
  exact hPages

lemma forkMemory_kernelStack : 0 < m'.holds child.kernelStack := by
  obtain ⟨⟨_, _⟩, _, hRest⟩ := bind_eq_some_iff.mp h
  obtain ⟨⟨_, _⟩, hStack, ⟨⟩⟩ := bind_eq_some_iff.mp hRest
  exact Memory.holds_kernelPage_pos hStack

end

end Fixos.Sys
