import Fixos.Lib.RefCount
import Fixos.Lib.Run
import Fixos.Utils.PoolAlloc

/-! # Page directories (`sys/memory.c`)

Directories come from a pool, so entering a page can itself take a page, for the kernel.
-/

namespace Fixos.Sys

open Arch Utils RefCount Transition Option Function List

def memDirectoryPages : Nat := 32

def dirPerpage : Nat := 7

structure PageEntry where
  ppn : Ppn
  isPrivate : Bool
  valid : Bool
  cached : Bool
deriving DecidableEq

def PageEntry.owned (page : PageEntry) : Option Ppn :=
  if page.isPrivate && page.valid then some page.ppn else none

/-- `home` is the page of the pool in which the directory lies. -/
structure PageDir where
  dirId : Nat
  home : Ppn
  pages : Fin memDirectoryPages → PageEntry

structure DirList where
  dirs : List PageDir
  sorted : dirs.Pairwise fun dir next => dir.dirId < next.dirId

structure Memory where
  pm : PhysMem
  dirPool : Pool
  kernel : List Ppn

def memPageAddress (dirId : Nat) (index : Fin memDirectoryPages) : Nat :=
  (dirId * memDirectoryPages + index) * pmPageBytes

def memAddressDirectory (addr : Nat) : Nat := addr / pmPageBytes / memDirectoryPages

def memAddressIndex (addr : Nat) : Fin memDirectoryPages :=
  ⟨addr / pmPageBytes % memDirectoryPages, Nat.mod_lt _ (by decide)⟩

def memPageBegining (addr : Nat) : Nat := addr / pmPageBytes * pmPageBytes

def Memory.archPmGetFreePage (m : Memory) : Option (Ppn × Memory) :=
  (pmGetFreePage m.pm).map fun (ppn, pm) => (ppn, { m with pm })

def Memory.getKernelPage (m : Memory) : Option (Ppn × Memory) :=
  (pmGetFreePage m.pm).map fun (ppn, pm) => (ppn, { m with pm, kernel := ppn :: m.kernel })

def Memory.archPmReleasePage (m : Memory) (ppn : Ppn) : Option Memory :=
  (pmFreePage m.pm ppn).map fun pm => { m with pm }

def Memory.releaseKernelPage (m : Memory) (ppn : Ppn) : Option Memory :=
  (pmFreePage m.pm ppn).map fun pm => { m with pm, kernel := m.kernel.erase ppn }

def findDir (dirId : Nat) : List PageDir → Option PageDir
  | [] => none
  | cur :: rest =>
    if cur.dirId < dirId then findDir dirId rest
    else if cur.dirId = dirId then some cur else none

def memFindPage (list : DirList) (addr : Nat) : Option PageEntry :=
  (findDir (memAddressDirectory addr) list.dirs).map fun dir => dir.pages (memAddressIndex addr)

def PageDir.setPage (addr : Nat) (page : PageEntry) (dir : PageDir) : PageDir :=
  if dir.dirId = memAddressDirectory addr then
    { dir with pages := update dir.pages (memAddressIndex addr) page }
  else dir

def linkDir (dir : PageDir) : List PageDir → List PageDir
  | [] => [dir]
  | cur :: rest => if dir.dirId < cur.dirId then dir :: cur :: rest else cur :: linkDir dir rest

/-- A directory as `mem_insert_page` prepares it: private entries, none of them valid. -/
def newDir (dirId : Nat) (home : Ppn) : PageDir := ⟨dirId, home, fun _ => ⟨0, true, false, false⟩⟩

variable {dirs : List PageDir} {dir : PageDir}

section

section

variable (h : dirs.Pairwise fun dir next => dir.dirId < next.dirId)
include h

lemma findDir_eq_some_iff {dirId : Nat} : findDir dirId dirs = some dir ↔ dir ∈ dirs ∧ dir.dirId = dirId := by
  induction dirs with
  | nil => simp [findDir]
  | cons cur rest ih =>
    obtain ⟨hCur, hRest⟩ := pairwise_cons.mp h
    unfold findDir
    rcases Nat.lt_trichotomy cur.dirId dirId with hLt | hEq | _
    · rw [if_pos hLt, ih hRest, mem_cons]
      constructor
      · exact fun ⟨hMem, hId⟩ => ⟨Or.inr hMem, hId⟩
      · rintro ⟨rfl | hMem, hId⟩
        · omega
        · exact ⟨hMem, hId⟩
    · rw [if_neg (by omega), if_pos hEq, some_inj]
      constructor
      · rintro rfl
        exact ⟨mem_cons_self, hEq⟩
      · rintro ⟨hMem, hId⟩
        rcases mem_cons.mp hMem with rfl | hMem
        · rfl
        · have := hCur dir hMem
          omega
    · rw [if_neg (by omega), if_neg (by omega)]
      constructor
      · intro hNone
        cases hNone
      · rintro ⟨hMem, hId⟩
        rcases mem_cons.mp hMem with rfl | hMem
        · omega
        · have := hCur dir hMem
          omega

lemma findDir_eq_none_iff {dirId : Nat} : findDir dirId dirs = none ↔ ∀ dir ∈ dirs, dir.dirId ≠ dirId := by
  rw [eq_none_iff_forall_ne_some]
  constructor
  · intro hNone dir hMem hId
    exact hNone dir ((findDir_eq_some_iff h).mpr ⟨hMem, hId⟩)
  · intro hNone dir hSome
    obtain ⟨hMem, hId⟩ := (findDir_eq_some_iff h).mp hSome
    exact hNone dir hMem hId

end

@[simp] lemma PageDir.setPage_dirId (addr : Nat) (page : PageEntry) (dir : PageDir) :
    (dir.setPage addr page).dirId = dir.dirId := by
  unfold setPage
  split <;> rfl

lemma findDir_map_setPage (addr : Nat) (page : PageEntry) (dirId : Nat) (dirs : List PageDir) :
    findDir dirId (dirs.map (PageDir.setPage addr page)) = (findDir dirId dirs).map (PageDir.setPage addr page) := by
  induction dirs with
  | nil => rfl
  | cons cur rest ih =>
    simp only [map_cons, findDir, PageDir.setPage_dirId, ih]
    split
    · rfl
    · split <;> rfl

lemma perm_linkDir (dir : PageDir) (dirs : List PageDir) : (linkDir dir dirs).Perm (dir :: dirs) := by
  induction dirs with
  | nil => exact .refl _
  | cons cur rest ih =>
    unfold linkDir
    split
    · exact .refl _
    · exact (ih.cons cur).trans (.swap dir cur rest)

lemma sorted_linkDir (h : dirs.Pairwise fun dir next => dir.dirId < next.dirId) (hNew : findDir dir.dirId dirs = none) :
    (linkDir dir dirs).Pairwise fun dir next => dir.dirId < next.dirId := by
  have hNe := (findDir_eq_none_iff h).mp hNew
  clear hNew
  induction dirs with
  | nil => exact pairwise_singleton _ _
  | cons cur rest ih =>
    obtain ⟨hCur, hRest⟩ := pairwise_cons.mp h
    unfold linkDir
    split
    · refine pairwise_cons.mpr ⟨?_, h⟩
      intro next hNext
      rcases mem_cons.mp hNext with rfl | hNext
      · assumption
      · have := hCur next hNext
        omega
    · refine pairwise_cons.mpr ⟨?_, ih hRest fun next hNext => hNe next (mem_cons_of_mem _ hNext)⟩
      intro next hNext
      rcases mem_cons.mp ((perm_linkDir dir rest).mem_iff.mp hNext) with rfl | hNext
      · have := hNe cur mem_cons_self
        omega
      · exact hCur next hNext

lemma findDir_linkDir (dir : PageDir) (h : dirs.Pairwise fun dir next => dir.dirId < next.dirId)
    (hNew : findDir dir.dirId dirs = none) (dirId : Nat) :
    findDir dirId (linkDir dir dirs) = if dirId = dir.dirId then some dir else findDir dirId dirs := by
  ext found
  rw [findDir_eq_some_iff (sorted_linkDir h hNew), (perm_linkDir dir dirs).mem_iff, mem_cons]
  split_ifs with hId
  · rw [hId, some_inj]
    constructor
    · rintro ⟨rfl | hMem, hFound⟩
      · rfl
      · exact absurd hFound ((findDir_eq_none_iff h).mp hNew found hMem)
    · rintro rfl
      exact ⟨Or.inl rfl, rfl⟩
  · rw [findDir_eq_some_iff h]
    constructor
    · rintro ⟨rfl | hMem, hFound⟩
      · exact absurd hFound.symm hId
      · exact ⟨hMem, hFound⟩
    · exact fun ⟨hMem, hFound⟩ => ⟨Or.inr hMem, hFound⟩

end

def DirList.empty : DirList := ⟨[], List.Pairwise.nil⟩

def DirList.setPage (list : DirList) (addr : Nat) (page : PageEntry) : DirList where
  dirs := list.dirs.map (PageDir.setPage addr page)
  sorted := by
    rw [pairwise_map]
    simpa only [PageDir.setPage_dirId] using list.sorted

def DirList.link (list : DirList) (dir : PageDir) (hNew : findDir dir.dirId list.dirs = none) : DirList :=
  ⟨linkDir dir list.dirs, sorted_linkDir list.sorted hNew⟩

def DirList.linkNew (list : DirList) (dirId : Nat) (home : Ppn) (hNew : findDir dirId list.dirs = none) :
    DirList where
  dirs := linkDir (newDir dirId home) list.dirs
  sorted := sorted_linkDir list.sorted hNew

def memInsertPage (m : Memory) (list : DirList) (page : PageEntry) (addr : Nat) :
    Option (Memory × DirList) :=
  match h : findDir (memAddressDirectory addr) list.dirs with
  | some _ => some (m, list.setPage addr page)
  | none =>
    (poolAlloc Memory.getKernelPage dirPerpage m m.dirPool).map fun (home, m, dirPool) =>
      ({ m with dirPool }, (list.linkNew (memAddressDirectory addr) home h).setPage addr page)

def memCopyPage (m : Memory) (orig : PageEntry) (list : DirList) (addr : Nat) :
    Option (Memory × DirList) :=
  if orig.isPrivate then do
    let (dest, m) ← m.archPmGetFreePage
    memInsertPage { m with pm := m.pm.copy dest orig.ppn } list { orig with ppn := dest } addr
  else some (m, list)

def memReleasePage (m : Memory) (page : PageEntry) : Option (Memory × PageEntry) :=
  if page.isPrivate && page.valid then
    (m.archPmReleasePage page.ppn).map fun m => (m, { page with valid := false })
  else some (m, page)

def memReleaseDir (m : Memory) (dir : PageDir) : Option Memory := do
  let m ← (finRange memDirectoryPages).foldlM
    (fun m i => (memReleasePage m (dir.pages i)).map Prod.fst) m
  return { m with dirPool := poolFree m.dirPool dir.home }

def memReleaseDirs (m : Memory) (list : DirList) : Option Memory := list.dirs.foldlM memReleaseDir m

def Memory.holds (m : Memory) (r : Ppn) : Nat := m.pm.free.count r + m.kernel.count r

def PageDir.owned (dir : PageDir) : List Ppn :=
  (finRange memDirectoryPages).flatMap fun i => (dir.pages i).owned.toList

def DirList.owned (list : DirList) : List Ppn := list.dirs.flatMap PageDir.owned

def DirList.pageAt (list : DirList) (vpn : Nat) : Option Ppn :=
  (memFindPage list (vpn * pmPageBytes)).bind PageEntry.owned

variable {r : Ppn} {page page' : PageEntry} {list : DirList}

section

variable {m m' : Memory} {ppn : Ppn}

lemma Memory.holds_getFreePage (h : m.archPmGetFreePage = some (ppn, m')) (r : Ppn) :
    m.holds r = m'.holds r + [ppn].count r := by
  obtain ⟨⟨_, _⟩, hGet, ⟨⟩⟩ := map_eq_some_iff.mp h
  simp only [holds, (pmGetFreePage_eq_some hGet).1, count_cons, count_nil]
  omega

section

variable (h : m.getKernelPage = some (ppn, m'))
include h

lemma Memory.holds_getKernelPage (r : Ppn) : m'.holds r = m.holds r := by
  obtain ⟨⟨_, _⟩, hGet, ⟨⟩⟩ := map_eq_some_iff.mp h
  simp only [holds, (pmGetFreePage_eq_some hGet).1, count_cons]
  omega

lemma Memory.holds_kernelPage_pos : 0 < m'.holds ppn := by
  obtain ⟨⟨_, _⟩, _, ⟨⟩⟩ := map_eq_some_iff.mp h
  exact Nat.add_pos_right _ (count_pos_iff.mpr mem_cons_self)

lemma Memory.kernel_getKernelPage : m.kernel ⊆ m'.kernel := by
  obtain ⟨⟨_, _⟩, _, ⟨⟩⟩ := map_eq_some_iff.mp h
  exact subset_cons_self _ _

end

lemma Memory.holds_release (h : m.archPmReleasePage ppn = some m') (r : Ppn) : m'.holds r = m.holds r + [ppn].count r := by
  obtain ⟨_, hFree, rfl⟩ := map_eq_some_iff.mp h
  simp only [holds, pmFreePage_free hFree, count_cons, count_nil]
  omega

lemma Memory.holds_releaseKernel (hKernel : ppn ∈ m.kernel ∨ ppn ≠ r) (h : m.releaseKernelPage ppn = some m') :
    m'.holds r = m.holds r := by
  obtain ⟨_, hFree, rfl⟩ := map_eq_some_iff.mp h
  rcases hKernel with hMem | hNe
  · have hErase := (perm_cons_erase hMem).count_eq r
    simp only [holds, pmFreePage_free hFree, count_cons] at hErase ⊢
    omega
  · simp only [holds, pmFreePage_free hFree, count_cons_of_ne hNe, count_erase_of_ne hNe.symm]

section

variable (h : memReleasePage m page = some (m', page'))
include h

lemma memReleasePage_holds (r : Ppn) : m'.holds r = m.holds r + page.owned.toList.count r ∧ page'.owned = none := by
  unfold memReleasePage at h
  unfold PageEntry.owned
  split_ifs at h with hOwned
  · obtain ⟨_, hRelease, ⟨⟩⟩ := map_eq_some_iff.mp h
    rw [if_pos hOwned]
    exact ⟨Memory.holds_release hRelease r, by simp⟩
  · cases h
    rw [if_neg hOwned]
    exact ⟨rfl, rfl⟩

lemma memReleasePage_kernel : m'.kernel = m.kernel := by
  unfold memReleasePage at h
  split at h
  · obtain ⟨_, hRelease, ⟨⟩⟩ := map_eq_some_iff.mp h
    obtain ⟨_, _, rfl⟩ := map_eq_some_iff.mp hRelease
    rfl
  · cases h
    rfl

end

lemma memReleaseDir_holds (h : memReleaseDir m dir = some m') (r : Ppn) : m'.holds r = m.holds r + dir.owned.count r := by
  obtain ⟨_, hLoop, ⟨⟩⟩ := bind_eq_some_iff.mp h
  rw [PageDir.owned, count_flatMap]
  apply foldlM_measure (μ := fun m => m.holds r) _ hLoop
  intro s i t hTurn
  obtain ⟨⟨_, _⟩, hRelease, rfl⟩ := map_eq_some_iff.mp hTurn
  exact (memReleasePage_holds hRelease r).1

lemma memReleaseDirs_holds (h : memReleaseDirs m list = some m') (r : Ppn) :
    m'.holds r = m.holds r + list.owned.count r := by
  rw [DirList.owned, count_flatMap]
  apply foldlM_measure (μ := fun m => m.holds r) _ h
  intro s _ t hTurn
  exact memReleaseDir_holds hTurn r

lemma memReleaseDir_kernel (h : memReleaseDir m dir = some m') : m'.kernel = m.kernel := by
  obtain ⟨m₁, hLoop, ⟨⟩⟩ := bind_eq_some_iff.mp h
  show m₁.kernel = m.kernel
  refine foldlM_invariant (I := fun t : Memory => t.kernel = m.kernel) ?_ rfl hLoop
  intro i _ s t hSame hTurn
  obtain ⟨⟨_, _⟩, hRelease, rfl⟩ := map_eq_some_iff.mp hTurn
  exact (memReleasePage_kernel hRelease).trans hSame

lemma memReleaseDirs_kernel (h : memReleaseDirs m list = some m') : m'.kernel = m.kernel :=
  foldlM_invariant (I := fun t : Memory => t.kernel = m.kernel)
    (fun _ _ _ _ hSame hDir => (memReleaseDir_kernel hDir).trans hSame) rfl h

lemma memReleasePage_cells (h : memReleasePage m page = some (m', page')) (hr : page.owned ≠ some r) :
    m'.pm.cells r = m.pm.cells r := by
  unfold memReleasePage at h
  unfold PageEntry.owned at hr
  split_ifs at h with hOwned
  · rw [if_pos hOwned] at hr
    obtain ⟨_, hRelease, ⟨⟩⟩ := map_eq_some_iff.mp h
    obtain ⟨_, hFree, rfl⟩ := map_eq_some_iff.mp hRelease
    exact pmFreePage_cells hFree fun hEq => hr (congrArg some hEq.symm)
  · cases h
    rfl

lemma memReleaseDir_cells (h : memReleaseDir m dir = some m') (hr : r ∉ dir.owned) : m'.pm.cells r = m.pm.cells r := by
  obtain ⟨m₁, hLoop, ⟨⟩⟩ := bind_eq_some_iff.mp h
  show m₁.pm.cells r = m.pm.cells r
  refine foldlM_invariant (I := fun t : Memory => t.pm.cells r = m.pm.cells r) ?_ rfl hLoop
  intro i hi t _ hSame hTurn
  obtain ⟨⟨_, _⟩, hRelease, rfl⟩ := map_eq_some_iff.mp hTurn
  refine (memReleasePage_cells hRelease fun hOwned => hr ?_).trans hSame
  exact mem_flatMap.mpr ⟨i, hi, by simp [hOwned]⟩

lemma memReleaseDirs_cells (h : memReleaseDirs m list = some m') (hr : r ∉ list.owned) : m'.pm.cells r = m.pm.cells r := by
  refine foldlM_invariant (I := fun t : Memory => t.pm.cells r = m.pm.cells r) ?_ rfl h
  intro dir hDir t _ hSame hTurn
  refine (memReleaseDir_cells hTurn fun hOwned => hr ?_).trans hSame
  exact mem_flatMap.mpr ⟨dir, hDir, hOwned⟩

lemma memReleasePage_some (h : page.owned ≠ some 0) (m : Memory) :
    ∃ m' page', memReleasePage m page = some (m', page') ∧ m.pm.free.length ≤ m'.pm.free.length := by
  unfold PageEntry.owned at h
  unfold memReleasePage
  split_ifs with hOwned
  · rw [if_pos hOwned] at h
    obtain ⟨pm, hFree⟩ := pmFreePage_some (fun hZero => h (congrArg some hZero)) m.pm
    refine ⟨{ m with pm }, { page with valid := false }, ?_, ?_⟩
    · rw [Memory.archPmReleasePage, hFree]
      rfl
    · rw [pmFreePage_free hFree]
      exact Nat.le_succ _
  · exact ⟨m, page, rfl, Nat.le_refl _⟩

lemma memReleaseDir_some (h : 0 ∉ dir.owned) (m : Memory) :
    ∃ m', memReleaseDir m dir = some m' ∧ m.pm.free.length ≤ m'.pm.free.length := by
  have hTurn : ∀ i ∈ finRange memDirectoryPages, ∀ t : Memory, m.pm.free.length ≤ t.pm.free.length →
      ∃ t', (memReleasePage t (dir.pages i)).map Prod.fst = some t' ∧ m.pm.free.length ≤ t'.pm.free.length := by
    intro i hi t hLength
    have hNe : (dir.pages i).owned ≠ some 0 := fun hZero => h (mem_flatMap.mpr ⟨i, hi, by simp [hZero]⟩)
    obtain ⟨t', _, hRelease, hMore⟩ := memReleasePage_some hNe t
    exact ⟨t', by rw [hRelease]; rfl, hLength.trans hMore⟩
  obtain ⟨m₁, hLoop, hLength⟩ := foldlM_total hTurn (Nat.le_refl _)
  exact ⟨_, bind_eq_some_iff.mpr ⟨m₁, hLoop, rfl⟩, hLength⟩

lemma memReleaseDirs_some (h : 0 ∉ list.owned) (m : Memory) :
    ∃ m', memReleaseDirs m list = some m' ∧ m.pm.free.length ≤ m'.pm.free.length := by
  refine foldlM_total (I := fun t : Memory => m.pm.free.length ≤ t.pm.free.length) ?_ (Nat.le_refl _)
  intro dir hDir t hLength
  obtain ⟨t', hRelease, hMore⟩ := memReleaseDir_some (fun hZero => h (mem_flatMap.mpr ⟨dir, hDir, hZero⟩)) t
  exact ⟨t', hRelease, hLength.trans hMore⟩

end

variable {addr : Nat} {m m' : Memory} {list' : DirList}

lemma sameEntry_iff (addr addr' : Nat) :
    memAddressDirectory addr' = memAddressDirectory addr ∧ memAddressIndex addr' = memAddressIndex addr ↔
      addr' / pmPageBytes = addr / pmPageBytes := by
  simp only [memAddressDirectory, memAddressIndex, Fin.mk.injEq, memDirectoryPages]
  omega

lemma memFindPage_setPage (list : DirList) (addr : Nat) (page : PageEntry) (addr' : Nat) :
    memFindPage (list.setPage addr page) addr' = (memFindPage list addr').map fun old =>
        if addr' / pmPageBytes = addr / pmPageBytes then page else old := by
  unfold memFindPage DirList.setPage
  rw [findDir_map_setPage]
  cases hFind : findDir (memAddressDirectory addr') list.dirs with
  | none => rfl
  | some dir =>
    have hId := ((findDir_eq_some_iff list.sorted).mp hFind).2
    simp only [map_some, some_inj, PageDir.setPage, hId]
    simp only [← sameEntry_iff addr addr']
    split
    · rename_i hDir
      simp only [update_apply, hDir, true_and]
    · rename_i hDir
      rw [if_neg fun h => hDir h.1]

lemma memFindPage_link (list : DirList) (hNew : findDir dir.dirId list.dirs = none) (addr : Nat) :
    memFindPage (list.link dir hNew) addr =
      if memAddressDirectory addr = dir.dirId then some (dir.pages (memAddressIndex addr))
      else memFindPage list addr := by
  have hLink : findDir (memAddressDirectory addr) (list.link dir hNew).dirs = _ :=
    findDir_linkDir dir list.sorted hNew (memAddressDirectory addr)
  rw [memFindPage, hLink]
  split <;> rfl

lemma memFindPage_linkNew (list : DirList) (dirId : Nat) (home : Ppn) (hNew : findDir dirId list.dirs = none) (addr : Nat) :
    memFindPage (list.linkNew dirId home hNew) addr =
      if memAddressDirectory addr = dirId then some ⟨0, true, false, false⟩ else memFindPage list addr :=
  memFindPage_link list hNew addr

structure EntryInserted (list : DirList) (page : PageEntry) (addr : Nat) (list' : DirList) : Prop where
  here : ∀ addr', addr' / pmPageBytes = addr / pmPageBytes → memFindPage list' addr' = some page
  elsewhere : ∀ addr', addr' / pmPageBytes ≠ addr / pmPageBytes →
    memFindPage list' addr' = memFindPage list addr' ∨
      memFindPage list addr' = none ∧ (memFindPage list' addr').filter PageEntry.valid = none

lemma entryInserted_setPage (h : findDir (memAddressDirectory addr) list.dirs = some dir) :
    EntryInserted list page addr (list.setPage addr page) where
  here := by
    intro addr' hPage
    obtain ⟨hDir, _⟩ := (sameEntry_iff addr addr').mpr hPage
    rw [memFindPage_setPage, memFindPage, hDir, h, map_some, map_some, if_pos hPage]
  elsewhere := by
    intro addr' hPage
    left
    rw [memFindPage_setPage]
    simp only [if_neg hPage, Option.map_id']

lemma entryInserted_link (hNew : findDir dir.dirId list.dirs = none) (hId : dir.dirId = memAddressDirectory addr)
    (hInvalid : ∀ i, (dir.pages i).valid = false) :
    EntryInserted list page addr ((list.link dir hNew).setPage addr page) where
  here := by
    intro addr' hPage
    obtain ⟨hDir, _⟩ := (sameEntry_iff addr addr').mpr hPage
    rw [memFindPage_setPage, memFindPage_link, if_pos (hDir.trans hId.symm), map_some, if_pos hPage]
  elsewhere := by
    intro addr' hPage
    rw [memFindPage_setPage, memFindPage_link]
    simp only [if_neg hPage, Option.map_id']
    split_ifs with hDir
    · right
      refine ⟨?_, ?_⟩
      · rw [memFindPage, hDir, hNew, map_none]
      · rw [filter_some, hInvalid]
        rfl
    · exact Or.inl rfl

lemma PageDir.count_owned (dir : PageDir) (r : Ppn) :
    dir.owned.count r = total (finRange memDirectoryPages) (fun i => (dir.pages i).owned.toList) r := by
  rw [owned, count_flatMap]
  rfl

lemma PageDir.count_owned_update (dir : PageDir) (i : Fin memDirectoryPages) (page : PageEntry) (r : Ppn) :
    (PageDir.owned { dir with pages := update dir.pages i page }).count r +
      (dir.pages i).owned.toList.count r = dir.owned.count r + page.owned.toList.count r := by
  have hHeld : (fun j => (update dir.pages i page j).owned.toList) =
      update (fun j => (dir.pages j).owned.toList) i page.owned.toList := by
    funext j
    rw [update_apply, update_apply]
    split <;> rfl
  rw [count_owned, count_owned, hHeld]
  exact total_update (nodup_finRange _) (mem_finRange i) _ _ r

lemma map_setPage_of_ne (page : PageEntry) (h : ∀ dir ∈ dirs, dir.dirId ≠ memAddressDirectory addr) :
    dirs.map (PageDir.setPage addr page) = dirs := by
  refine (map_congr_left fun dir hDir => ?_).trans (map_id dirs)
  exact if_neg (h dir hDir)

lemma DirList.count_owned_setPage {old : PageEntry} (h : memFindPage list addr = some old) (page : PageEntry) (r : Ppn) :
    (list.setPage addr page).owned.count r + old.owned.toList.count r = list.owned.count r + page.owned.toList.count r := by
  obtain ⟨dir, hFind, rfl⟩ := map_eq_some_iff.mp h
  obtain ⟨_, hSorted⟩ := list
  obtain ⟨hMem, hId⟩ := (findDir_eq_some_iff hSorted).mp hFind
  obtain ⟨front, back, rfl⟩ := append_of_mem hMem
  obtain ⟨_, hBack, hAcross⟩ := pairwise_append.mp hSorted
  -- the other directories have other identifiers
  have hFrontNe : ∀ other ∈ front, other.dirId ≠ memAddressDirectory addr := by
    intro other hOther
    have := hAcross other hOther dir mem_cons_self
    omega
  have hBackNe : ∀ other ∈ back, other.dirId ≠ memAddressDirectory addr := by
    intro other hOther
    have := (pairwise_cons.mp hBack).1 other hOther
    omega
  have hUpdate := dir.count_owned_update (memAddressIndex addr) page r
  simp only [DirList.owned, DirList.setPage, map_append, map_cons, map_setPage_of_ne page hFrontNe,
    map_setPage_of_ne page hBackNe, flatMap_append, flatMap_cons, count_append]
  rw [PageDir.setPage, if_pos hId]
  omega

lemma DirList.count_owned_linkNew (list : DirList) (dirId : Nat) (home : Ppn)
    (hNew : findDir dirId list.dirs = none) (r : Ppn) :
    (list.linkNew dirId home hNew).owned.count r = list.owned.count r := by
  have hEmpty : (newDir dirId home).owned = [] := flatMap_eq_nil_iff.mpr fun _ _ => rfl
  unfold DirList.owned DirList.linkNew
  rw [((perm_linkDir _ _).flatMap_right PageDir.owned).count_eq, flatMap_cons, hEmpty, nil_append]

structure Inserted (m : Memory) (list : DirList) (page : PageEntry) (addr : Nat) (m' : Memory)
    (list' : DirList) : Prop where
  holds : ∀ r, m'.holds r = m.holds r
  owned : ∀ r, list'.owned.count r + (list.pageAt (addr / pmPageBytes)).toList.count r =
    list.owned.count r + page.owned.toList.count r
  pageAt : ∀ vpn, list'.pageAt vpn = if vpn = addr / pmPageBytes then page.owned else list.pageAt vpn
  found : memFindPage list' addr = some page
  kernel : m.kernel ⊆ m'.kernel

lemma vpn_of_address (vpn : Nat) : vpn * pmPageBytes / pmPageBytes = vpn := Nat.mul_div_cancel vpn (by decide)

lemma memFindPage_congr (list : DirList) {addr' : Nat} (h : addr' / pmPageBytes = addr / pmPageBytes) :
    memFindPage list addr' = memFindPage list addr := by
  obtain ⟨hDir, hIndex⟩ := (sameEntry_iff addr addr').mpr h
  rw [memFindPage, memFindPage, hDir, hIndex]

lemma DirList.pageAt_page (list : DirList) (addr : Nat) :
    list.pageAt (addr / pmPageBytes) = (memFindPage list addr).bind PageEntry.owned := by
  rw [pageAt, memFindPage_congr list (vpn_of_address _)]

lemma DirList.inserted_setPage (m : Memory) {old : PageEntry} (h : memFindPage list addr = some old) (page : PageEntry) :
    Inserted m list page addr m (list.setPage addr page) := by
  constructor
  case holds => exact fun _ => rfl
  case kernel => exact List.Subset.refl _
  case owned =>
    intro r
    rw [pageAt_page, h, bind_some]
    exact count_owned_setPage h page r
  case found => rw [memFindPage_setPage, h, map_some, if_pos rfl]
  case pageAt =>
    intro _
    rw [pageAt, memFindPage_setPage, vpn_of_address]
    split_ifs with hVpn
    · rw [hVpn, memFindPage_congr list (vpn_of_address _), h, map_some, bind_some]
    · rw [Option.map_id']
      rfl

lemma DirList.pageAt_linkNew (list : DirList) (dirId : Nat) (home : Ppn)
    (hNew : findDir dirId list.dirs = none) (vpn : Nat) :
    (list.linkNew dirId home hNew).pageAt vpn = list.pageAt vpn := by
  unfold pageAt
  rw [memFindPage_linkNew]
  split_ifs with hDir
  · rw [memFindPage, hDir, hNew]
    rfl
  · rfl

section

variable (h : memInsertPage m list page addr = some (m', list'))
include h

lemma memInsertPage_inserted : Inserted m list page addr m' list' := by
  unfold memInsertPage at h
  split at h
  · rename_i dir hFind
    cases h
    exact DirList.inserted_setPage m (by rw [memFindPage, hFind]; rfl) page
  · rename_i hNew
    obtain ⟨⟨home, m₁, dirPool⟩, hAlloc, ⟨⟩⟩ := map_eq_some_iff.mp h
    have hFound := memFindPage_linkNew list _ home hNew addr
    rw [if_pos rfl] at hFound
    have hSet := DirList.inserted_setPage { m₁ with dirPool } hFound page
    have hTaken : (∀ r, m₁.holds r = m.holds r) ∧ m.kernel ⊆ m₁.kernel := by
      rcases poolAlloc_cases hAlloc with rfl | hPage
      · exact ⟨fun _ => rfl, List.Subset.refl _⟩
      · exact ⟨fun r => Memory.holds_getKernelPage hPage r, Memory.kernel_getKernelPage hPage⟩
    constructor
    case holds => exact hTaken.1
    case kernel => exact hTaken.2
    case found => exact hSet.found
    case owned =>
      intro r
      have hOwned := hSet.owned r
      rwa [DirList.pageAt_linkNew, DirList.count_owned_linkNew] at hOwned
    case pageAt =>
      intro vpn
      rw [hSet.pageAt vpn, DirList.pageAt_linkNew]

lemma memInsertPage_entry : EntryInserted list page addr list' ∧ m'.pm.cells = m.pm.cells ∧ m'.pm.free <:+ m.pm.free := by
  unfold memInsertPage at h
  split at h
  · rename_i dir hFind
    cases h
    exact ⟨entryInserted_setPage hFind, rfl, suffix_refl _⟩
  · rename_i hNew
    obtain ⟨⟨_, _, _⟩, hAlloc, ⟨⟩⟩ := map_eq_some_iff.mp h
    refine ⟨entryInserted_link hNew rfl fun _ => rfl, ?_⟩
    rcases poolAlloc_cases hAlloc with rfl | hPage
    · exact ⟨rfl, suffix_refl _⟩
    · obtain ⟨⟨_, _⟩, hGet, ⟨⟩⟩ := map_eq_some_iff.mp hPage
      obtain ⟨hFree, hCells⟩ := pmGetFreePage_eq_some hGet
      refine ⟨hCells, ?_⟩
      rw [hFree]
      exact suffix_cons _ _

end

lemma memInsertPage_some (page : PageEntry) (addr : Nat)
    (h : (findDir (memAddressDirectory addr) list.dirs).isSome ∨ m.pm.free ≠ []) :
    ∃ m' list', memInsertPage m list page addr = some (m', list') := by
  unfold memInsertPage
  split
  · exact ⟨_, _, rfl⟩
  · rename_i hNone
    obtain ⟨_, _, hFree⟩ := exists_cons_of_ne_nil (h.resolve_left (by simp [hNone]))
    unfold Utils.poolAlloc
    split
    · exact ⟨_, _, rfl⟩
    · rw [Memory.getKernelPage, pmGetFreePage, hFree]
      exact ⟨_, _, rfl⟩

lemma DirList.mem_owned_of_pageAt {vpn : Nat} {ppn : Ppn} (h : list.pageAt vpn = some ppn) : ppn ∈ list.owned := by
  obtain ⟨_, hFind, hOwned⟩ := bind_eq_some_iff.mp h
  obtain ⟨dir, hDir, rfl⟩ := map_eq_some_iff.mp hFind
  refine mem_flatMap.mpr ⟨dir, ((findDir_eq_some_iff list.sorted).mp hDir).1, ?_⟩
  refine mem_flatMap.mpr ⟨memAddressIndex (vpn * pmPageBytes), mem_finRange _, ?_⟩
  rw [hOwned]
  exact mem_singleton_self ppn

lemma memCopyPage_le {orig : PageEntry} (h : memCopyPage m orig list addr = some (m', list')) (r : Ppn) :
    m'.holds r + list'.owned.count r ≤ m.holds r + list.owned.count r := by
  unfold memCopyPage at h
  split at h
  · obtain ⟨⟨dest, m₁⟩, hGet, hInsert⟩ := bind_eq_some_iff.mp h
    have hTaken := Memory.holds_getFreePage hGet r
    have hInserted := memInsertPage_inserted hInsert
    have hHolds := hInserted.holds r
    have hOwned := hInserted.owned r
    have hNew : (PageEntry.owned { orig with ppn := dest }).toList.count r ≤ [dest].count r := by
      unfold PageEntry.owned
      split
      · exact Nat.le_refl _
      · exact Nat.zero_le _
    have hSame : Memory.holds { m₁ with pm := m₁.pm.copy dest orig.ppn } r = m₁.holds r := rfl
    omega
  · cases h
    exact Nat.le_refl _

end Fixos.Sys
