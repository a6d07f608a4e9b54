import Fixos.Sys.Vm

/-! # The address space of a forked process (`sys_fork`)

The areas are cloned one after the other, where each has to pass the check against the ones cloned before.
-/

namespace Fixos.Sys

open Arch Utils Transition Option Function List

structure Cloned (parent : VmProc) (done : List Nat) (child : VmProc) : Prop where
  areas_eq : child.areas = done.reverse
  area_eq : ∀ key ∈ done, child.area key = parent.area key
  heap_eq : child.heap = parent.heap.filter (· ∈ done)

section

variable {parent child : VmProc} {done : List Nat} {key : Nat}

lemma Cloned.cloneArea (h : Cloned parent done child) (hNew : key ∉ done)
    (hApart : ∀ other ∈ done, (parent.area other).meets (parent.area key) = false) :
    Cloned parent (done ++ [key]) (Sys.cloneArea parent child key) := by
  have hArea : ∀ other ∈ done ++ [key], update child.area key (parent.area key) other = parent.area other := by
    intro other hOther
    rw [update_apply]
    split_ifs with hEq
    · rw [hEq]
    · refine h.area_eq other ((mem_append.mp hOther).resolve_right fun hLast => ?_)
      exact hEq (mem_singleton.mp hLast)
  have hFree : memAreaCheckRange (child.areas.map (update child.area key (parent.area key)))
      (update child.area key (parent.area key) key) = false := by
    rw [memAreaCheckRange, List.any_eq_false]
    intro area hMem
    obtain ⟨other, hOther, rfl⟩ := mem_map.mp hMem
    rw [h.areas_eq, mem_reverse] at hOther
    rw [hArea other (by simp [hOther]), hArea key (by simp), hApart other hOther]
    exact Bool.false_ne_true
  have hInsert : ({ child with area := update child.area key (parent.area key) }.insertArea key).1 = { child with
        area := update child.area key (parent.area key)
        areas := key :: child.areas } := by
    rw [VmProc.insertArea]
    rw [hFree]
    rfl
  unfold Sys.cloneArea
  rw [hInsert]
  by_cases hHeap : parent.heap = some key
  · rw [if_pos hHeap]
    refine ⟨?_, hArea, ?_⟩
    · rw [h.areas_eq, reverse_append]
      rfl
    · rw [hHeap]
      exact (filter_eq_some_iff.mpr ⟨rfl, by simp⟩).symm
  · rw [if_neg hHeap]
    refine ⟨?_, hArea, ?_⟩
    · dsimp only
      rw [h.areas_eq, reverse_append]
      rfl
    · rw [h.heap_eq]
      cases hParent : parent.heap with
      | none => rfl
      | some heap =>
        have hNe : heap ≠ key := by
          rintro rfl
          exact hHeap hParent
        simp [filter_some, hNe]

lemma cloneAreas {keys : List Nat} (h : Cloned parent done child) (hNodup : (done ++ keys).Nodup)
    (hApart : Disjoint ((done ++ keys).map parent.area)) :
    Cloned parent (done ++ keys) (keys.foldl (Sys.cloneArea parent) child) := by
  induction keys generalizing done child with
  | nil =>
    rw [append_nil]
    exact h
  | cons key keys ih =>
    have hSplit : done ++ key :: keys = (done ++ [key]) ++ keys := by simp
    have hNew : key ∉ done := fun hMem => (nodup_append.mp hNodup).2.2 key hMem key mem_cons_self rfl
    have hHere : ∀ other ∈ done, (parent.area other).meets (parent.area key) = false := by
      intro other hOther
      rw [Disjoint, map_append, map_cons] at hApart
      exact (pairwise_append.mp hApart).2.2 _ (mem_map_of_mem hOther) _ mem_cons_self
    rw [hSplit] at hNodup hApart ⊢
    rw [foldl_cons]
    exact ih (h.cloneArea hNew hHere) hNodup hApart

end

def DirList.privatePage (list : DirList) (addr : Nat) : Option PageEntry :=
  (memFindPage list addr).filter fun page => page.isPrivate && page.valid

variable {list : DirList} {page : PageEntry} {addr : Nat}

lemma EntryInserted.privatePage_here {list' : DirList} {addr' : Nat} (h : EntryInserted list page addr list')
    (hPage : addr' / pmPageBytes = addr / pmPageBytes) :
    list'.privatePage addr' = (some page).filter fun page => page.isPrivate && page.valid := by
  rw [DirList.privatePage, h.here addr' hPage]

lemma EntryInserted.privatePage_elsewhere {list' : DirList} {addr' : Nat} (h : EntryInserted list page addr list')
    (hPage : addr' / pmPageBytes ≠ addr / pmPageBytes) :
    list'.privatePage addr' = list.privatePage addr' := by
  rw [DirList.privatePage, DirList.privatePage]
  rcases h.elsewhere addr' hPage with hSame | ⟨hNone, hInvalid⟩
  · rw [hSame]
  · rw [hNone, filter_none, filter_eq_none_iff]
    intro page hFound
    rw [filter_eq_none_iff] at hInvalid
    simp [hInvalid page hFound]

/-- The pages of `parent` whose numbers are in `done` are copied, the others are not yet. -/
structure Copied (m : Memory) (parent : DirList) (done : Nat → Prop) (st : Memory × DirList) : Prop where
  copied : ∀ addr page, done (addr / pmPageBytes) → parent.privatePage addr = some page →
    ∃ dest, st.2.privatePage addr = some { page with ppn := dest } ∧ st.1.pm.cells dest = m.pm.cells page.ppn
  nothing : ∀ addr page, st.2.privatePage addr = some page →
    done (addr / pmPageBytes) ∧ parent.privatePage addr ≠ none ∧ page.ppn ∈ m.pm.free ∧ page.ppn ∉ st.1.pm.free
  kept : ∀ ppn ∉ m.pm.free, st.1.pm.cells ppn = m.pm.cells ppn
  free : st.1.pm.free <:+ m.pm.free

lemma memFindPage_memPageAddress {dir : PageDir} (hDir : dir ∈ list.dirs) (i : Fin memDirectoryPages)
    (hAddr : addr / pmPageBytes = memPageAddress dir.dirId i / pmPageBytes) :
    memFindPage list addr = some (dir.pages i) := by
  have hPage : memPageAddress dir.dirId i / pmPageBytes = dir.dirId * memDirectoryPages + i := vpn_of_address _
  have hDirectory : memAddressDirectory addr = dir.dirId := by
    rw [memAddressDirectory, hAddr, hPage]
    unfold memDirectoryPages at *
    omega
  have hIndex : memAddressIndex addr = i := by
    rw [memAddressIndex, Fin.ext_iff]
    dsimp only
    rw [hAddr, hPage]
    unfold memDirectoryPages at *
    omega
  rw [memFindPage, hDirectory, hIndex, (findDir_eq_some_iff list.sorted).mpr ⟨hDir, rfl⟩, map_some]

section

variable {m : Memory} {parent : DirList} {done : Nat → Prop} {st st' : Memory × DirList}

lemma Copied.mono {done' : Nat → Prop} (h : Copied m parent done st) (hMore : ∀ vpn, done vpn → done' vpn)
    (hOnly : ∀ addr, done' (addr / pmPageBytes) → done (addr / pmPageBytes) ∨ parent.privatePage addr = none) :
    Copied m parent done' st where
  copied := by
    intro addr page hDone hPage
    rcases hOnly addr hDone with hDone | hNone
    · exact h.copied addr page hDone hPage
    · rw [hNone] at hPage
      cases hPage
  nothing := by
    intro addr page hPage
    obtain ⟨hDone, hRest⟩ := h.nothing addr page hPage
    exact ⟨hMore _ hDone, hRest⟩
  kept := h.kept
  free := h.free

lemma Copied.copyEntry {dir : PageDir} {i : Fin memDirectoryPages} (h : Copied m parent done st)
    (hFree : m.pm.free.Nodup) (hUsed : ∀ addr page, parent.privatePage addr = some page → page.ppn ∉ m.pm.free)
    (hDir : dir ∈ parent.dirs) (hCopy : Sys.copyEntry dir st i = some st') :
    Copied m parent (fun vpn => vpn = memPageAddress dir.dirId i / pmPageBytes ∨ done vpn) st' := by
  have hHere : ∀ addr, addr / pmPageBytes = memPageAddress dir.dirId i / pmPageBytes →
      parent.privatePage addr = (some (dir.pages i)).filter fun page => page.isPrivate && page.valid := by
    intro addr hAddr
    rw [DirList.privatePage, memFindPage_memPageAddress hDir i hAddr]
  unfold Sys.copyEntry at hCopy
  split_ifs at hCopy with hOwned
  · have hPrivate : (dir.pages i).isPrivate = true := (Bool.and_eq_true_iff.mp hOwned).1
    rw [memCopyPage, if_pos hPrivate] at hCopy
    obtain ⟨⟨dest, _⟩, hGet, hInsert⟩ := bind_eq_some_iff.mp hCopy
    obtain ⟨⟨dest', _⟩, hTake, ⟨⟩⟩ := map_eq_some_iff.mp hGet
    obtain ⟨hFront, hCells⟩ := pmGetFreePage_eq_some hTake
    obtain ⟨hEntry, hCellsEnd, hSuffix⟩ := memInsertPage_entry hInsert
    have hDest : dest ∈ m.pm.free := h.free.subset (hFront ▸ mem_cons_self)
    have hGone : dest ∉ st'.1.pm.free := by
      have hNodup := hFree.sublist h.free.sublist
      rw [hFront] at hNodup
      exact fun hMem => (nodup_cons.mp hNodup).1 (hSuffix.subset hMem)
    have hLess : st'.1.pm.free <:+ st.1.pm.free := by
      rw [hFront]
      exact hSuffix.trans (suffix_cons _ _)
    have hCell : ∀ ppn, ppn ≠ dest → st'.1.pm.cells ppn = st.1.pm.cells ppn := by
      intro ppn hNe
      rw [hCellsEnd]
      exact (update_of_ne hNe _ _).trans (congrFun hCells ppn)
    have hCellDest : st'.1.pm.cells dest = st.1.pm.cells (dir.pages i).ppn := by
      rw [hCellsEnd]
      exact (update_self _ _ _).trans (congrFun hCells _)
    have hNew : ∀ addr, addr / pmPageBytes = memPageAddress dir.dirId i / pmPageBytes →
        st'.2.privatePage addr = some { dir.pages i with ppn := dest } := by
      intro addr hAddr
      rw [hEntry.privatePage_here hAddr, filter_some, if_pos hOwned]
    have hFound : ∀ addr, addr / pmPageBytes = memPageAddress dir.dirId i / pmPageBytes →
        parent.privatePage addr = some (dir.pages i) := by
      intro addr hAddr
      rw [hHere addr hAddr, filter_some, if_pos hOwned]
    constructor
    case copied =>
      intro addr page hDone hPage
      by_cases hAddr : addr / pmPageBytes = memPageAddress dir.dirId i / pmPageBytes
      · obtain rfl : dir.pages i = page := some.inj ((hFound addr hAddr).symm.trans hPage)
        exact ⟨dest, hNew addr hAddr, hCellDest.trans (h.kept _ (hUsed addr _ hPage))⟩
      · obtain ⟨dest', hOld, hContents⟩ := h.copied addr page (hDone.resolve_left hAddr) hPage
        have hNe : dest' ≠ dest := by
          rintro rfl
          exact (h.nothing addr _ hOld).2.2.2 (hFront ▸ mem_cons_self)
        exact ⟨dest', (hEntry.privatePage_elsewhere hAddr).trans hOld, (hCell _ hNe).trans hContents⟩
    case nothing =>
      intro addr page hPage
      by_cases hAddr : addr / pmPageBytes = memPageAddress dir.dirId i / pmPageBytes
      · cases (hNew addr hAddr).symm.trans hPage
        refine ⟨Or.inl hAddr, ?_, hDest, hGone⟩
        rw [hFound addr hAddr]
        exact some_ne_none _
      · rw [hEntry.privatePage_elsewhere hAddr] at hPage
        obtain ⟨hDone, hSome, hMem, hNotFree⟩ := h.nothing addr page hPage
        exact ⟨Or.inr hDone, hSome, hMem, fun hBack => hNotFree (hLess.subset hBack)⟩
    case kept =>
      intro ppn hPpn
      rw [hCell ppn fun hEq => hPpn (hEq ▸ hDest)]
      exact h.kept ppn hPpn
    case free => exact hLess.trans h.free
  · cases hCopy
    refine h.mono (fun _ => Or.inr) fun addr hDone => hDone.symm.imp id fun hAddr => ?_
    rw [hHere addr hAddr, filter_some, if_neg hOwned]

lemma copyDirs_eq (dirs : List PageDir) (st : Memory × DirList) : dirs.foldlM copyDir st =
      (dirs.flatMap fun dir => (finRange memDirectoryPages).map (dir, ·)).foldlM
        (fun st entry => Sys.copyEntry entry.1 st entry.2) st := by
  induction dirs generalizing st with
  | nil => rfl
  | cons dir dirs ih =>
    rw [foldlM_cons, flatMap_cons, foldlM_append, foldlM_map]
    exact bind_congr fun st => ih st

lemma copyEntries_copied {entries : List (PageDir × Fin memDirectoryPages)}
    (h : Copied m parent done st) (hFree : m.pm.free.Nodup)
    (hUsed : ∀ addr page, parent.privatePage addr = some page → page.ppn ∉ m.pm.free)
    (hDirs : ∀ entry ∈ entries, entry.1 ∈ parent.dirs)
    (hCopy : entries.foldlM (fun st entry => Sys.copyEntry entry.1 st entry.2) st = some st') :
    Copied m parent (fun vpn => (∃ entry ∈ entries, vpn = memPageAddress entry.1.dirId entry.2 / pmPageBytes) ∨ done vpn)
      st' := by
  induction entries generalizing done st with
  | nil =>
    cases hCopy
    exact h.mono (fun _ => Or.inr) fun addr hDone => Or.inl (hDone.resolve_left (by simp))
  | cons entry entries ih =>
    rw [foldlM_cons] at hCopy
    obtain ⟨_, hHere, hRest⟩ := bind_eq_some_iff.mp hCopy
    have hFirst := h.copyEntry hFree hUsed (hDirs entry mem_cons_self) hHere
    refine (ih hFirst (fun e he => hDirs e (mem_cons_of_mem _ he)) hRest).mono ?_ ?_
    · rintro vpn (⟨e, he, rfl⟩ | rfl | hDone)
      · exact Or.inl ⟨e, mem_cons_of_mem _ he, rfl⟩
      · exact Or.inl ⟨entry, mem_cons_self, rfl⟩
      · exact Or.inr hDone
    · rintro addr (⟨e, he, hAddr⟩ | hDone)
      · rcases mem_cons.mp he with rfl | he
        · exact Or.inl (Or.inr (Or.inl hAddr))
        · exact Or.inl (Or.inl ⟨e, he, hAddr⟩)
      · exact Or.inl (Or.inr (Or.inr hDone))

end

lemma DirList.privatePage_place (h : list.privatePage addr = some page) :
    ∃ dir ∈ list.dirs, ∃ i, addr / pmPageBytes = memPageAddress dir.dirId i / pmPageBytes := by
  obtain ⟨hFind, _⟩ := filter_eq_some_iff.mp h
  obtain ⟨dir, hDir, _⟩ := map_eq_some_iff.mp hFind
  obtain ⟨hMem, hId⟩ := (findDir_eq_some_iff list.sorted).mp hDir
  refine ⟨dir, hMem, memAddressIndex addr, ?_⟩
  have hPage : memPageAddress dir.dirId (memAddressIndex addr) / pmPageBytes =
      dir.dirId * memDirectoryPages + addr / pmPageBytes % memDirectoryPages := vpn_of_address _
  rw [hPage, hId, memAddressDirectory, Nat.div_add_mod']

lemma DirList.mem_owned_of_privatePage (h : list.privatePage addr = some page) : page.ppn ∈ list.owned := by
  obtain ⟨hFind, hOwned⟩ := filter_eq_some_iff.mp h
  have hAt : list.pageAt (addr / pmPageBytes) = some page.ppn := by
    rw [DirList.pageAt_page, hFind, bind_some, PageEntry.owned, if_pos hOwned]
  exact list.mem_owned_of_pageAt hAt

lemma copyDirs_copied {m : Memory} {parent : DirList} {st : Memory × DirList} (hFree : m.pm.free.Nodup)
    (hUsed : ∀ ppn ∈ parent.owned, ppn ∉ m.pm.free)
    (h : parent.dirs.foldlM copyDir (m, DirList.empty) = some st) : Copied m parent (fun _ => True) st := by
  rw [copyDirs_eq] at h
  have hStart : Copied m parent (fun _ => False) (m, DirList.empty) := by
    refine ⟨fun _ _ hDone => hDone.elim, fun addr page hPage => ?_, fun _ _ => rfl, suffix_refl _⟩
    have hNone : DirList.empty.privatePage addr = none := rfl
    rw [hNone] at hPage
    cases hPage
  have hAll := copyEntries_copied hStart hFree
    (fun addr page hPage => hUsed _ (DirList.mem_owned_of_privatePage hPage)) (fun entry hEntry => ?_) h
  · refine hAll.mono (fun _ _ => trivial) fun addr _ => ?_
    cases hPage : parent.privatePage addr with
    | none => exact Or.inr rfl
    | some page =>
      obtain ⟨dir, hDir, i, hAddr⟩ := DirList.privatePage_place hPage
      refine Or.inl (Or.inl ⟨(dir, i), ?_, hAddr⟩)
      exact mem_flatMap.mpr ⟨dir, hDir, mem_map.mpr ⟨i, mem_finRange i, rfl⟩⟩
  · obtain ⟨dir, hDir, hMap⟩ := mem_flatMap.mp hEntry
    obtain ⟨i, _, rfl⟩ := mem_map.mp hMap
    exact hDir

/-- Private pages are copied to pages that the parent does not have, and those of the parent are as before. -/
structure AddressSpaceCopied (m : Memory) (parent : VmProc) (m' : Memory) (child : VmProc) : Prop where
  areas_eq : child.areas = parent.areas.reverse
  area_eq : ∀ key ∈ parent.areas, child.area key = parent.area key
  heap_eq : child.heap = parent.heap.filter (· ∈ parent.areas)
  pages : ∀ addr, match parent.dirs.privatePage addr with
    | none => child.dirs.privatePage addr = none
    | some page => ∃ dest, child.dirs.privatePage addr = some { page with ppn := dest } ∧
        (∀ i < pmPageBytes, m'.pm.cells dest i = m.pm.cells page.ppn i) ∧ dest ∉ parent.dirs.owned
  kept : ∀ ppn ∈ parent.dirs.owned, m'.pm.cells ppn = m.pm.cells ppn

lemma forkMemory_copied {m m' : Memory} {parent child : VmProc} (hAreas : parent.areas.Nodup)
    (hApart : Disjoint (parent.areas.map parent.area)) (hFree : m.pm.free.Nodup)
    (hUsed : ∀ ppn ∈ parent.dirs.owned, ppn ∉ m.pm.free) (h : forkMemory m parent = some (m', child)) :
    AddressSpaceCopied m parent m' child := by
  obtain ⟨⟨m₁, dirs⟩, hCopy, hRest⟩ := bind_eq_some_iff.mp h
  obtain ⟨⟨_, _⟩, hStack, ⟨⟩⟩ := bind_eq_some_iff.mp hRest
  have hCells : m'.pm.cells = m₁.pm.cells := by
    obtain ⟨⟨ppn, _⟩, hTake, ⟨⟩⟩ := map_eq_some_iff.mp hStack
    exact (pmGetFreePage_eq_some hTake).2
  have hPages := copyDirs_copied hFree hUsed hCopy
  have hClones : Cloned parent ([] ++ parent.areas)
      (parent.areas.foldl (cloneArea parent) { VmProc.blank with nextArea := parent.nextArea }) := by
    refine cloneAreas ⟨rfl, by simp, ?_⟩ hAreas hApart
    cases parent.heap <;> rfl
  refine { hClones with pages := ?_, kept := ?_ }
  · intro addr
    cases hPage : parent.dirs.privatePage addr with
    | none =>
      cases hChildPage : dirs.privatePage addr with
      | none => rfl
      | some page => exact absurd hPage (hPages.nothing addr page hChildPage).2.1
    | some page =>
      obtain ⟨dest, hDest, hContents⟩ := hPages.copied addr page trivial hPage
      refine ⟨dest, hDest, fun i _ => ?_, fun hOwned => ?_⟩
      · rw [hCells, hContents]
      · exact hUsed dest hOwned (hPages.nothing addr _ hDest).2.2.1
  · intro ppn hOwned
    rw [hCells]
    exact hPages.kept ppn (hUsed ppn hOwned)

theorem fork_copies_memory {s t : Vm} {cur child : ProcRef} (hStep : s.step (.fork cur child) = some t)
    (hAreas : (s.proc cur).areas.Nodup) (hApart : Disjoint ((s.proc cur).areas.map (s.proc cur).area))
    (hFree : s.m.pm.free.Nodup) (hUsed : ∀ ppn ∈ (s.proc cur).dirs.owned, ppn ∉ s.m.pm.free) :
    AddressSpaceCopied s.m (s.proc cur) t.m (t.proc child) ∧ t.proc cur = s.proc cur := by
  obtain ⟨⟨hCur, hChild, _⟩, hCall⟩ := ite_none_right_eq_some.mp hStep
  obtain ⟨⟨m', proc⟩, hFork, rfl⟩ := map_eq_some_iff.mp hCall
  have hNe : cur ≠ child := by
    rintro rfl
    exact hChild hCur
  have hProc : (s.addProc child m' proc).proc child = proc := s.setProc_self child m' proc
  refine ⟨?_, s.setProc_of_ne hNe m' proc⟩
  rw [hProc]
  exact forkMemory_copied hAreas hApart hFree hUsed hFork

def forkRun : List VmAction :=
  [.spawn 0 smallImage, .fault 0 0x400, .fault 0 0xFFFFF, .sbrk 0 1024, .fault 0 0x401]

theorem fork_copies_memory_small : ∃ s t : Vm, exec Vm.step smallBoot forkRun = some s ∧
    s.step (.fork 0 1) = some t ∧ (s.proc 0).dirs.owned = [21, 24, 23] ∧
    AddressSpaceCopied s.m (s.proc 0) t.m (t.proc 1) ∧ t.proc 0 = s.proc 0 := by
  have hRun : (exec Vm.step smallBoot forkRun).map (fun s => ((s.step (.fork 0 1)).isSome, (s.proc 0).areas,
      (s.proc 0).areas.map (s.proc 0).area, s.m.pm.free, (s.proc 0).dirs.owned)) =
      some (true, [2, 1, 0], [⟨0x100400, 1024, .anon⟩, ⟨0x3FFF0000, 65536, .anon⟩, ⟨0x100000, 1024, .file 3 0 512 true⟩],
        [25, 26, 27, 28, 29], [21, 24, 23]) := by
    decide +kernel
  obtain ⟨s, hExec, hState⟩ := map_eq_some_iff.mp hRun
  obtain ⟨hFork, hAreas, hArea, hFree, hOwned⟩ : _ ∧ _ ∧ _ ∧ _ ∧ _ := by
    simpa only [Prod.mk.injEq] using hState
  obtain ⟨t, hStep⟩ := isSome_iff_exists.mp hFork
  refine ⟨s, t, hExec, hStep, hOwned, fork_copies_memory hStep ?_ ?_ ?_ ?_⟩
  · rw [hAreas]
    decide
  · rw [hArea]
    unfold Disjoint
    decide
  · rw [hFree]
    decide
  · rw [hOwned, hFree]
    decide

end Fixos.Sys
