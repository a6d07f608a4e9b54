import Fixos.Sys.VirtualMemory

/-! # Shrinking an area (`mem_area_resize`)

The pages to release are those from the new end up to the old end, both rounded down. The first can still hold bytes of
the area, and a page that the old end cuts is left.
-/

namespace Fixos.Sys

open Arch Word Transition Option List Function

/-- The physical pages of the directories are in one place each, and none is page 0, which is not RAM. -/
structure DirList.Proper (dirs : DirList) : Prop where
  injective : ∀ vpn vpn' ppn, dirs.pageAt vpn = some ppn → dirs.pageAt vpn' = some ppn → vpn = vpn'
  nonzero : ∀ vpn, dirs.pageAt vpn ≠ some 0

structure PagesFreed (m : Memory) (dirs : DirList) (vpns : List Nat) (m' : Memory) (dirs' : DirList) : Prop where
  pageAt : ∀ vpn, dirs'.pageAt vpn = if vpn ∈ vpns then none else dirs.pageAt vpn
  free : ∀ ppn, ppn ∈ m'.pm.free ↔ ppn ∈ m.pm.free ∨ ∃ vpn ∈ vpns, dirs.pageAt vpn = some ppn
  cells : ∀ ppn, (∀ vpn ∈ vpns, dirs.pageAt vpn ≠ some ppn) → m'.pm.cells ppn = m.pm.cells ppn

lemma PagesFreed.trans {m m₁ m₂ : Memory} {dirs dirs₁ dirs₂ : DirList} {vpns vpns' : List Nat}
    (h : PagesFreed m dirs vpns m₁ dirs₁) (h' : PagesFreed m₁ dirs₁ vpns' m₂ dirs₂) :
    PagesFreed m dirs (vpns ++ vpns') m₂ dirs₂ := by
  have hStill : ∀ vpn ppn, dirs₁.pageAt vpn = some ppn → dirs.pageAt vpn = some ppn := by
    intro vpn ppn hMapped
    rw [h.pageAt] at hMapped
    exact (ite_none_left_eq_some.mp hMapped).2
  refine ⟨fun vpn => ?_, fun ppn => ?_, fun ppn hApart => ?_⟩
  · rw [h'.pageAt, h.pageAt]
    simp only [mem_append]
    split_ifs <;> simp_all
  · rw [h'.free, h.free]
    constructor
    · rintro ((hFree | ⟨vpn, hMem, hMapped⟩) | ⟨vpn, hMem, hMapped⟩)
      · exact Or.inl hFree
      · exact Or.inr ⟨vpn, mem_append_left _ hMem, hMapped⟩
      · exact Or.inr ⟨vpn, mem_append_right _ hMem, hStill vpn ppn hMapped⟩
    · rintro (hFree | ⟨vpn, hMem, hMapped⟩)
      · exact Or.inl (Or.inl hFree)
      · by_cases hFirst : vpn ∈ vpns
        · exact Or.inl (Or.inr ⟨vpn, hFirst, hMapped⟩)
        · refine Or.inr ⟨vpn, (mem_append.mp hMem).resolve_left hFirst, ?_⟩
          rw [h.pageAt, if_neg hFirst, hMapped]
  · rw [h'.cells ppn fun vpn hMem hMapped => hApart vpn (mem_append_right _ hMem) (hStill vpn ppn hMapped),
      h.cells ppn fun vpn hMem => hApart vpn (mem_append_left _ hMem)]

lemma memReleasePage_pm {m m' : Memory} {page page' : PageEntry} (h : memReleasePage m page = some (m', page'))
    (ppn : Ppn) : (ppn ∈ m'.pm.free ↔ ppn ∈ m.pm.free ∨ page.owned = some ppn) ∧
      (page.owned ≠ some ppn → m'.pm.cells ppn = m.pm.cells ppn) := by
  unfold memReleasePage at h
  unfold PageEntry.owned
  split_ifs at h with hOwned
  · obtain ⟨_, hRelease, ⟨⟩⟩ := map_eq_some_iff.mp h
    obtain ⟨_, hFree, ⟨⟩⟩ := map_eq_some_iff.mp hRelease
    rw [if_pos hOwned]
    refine ⟨?_, fun hNe => pmFreePage_cells hFree fun hSame => hNe (congrArg some hSame.symm)⟩
    rw [pmFreePage_free hFree, mem_cons, some.injEq, or_comm, eq_comm]
  · cases h
    rw [if_neg hOwned]
    exact ⟨by simp, fun _ => rfl⟩

lemma releaseAt_freed {st : Memory × DirList} {addr : Nat} (hNonzero : st.2.pageAt (addr / pmPageBytes) ≠ some 0) :
    ∃ st', releaseAt st addr = some st' ∧ PagesFreed st.1 st.2 [addr / pmPageBytes] st'.1 st'.2 := by
  have hPage := st.2.pageAt_page addr
  cases hFind : memFindPage st.2 addr with
  | none =>
    rw [hFind, bind_none] at hPage
    have hTaken : releaseAt st addr = some st := by rw [releaseAt, hFind]
    refine ⟨st, hTaken, (releaseAt_released hTaken).pageAt, fun ppn => ?_, fun _ _ => rfl⟩
    simp [hPage]
  | some page =>
    rw [hFind, bind_some] at hPage
    rw [hPage] at hNonzero
    obtain ⟨m', page', hRelease, _⟩ := memReleasePage_some hNonzero st.1
    have hTaken : releaseAt st addr = some (m', st.2.setPage addr page') := by
      simp [releaseAt, hFind, hRelease]
    refine ⟨_, hTaken, (releaseAt_released hTaken).pageAt, fun ppn => ?_, fun ppn hApart => ?_⟩
    · rw [(memReleasePage_pm hRelease ppn).1, ← hPage]
      simp
    · refine (memReleasePage_pm hRelease ppn).2 ?_
      rw [← hPage]
      exact hApart _ (mem_singleton_self _)

lemma releaseAll_freed (addrs : List Nat) (st : Memory × DirList) (hNonzero : ∀ vpn, st.2.pageAt vpn ≠ some 0) :
    ∃ st', addrs.foldlM releaseAt st = some st' ∧ PagesFreed st.1 st.2 (addrs.map (· / pmPageBytes)) st'.1 st'.2 := by
  induction addrs generalizing st with
  | nil => exact ⟨st, rfl, fun _ => rfl, fun _ => by simp, fun _ _ => rfl⟩
  | cons addr addrs ih =>
    obtain ⟨st₁, hHere, hFirst⟩ := releaseAt_freed (hNonzero (addr / pmPageBytes))
    have hNonzero₁ : ∀ vpn, st₁.2.pageAt vpn ≠ some 0 := by
      intro vpn
      rw [hFirst.pageAt]
      split
      · exact some_ne_none 0 |>.symm
      · exact hNonzero vpn
    obtain ⟨st', hRest, hOthers⟩ := ih st₁ hNonzero₁
    exact ⟨st', by rw [foldlM_cons, hHere]; exact hRest, hFirst.trans hOthers⟩

lemma memAreaResize_freed (m : Memory) {proc : VmProc} (hNonzero : ∀ vpn, proc.dirs.pageAt vpn ≠ some 0)
    (key newSize : Nat) :
    ∃ m' proc', memAreaResize m proc key newSize = some (m', proc') ∧ proc'.heap = proc.heap ∧
      proc'.area key = { proc.area key with maxSize := newSize } ∧
      PagesFreed m proc.dirs (resizedVpns (proc.area key) newSize) m' proc'.dirs := by
  obtain ⟨area, hArea⟩ : ∃ area, update proc.area key { proc.area key with maxSize := newSize } = area := ⟨_, rfl⟩
  have hSize : area key = { proc.area key with maxSize := newSize } := by rw [← hArea, update_self]
  unfold resizedVpns
  by_cases hLess : newSize < (proc.area key).maxSize
  · obtain ⟨⟨m', dirs⟩, hLoop, hFreed⟩ := releaseAll_freed
      (shrinkPages (proc.area key).address (proc.area key).maxSize newSize) (m, proc.dirs) hNonzero
    rw [if_pos hLess]
    refine ⟨m', { proc with dirs, area }, ?_, rfl, hSize, hFreed⟩
    simp [memAreaResize, if_pos hLess, hArea, hLoop]
  · rw [if_neg hLess]
    refine ⟨m, { proc with area }, ?_, rfl, hSize, fun _ => rfl, fun _ => by simp, fun _ _ => rfl⟩
    simp [memAreaResize, if_neg hLess, hArea]

def PageMeets (address size vpn : Nat) : Prop := ∃ k < size, (address + k) / pmPageBytes = vpn

lemma pageMeets_iff {address size vpn : Nat} (hAligned : address % pmPageBytes = 0) :
    PageMeets address size vpn ↔ address ≤ vpn * pmPageBytes ∧ vpn * pmPageBytes < address + size := by
  unfold PageMeets pmPageBytes at *
  constructor
  · rintro ⟨k, _, rfl⟩
    omega
  · rintro ⟨_, _⟩
    exact ⟨vpn * 1024 - address, by omega, by omega⟩

section

variable {area : MemArea} {newSize vpn : Nat} {dirs dirs' : DirList} {m m' : Memory}

def Dropped (area : MemArea) (newSize vpn : Nat) : Prop :=
  PageMeets area.address area.maxSize vpn ∧ ¬ PageMeets area.address newSize vpn

/-- The pages that are dropped are given back if they were mapped, the others keep their place and content. -/
structure ShrinkExact (area : MemArea) (newSize : Nat) (m : Memory) (dirs : DirList) (m' : Memory) (dirs' : DirList) :
    Prop where
  dropped : ∀ vpn, Dropped area newSize vpn → dirs'.pageAt vpn = none
  kept : ∀ vpn, ¬ Dropped area newSize vpn → dirs'.pageAt vpn = dirs.pageAt vpn
  content : ∀ vpn ppn, PageMeets area.address newSize vpn → dirs.pageAt vpn = some ppn → m'.pm.cells ppn = m.pm.cells ppn
  free : ∀ ppn, ppn ∈ m'.pm.free ↔ ppn ∈ m.pm.free ∨ ∃ vpn, Dropped area newSize vpn ∧ dirs.pageAt vpn = some ppn

/-- Nothing is mapped where the rounding makes a difference: in the pages that the new or the old end cuts, and, for an
area up to the end of the address space, in all that are dropped. -/
structure ShrinkFits (dirs : DirList) (area : MemArea) (newSize : Nat) : Prop where
  newEnd : area.address + area.maxSize < 2 ^ 32 → newSize % pmPageBytes ≠ 0 →
    newSize / pmPageBytes < area.maxSize / pmPageBytes → dirs.pageAt ((area.address + newSize) / pmPageBytes) = none
  oldEnd : area.maxSize % pmPageBytes ≠ 0 → newSize ≤ area.maxSize / pmPageBytes * pmPageBytes →
    dirs.pageAt ((area.address + area.maxSize) / pmPageBytes) = none
  top : area.address + area.maxSize = 2 ^ 32 → ∀ vpn, area.address + newSize ≤ vpn * pmPageBytes →
    vpn * pmPageBytes < 2 ^ 32 → dirs.pageAt vpn = none

lemma dropped_iff (hAligned : area.address % pmPageBytes = 0) :
    Dropped area newSize vpn ↔ area.address ≤ vpn * pmPageBytes ∧ area.address + newSize ≤ vpn * pmPageBytes ∧
      vpn * pmPageBytes < area.address + area.maxSize := by
  rw [Dropped, pageMeets_iff hAligned, pageMeets_iff hAligned]
  omega

lemma mem_resizedVpns (hFit : area.address + area.maxSize ≤ 2 ^ 32) (hLess : newSize < area.maxSize) :
    vpn ∈ resizedVpns area newSize ↔ area.address + area.maxSize < 2 ^ 32 ∧
      (area.address + newSize) / pmPageBytes ≤ vpn ∧ vpn < (area.address + area.maxSize) / pmPageBytes := by
  have hNew : add area.address newSize = area.address + newSize := Nat.mod_eq_of_lt (by omega)
  rw [resizedVpns, if_pos hLess, shrinkPages, hNew]
  simp only [List.map_map, List.mem_map, mem_range, comp_apply]
  rcases Nat.lt_or_eq_of_le hFit with hBelow | hTop
  · have hOld : add area.address area.maxSize = area.address + area.maxSize := Nat.mod_eq_of_lt hBelow
    rw [hOld]
    unfold memPageBegining pmPageBytes
    constructor
    · rintro ⟨i, _, rfl⟩
      omega
    · rintro ⟨_, _, _⟩
      exact ⟨vpn - (area.address + newSize) / 1024, by omega, by omega⟩
  · have hOld : add area.address area.maxSize = 0 := by rw [add, hTop, Nat.mod_self]
    rw [hOld, hTop]
    simp [memPageBegining]

section

variable (h : ShrinkFits dirs area newSize) (hAligned : area.address % pmPageBytes = 0)
  (hFit : area.address + area.maxSize ≤ 2 ^ 32) (hLess : newSize < area.maxSize)
include h hAligned hFit hLess

lemma ShrinkFits.mem_resizedVpns_iff (hMapped : dirs.pageAt vpn ≠ none) :
    vpn ∈ resizedVpns area newSize ↔ Dropped area newSize vpn := by
  obtain ⟨hNewEnd, hOldEnd, hTop⟩ := h
  rw [mem_resizedVpns hFit hLess, dropped_iff hAligned]
  have hNotNew : area.address + area.maxSize < 2 ^ 32 → newSize % pmPageBytes ≠ 0 →
      newSize / pmPageBytes < area.maxSize / pmPageBytes → vpn ≠ (area.address + newSize) / pmPageBytes :=
    fun h₁ h₂ h₃ hEq => hMapped (hEq ▸ hNewEnd h₁ h₂ h₃)
  have hNotOld : area.maxSize % pmPageBytes ≠ 0 → newSize ≤ area.maxSize / pmPageBytes * pmPageBytes →
      vpn ≠ (area.address + area.maxSize) / pmPageBytes := fun h₁ h₂ hEq => hMapped (hEq ▸ hOldEnd h₁ h₂)
  have hNotTop : area.address + area.maxSize = 2 ^ 32 → area.address + newSize ≤ vpn * pmPageBytes →
      ¬ vpn * pmPageBytes < 2 ^ 32 := fun h₁ h₂ h₃ => hMapped (hTop h₁ vpn h₂ h₃)
  unfold pmPageBytes at *
  omega

lemma ShrinkFits.exact (hPages : dirs.Proper) (hFreed : PagesFreed m dirs (resizedVpns area newSize) m' dirs') :
    ShrinkExact area newSize m dirs m' dirs' := by
  have hSame : ∀ vpn ppn, dirs.pageAt vpn = some ppn → (vpn ∈ resizedVpns area newSize ↔ Dropped area newSize vpn) :=
    fun vpn ppn hMapped => h.mem_resizedVpns_iff hAligned hFit hLess (by rw [hMapped]; exact some_ne_none ppn)
  refine ⟨fun vpn hDropped => ?_, fun vpn hKept => ?_, fun vpn ppn hMeets hMapped => ?_, fun ppn => ?_⟩
  · rw [hFreed.pageAt]
    split_ifs with hNot
    · rfl
    · cases hPage : dirs.pageAt vpn with
      | none => rfl
      | some ppn => exact absurd ((hSame vpn ppn hPage).mpr hDropped) hNot
  · rw [hFreed.pageAt]
    split_ifs with hMem
    · cases hPage : dirs.pageAt vpn with
      | none => rfl
      | some ppn => exact absurd ((hSame vpn ppn hPage).mp hMem) hKept
    · rfl
  · refine hFreed.cells ppn fun vpn' hMem hMapped' => ?_
    have hEq := hPages.injective vpn vpn' ppn hMapped hMapped'
    subst hEq
    exact ((hSame vpn ppn hMapped).mp hMem).2 hMeets
  · rw [hFreed.free]
    refine or_congr_right (exists_congr fun vpn => ?_)
    exact and_congr_left fun hMapped => hSame vpn ppn hMapped

end

lemma ShrinkExact.fits (h : ShrinkExact area newSize m dirs m' dirs') (hAligned : area.address % pmPageBytes = 0)
    (hFit : area.address + area.maxSize ≤ 2 ^ 32) (hLess : newSize < area.maxSize)
    (hFreed : PagesFreed m dirs (resizedVpns area newSize) m' dirs') : ShrinkFits dirs area newSize := by
  -- a page on which the code and the ranges disagree was not mapped
  have hDiffer : ∀ vpn, ¬ (vpn ∈ resizedVpns area newSize ↔ Dropped area newSize vpn) → dirs.pageAt vpn = none := by
    intro vpn hNot
    have hPage := hFreed.pageAt vpn
    by_cases hMem : vpn ∈ resizedVpns area newSize
    · have hKept := h.kept vpn fun hDropped => hNot (iff_of_true hMem hDropped)
      rw [← hKept, hPage, if_pos hMem]
    · have hDropped := h.dropped vpn (by_contra fun hKept => hNot (iff_of_false hMem hKept))
      rw [← hDropped, hPage, if_neg hMem]
  refine ⟨fun h₁ h₂ h₃ => hDiffer _ ?_, fun h₁ h₂ => hDiffer _ ?_, fun h₁ vpn h₂ h₃ => hDiffer vpn ?_⟩
  all_goals
    rw [mem_resizedVpns hFit hLess, dropped_iff hAligned]
    unfold pmPageBytes at *
    omega

end

/-- A shrink releases exactly the pages that are dropped if and only if nothing is mapped where the rounding matters. -/
theorem memAreaResize_exact_iff (m : Memory) (proc : VmProc) (key newSize : Nat) (hPages : proc.dirs.Proper)
    (hAligned : (proc.area key).address % pmPageBytes = 0)
    (hFit : (proc.area key).address + (proc.area key).maxSize ≤ 2 ^ 32) (hLess : newSize < (proc.area key).maxSize) :
    ∃ m' proc', memAreaResize m proc key newSize = some (m', proc') ∧
      (ShrinkExact (proc.area key) newSize m proc.dirs m' proc'.dirs ↔ ShrinkFits proc.dirs (proc.area key) newSize) := by
  obtain ⟨m', proc', hResize, _, _, hFreed⟩ := memAreaResize_freed m hPages.nonzero key newSize
  exact ⟨m', proc', hResize, fun h => h.fits hAligned hFit hLess hFreed, fun h => h.exact hAligned hFit hLess hPages hFreed⟩

def oneDir : DirList := ⟨[newDir 32 9], pairwise_singleton _ _⟩

lemma oneDir_pageAt (vpn : Nat) : oneDir.pageAt vpn = none := by
  rw [DirList.pageAt, memFindPage, oneDir, findDir, findDir]
  split_ifs <;> rfl

def twoPages : VmProc :=
  { VmProc.blank with
    dirs := (oneDir.setPage 0x100000 ⟨20, true, true, false⟩).setPage 0x100400 ⟨21, true, true, false⟩
    area := fun _ => ⟨0x100000, 2048, .anon⟩ }

def twoFree : Memory := ⟨⟨[30, 31], fun _ _ => ⟨0, none⟩⟩, Utils.poolInit, [9]⟩

lemma twoPages_pageAt (vpn : Nat) :
    twoPages.dirs.pageAt vpn = if vpn = 1025 then some 21 else if vpn = 1024 then some 20 else none := by
  have hSecond : memFindPage (oneDir.setPage 0x100000 ⟨20, true, true, false⟩) 0x100400 =
      some ⟨0, true, false, false⟩ := rfl
  have hFirst : memFindPage oneDir 0x100000 = some ⟨0, true, false, false⟩ := rfl
  rw [twoPages, (DirList.inserted_setPage twoFree hSecond _).pageAt, (DirList.inserted_setPage twoFree hFirst _).pageAt,
    oneDir_pageAt]
  rfl

lemma twoPages_proper : twoPages.dirs.Proper := by
  refine ⟨fun vpn vpn' ppn => ?_, fun vpn => ?_⟩
  · rw [twoPages_pageAt, twoPages_pageAt]
    split_ifs <;> simp_all
    · rintro rfl h
      cases h
    · rintro rfl h
      cases h
  · rw [twoPages_pageAt]
    split_ifs <;> simp

theorem memAreaResize_exact_onePage : ∃ m' proc', memAreaResize twoFree twoPages 0 1024 = some (m', proc') ∧
      (ShrinkExact (twoPages.area 0) 1024 twoFree twoPages.dirs m' proc'.dirs) := by
  obtain ⟨m', proc', hResize, hIff⟩ := memAreaResize_exact_iff twoFree twoPages 0 1024 twoPages_proper
    (by decide) (by decide) (by decide)
  refine ⟨m', proc', hResize, hIff.mpr ⟨fun _ h => ?_, fun h => ?_, fun h => ?_⟩⟩
  · exact absurd rfl h
  · exact absurd rfl h
  · exact absurd h (by decide)

theorem memAreaResize_releases_kept_page :
    PageMeets (twoPages.area 0).address 1000 1024 ∧ twoPages.dirs.pageAt 1024 = some 20 ∧
      (memAreaResize twoFree twoPages 0 1000).map (fun st => (st.2.dirs.pageAt 1024, st.1.pm.free)) =
        some (none, [21, 20, 30, 31]) :=
  ⟨⟨0, by decide, by decide⟩, by decide, by decide⟩

end Fixos.Sys
