import Fixos.Sys.ArgLayout

/-! # Where a newly mapped page comes from

The bytes of such a page that are not filled are left as its last owner had them.
-/

namespace Fixos.Sys

open Arch Fs Word Utils Transition Option List

variable {page : PageEntry} {proc proc' : VmProc}

section

variable {q : Nat} {m m' : Memory} {ppn : Ppn}

lemma Memory.getKernelPage_keepsClean (h : m.getKernelPage = some (ppn, m')) : m.pm.KeepsClean q m'.pm := by
  obtain ⟨⟨_, _⟩, hGet, ⟨⟩⟩ := map_eq_some_iff.mp h
  exact pmGetFreePage_keepsClean hGet

lemma Memory.releaseKernelPage_keepsClean (h : m.releaseKernelPage ppn = some m') : m.pm.KeepsClean q m'.pm := by
  obtain ⟨_, hFree, rfl⟩ := map_eq_some_iff.mp h
  exact pmFreePage_keepsClean hFree

lemma memReleasePage_keepsClean {page' : PageEntry} (h : memReleasePage m page = some (m', page')) :
    m.pm.KeepsClean q m'.pm := by
  unfold memReleasePage at h
  split at h
  · obtain ⟨_, hRelease, ⟨⟩⟩ := map_eq_some_iff.mp h
    obtain ⟨_, hFree, rfl⟩ := map_eq_some_iff.mp hRelease
    exact pmFreePage_keepsClean hFree
  · cases h
    exact .refl _

lemma memReleaseDir_keepsClean {dir : PageDir} (h : memReleaseDir m dir = some m') : m.pm.KeepsClean q m'.pm := by
  obtain ⟨m₁, hLoop, ⟨⟩⟩ := bind_eq_some_iff.mp h
  show m.pm.KeepsClean q m₁.pm
  refine foldlM_invariant (I := fun t : Memory => m.pm.KeepsClean q t.pm) ?_ (.refl _) hLoop
  intro i _ s t hKeeps hTurn
  obtain ⟨⟨_, _⟩, hRelease, rfl⟩ := map_eq_some_iff.mp hTurn
  exact hKeeps.trans (memReleasePage_keepsClean hRelease)

lemma memReleaseDirs_keepsClean {list : DirList} (h : memReleaseDirs m list = some m') : m.pm.KeepsClean q m'.pm :=
  foldlM_invariant (I := fun t : Memory => m.pm.KeepsClean q t.pm)
    (fun _ _ _ _ hKeeps hDir => hKeeps.trans (memReleaseDir_keepsClean hDir)) (.refl _) h

lemma memInsertPage_keepsClean {list list' : DirList} {addr : Nat}
    (h : memInsertPage m list page addr = some (m', list')) : m.pm.KeepsClean q m'.pm := by
  unfold memInsertPage at h
  split at h
  · cases h
    exact .refl _
  · obtain ⟨⟨_, m₁, _⟩, hAlloc, ⟨⟩⟩ := map_eq_some_iff.mp h
    show m.pm.KeepsClean q m₁.pm
    rcases poolAlloc_cases hAlloc with rfl | hPage
    · exact .refl _
    · exact Memory.getKernelPage_keepsClean hPage

lemma elfloaderLoad_keepsClean {image : Image} (h : elfloaderLoad m proc image = some (m', proc')) :
    m.pm.KeepsClean q m'.pm := by
  simp only [elfloaderLoad] at h
  split at h
  · obtain ⟨⟨_, _⟩, hStack, ⟨⟩⟩ := map_eq_some_iff.mp h
    exact Memory.getKernelPage_keepsClean hStack
  · cases h
    exact .refl _

end

def MemArea.readSize (area : MemArea) (offset : Nat) : Nat :=
  match area.kind with
  | .file _ _ infileSize true =>
    if infileSize < add offset pmPageBytes then infileSize - offset else pmPageBytes
  | _ => pmPageBytes

/-- All in an anonymous area, and in a file area those to be read that lie behind the end of the file. -/
def MemArea.LeavesByte (smem : FileRef → SmemFile) (area : MemArea) (addrFault i : Nat) : Prop :=
  match area.kind with
  | .anon => True
  | .file filep baseOffset _ _ =>
    i < area.readSize (sub addrFault area.address) ∧
      sub (smem filep).size (add baseOffset (sub addrFault area.address)) ≤ i

instance (smem : FileRef → SmemFile) (area : MemArea) (addrFault i : Nat) :
    Decidable (area.LeavesByte smem addrFault i) := by
  unfold MemArea.LeavesByte
  split <;> infer_instance

structure PartlyFilled (q : Nat) (dest : Ppn) (readsize : Nat) (pm pm' : PhysMem) : Prop where
  keeps : pm.KeepsClean q pm'
  zeroed : ∀ i, readsize ≤ i → i < pmPageBytes → pm'.CleanAt q dest i

section

variable (q : Nat) (pm : PhysMem)
include q pm

lemma partlyFilled_store (dest : Ppn) {readsize zeroed : Nat} (h : readsize + zeroed = pmPageBytes) :
    PartlyFilled q dest readsize pm (pm.store dest readsize none (replicate zeroed 0)) := by
  refine ⟨PhysMem.keepsClean_store _ _ _ _, fun i hLow hHigh => PhysMem.cleanAt_store _ _ hLow ?_⟩
  rw [length_replicate, h]
  exact hHigh

lemma partlyFilled_whole (dest : Ppn) : PartlyFilled q dest pmPageBytes pm pm :=
  ⟨.refl pm, fun _ hLow hHigh => absurd hHigh (Nat.not_lt.mpr hLow)⟩

lemma memAreaFillPartialPage_filled (area : MemArea) (offset : Nat) (dest : Ppn) :
    (memAreaFillPartialPage pm area offset dest).2 = area.readSize offset ∧
      PartlyFilled q dest (area.readSize offset) pm (memAreaFillPartialPage pm area offset dest).1 := by
  obtain ⟨_, _, kind⟩ := area
  cases kind with
  | anon => exact ⟨rfl, partlyFilled_whole q pm dest⟩
  | file filep baseOffset infileSize isPartial =>
    cases isPartial with
    | false => exact ⟨rfl, partlyFilled_whole q pm dest⟩
    | true =>
      simp only [memAreaFillPartialPage, MemArea.readSize]
      split
      · rename_i hEnd
        by_cases hRead : infileSize > offset
        · have hSum : infileSize - offset + (add offset pmPageBytes - infileSize) = pmPageBytes := by
            simp only [add, pmPageBytes] at hEnd ⊢
            omega
          rw [if_pos hRead]
          exact ⟨rfl, partlyFilled_store q pm dest hSum⟩
        · rw [if_neg hRead, Nat.sub_eq_zero_of_le (Nat.le_of_not_lt hRead)]
          dsimp only
          exact ⟨rfl, partlyFilled_store q pm dest (Nat.zero_add pmPageBytes)⟩
      · exact ⟨rfl, partlyFilled_whole q pm dest⟩

end

lemma smemfsFillPage_filled (q : Nat) (file : SmemFile) (baseOffset : Nat) (pm : PhysMem) (area : MemArea)
    (offset : Nat) (ppn : Ppn) :
    pm.KeepsClean q (smemfsFillPage file baseOffset pm area offset ppn) ∧ ∀ i, i < pmPageBytes →
        ¬(i < area.readSize offset ∧ sub file.size (add baseOffset offset) ≤ i) →
        (smemfsFillPage file baseOffset pm area offset ppn).CleanAt q ppn i := by
  obtain ⟨hRead, hFilled⟩ := memAreaFillPartialPage_filled q pm area offset ppn
  simp only [smemfsFillPage, hRead]
  split
  · refine ⟨hFilled.keeps.trans (PhysMem.keepsClean_store _ _ _ _), fun i hi hLeft => ?_⟩
    by_cases hZero : area.readSize offset ≤ i
    · exact PhysMem.keepsClean_store _ _ _ _ ppn i (hFilled.zeroed i hZero hi)
    · refine PhysMem.cleanAt_store _ _ (Nat.zero_le i) ?_
      rw [smemfsReadData, length_map, length_range]
      omega
  · exact ⟨hFilled.keeps, fun i hi _ => hFilled.zeroed i (by omega) hi⟩

structure FromFree (q : Nat) (smem : FileRef → SmemFile) (m : Memory) (area : MemArea) (addrFault : Nat)
    (m' : Memory) (ppn : Ppn) : Prop where
  head : m.pm.free.head? = some ppn
  keeps : m.pm.KeepsClean q m'.pm
  filled : ∀ i, i < pmPageBytes → ¬area.LeavesByte smem addrFault i → m'.pm.CleanAt q ppn i

variable {m m' : Memory} {ppn : Ppn}

lemma Memory.getFreePage_head (h : m.archPmGetFreePage = some (ppn, m')) (q : Nat) :
    m.pm.free.head? = some ppn ∧ m.pm.KeepsClean q m'.pm := by
  obtain ⟨⟨_, _⟩, hGet, ⟨⟩⟩ := map_eq_some_iff.mp h
  refine ⟨?_, pmGetFreePage_keepsClean hGet⟩
  rw [(pmGetFreePage_eq_some hGet).1]
  rfl

lemma memAreaPagefault_fromFree {smem : FileRef → SmemFile} {area : MemArea} {addrFault : Nat}
    (h : memAreaPagefault smem m area addrFault = some (m', page)) (hOwned : page.owned = some ppn) (q : Nat) :
    FromFree q smem m area addrFault m' ppn := by
  obtain ⟨address, maxSize, kind⟩ := area
  cases kind with
  | anon =>
    simp only [memAreaPagefault, anonAreaPagefault] at h
    split at h
    · obtain ⟨⟨ppn', m₁⟩, hGet, ⟨⟩⟩ := map_eq_some_iff.mp h
      cases hOwned
      obtain ⟨hHead, hKeeps⟩ := Memory.getFreePage_head hGet q
      exact ⟨hHead, hKeeps, fun i _ hLeft => absurd trivial hLeft⟩
    · cases h
      cases hOwned
  | file filep baseOffset infileSize isPartial =>
    obtain ⟨⟨ppn', m₁⟩, hGet, ⟨⟩⟩ := map_eq_some_iff.mp h
    cases hOwned
    obtain ⟨hHead, hKeeps⟩ := Memory.getFreePage_head hGet q
    obtain ⟨hFillKeeps, hFilled⟩ := smemfsFillPage_filled q (smem filep) baseOffset m₁.pm
      ⟨address, maxSize, .file filep baseOffset infileSize isPartial⟩ (sub addrFault address) ppn'
    exact ⟨hHead, hKeeps.trans hFillKeeps, hFilled⟩

lemma tlbmissHandler_fromFree {smem : FileRef → SmemFile} {vpn : Nat}
    (h : tlbmissHandler smem m proc vpn = some (m', proc', ppn)) (hUnmapped : proc.dirs.pageAt vpn = none) (q : Nat) :
    ∃ area, memAreaFind proc (vpn * pmPageBytes) = some area ∧ FromFree q smem m area (vpn * pmPageBytes) m' ppn := by
  obtain ⟨⟨_, dirs⟩, hDirs, hRest⟩ := bind_eq_some_iff.mp h
  obtain ⟨_, hPage, ⟨⟩⟩ := bind_eq_some_iff.mp hRest
  -- without a new page the address stays unmapped, and the handler stops
  have hSame : ∀ m₂, some (m₂, proc.dirs) = some (m', dirs) → False := by
    intro m₂ hEq
    cases hEq
    rw [← DirList.pageAt, hUnmapped] at hPage
    cases hPage
  unfold pageIn at hDirs
  split at hDirs
  · unfold majorFault at hDirs
    split at hDirs
    · exact (hSame _ hDirs).elim
    · rename_i area hFind
      obtain ⟨⟨m₂, _⟩, hFault, hInsert⟩ := bind_eq_some_iff.mp hDirs
      simp only at hInsert
      split at hInsert
      · have hFound := (memInsertPage_inserted hInsert).found
        rw [hFound, bind_some] at hPage
        obtain ⟨hHead, hKeeps, hFilled⟩ := memAreaPagefault_fromFree hFault hPage q
        have hLast : m₂.pm.KeepsClean q m'.pm := memInsertPage_keepsClean hInsert
        exact ⟨area, hFind, hHead, hKeeps.trans hLast, fun i hi hLeft => hLast ppn i (hFilled i hi hLeft)⟩
      · exact (hSame _ hInsert).elim
  · exact (hSame _ hDirs).elim

lemma insertArgPages_pageAt {pages : ArgTable} {dirs dirs' : DirList}
    (h : (finRange processArgMaxPages).foldlM (insertArgPage pages) (m, dirs) = some (m', dirs'))
    (hEmpty : ∀ vpn, dirs.pageAt vpn = none) (q : Nat) :
    m.pm.KeepsClean q m'.pm ∧ ∀ vpn ppn, dirs'.pageAt vpn = some ppn → ∃ i, pages i = some ppn := by
  refine foldlM_invariant (I := fun st : Memory × DirList =>
    m.pm.KeepsClean q st.1.pm ∧ ∀ vpn ppn, st.2.pageAt vpn = some ppn → ∃ i, pages i = some ppn) ?_ ?_ h
  · rintro i _ ⟨_, _⟩ ⟨_, _⟩ ⟨hKeeps, hPages⟩ hTurn
    unfold insertArgPage at hTurn
    split at hTurn
    · cases hTurn
      exact ⟨hKeeps, hPages⟩
    · rename_i ppn hArg
      refine ⟨hKeeps.trans (memInsertPage_keepsClean hTurn), fun vpn r hMapped => ?_⟩
      rw [(memInsertPage_inserted hTurn).pageAt vpn] at hMapped
      split at hMapped
      · cases hMapped
        exact ⟨i, hArg⟩
      · exact hPages vpn r hMapped
  · refine ⟨.refl _, fun vpn ppn hMapped => ?_⟩
    rw [hEmpty vpn] at hMapped
    cases hMapped

lemma execveMemory_fromFree {image : Image} {argv envp : Option (List Bytes)}
    (h : execveMemory m proc image argv envp = some (m', proc')) {vpn : Nat}
    (hMapped : proc'.dirs.pageAt vpn = some ppn) (q : Nat) :
    ∃ i, i < (argLayout argv envp).pages ∧ m.pm.free[i]? = some ppn ∧ m.pm.KeepsClean q m'.pm ∧
      ∀ j, (argLayout argv envp).written i j = true → m'.pm.CleanAt q ppn j := by
  obtain ⟨args, hArgs, hRest⟩ := bind_eq_some_iff.mp h
  obtain ⟨_, hRelease, hRest⟩ := bind_eq_some_iff.mp hRest
  obtain ⟨⟨_, loaded⟩, hLoad, hRest⟩ := bind_eq_some_iff.mp hRest
  obtain ⟨⟨_, _⟩, hInsert, hRest⟩ := bind_eq_some_iff.mp hRest
  obtain ⟨_, hOld, ⟨⟩⟩ := bind_eq_some_iff.mp hRest
  obtain ⟨w, hHolds⟩ := copyArgs_layout hArgs q
  have hKept := hHolds.kept
  have hEmpty : ∀ vpn, loaded.dirs.pageAt vpn = none := by
    intro vpn
    rw [(elfloaderLoad_effect hLoad).1]
    rfl
  obtain ⟨hInsertKeeps, hPages⟩ := insertArgPages_pageAt hInsert hEmpty q
  obtain ⟨i, hPage⟩ := hPages vpn ppn hMapped
  -- nothing is stored by a process after the strings are copied
  have hAfter : args.m.pm.KeepsClean q m'.pm :=
    (memReleaseDirs_keepsClean hRelease).trans <| (elfloaderLoad_keepsClean hLoad).trans <|
      hInsertKeeps.trans (Memory.releaseKernelPage_keepsClean hOld)
  have hFree := hKept.pages_eq i
  rw [hPage] at hFree
  split at hFree
  · rename_i hLt
    exact ⟨i, hLt, hFree.symm, hKept.keeps.trans hAfter,
      fun j hj => hAfter ppn j (hKept.stored i ppn j hPage ((hHolds.covers i j).mpr hj))⟩
  · cases hFree

end Fixos.Sys
