import Fixos.Bootloader.ElfLoader
import Fixos.Sys.AreaRanges

/-! # The image of a segment

The kernel fills the pages of a segment one by one as they are touched, where the boot loader writes it at once.
-/

namespace Fixos.Sys

open Arch Bootloader Bytes Fs Word Transition Option List Function

def SmemFile.ofFrags (vol : SmemVolume) (frags : List FragHeader) : SmemFile :=
  ⟨smemfsPrimGetFileSize frags, fun i => (vol.fileBytes frags).getD i 0⟩

lemma smemfsReadData_ofFrags {vol : SmemVolume} (file : FragFile vol) (len : Nat) {atpos : Nat}
    (h : atpos ≤ smemfsPrimGetFileSize file.frags) :
    vol.smemfsReadData file.frags len atpos = some (smemfsReadData (SmemFile.ofFrags vol file.frags) len atpos) := by
  have hSize := file.size_lt
  have hSub : sub (SmemFile.ofFrags vol file.frags).size atpos = smemfsPrimGetFileSize file.frags - atpos :=
    sub_of_le h (Nat.lt_trans hSize (by decide))
  rw [SmemVolume.smemfsReadData_eq file len h, some_inj, smemfsReadData, hSub]
  refine ext_getElem? fun i => ?_
  rw [getElem?_take, getElem?_drop, getElem?_map]
  by_cases hi : i < min (smemfsPrimGetFileSize file.frags - atpos) len
  · have hByte : atpos + i < (vol.fileBytes file.frags).length := by
      rw [SmemVolume.length_fileBytes]
      omega
    rw [if_pos (by omega), getElem?_range hi, map_some, SmemFile.ofFrags]
    dsimp only
    rw [getD_eq_getElem?_getD, getElem?_eq_getElem hByte, getD_some]
  · have hRange : (range (min (smemfsPrimGetFileSize file.frags - atpos) len))[i]? = none := by
      rw [getElem?_eq_none_iff, length_range]
      omega
    rw [hRange, map_none]
    split
    · rw [getElem?_eq_none_iff, SmemVolume.length_fileBytes]
      omega
    · rfl

structure Segment {vol : SmemVolume} (file : FragFile vol) where
  ph : ElfProgHeader
  aligned : ph.vaddr % pmPageBytes = 0
  filesz_le : ph.filesz ≤ ph.memsz
  memsz_lt : ph.memsz < 2 ^ 32
  end_le : ph.offset + ph.filesz ≤ smemfsPrimGetFileSize file.frags

section

variable {vol : SmemVolume} {file : FragFile vol} (segment : Segment file)

def Segment.area (filep : FileRef) : MemArea :=
  ⟨segment.ph.vaddr, segment.ph.memsz, .file filep segment.ph.offset segment.ph.filesz true⟩

def Segment.byte (o : Nat) : UInt8 := segment.ph.byte (vol.fileBytes file.frags) o

def Segment.HasPage (vpn : Nat) : Prop :=
  segment.ph.vaddr ≤ vpn * pmPageBytes ∧ vpn * pmPageBytes < add segment.ph.vaddr segment.ph.memsz

lemma smemfsReadData_getD (f : SmemFile) {len atpos i : Nat} (hSize : f.size < 2 ^ 32)
    (hEnd : atpos + len ≤ f.size) (hi : i < len) :
    (smemfsReadData f len atpos).length = len ∧ (smemfsReadData f len atpos).getD i 0 = f.byte (atpos + i) := by
  have hLen : min (sub f.size atpos) len = len := by
    rw [sub_of_le (by omega) hSize]
    omega
  rw [smemfsReadData, hLen]
  refine ⟨by rw [length_map, length_range], ?_⟩
  rw [getD_eq_getElem?_getD, getElem?_map, getElem?_range hi, map_some, getD_some]

variable {offset : Nat}

section

variable (filep : FileRef) (pm : PhysMem) (ppn : Ppn) (hOffset : offset + pmPageBytes < 2 ^ 32)
include filep pm ppn hOffset

lemma Segment.fillPartial :
    (memAreaFillPartialPage pm (segment.area filep) offset ppn).2 = min (segment.ph.filesz - offset) pmPageBytes ∧
    ∀ i, min (segment.ph.filesz - offset) pmPageBytes ≤ i → i < pmPageBytes →
      ((memAreaFillPartialPage pm (segment.area filep) offset ppn).1.cells ppn i).value = 0 := by
  have hZero : ∀ n i : Nat, ((replicate n (0 : UInt8)).getD i 0) = 0 := by
    intro n i
    rw [getD_eq_getElem?_getD, getElem?_replicate]
    split <;> rfl
  rw [memAreaFillPartialPage, Segment.area]
  dsimp only
  rw [add_of_lt hOffset]
  by_cases hLast : segment.ph.filesz < offset + pmPageBytes
  · rw [if_pos hLast]
    by_cases hSome : segment.ph.filesz > offset
    · rw [if_pos hSome]
      refine ⟨by omega, fun i hLow hHigh => ?_⟩
      rw [PhysMem.store_cells, if_pos ⟨rfl, by omega, by rw [length_replicate]; omega⟩]
      exact hZero _ _
    · rw [if_neg hSome]
      refine ⟨by omega, fun i hLow hHigh => ?_⟩
      rw [PhysMem.store_cells, if_pos ⟨rfl, by omega, by rw [length_replicate]; omega⟩]
      exact hZero _ _
  · rw [if_neg hLast]
    exact ⟨by omega, fun i hLow hHigh => absurd hHigh (by omega)⟩

lemma Segment.fill {i : Nat} (hi : i < pmPageBytes) :
    ((smemfsFillPage (SmemFile.ofFrags vol file.frags) segment.ph.offset pm (segment.area filep) offset
      ppn).cells ppn i).value = segment.byte (offset + i) := by
  have hSize : (SmemFile.ofFrags vol file.frags).size < 2 ^ 32 := Nat.lt_trans file.size_lt (by decide)
  have hEnd : segment.ph.offset + segment.ph.filesz ≤ (SmemFile.ofFrags vol file.frags).size := segment.end_le
  obtain ⟨hRead, hZero⟩ := segment.fillPartial filep pm ppn hOffset
  rw [smemfsFillPage]
  dsimp only
  rw [hRead, Segment.byte, ElfProgHeader.byte]
  by_cases hSome : 0 < min (segment.ph.filesz - offset) pmPageBytes
  · have hAt : add segment.ph.offset offset = segment.ph.offset + offset := add_of_lt (by omega)
    have hFits : segment.ph.offset + offset + min (segment.ph.filesz - offset) pmPageBytes ≤
        (SmemFile.ofFrags vol file.frags).size := by omega
    have hLength := (smemfsReadData_getD (SmemFile.ofFrags vol file.frags) hSize hFits hSome).1
    rw [if_pos hSome, hAt, PhysMem.store_cells, hLength]
    by_cases hData : i < min (segment.ph.filesz - offset) pmPageBytes
    · rw [if_pos ⟨rfl, by omega, by omega⟩, if_pos (by omega), Nat.sub_zero,
        (smemfsReadData_getD _ hSize hFits hData).2, Nat.add_assoc]
      rfl
    · rw [if_neg (by omega), if_neg (by omega)]
      exact hZero i (by omega) hi
  · rw [if_neg hSome, if_neg (by omega)]
    exact hZero i (by omega) hi

end

end

lemma memAreaFillPartialPage_cells (pm : PhysMem) (area : MemArea) (offset : Nat) {dest other : Ppn}
    (h : other ≠ dest) : (memAreaFillPartialPage pm area offset dest).1.cells other = pm.cells other := by
  unfold memAreaFillPartialPage
  split
  · split
    · exact update_of_ne h _ _
    · rfl
  · rfl

lemma smemfsFillPage_cells (f : SmemFile) (baseOffset : Nat) (pm : PhysMem) (area : MemArea) (offset : Nat)
    {ppn other : Ppn} (h : other ≠ ppn) :
    (smemfsFillPage f baseOffset pm area offset ppn).cells other = pm.cells other := by
  simp only [smemfsFillPage]
  split
  · exact (update_of_ne h _ _).trans (memAreaFillPartialPage_cells pm area offset h)
  · exact memAreaFillPartialPage_cells pm area offset h

variable {area : MemArea}

lemma memAreaPagefault_taken {smem : FileRef → SmemFile} {m m' : Memory} {addrFault : Nat}
    {page : PageEntry} (h : memAreaPagefault smem m area addrFault = some (m', page)) :
    page.ppn = 0 ∧ m' = m ∨
      m.pm.free = page.ppn :: m'.pm.free ∧ ∀ other, other ≠ page.ppn → m'.pm.cells other = m.pm.cells other := by
  unfold memAreaPagefault at h
  split at h
  · unfold anonAreaPagefault at h
    split at h
    · right
      obtain ⟨⟨ppn, m₁⟩, hGet, ⟨⟩⟩ := map_eq_some_iff.mp h
      obtain ⟨⟨ppn, pm⟩, hTake, ⟨⟩⟩ := map_eq_some_iff.mp hGet
      obtain ⟨hFree, hCells⟩ := pmGetFreePage_eq_some hTake
      exact ⟨hFree, fun other _ => congrFun hCells other⟩
    · cases h
      exact Or.inl ⟨rfl, rfl⟩
  · right
    obtain ⟨⟨ppn, m₁⟩, hGet, ⟨⟩⟩ := map_eq_some_iff.mp h
    obtain ⟨⟨ppn, pm⟩, hTake, ⟨⟩⟩ := map_eq_some_iff.mp hGet
    obtain ⟨hFree, hCells⟩ := pmGetFreePage_eq_some hTake
    refine ⟨?_, fun other hOther => ?_⟩
    · rw [hFree]
      simp [smemfsFillPage_free]
    · rw [smemfsFillPage_cells _ _ _ _ _ hOther, hCells]

variable {address : Nat}

lemma MemArea.meets_of_covers {other : MemArea} (h : area.covers address)
    (hOther : other.covers address) : area.meets other = true := by
  simp only [covers, Bool.and_eq_true, decide_eq_true_eq] at h hOther
  simp only [meets, Bool.and_eq_true, decide_eq_true_eq, gt_iff_lt]
  omega

lemma find_of_disjoint {areas : List MemArea} (h : Disjoint areas) (hArea : area ∈ areas) (hCovers : area.covers address) :
    (areas.find? fun area => area.covers address) = some area := by
  induction areas with
  | nil => cases hArea
  | cons head rest ih =>
    obtain ⟨hHead, hRest⟩ := pairwise_cons.mp h
    by_cases hHere : head.covers address
    · rw [find?_cons, hHere]
      rcases mem_cons.mp hArea with rfl | hMem
      · rfl
      · have hMeets := MemArea.meets_of_covers hHere hCovers
        rw [hHead area hMem] at hMeets
        cases hMeets
    · rw [find?_cons, Bool.eq_false_iff.mpr hHere]
      refine ih hRest ((mem_cons.mp hArea).resolve_left ?_)
      rintro rfl
      exact hHere hCovers

section

variable {vol : SmemVolume} {file : FragFile vol} (segment : Segment file)

structure Segment.Held (m : Memory) (dirs : DirList) : Prop where
  nodup : m.pm.free.Nodup
  notFree : ∀ vpn ppn, segment.HasPage vpn → dirs.pageAt vpn = some ppn → ppn ∉ m.pm.free
  bytes : ∀ vpn ppn, segment.HasPage vpn → dirs.pageAt vpn = some ppn → ∀ i < pmPageBytes,
    (m.pm.cells ppn i).value = segment.byte (vpn * pmPageBytes - segment.ph.vaddr + i)

variable {segment} {smem : FileRef → SmemFile} {filep : FileRef} {m m' : Memory} {proc proc' : VmProc}

variable {dirs : DirList} {ppn : Ppn}

lemma Segment.Held.take (h : segment.Held m dirs) (hFree : m.pm.free = ppn :: m'.pm.free)
    (hCells : ∀ other, other ≠ ppn → m'.pm.cells other = m.pm.cells other) : segment.Held m' dirs := by
  constructor
  case nodup =>
    have hNodup := h.nodup
    rw [hFree] at hNodup
    exact (nodup_cons.mp hNodup).2
  case notFree =>
    intro vpn held hHas hMapped hMem
    refine h.notFree vpn held hHas hMapped ?_
    rw [hFree]
    exact mem_cons_of_mem _ hMem
  case bytes =>
    intro vpn held hHas hMapped i hi
    have hNe : held ≠ ppn := by
      rintro rfl
      exact h.notFree vpn held hHas hMapped (hFree ▸ mem_cons_self)
    rw [hCells held hNe]
    exact h.bytes vpn held hHas hMapped i hi

variable {page : PageEntry} {vpn : Nat}

lemma Segment.Held.insert {dirs' : DirList} (h : segment.Held m dirs)
    (hInsert : memInsertPage m dirs page (vpn * pmPageBytes) = some (m', dirs'))
    (hNew : segment.HasPage vpn → page.ppn ∉ m.pm.free ∧ ∀ i < pmPageBytes,
      (m.pm.cells page.ppn i).value = segment.byte (vpn * pmPageBytes - segment.ph.vaddr + i)) :
    segment.Held m' dirs' := by
  obtain ⟨_, hCells, hSuffix⟩ := memInsertPage_entry hInsert
  have hPageAt := (memInsertPage_inserted hInsert).pageAt
  have hPage : ∀ other ppn, segment.HasPage other → dirs'.pageAt other = some ppn → ppn ∉ m.pm.free ∧ ∀ i < pmPageBytes,
        (m.pm.cells ppn i).value = segment.byte (other * pmPageBytes - segment.ph.vaddr + i) := by
    intro other ppn hHas hMapped
    rw [hPageAt other, vpn_of_address] at hMapped
    split_ifs at hMapped with hHere
    · subst hHere
      obtain ⟨_, ⟨⟩⟩ := ite_none_right_eq_some.mp hMapped
      exact hNew hHas
    · exact ⟨h.notFree other ppn hHas hMapped, h.bytes other ppn hHas hMapped⟩
  constructor
  case nodup => exact h.nodup.sublist hSuffix.sublist
  case notFree => exact fun other ppn hHas hMapped hMem => (hPage other ppn hHas hMapped).1 (hSuffix.subset hMem)
  case bytes =>
    intro other ppn hHas hMapped
    rw [hCells]
    exact (hPage other ppn hHas hMapped).2

lemma Segment.faultPage (segment : Segment file) (hFile : smem filep = SmemFile.ofFrags vol file.frags)
    (hHas : segment.HasPage vpn) (hVpn : vpn + 1 < 2 ^ 22)
    (h : memAreaPagefault smem m (segment.area filep) (vpn * pmPageBytes) = some (m', page)) {i : Nat}
    (hi : i < pmPageBytes) :
    (m'.pm.cells page.ppn i).value = segment.byte (vpn * pmPageBytes - segment.ph.vaddr + i) := by
  have hAddress : vpn * pmPageBytes + pmPageBytes < 2 ^ 32 := by
    unfold pmPageBytes
    omega
  have hBound : vpn * pmPageBytes - segment.ph.vaddr + pmPageBytes < 2 ^ 32 := by omega
  have hOffset : sub (vpn * pmPageBytes) (segment.area filep).address =
      vpn * pmPageBytes - segment.ph.vaddr := sub_of_le hHas.1 (by omega)
  have hHandler : ∀ addr, memAreaPagefault smem m (segment.area filep) addr =
      smemfsAreaPagefault (smem filep) segment.ph.offset m (segment.area filep) addr := fun _ => rfl
  rw [hHandler, smemfsAreaPagefault, hOffset, hFile] at h
  obtain ⟨⟨ppn, m₁⟩, _, hEq⟩ := map_eq_some_iff.mp h
  rw [Prod.mk.injEq] at hEq
  rw [← hEq.1, ← hEq.2]
  dsimp only
  exact segment.fill filep m₁.pm ppn hBound hi

lemma Segment.Held.fault (h : segment.Held m proc.dirs) (hFile : smem filep = SmemFile.ofFrags vol file.frags)
    (hArea : segment.area filep ∈ proc.areas.map proc.area) (hApart : Disjoint (proc.areas.map proc.area))
    (hVpn : vpn + 1 < 2 ^ 22) (hFault : tlbmissHandler smem m proc vpn = some (m', proc', ppn)) :
    segment.Held m' proc'.dirs := by
  obtain ⟨⟨_, _⟩, hDirs, hRest⟩ := bind_eq_some_iff.mp hFault
  obtain ⟨_, _, ⟨⟩⟩ := bind_eq_some_iff.mp hRest
  unfold pageIn at hDirs
  split at hDirs
  · unfold majorFault at hDirs
    split at hDirs
    · cases hDirs
      exact h
    · rename_i area hFind
      obtain ⟨⟨_, _⟩, hTake, hInsert⟩ := bind_eq_some_iff.mp hDirs
      dsimp only at hInsert
      rcases memAreaPagefault_taken hTake with ⟨hNull, rfl⟩ | ⟨hFree, hCells⟩
      · rw [if_neg (by simp [hNull])] at hInsert
        cases hInsert
        exact h
      · have hTaken := h.take hFree hCells
        split at hInsert
        · refine hTaken.insert hInsert fun hHas => ?_
          have hNodup := h.nodup
          rw [hFree] at hNodup
          refine ⟨(nodup_cons.mp hNodup).1, ?_⟩
          have hCovers : (segment.area filep).covers (vpn * pmPageBytes) := by
            rw [MemArea.covers, Bool.and_eq_true, decide_eq_true_eq, decide_eq_true_eq]
            exact hHas
          obtain rfl : area = segment.area filep := some.inj (hFind.symm.trans (find_of_disjoint hApart hArea hCovers))
          exact fun i hi => segment.faultPage hFile hHas hVpn hTake hi
        · cases hInsert
          exact hTaken
  · cases hDirs
    exact h

def faultPages (smem : FileRef → SmemFile) (st : Memory × VmProc) (vpns : List Nat) : Option (Memory × VmProc) :=
  vpns.foldlM (fun st vpn => (tlbmissHandler smem st.1 st.2 vpn).map fun (m, proc, _) => (m, proc)) st

lemma Segment.Held.faults {vpns : List Nat} (h : segment.Held m proc.dirs)
    (hFile : smem filep = SmemFile.ofFrags vol file.frags)
    (hArea : segment.area filep ∈ proc.areas.map proc.area) (hApart : Disjoint (proc.areas.map proc.area))
    (hVpns : ∀ vpn ∈ vpns, vpn + 1 < 2 ^ 22) (hFaults : faultPages smem (m, proc) vpns = some (m', proc')) :
    segment.Held m' proc'.dirs ∧ (∀ vpn ppn, proc.dirs.pageAt vpn = some ppn → proc'.dirs.pageAt vpn = some ppn) ∧
      ∀ vpn ∈ vpns, ∃ ppn, proc'.dirs.pageAt vpn = some ppn := by
  induction vpns generalizing m proc with
  | nil =>
    cases hFaults
    exact ⟨h, fun _ _ hMapped => hMapped, by simp⟩
  | cons vpn rest ih =>
    rw [faultPages, foldlM_cons] at hFaults
    obtain ⟨⟨_, _⟩, hHere, hRest⟩ := bind_eq_some_iff.mp hFaults
    obtain ⟨⟨_, _, ppn⟩, hFault, ⟨⟩⟩ := map_eq_some_iff.mp hHere
    obtain ⟨hVpn, hOthers⟩ := forall_mem_cons.mp hVpns
    obtain ⟨hFaulted, hMapped, hProc⟩ := tlbmissHandler_faulted hFault
    have hHeld := h.fault hFile hArea hApart hVpn hFault
    rw [hProc] at hRest hHeld
    obtain ⟨hEnd, hKept, hAll⟩ := ih hHeld hArea hApart hOthers hRest
    refine ⟨hEnd, fun v p hOld => hKept v p (hFaulted.keeps v p hOld), forall_mem_cons.mpr ⟨?_, hAll⟩⟩
    exact ⟨ppn, hKept vpn ppn hMapped⟩

end

def smallVolume : SmemVolume := ⟨[⟨7, 0x4000⟩, ⟨9, 0x8000⟩], fun a => .ofNat (a + 1)⟩

def smallFile : FragFile smallVolume where
  frags := [⟨9, 16, 699⟩, ⟨7, 32, 799⟩]
  stored := by decide
  size_lt := by decide

def smallSegment : Segment smallFile where
  ph := ⟨100, 0x100000, 0x88000000, 1300, 2500⟩
  aligned := by decide
  filesz_le := by decide
  memsz_lt := by decide
  end_le := by decide

def smallProc : VmProc := (VmProc.blank.mapArea (smallSegment.area 3)).1

def smallMemory : Memory := ⟨⟨[20, 21, 22, 23], fun _ _ => ⟨0xaa, none⟩⟩, Utils.poolInit, []⟩

end Fixos.Sys
