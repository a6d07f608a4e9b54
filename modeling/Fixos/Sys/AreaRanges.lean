import Fixos.Sys.Exec

/-! # The ranges of the areas of a process

`sbrk` resizes the heap without looking at the other areas or at the end of the address space.
-/

namespace Fixos.Sys

open Arch Word Transition Option Function List

def MemArea.Apart (area other : MemArea) : Prop :=
  area.address + area.maxSize ≤ other.address ∨ other.address + other.maxSize ≤ area.address
deriving Decidable

def MemArea.InSpace (area : MemArea) : Prop := area.address + area.maxSize < 2 ^ 32

instance (area : MemArea) : Decidable area.InSpace := Nat.decLt _ _

def MemArea.covers (area : MemArea) (address : Nat) : Bool :=
  area.address ≤ address && address < add area.address area.maxSize

variable {area other : MemArea}

lemma MemArea.Apart.symm (h : area.Apart other) : other.Apart area := Or.symm h

lemma MemArea.apart_of_meets (hArea : area.InSpace) (hOther : other.InSpace) (h : area.meets other = false) :
    area.Apart other := by
  rw [meets, add_of_lt hArea, add_of_lt hOther] at h
  simp only [Bool.and_eq_false_iff, decide_eq_false_iff_not, gt_iff_lt, Nat.not_lt] at h
  exact h.symm.imp id id

lemma MemArea.Apart.not_covers (h : area.Apart other) (hArea : area.InSpace) (hOther : other.InSpace)
    {address : Nat} (hCovers : area.covers address) : other.covers address = false := by
  unfold Apart at h
  rw [covers, add_of_lt hArea] at hCovers
  rw [covers, add_of_lt hOther]
  simp only [Bool.and_eq_true, decide_eq_true_eq, Bool.and_eq_false_iff, decide_eq_false_iff_not, Nat.not_le,
    Nat.not_lt] at hCovers ⊢
  omega

lemma MemArea.Apart.shrink (h : area.Apart other) {maxSize : Nat} (hLe : maxSize ≤ area.maxSize) :
    MemArea.Apart { area with maxSize } other := by
  unfold Apart at *
  dsimp only
  omega

structure AreasSound (proc : VmProc) : Prop where
  nodup : proc.areas.Nodup
  key_lt : ∀ key ∈ proc.areas, key < proc.nextArea
  heap_lt : ∀ key, proc.heap = some key → key < proc.nextArea
  brk_lt : proc.initialBrk < 2 ^ 32
  inSpace : ∀ key ∈ proc.areas, (proc.area key).InSpace
  apart : ∀ key ∈ proc.areas, ∀ other ∈ proc.areas, key ≠ other → (proc.area key).Apart (proc.area other)

variable {key : Nat} {m m' : Memory} {proc' : VmProc}

section

variable {proc : VmProc}

/-- `vfs_map_area`, and every other place that makes an area and inserts it. -/
def VmProc.mapArea (proc : VmProc) (area : MemArea) : VmProc × Int :=
  (proc.allocArea area).insertArea proc.nextArea

lemma VmProc.mapArea_eq (proc : VmProc) (area : MemArea) (hKeys : ∀ key ∈ proc.areas, key < proc.nextArea) :
    proc.mapArea area = if memAreaCheckRange (proc.areas.map proc.area) area then (proc.allocArea area, -1)
      else ({ proc.allocArea area with areas := proc.nextArea :: proc.areas }, 0) := by
  have hOld : proc.areas.map (update proc.area proc.nextArea area) = proc.areas.map proc.area := by
    refine map_congr_left fun key hKey => update_of_ne ?_ _ _
    exact Nat.ne_of_lt (hKeys key hKey)
  have hCheck : memAreaCheckRange ((proc.allocArea area).areas.map (proc.allocArea area).area)
      ((proc.allocArea area).area proc.nextArea) = memAreaCheckRange (proc.areas.map proc.area) area :=
    congrArg₂ memAreaCheckRange hOld (update_self _ _ _)
  rw [mapArea, insertArea, hCheck]
  rfl

lemma VmProc.allocArea_area_of_lt (proc : VmProc) (area : MemArea) (hKey : key < proc.nextArea) :
    (proc.allocArea area).area key = proc.area key :=
  update_of_ne (Nat.ne_of_lt hKey) _ _

section

variable (h : AreasSound proc)
include h

lemma AreasSound.allocArea (area : MemArea) : AreasSound (proc.allocArea area) := by
  have hArea : ∀ key ∈ proc.areas, (proc.allocArea area).area key = proc.area key :=
    fun key hKey => proc.allocArea_area_of_lt area (h.key_lt key hKey)
  refine { h with key_lt := ?_, heap_lt := ?_, inSpace := ?_, apart := ?_ }
  · exact fun key hKey => Nat.lt_succ_of_lt (h.key_lt key hKey)
  · exact fun key hKey => Nat.lt_succ_of_lt (h.heap_lt key hKey)
  · intro key hKey
    rw [hArea key hKey]
    exact h.inSpace key hKey
  · intro key hKey other hOther hNe
    rw [hArea key hKey, hArea other hOther]
    exact h.apart key hKey other hOther hNe

lemma AreasSound.mapArea (hArea : area.InSpace) : AreasSound (proc.mapArea area).1 := by
  rw [VmProc.mapArea_eq proc area h.key_lt]
  have hAlloc := h.allocArea area
  split_ifs with hCheck
  · exact hAlloc
  · have hNew : (proc.allocArea area).area proc.nextArea = area := update_self _ _ _
    have hApart : ∀ key ∈ proc.areas, ((proc.allocArea area).area key).Apart area := by
      intro key hKey
      rw [proc.allocArea_area_of_lt area (h.key_lt key hKey)]
      refine MemArea.apart_of_meets (h.inSpace key hKey) hArea ?_
      rw [memAreaCheckRange, List.any_map, Bool.not_eq_true, List.any_eq_false] at hCheck
      exact Bool.eq_false_iff.mpr (hCheck key hKey)
    refine { hAlloc with nodup := ?_, key_lt := ?_, brk_lt := ?_, inSpace := ?_, apart := ?_ }
    · refine nodup_cons.mpr ⟨fun hMem => ?_, h.nodup⟩
      exact Nat.lt_irrefl _ (h.key_lt _ hMem)
    · exact forall_mem_cons.mpr ⟨Nat.lt_succ_self _, hAlloc.key_lt⟩
    · exact h.brk_lt
    · refine forall_mem_cons.mpr ⟨?_, hAlloc.inSpace⟩
      rw [hNew]
      exact hArea
    · intro key hKey other hOther hNe
      rcases mem_cons.mp hKey with rfl | hKey
      · rcases mem_cons.mp hOther with rfl | hOther
        · exact absurd rfl hNe
        · rw [hNew]
          exact (hApart other hOther).symm
      · rcases mem_cons.mp hOther with rfl | hOther
        · rw [hNew]
          exact hApart key hKey
        · exact hAlloc.apart key hKey other hOther hNe

lemma AreasSound.setBrk {brk : Nat} (hBrk : brk < 2 ^ 32) : AreasSound { proc with initialBrk := brk } :=
  ⟨h.nodup, h.key_lt, h.heap_lt, hBrk, h.inSpace, h.apart⟩

lemma AreasSound.loadSegments {segments : List MemArea} {brk : Nat} (hBrk : brk < 2 ^ 32)
    (hSegments : ∀ segment ∈ segments, segment.InSpace) :
    AreasSound (Sys.loadSegments proc brk segments).1 ∧ (Sys.loadSegments proc brk segments).2.1 < 2 ^ 32 := by
  induction segments generalizing proc brk with
  | nil => exact ⟨h, hBrk⟩
  | cons segment rest ih =>
    obtain ⟨hSegment, hRest⟩ := forall_mem_cons.mp hSegments
    have hLoaded : AreasSound (elfloaderLoadSegment proc segment).1 := by
      unfold elfloaderLoadSegment
      split
      · exact h.mapArea hSegment
      · exact h
    rw [Sys.loadSegments]
    dsimp only
    split
    · have hEnd : add segment.address segment.maxSize < 2 ^ 32 := Nat.mod_lt _ (by decide)
      exact ih hLoaded (Nat.max_lt.mpr ⟨hBrk, hEnd⟩) hRest
    · exact ⟨hLoaded, hBrk⟩

lemma AreasSound.elfloaderLoad {image : Image} (hSegments : ∀ segment ∈ image.segments, segment.InSpace)
    (hLoad : Sys.elfloaderLoad m proc image = some (m', proc')) : AreasSound proc' := by
  obtain ⟨hLoaded, hBrk⟩ := h.loadSegments (by decide : 0 < 2 ^ 32) hSegments
  have hAll : AreasSound (elfloaderLoadAll proc image).1 := by
    simp only [elfloaderLoadAll]
    split
    · exact hLoaded.setBrk hBrk
    · exact hLoaded
  simp only [Sys.elfloaderLoad] at hLoad
  split at hLoad
  · obtain ⟨⟨_, _⟩, _, ⟨⟩⟩ := map_eq_some_iff.mp hLoad
    have hInSpace : MemArea.InSpace
        ⟨archUnewprocDefaultStack - processDefaultStackSize, processDefaultStackSize, .anon⟩ := by decide
    have hStack := hAll.mapArea hInSpace
    exact ⟨hStack.nodup, hStack.key_lt, hStack.heap_lt, hStack.brk_lt, hStack.inSpace, hStack.apart⟩
  · cases hLoad
    exact hAll

end

def VmProc.heapStart (proc : VmProc) : Nat :=
  match proc.heap with
  | some key => (proc.area key).address
  | none => (proc.initialBrk + (pmPageBytes - 1)) / pmPageBytes * pmPageBytes

def VmProc.heapSize (proc : VmProc) : Nat :=
  match proc.heap with
  | some key => (proc.area key).maxSize
  | none => 0

/-- The heap can grow by `incr` bytes: it ends below the end of the address space and meets no other
area on the way. -/
def VmProc.RoomFor (proc : VmProc) (incr : Int) : Prop :=
  0 < incr → proc.heapStart + proc.heapSize + incr.toNat < 2 ^ 32 ∧
    ∀ key ∈ proc.areas, proc.heap ≠ some key →
      (proc.area key).Apart ⟨proc.heapStart, proc.heapSize + incr.toNat, .anon⟩
deriving Decidable

def VmProc.realBrk (proc : VmProc) : Nat :=
  if proc.initialBrk % pmPageBytes = 0 then proc.initialBrk
  else add proc.initialBrk (pmPageBytes - proc.initialBrk % pmPageBytes)

lemma VmProc.makeHeap_eq (proc : VmProc) : proc.makeHeap = if proc.heap = none ∧ proc.initialBrk ≠ 0 then
      { (proc.mapArea ⟨proc.realBrk, 0, .anon⟩).1 with heap := some proc.nextArea } else proc := rfl

lemma AreasSound.realBrk_lt (h : AreasSound proc) : proc.realBrk < 2 ^ 32 := by
  unfold VmProc.realBrk
  split
  · exact h.brk_lt
  · exact Nat.mod_lt _ (by decide)

lemma AreasSound.makeHeap (h : AreasSound proc) : AreasSound proc.makeHeap := by
  rw [VmProc.makeHeap_eq]
  split
  · have hMapped : AreasSound (proc.mapArea ⟨proc.realBrk, 0, .anon⟩).1 := h.mapArea h.realBrk_lt
    have hNext : (proc.mapArea ⟨proc.realBrk, 0, .anon⟩).1.nextArea = proc.nextArea + 1 := by
      rw [VmProc.mapArea_eq proc _ h.key_lt]
      split <;> rfl
    refine ⟨hMapped.nodup, hMapped.key_lt, fun key hKey => ?_, hMapped.brk_lt, hMapped.inSpace, hMapped.apart⟩
    cases hKey
    rw [hNext]
    exact Nat.lt_succ_self _
  · exact h

lemma memAreaResize_areas {newSize : Nat} (h : memAreaResize m proc key newSize = some (m', proc')) : proc' = { proc with
      area := update proc.area key { proc.area key with maxSize := newSize }, dirs := proc'.dirs } := by
  simp only [memAreaResize] at h
  split at h
  · obtain ⟨⟨_, dirs⟩, _, ⟨⟩⟩ := map_eq_some_iff.mp h
    rfl
  · cases h
    rfl

lemma AreasSound.resize {newSize : Nat} (h : AreasSound proc)
    (hGrow : (proc.area key).maxSize < newSize → (proc.area key).address + newSize < 2 ^ 32 ∧
      ∀ other ∈ proc.areas, other ≠ key → (proc.area other).Apart ⟨(proc.area key).address, newSize, .anon⟩)
    (hResize : memAreaResize m proc key newSize = some (m', proc')) : AreasSound proc' := by
  rw [memAreaResize_areas hResize]
  have hSelf : update proc.area key { proc.area key with maxSize := newSize } key =
      { proc.area key with maxSize := newSize } := update_self _ _ _
  have hOther : ∀ other, other ≠ key →
      update proc.area key { proc.area key with maxSize := newSize } other = proc.area other :=
    fun other hNe => update_of_ne hNe _ _
  have hKeyApart : key ∈ proc.areas → ∀ other ∈ proc.areas, other ≠ key →
      (proc.area other).Apart { proc.area key with maxSize := newSize } := by
    intro hKey other hMem hNe
    by_cases hLarger : (proc.area key).maxSize < newSize
    · exact (hGrow hLarger).2 other hMem hNe
    · exact ((h.apart other hMem key hKey hNe).symm.shrink (Nat.not_lt.mp hLarger)).symm
  refine { h with inSpace := ?_, apart := ?_ }
  · intro other hMem
    dsimp only
    by_cases hHere : other = key
    · rw [hHere, hSelf]
      by_cases hLarger : (proc.area key).maxSize < newSize
      · exact (hGrow hLarger).1
      · have hOld := h.inSpace key (hHere ▸ hMem)
        unfold MemArea.InSpace at hOld ⊢
        dsimp only
        omega
    · rw [hOther other hHere]
      exact h.inSpace other hMem
  · intro first hFirst second hSecond hNe
    dsimp only
    by_cases hHere : first = key
    · subst hHere
      rw [hSelf, hOther second hNe.symm]
      exact (hKeyApart hFirst second hSecond hNe.symm).symm
    · rw [hOther first hHere]
      by_cases hThere : second = key
      · subst hThere
        rw [hSelf]
        exact hKeyApart hSecond first hFirst hNe
      · rw [hOther second hThere]
        exact h.apart first hFirst second hSecond hNe

lemma VmProc.realBrk_eq {incr : Nat}
    (h : (proc.initialBrk + (pmPageBytes - 1)) / pmPageBytes * pmPageBytes + incr < 2 ^ 32) :
    proc.realBrk = (proc.initialBrk + (pmPageBytes - 1)) / pmPageBytes * pmPageBytes := by
  unfold realBrk add pmPageBytes at *
  split <;> omega

lemma VmProc.RoomFor.makeHeap {incr : Int} (hRoom : proc.RoomFor incr) (h : AreasSound proc) :
    proc.makeHeap.RoomFor incr := by
  rw [makeHeap_eq]
  split_ifs with hNew
  · intro hPos
    obtain ⟨hEnd, hApart⟩ := hRoom hPos
    have hStart : proc.heapStart = (proc.initialBrk + (pmPageBytes - 1)) / pmPageBytes * pmPageBytes := by
      rw [heapStart, hNew.1]
    have hSize : proc.heapSize = 0 := by
      rw [heapSize, hNew.1]
    rw [hStart, hSize] at hEnd hApart
    rw [Nat.add_zero] at hEnd
    have hMap := proc.mapArea_eq ⟨proc.realBrk, 0, .anon⟩ h.key_lt
    have hArea : ∀ key, (proc.mapArea ⟨proc.realBrk, 0, .anon⟩).1.area key =
        (proc.allocArea ⟨proc.realBrk, 0, .anon⟩).area key := by
      intro key
      rw [hMap]
      split <;> rfl
    have hHeap : (proc.mapArea ⟨proc.realBrk, 0, .anon⟩).1.area proc.nextArea = ⟨proc.realBrk, 0, .anon⟩ :=
      (hArea _).trans (update_self _ _ _)
    have hKeys : ∀ key ∈ (proc.mapArea ⟨proc.realBrk, 0, .anon⟩).1.areas, key ≠ proc.nextArea → key ∈ proc.areas := by
      intro key hKey hNe
      rw [hMap] at hKey
      split at hKey
      · exact hKey
      · exact (mem_cons.mp hKey).resolve_left hNe
    have hBrk := realBrk_eq hEnd
    rw [← hBrk] at hEnd hApart
    simp only [heapStart, heapSize, hHeap, Nat.add_zero]
    refine ⟨hEnd, fun key hKey hNe => ?_⟩
    have hOld := hKeys key hKey fun hEq => hNe (congrArg some hEq.symm)
    rw [hArea, proc.allocArea_area_of_lt _ (h.key_lt key hOld)]
    refine hApart key hOld ?_
    rw [hNew.1]
    exact (some_ne_none key).symm
  · exact hRoom

lemma AreasSound.sysSbrk {incr : Int} {ret : Nat} (h : AreasSound proc) (hRoom : proc.RoomFor incr)
    (hSbrk : Sys.sysSbrk m proc incr = some (m', proc', ret)) :
    AreasSound proc' := by
  have hMade := h.makeHeap
  have hRoomMade := hRoom.makeHeap h
  simp only [Sys.sysSbrk] at hSbrk
  split at hSbrk
  · cases hSbrk
    exact hMade
  · rename_i key hHeap
    obtain ⟨⟨_, _⟩, hResize, ⟨⟩⟩ := map_eq_some_iff.mp hSbrk
    refine hMade.resize (fun hLarger => ?_) hResize
    have hPos : 0 < incr := by
      by_contra hNot
      unfold sbrkSize at hLarger
      split at hLarger <;> omega
    obtain ⟨hEnd, hApart⟩ := hRoomMade hPos
    rw [VmProc.heapStart, VmProc.heapSize, hHeap] at hEnd hApart
    have hSize : sbrkSize (proc.makeHeap.area key).maxSize incr = (proc.makeHeap.area key).maxSize + incr.toNat := by
      unfold sbrkSize
      rw [if_neg (by omega)]
      dsimp only at hEnd
      omega
    rw [hSize, ← Nat.add_assoc]
    refine ⟨hEnd, fun other hOther hNe => hApart other hOther fun hSame => hNe ?_⟩
    exact (some.inj hSame).symm

end

structure AreaState where
  m : Memory
  proc : VmProc

inductive AreaAction where
  | load (image : Image)
  | map (area : MemArea)
  | sbrk (incr : Int)

def AreaState.step (s : AreaState) : AreaAction → Option AreaState
  | .load image => (elfloaderLoad s.m s.proc image).map fun (m, proc) => ⟨m, proc⟩
  | .map area => some { s with proc := (s.proc.mapArea area).1 }
  | .sbrk incr => (sysSbrk s.m s.proc incr).map fun (m, proc, _) => ⟨m, proc⟩

def AreaAction.Fits (s : AreaState) : AreaAction → Prop
  | .load image => ∀ segment ∈ image.segments, segment.InSpace
  | .map area => area.InSpace
  | .sbrk incr => s.proc.RoomFor incr

instance AreaAction.decidableFits (s : AreaState) (a : AreaAction) : Decidable (a.Fits s) := by
  unfold AreaAction.Fits
  split <;> infer_instance

lemma AreasSound.step {s t : AreaState} {a : AreaAction} (h : AreasSound s.proc) (hFits : a.Fits s)
    (hStep : s.step a = some t) : AreasSound t.proc := by
  cases a with
  | load image =>
    obtain ⟨⟨m, proc⟩, hLoad, rfl⟩ := map_eq_some_iff.mp hStep
    exact h.elfloaderLoad hFits hLoad
  | map area =>
    cases hStep
    exact h.mapArea hFits
  | sbrk incr =>
    obtain ⟨⟨m, proc, _⟩, hSbrk, rfl⟩ := map_eq_some_iff.mp hStep
    exact h.sysSbrk hFits hSbrk

/-- A process as `process_alloc` makes it, and as `sys_execve` leaves it before loading. -/
def VmProc.NoAreas (proc : VmProc) : Prop := proc.areas = [] ∧ proc.heap = none ∧ proc.initialBrk < 2 ^ 32

variable {proc : VmProc}

lemma VmProc.NoAreas.sound (h : proc.NoAreas) : AreasSound proc := by
  obtain ⟨hAreas, hHeap, hBrk⟩ := h
  constructor
  case heap_lt =>
    intro _ hKey
    rw [hHeap] at hKey
    cases hKey
  case brk_lt => exact hBrk
  all_goals simp [hAreas]

def VmProc.candidates (proc : VmProc) (address : Nat) : List MemArea :=
  (proc.areas.map proc.area).filter fun area => area.covers address

lemma memAreaFind_eq_head (proc : VmProc) (address : Nat) : memAreaFind proc address = (proc.candidates address).head? :=
  (head?_filter ..).symm

lemma AreasSound.pairwise (h : AreasSound proc) : (proc.areas.map proc.area).Pairwise MemArea.Apart :=
  pairwise_map.mpr (h.nodup.pairwise_of_forall_ne h.apart)

lemma AreasSound.candidates_le (h : AreasSound proc) (address : Nat) : (proc.candidates address).length ≤ 1 := by
  have hPairwise : (proc.candidates address).Pairwise MemArea.Apart := h.pairwise.filter _
  have hMem : ∀ area ∈ proc.candidates address, area.InSpace ∧ area.covers address := by
    intro area hArea
    obtain ⟨hListed, hCovers⟩ := mem_filter.mp hArea
    exact ⟨forall_mem_map.mpr h.inSpace area hListed, hCovers⟩
  match hList : proc.candidates address with
  | [] => exact Nat.zero_le _
  | [_] => exact Nat.le_refl _
  | first :: second :: rest =>
    rw [hList] at hPairwise hMem
    have hApart := (pairwise_cons.mp hPairwise).1 second (by simp)
    obtain ⟨hFirst, hFirstCovers⟩ := hMem first (by simp)
    obtain ⟨hSecond, hSecondCovers⟩ := hMem second (by simp)
    rw [hApart.not_covers hFirst hSecond hFirstCovers] at hSecondCovers
    cases hSecondCovers

/-- As long as what is asked for fits, the areas are apart and end in the address space, and the one found for an
address is unique. -/
theorem area_ranges_apart {start s : AreaState} {as : List AreaAction} (hStart : start.proc.NoAreas)
    (h : Run AreaState.step (fun s a => a.Fits s) start as s) :
    (s.proc.areas.map s.proc.area).Pairwise MemArea.Apart ∧
    (∀ area ∈ s.proc.areas.map s.proc.area, area.InSpace) ∧
    ∀ address, (s.proc.candidates address).length ≤ 1 ∧ memAreaFind s.proc address = (s.proc.candidates address).head? := by
  have hSound : AreasSound s.proc :=
    h.invariant (I := fun s => AreasSound s.proc) (fun _ _ _ hFits hs hStep => hs.step hFits hStep) hStart.sound
  exact ⟨hSound.pairwise, forall_mem_map.mpr hSound.inSpace,
    fun address => ⟨hSound.candidates_le address, memAreaFind_eq_head s.proc address⟩⟩

def areaStart : AreaState := ⟨⟨⟨[20, 21], fun _ _ => ⟨0, none⟩⟩, Utils.poolInit, []⟩, .blank⟩

def areaImage : Image := ⟨[⟨0x100000, 2000, .file 3 0 2000 true⟩], true⟩

theorem area_ranges_apart_heap : ∃ s : AreaState, Run AreaState.step (fun s a => a.Fits s) areaStart
      [.load areaImage, .sbrk 4096, .map ⟨0x200000, 1024, .anon⟩, .sbrk (-1024), .sbrk 2048] s ∧
    s.proc.areas.map s.proc.area = [⟨0x200000, 1024, .anon⟩, ⟨0x100800, 5120, .anon⟩,
      ⟨0x3FFF0000, 65536, .anon⟩, ⟨0x100000, 2000, .file 3 0 2000 true⟩] ∧
    (s.proc.areas.map s.proc.area).Pairwise MemArea.Apart := by
  have hExec : (exec (guarded AreaState.step fun s a => a.Fits s) areaStart
      [.load areaImage, .sbrk 4096, .map ⟨0x200000, 1024, .anon⟩, .sbrk (-1024), .sbrk 2048]).map
        (fun s => s.proc.areas.map s.proc.area) = some [⟨0x200000, 1024, .anon⟩, ⟨0x100800, 5120, .anon⟩,
      ⟨0x3FFF0000, 65536, .anon⟩, ⟨0x100000, 2000, .file 3 0 2000 true⟩] := by decide +kernel
  obtain ⟨s, hExec, hAreas⟩ := map_eq_some_iff.mp hExec
  have hRun := run_of_exec_guarded hExec
  exact ⟨s, hRun, hAreas, (area_ranges_apart ⟨rfl, rfl, by decide⟩ hRun).1⟩

theorem sbrk_overlaps : ∃ s t : AreaState, exec AreaState.step areaStart [.load areaImage, .sbrk 0x3FF00000] = some s ∧
    s.proc.candidates 0x3FFF0000 = [⟨0x100800, 0x3FF00000, .anon⟩, ⟨0x3FFF0000, 65536, .anon⟩] ∧
    exec AreaState.step areaStart [.load areaImage, .sbrk 0x7FFFFFFF, .sbrk 0x7FFFFFFF] = some t ∧
    ∃ area ∈ t.proc.areas.map t.proc.area, 2 ^ 32 ≤ area.address + area.maxSize := by
  have hOverlap : (exec AreaState.step areaStart [.load areaImage, .sbrk 0x3FF00000]).map
      (fun s => s.proc.candidates 0x3FFF0000) =
      some [⟨0x100800, 0x3FF00000, .anon⟩, ⟨0x3FFF0000, 65536, .anon⟩] := by decide +kernel
  have hWrap : (exec AreaState.step areaStart [.load areaImage, .sbrk 0x7FFFFFFF, .sbrk 0x7FFFFFFF]).map
      (fun t => t.proc.areas.map t.proc.area) =
      some [⟨0x100800, 0xFFFFFFFE, .anon⟩, ⟨0x3FFF0000, 65536, .anon⟩,
        ⟨0x100000, 2000, .file 3 0 2000 true⟩] := by decide +kernel
  obtain ⟨s, hs, hCandidates⟩ := map_eq_some_iff.mp hOverlap
  obtain ⟨t, ht, hAreas⟩ := map_eq_some_iff.mp hWrap
  refine ⟨s, t, hs, hCandidates, ht, ⟨0x100800, 0xFFFFFFFE, .anon⟩, ?_, by decide⟩
  rw [hAreas]
  exact mem_cons_self

end Fixos.Sys
