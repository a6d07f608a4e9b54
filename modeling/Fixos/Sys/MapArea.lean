import Fixos.Sys.ExecFiles

/-! # Mapping a file (`fs/vfs_file.c`)

The reference of the area to the file is counted before the area is put into the list of the process, and nothing takes
that back if there is no place for it.
-/

namespace Fixos.Sys

open Fs Function

abbrev AreaRef := Nat

def MEM_AREA_PARTIAL : BitVec 32 := 1 <<< 6

structure MapState where
  fs : FileState
  live : List AreaRef
  area : AreaRef → MemArea
  memAreas : List AreaRef

def MapState.mapped (s : MapState) : List MemArea := s.memAreas.map s.area

structure MapArgs where
  filep : FileRef
  size : Nat
  offset : Nat
  address : Nat
  flags : BitVec 32
  infileSize : Nat

def MapArgs.isPartial (args : MapArgs) : Bool := args.flags &&& MEM_AREA_PARTIAL ≠ 0

def MapArgs.area (args : MapArgs) : MemArea :=
  ⟨args.address, args.size, .file args.filep args.offset (if args.isPartial then args.infileSize else args.size)
    args.isPartial⟩

def FileOps.mapArea : FileOps → Option (FileState → FileRef → FileState × Int)
  | .smemfs => some fun fs filep => (countUp fs filep, 0)
  | _ => none

def MapState.memAreaInsert (s : MapState) (object : AreaRef) : MapState × Int :=
  if memAreaCheckRange s.mapped (s.area object) then (s, -1) else ({ s with memAreas := object :: s.memAreas }, 0)

def vfsMapAreaCall (s : MapState) (args : MapArgs) (object : Option AreaRef) : MapState × Int :=
  match FileOps.mapArea (s.fs.file args.filep).op with
  | none => (s, -EINVAL)
  | some mapArea =>
    match object with
    | none => (s, -ENOMEM)
    | some object =>
      let s := { s with live := object :: s.live, area := update s.area object args.area }
      let called := mapArea s.fs args.filep
      let s := { s with fs := called.1 }
      -- an object that is not inserted is not given back
      if called.2 = 0 then s.memAreaInsert object
      else ({ s with live := s.live.erase object }, called.2)

/-- A call that fails leaves all as it was; one that succeeds adds one area and one reference. -/
structure MapsWhole (s : MapState) (args : MapArgs) (result : MapState × Int) : Prop where
  failed : result.2 ≠ 0 → (result.1.fs.file args.filep).count = (s.fs.file args.filep).count ∧
    result.1.live.length = s.live.length ∧ result.1.mapped = s.mapped
  mapped : result.2 = 0 → (result.1.fs.file args.filep).count = (s.fs.file args.filep).count + 1 ∧
    result.1.live.length = s.live.length + 1 ∧ result.1.mapped = args.area :: s.mapped

structure MapState.Gives (s : MapState) (object : Option AreaRef) : Prop where
  inUse : ∀ area ∈ s.memAreas, area ∈ s.live
  fresh : ∀ area, object = some area → area ∉ s.live

section

variable {s : MapState} {args : MapArgs} {object : Option AreaRef}

def MapState.alloc (s : MapState) (object : AreaRef) (area : MemArea) : MapState :=
  { s with live := object :: s.live, area := update s.area object area }

section

variable {object : AreaRef} (h : s.Gives (some object)) (area : MemArea)
include h

lemma MapState.Gives.mapped_alloc : (s.alloc object area).mapped = s.mapped := by
  refine List.map_congr_left fun other hOther => update_of_ne ?_ _ _
  rintro rfl
  exact h.fresh other rfl (h.inUse other hOther)

lemma MapState.Gives.insert_alloc : (s.alloc object area).memAreaInsert object =
      if memAreaCheckRange s.mapped area then (s.alloc object area, -1)
      else ({ s.alloc object area with memAreas := object :: s.memAreas }, 0) := by
  have hArea : (s.alloc object area).area object = area := update_self _ _ _
  rw [memAreaInsert, h.mapped_alloc, hArea]
  rfl

lemma MapState.Gives.mapped_inserted :
    MapState.mapped { s.alloc object area with memAreas := object :: s.memAreas } = area :: s.mapped := by
  have hSplit : MapState.mapped { s.alloc object area with memAreas := object :: s.memAreas } =
      (s.alloc object area).area object :: (s.alloc object area).mapped := rfl
  rw [hSplit, h.mapped_alloc]
  exact congrArg (· :: s.mapped) (update_self _ _ _)

end

def MapState.prepared (s : MapState) (args : MapArgs) (object : AreaRef) : MapState :=
  { s with fs := countUp s.fs args.filep }.alloc object args.area

lemma vfsMapAreaCall_other (hOp : (s.fs.file args.filep).op ≠ .smemfs) : vfsMapAreaCall s args object = (s, -EINVAL) := by
  have hNone : FileOps.mapArea (s.fs.file args.filep).op = none := by
    cases hCase : (s.fs.file args.filep).op with
    | smemfs => exact absurd hCase hOp
    | _ => rfl
  rw [vfsMapAreaCall, hNone]

lemma vfsMapAreaCall_full (hOp : (s.fs.file args.filep).op = .smemfs) : vfsMapAreaCall s args none = (s, -ENOMEM) := by
  rw [vfsMapAreaCall, hOp]
  rfl

lemma vfsMapAreaCall_smemfs {area : AreaRef} (hOp : (s.fs.file args.filep).op = .smemfs) (hGives : s.Gives (some area)) :
    vfsMapAreaCall s args (some area) = if memAreaCheckRange s.mapped args.area then (s.prepared args area, -1)
      else ({ s.prepared args area with memAreas := area :: s.memAreas }, 0) := by
  have hCounted : MapState.Gives { s with fs := countUp s.fs args.filep } (some area) := ⟨hGives.inUse, hGives.fresh⟩
  rw [vfsMapAreaCall, hOp]
  exact hCounted.insert_alloc args.area

/-- A call for a segment, as `sys_execve` makes it, does to the files and areas what the call with an object does. -/
lemma vfsMapArea_refined {r : ExecFds} {cur : ProcRef} {segment : ElfSegment} (hGives : s.Gives object)
    (hFs : r.fds.fs = s.fs) (hAreas : (r.fds.proc cur).memAreas = s.mapped)
    (hArea : segment.area args.filep = args.area) (hObject : segment.allocated = object.isSome) :
    (vfsMapArea r cur args.filep segment).2 = (vfsMapAreaCall s args object).2 ∧
      (vfsMapArea r cur args.filep segment).1.fds.fs = (vfsMapAreaCall s args object).1.fs ∧
      ((vfsMapArea r cur args.filep segment).1.fds.proc cur).memAreas = (vfsMapAreaCall s args object).1.mapped := by
  rw [vfsMapArea, hFs, hAreas, hArea]
  by_cases hOp : (s.fs.file args.filep).op = .smemfs
  · rw [if_neg (not_not_intro hOp)]
    cases object with
    | none =>
      rw [if_pos (show segment.allocated = false from hObject), vfsMapAreaCall_full hOp]
      exact ⟨rfl, hFs, hAreas⟩
    | some area =>
      rw [if_neg (by simp [hObject]), vfsMapAreaCall_smemfs hOp hGives, memAreaInsert]
      split
      · exact ⟨rfl, rfl, (congrArg FileProc.memAreas (update_self _ _ _)).trans (hGives.mapped_alloc _).symm⟩
      · exact ⟨rfl, rfl, (congrArg FileProc.memAreas (update_self _ _ _)).trans (hGives.mapped_inserted _).symm⟩
  · rw [if_pos hOp, vfsMapAreaCall_other hOp]
    exact ⟨rfl, hFs, hAreas⟩

lemma countUp_count (fs : FileState) (filep : FileRef) :
    ((countUp fs filep).file filep).count = (fs.file filep).count + 1 := by
  simp [countUp, FileState.setFile]

/-- A failed call leaves nothing behind if and only if the file cannot be mapped, there is no object, or no area meets
the new one. -/
theorem maps_whole_iff (s : MapState) (args : MapArgs) (object : Option AreaRef) (hGives : s.Gives object) :
    MapsWhole s args (vfsMapAreaCall s args object) ↔
      (s.fs.file args.filep).op ≠ .smemfs ∨ object = none ∨ memAreaCheckRange s.mapped args.area = false := by
  by_cases hOp : (s.fs.file args.filep).op = .smemfs
  · cases object with
    | none =>
      rw [vfsMapAreaCall_full hOp]
      refine iff_of_true ⟨fun _ => ⟨rfl, rfl, rfl⟩, fun hZero => ?_⟩ (Or.inr (Or.inl rfl))
      exact absurd (show -ENOMEM = 0 from hZero) (by decide)
    | some area =>
      rw [vfsMapAreaCall_smemfs hOp hGives]
      cases hMeets : memAreaCheckRange s.mapped args.area with
      | true =>
        rw [if_pos rfl]
        refine iff_of_false (fun hWhole => ?_) (by simp [hOp])
        have hCount : ((countUp s.fs args.filep).file args.filep).count = _ :=
          (hWhole.failed (show (-1 : Int) ≠ 0 by decide)).1
        rw [countUp_count] at hCount
        omega
      | false =>
        rw [if_neg Bool.false_ne_true]
        refine iff_of_true ⟨fun hNot => absurd rfl hNot, fun _ => ⟨countUp_count _ _, rfl, ?_⟩⟩ (Or.inr (Or.inr rfl))
        exact hGives.mapped_inserted args.area
  · rw [vfsMapAreaCall_other hOp]
    refine iff_of_true ⟨fun _ => ⟨rfl, rfl, rfl⟩, fun hZero => ?_⟩ (Or.inl hOp)
    exact absurd (show -EINVAL = 0 from hZero) (by decide)

end

def oneMapped : MapState where
  fs := ⟨fun _ => ⟨0, O_RDONLY, none, .smemfs, 1, .null⟩, {3}, fun _ => 0, ∅, 0, 0, fun _ => 0⟩
  live := [0]
  area := fun _ => ⟨0x400000, 0x1000, .anon⟩
  memAreas := [0]

lemma oneMapped_gives : oneMapped.Gives (some 1) where
  inUse := by decide
  fresh := by
    rintro _ ⟨⟩
    decide

theorem maps_whole_behind : MapsWhole oneMapped ⟨3, 0x800, 0, 0x401000, 0, 0⟩
    (vfsMapAreaCall oneMapped ⟨3, 0x800, 0, 0x401000, 0, 0⟩ (some 1)) :=
  (maps_whole_iff _ _ _ oneMapped_gives).mpr (Or.inr (Or.inr (by decide)))

/-- A segment that meets it: the call fails, but the file is counted once more and the object is lost. -/
theorem overlay_keeps_reference : (vfsMapAreaCall oneMapped ⟨3, 0x800, 0, 0x400800, 0, 0⟩ (some 1)).2 = -1 ∧
      ((vfsMapAreaCall oneMapped ⟨3, 0x800, 0, 0x400800, 0, 0⟩ (some 1)).1.fs.file 3).count =
        (oneMapped.fs.file 3).count + 1 ∧
      (vfsMapAreaCall oneMapped ⟨3, 0x800, 0, 0x400800, 0, 0⟩ (some 1)).1.live = [1, 0] ∧
      (vfsMapAreaCall oneMapped ⟨3, 0x800, 0, 0x400800, 0, 0⟩ (some 1)).1.memAreas = [0] := by
  have hMeets : memAreaCheckRange oneMapped.mapped (MapArgs.area ⟨3, 0x800, 0, 0x400800, 0, 0⟩) = true := by decide
  rw [vfsMapAreaCall_smemfs rfl oneMapped_gives, if_pos hMeets]
  exact ⟨rfl, countUp_count _ _, rfl, rfl⟩

end Fixos.Sys
