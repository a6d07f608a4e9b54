import Mathlib.Data.List.GetD
import Fixos.Sys.Files

/-! # What the descriptor calls do to the references

Which struct files a call touches, and how the references to each file change.
-/

namespace Fixos.Sys

open Fs RefCount Option Function List

/-- `dup` meets a full table or a descriptor outside of it, and `dup2` has nothing to duplicate or nowhere to put it. -/
def FdAction.NoDup (k : FdState) : FdAction → Prop
  | .dup cur oldfd => (k.proc cur).freeFd 0 ≥ processMaxFile ∨ oldfd < 0 ∨ oldfd ≥ processMaxFile
  | .dup2 cur oldfd newfd =>
    oldfd = newfd ∨ newfd < 0 ∨ newfd ≥ processMaxFile ∨ (k.proc cur).fileOf oldfd = none
  | _ => True

instance (k : FdState) : (a : FdAction) → Decidable (a.NoDup k)
  | .dup .. | .dup2 .. => inferInstanceAs (Decidable (_ ∨ _))
  | .openName .. | .pipe2 .. | .close .. | .fork .. | .exit _ => isTrue trivial

def FdAction.drops (k : FdState) : FdAction → List FileRef
  | .close cur fd => ((k.proc cur).fileOf fd).toList
  | .exit cur => (k.proc cur).refs
  | _ => []

structure FdState.Tidy (k : FdState) : Prop where
  nodup : k.live.Nodup
  disjoint : ∀ p ∈ k.live, Disjoint (k.proc p).memAreas

inductive FdEffect (k : FdState) (a : FdAction) (k' : FdState) : Prop
  | unchanged (hFs : k'.fs = k.fs) (hRefs : ∀ s, k'.refs s = k.refs s)
  | failed (filep : FileRef) (file : File) (hFree : filep ∉ k.fs.inUse)
      (hFs : k'.fs = k.fs.setFile filep file) (hRefs : ∀ s, k'.refs s = k.refs s)
  | opened (filep : FileRef) (hFree : filep ∉ k.fs.inUse) (hFs : Opened k.fs filep k'.fs)
      (hRefs : ∀ s, k'.refs s = k.refs s + if filep = s then 1 else 0)
  | piped (cur : ProcRef) (fin fout : FileRef) (page : PageRef)
      (hAction : a = .pipe2 cur (some fin) (some fout) (some page))
      (hFds : (k.proc cur).freeFd ((k.proc cur).freeFd 0 + 1) < processMaxFile)
      (hFs : k'.fs = (pipeCreate k.fs (some fin) (some fout) (some page)).1)
      (hRefs : ∀ s, k'.refs s =
        k.refs s + (if fin = s then 1 else 0) + if fout = s then 1 else 0)
  | acquired (rs : List FileRef) (hHeld : ∀ r ∈ rs, k.refs r ≠ 0)
      (hFs : k'.fs = rs.foldl countUp k.fs) (hRefs : ∀ s, k'.refs s = k.refs s + rs.count s)
  | dropped (hFs : k'.fs = (a.drops k).foldl (fun fs filep => (vfsClose fs filep).1) k.fs)
      (hRefs : ∀ s, k.refs s = k'.refs s + (a.drops k).count s)

lemma FileProc.count_refs (proc : FileProc) (filep : FileRef) : proc.refs.count filep = proc.files.count (some filep) +
      proc.memAreas.countP fun area => area.filep == some filep := by
  rw [refs, count_append, count_filterMap, count_filterMap]
  rfl

lemma FdState.refs_eq (k : FdState) (filep : FileRef) : k.refs filep = k.slotRefs filep + k.areaRefs filep := by
  simp [refs, total, FileProc.count_refs, slotRefs, areaRefs]

variable {k : FdState} {p : ProcRef}

lemma FdState.refs_setProc (hNodup : k.live.Nodup) (hLive : p ∈ k.live) (fs : FileState) (proc : FileProc)
    (filep : FileRef) :
    ({ k with fs }.setProc p proc).refs filep + (k.proc p).refs.count filep = k.refs filep + proc.refs.count filep := by
  have hHeld : (fun q => (update k.proc p proc q).refs) = update (fun q => (k.proc q).refs) p proc.refs := by
    funext q
    exact apply_update (fun _ => FileProc.refs) k.proc p proc q
  have hUpdate := total_update hNodup hLive (fun p => (k.proc p).refs) proc.refs filep
  rw [← hHeld] at hUpdate
  exact hUpdate

variable {fd : Nat}

lemma FileProc.count_setFd (proc : FileProc) (hFd : fd < processMaxFile) (slot : Option FileRef) (filep : FileRef) :
    (proc.setFd fd slot).refs.count filep + (if proc.files.getD fd none = some filep then 1 else 0) =
      proc.refs.count filep + if slot = some filep then 1 else 0 := by
  have hLt : fd < proc.files.length := proc.length_files ▸ hFd
  have hOld : proc.files.getD fd none = proc.files[fd] := getD_eq_getElem _ _ hLt
  have hCounted : proc.files[fd] = some filep → 0 < proc.files.count (some filep) := by
    intro hSlot
    exact count_pos_iff.mpr (hSlot ▸ getElem_mem hLt)
  rw [count_refs, count_refs, hOld]
  simp only [setFd, count_set hLt, beq_iff_eq]
  split
  · rename_i hSlot
    have hPos := hCounted hSlot
    omega
  · omega

variable {proc : FileProc}

lemma FileProc.freeFd_spec {start : Nat} (h : proc.freeFd start < processMaxFile) :
    start ≤ proc.freeFd start ∧ proc.files.getD (proc.freeFd start) none = none := by
  refine ⟨Nat.le_add_right _ _, ?_⟩
  have hLt : (proc.files.drop start).findIdx (fun slot => slot.isNone) < (proc.files.drop start).length := by
    rw [length_drop, proc.length_files]
    unfold freeFd at h
    omega
  have hNone := findIdx_getElem (w := hLt)
  rw [getElem_drop] at hNone
  rw [getD_eq_getElem _ _ (proc.length_files ▸ h)]
  exact isNone_iff_eq_none.mp hNone

lemma FileProc.fileOf_eq_some {fd : Int} {filep : FileRef} (h : proc.fileOf fd = some filep) :
    fd.toNat < processMaxFile ∧ proc.files.getD fd.toNat none = some filep := by
  unfold fileOf at h
  split at h
  · exact ⟨by omega, h⟩
  · cases h

lemma FdState.refs_ne_zero (hLive : p ∈ k.live) {filep : FileRef} (h : filep ∈ (k.proc p).refs) : k.refs filep ≠ 0 := by
  have hPos : 0 < (k.proc p).refs.count filep := count_pos_iff.mpr h
  have hLe := le_total hLive (fun p => (k.proc p).refs) filep
  exact Nat.ne_of_gt (Nat.lt_of_lt_of_le hPos hLe)

lemma FdState.Tidy.setProc (h : k.Tidy) (fs : FileState) (hAreas : proc.memAreas = (k.proc p).memAreas) :
    ({ k with fs }.setProc p proc).Tidy := by
  refine ⟨h.nodup, fun q hq => ?_⟩
  rcases eq_or_ne q p with rfl | hNe
  · simp only [FdState.setProc, update_self, hAreas]
    exact h.disjoint q hq
  · simp only [FdState.setProc, update_of_ne hNe]
    exact h.disjoint q hq

variable {cur : ProcRef}

lemma FdState.refs_fill (h : k.Tidy) (hLive : cur ∈ k.live) (fs : FileState) (proc : FileProc)
    (hProc : proc.refs = (k.proc cur).refs) (hFd : fd < processMaxFile) (hEmpty : proc.files.getD fd none = none)
    (slot : Option FileRef) (s : FileRef) :
    ({ k with fs }.setProc cur (proc.setFd fd slot)).refs s = k.refs s + if slot = some s then 1 else 0 := by
  have hProcess := k.refs_setProc h.nodup hLive fs (proc.setFd fd slot) s
  have hSlot := proc.count_setFd hFd slot s
  rw [hEmpty, if_neg (by simp), hProc] at hSlot
  omega

lemma sysOpen_effect (h : k.Tidy) {inode : Option Inode} {flags : BitVec 32} {object : Option FileRef}
    (hEnabled : (FdAction.openName cur inode flags object).Enabled k) :
    FdEffect k (.openName cur inode flags object) (sysOpen k cur inode flags object).1 ∧
      (sysOpen k cur inode flags object).1.Tidy := by
  obtain ⟨hLive, hFree⟩ := hEnabled
  simp only [sysOpen]
  split
  · rename_i hFd
    obtain ⟨_, hEmpty⟩ := FileProc.freeFd_spec hFd
    cases inode with
    | none => exact ⟨.unchanged rfl fun _ => rfl, h⟩
    | some inode =>
      simp only
      cases hOpen : vfsOpen k.fs inode (flags &&& ~~~O_CLOEXEC) object with
      | mk fs result =>
        have hRefs := k.refs_fill h hLive fs ((k.proc cur).setFlags ((k.proc cur).freeFd 0)
            (if flags &&& O_CLOEXEC ≠ 0 then FD_CLOEXEC else 0)) rfl hFd hEmpty result
        refine ⟨?_, h.setProc fs rfl⟩
        rcases vfsOpen_cases hFree hOpen with ⟨rfl, rfl⟩ | ⟨filep, file, rfl, rfl, rfl⟩ | ⟨filep, rfl, rfl, hOpened⟩
        · exact .unchanged rfl fun s => by simpa using hRefs s
        · exact .failed filep file (hFree filep rfl) rfl fun s => by simpa using hRefs s
        · exact .opened filep (hFree filep rfl) hOpened fun s => by simpa using hRefs s
  · exact ⟨.unchanged rfl fun _ => rfl, h⟩

lemma FileProc.getD_setFd_ne (proc : FileProc) {other : Nat} (h : other ≠ fd) (slot : Option FileRef) :
    (proc.setFd fd slot).files.getD other none = proc.files.getD other none := by
  rw [setFd, getD_eq_getElem?_getD, getElem?_set_ne h.symm, ← getD_eq_getElem?_getD]

lemma sysPipe2_effect (h : k.Tidy) {objIn objOut : Option FileRef} {page : Option PageRef} (hLive : cur ∈ k.live) :
    FdEffect k (.pipe2 cur objIn objOut page) (sysPipe2 k cur objIn objOut page).1 ∧
      (sysPipe2 k cur objIn objOut page).1.Tidy := by
  simp only [sysPipe2]
  split_ifs with hFds
  · obtain ⟨hIn, hOut⟩ := hFds
    obtain ⟨_, hEmptyIn⟩ := FileProc.freeFd_spec hIn
    obtain ⟨_, hEmptyOut⟩ := FileProc.freeFd_spec hOut
    rcases objIn with _ | fin
    · exact ⟨.unchanged rfl fun _ => rfl, h⟩
    · rcases objOut with _ | fout
      · exact ⟨.unchanged rfl fun _ => rfl, h⟩
      · rcases page with _ | page
        · exact ⟨.unchanged rfl fun _ => rfl, h⟩
        · refine ⟨.piped cur fin fout page rfl hOut rfl fun s => ?_, h.setProc _ rfl⟩
          have hProcess := k.refs_setProc h.nodup hLive (pipeCreate k.fs (some fin) (some fout) (some page)).1
            (((k.proc cur).setFd ((k.proc cur).freeFd 0) (some fin)).setFd
              ((k.proc cur).freeFd ((k.proc cur).freeFd 0 + 1)) (some fout)) s
          have hFirst := (k.proc cur).count_setFd hIn (some fin) s
          have hSecond := ((k.proc cur).setFd ((k.proc cur).freeFd 0) (some fin)).count_setFd hOut (some fout) s
          rw [FileProc.getD_setFd_ne _ (by omega), hEmptyOut, if_neg (by simp)] at hSecond
          rw [hEmptyIn, if_neg (by simp)] at hFirst
          simp only [some.injEq] at hFirst hSecond
          simp only [pipeCreate] at hProcess ⊢
          omega
  · exact ⟨.unchanged rfl fun _ => rfl, h⟩

lemma sysClose_effect (h : k.Tidy) (hLive : cur ∈ k.live) (fd : Int) :
    FdEffect k (.close cur fd) (sysClose k cur fd).1 ∧ (sysClose k cur fd).1.Tidy := by
  simp only [sysClose]
  cases hFile : (k.proc cur).fileOf fd with
  | none => exact ⟨.unchanged rfl fun _ => rfl, h⟩
  | some filep =>
    obtain ⟨hFd, hSlot⟩ := FileProc.fileOf_eq_some hFile
    refine ⟨.dropped ?_ fun s => ?_, h.setProc _ rfl⟩
    · simp only [FdAction.drops, hFile, toList_some, foldl_cons, foldl_nil]
      rfl
    · have hProcess := k.refs_setProc h.nodup hLive (vfsClose k.fs filep).1 ((k.proc cur).setFd fd.toNat none) s
      have hCount := (k.proc cur).count_setFd hFd none s
      rw [hSlot, if_neg (by simp : ¬ none = some s)] at hCount
      simp only [some.injEq] at hCount
      simp only [FdAction.drops, hFile, toList_some, count_singleton, beq_iff_eq]
      omega

lemma sysDup_refused {oldfd : Int} (h : (FdAction.dup cur oldfd).NoDup k) :
    (sysDup k cur oldfd).1 = k ∧ (sysDup k cur oldfd).2 < 0 := by
  simp only [sysDup]
  split
  · exact ⟨rfl, show -EMFILE < 0 by decide⟩
  · rename_i hFree
    rw [if_pos (h.resolve_left hFree)]
    exact ⟨rfl, show -EBADF < 0 by decide⟩

lemma sysDup2_unchanged {oldfd newfd : Int} (h : (FdAction.dup2 cur oldfd newfd).NoDup k) :
    (sysDup2 k cur oldfd newfd).1 = k := by
  simp only [sysDup2]
  split
  · rfl
  · cases hFile : (k.proc cur).fileOf oldfd with
    | none => rfl
    | some filep =>
      have hSame : oldfd = newfd := by
        rcases h with hSame | _ | _ | hNone
        · exact hSame
        · omega
        · omega
        · rw [hFile] at hNone
          cases hNone
      simp [hSame]

lemma cloneAreas_eq {areas : List MemArea} (h : Disjoint areas) (copies : List MemArea)
    (fs : FileState) (hApart : ∀ area ∈ areas, ∀ copy ∈ copies, copy.meets area = false) :
    areas.foldl (fun (fs, copies) area => (memAreaClone fs area, (memAreaInsert copies area).1)) (fs, copies) =
      ((areas.filterMap MemArea.filep).foldl countUp fs, areas.reverse ++ copies) := by
  induction areas generalizing copies fs with
  | nil => rfl
  | cons area areas ih =>
    obtain ⟨hFirst, hRest⟩ := pairwise_cons.mp h
    have hInsert := memAreaInsert_of_disjoint (hApart area mem_cons_self)
    simp only [foldl_cons, hInsert]
    rw [ih hRest (area :: copies) (memAreaClone fs area)]
    · rw [reverse_cons, append_assoc]
      cases hFile : area.filep with
      | none => simp [memAreaClone, hFile]
      | some filep =>
        simp [memAreaClone, hFile, foldl_cons]
    · intro other hOther copy hCopy
      rcases mem_cons.mp hCopy with rfl | hCopy
      · exact hFirst other hOther
      · exact hApart other (mem_cons_of_mem area hOther) copy hCopy

lemma forkAreas_eq {areas : List MemArea} (h : Disjoint areas) (fs : FileState) :
    forkAreas fs areas = ((areas.filterMap MemArea.filep).foldl countUp fs, areas.reverse) := by
  have hAll := cloneAreas_eq h [] fs (by simp)
  rwa [append_nil] at hAll

lemma forkFiles_effect (h : k.Tidy) {fresh : ProcRef} (hLive : cur ∈ k.live) (hFresh : fresh ∉ k.live) :
    FdEffect k (.fork cur fresh) (forkFiles k cur fresh) ∧ (forkFiles k cur fresh).Tidy := by
  have hAreas := h.disjoint cur hLive
  simp only [forkFiles, forkAreas_eq hAreas]
  constructor
  · refine .acquired (k.proc cur).refs (fun r hr => k.refs_ne_zero hLive hr) ?_ fun s => ?_
    · simp [FileProc.refs]
    · have hSame : ∀ q ∈ k.live, update k.proc fresh
          { k.proc cur with memAreas := (k.proc cur).memAreas.reverse } q = k.proc q := by
        intro q hq
        refine update_of_ne ?_ _ _
        rintro rfl
        exact hFresh hq
      have hOld : total k.live (fun q => (update k.proc fresh
          { k.proc cur with memAreas := (k.proc cur).memAreas.reverse } q).refs) s =
          total k.live (fun q => (k.proc q).refs) s :=
        total_congr (fun q hq => congrArg FileProc.refs (hSame q hq)) s
      simp only [FdState.refs, total_cons, update_self]
      rw [hOld, FileProc.count_refs, FileProc.count_refs, countP_reverse, Nat.add_comm]
  · refine ⟨nodup_cons.mpr ⟨hFresh, h.nodup⟩, fun q hq => ?_⟩
    simp only
    rcases mem_cons.mp hq with rfl | hOld
    · rw [update_self]
      refine pairwise_reverse.mpr (hAreas.imp fun {a b} hApart => ?_)
      rw [MemArea.meets_comm, hApart]
    · have hNe : q ≠ fresh := by
        rintro rfl
        exact hFresh hOld
      rw [update_of_ne hNe]
      exact h.disjoint q hOld

lemma terminateFiles_effect (h : k.Tidy) (hLive : cur ∈ k.live) :
    FdEffect k (.exit cur) (terminateFiles k cur) ∧ (terminateFiles k cur).Tidy := by
  have hOther : ∀ q ∈ k.live.erase cur, q ≠ cur := fun q hq => ((List.Nodup.mem_erase_iff h.nodup).mp hq).1
  constructor
  · refine .dropped ?_ fun s => ?_
    · simp [terminateFiles, FdAction.drops, FileProc.refs]
    · have hOld := total_erase hLive (fun p => (k.proc p).refs) s
      have hSame : total (k.live.erase cur) (fun p => ((terminateFiles k cur).proc p).refs) s =
          total (k.live.erase cur) (fun p => (k.proc p).refs) s :=
        total_congr (fun q hq => congrArg FileProc.refs (update_of_ne (hOther q hq) _ _)) s
      simp only [FdState.refs, FdAction.drops]
      exact hOld.trans (congrArg (· + _) hSame.symm)
  · refine ⟨h.nodup.erase cur, fun q hq => ?_⟩
    simp only [terminateFiles, update_of_ne (hOther q hq)]
    exact h.disjoint q (mem_of_mem_erase hq)

lemma FdState.step_effect {k' : FdState} {a : FdAction} (h : k.Tidy) (hNoDup : a.NoDup k)
    (hStep : k.step a = some k') : FdEffect k a k' ∧ k'.Tidy := by
  obtain ⟨hEnabled, ⟨⟩⟩ := ite_none_right_eq_some.mp hStep
  cases a with
  | openName cur inode flags object => exact sysOpen_effect h hEnabled
  | pipe2 cur objIn objOut page => exact sysPipe2_effect h hEnabled.1
  | close cur fd => exact sysClose_effect h hEnabled fd
  | dup cur oldfd =>
    have hSame := (sysDup_refused hNoDup).1
    simp only [FdAction.call, hSame]
    exact ⟨.unchanged rfl fun _ => rfl, h⟩
  | dup2 cur oldfd newfd =>
    have hSame := sysDup2_unchanged hNoDup
    simp only [FdAction.call, hSame]
    exact ⟨.unchanged rfl fun _ => rfl, h⟩
  | fork cur fresh => exact forkFiles_effect h hEnabled.1 hEnabled.2
  | exit cur => exact terminateFiles_effect h hEnabled

end Fixos.Sys
