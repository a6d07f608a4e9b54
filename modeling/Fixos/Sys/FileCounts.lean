import Fixos.Lib.Run
import Fixos.Sys.FileEffects

/-! # The reference count of struct files

The `count` field is the number of slots and areas that point to the file, over every run without `dup` and `dup2` in
which a new pipe end happens to get an object whose left-over count is one.
-/

namespace Fixos.Sys

open Fs RefCount Transition Function List

def countStore (fs : FileState) : Store FileRef := ⟨fun filep => (fs.file filep).count, fs.inUse⟩

section

variable (fs : FileState) (filep : FileRef)
include fs filep

lemma callRelease_file : (callRelease fs filep).1.file = fs.file ∧ (callRelease fs filep).1.inUse = fs.inUse := by
  unfold callRelease
  cases (fs.file filep).op with
  | pipe =>
    simp only [FileOps.release, pipeRelease]
    split <;> exact ⟨rfl, rfl⟩
  | fxkdb => exact ⟨rfl, rfl⟩
  | display =>
    simp only [FileOps.release, displayRelease]
    split <;> exact ⟨rfl, rfl⟩
  | ttydev | smemfs | directory => exact ⟨rfl, rfl⟩

lemma countStore_setFile (file : File) : countStore (fs.setFile filep file) =
      ⟨update (countStore fs).count filep file.count, fs.inUse⟩ := by
  have hCount : (fun f => (update fs.file filep file f).count) = update (fun f => (fs.file f).count) filep file.count := by
    funext f
    exact apply_update (fun _ => File.count) fs.file filep file f
  simp [countStore, FileState.setFile, hCount]

lemma countStore_vfsClose : countStore (vfsClose fs filep).1 = (countStore fs).drop filep := by
  obtain ⟨hFile, hUse⟩ := callRelease_file fs filep
  have hStore : countStore (callRelease fs filep).1 = countStore fs := by
    simp [countStore, hFile, hUse]
  simp only [vfsClose, Store.drop, ← hStore]
  generalize (callRelease fs filep).1 = rel
  have hClosed := countStore_setFile rel filep { rel.file filep with count := (rel.file filep).count - 1 }
  have hCount : ((rel.setFile filep { rel.file filep with count := (rel.file filep).count - 1 }).file filep).count =
      (countStore rel).count filep - 1 := by
    simp [FileState.setFile, countStore]
  rw [hCount]
  split
  · exact congrArg (fun c : Store FileRef => Store.mk c.count (c.inUse.erase filep)) hClosed
  · exact hClosed

lemma countStore_countUp : countStore (countUp fs filep) = (countStore fs).acquire filep := countStore_setFile fs filep _

end

lemma countStore_closes (fs : FileState) (rs : List FileRef) :
    countStore (rs.foldl (fun fs filep => (vfsClose fs filep).1) fs) = rs.foldl Store.drop (countStore fs) :=
  (foldl_hom countStore (fun _ _ => (countStore_vfsClose _ _).symm)).symm

lemma countStore_countUps (fs : FileState) (rs : List FileRef) :
    countStore (rs.foldl countUp fs) = rs.foldl Store.acquire (countStore fs) :=
  (foldl_hom countStore (fun _ _ => (countStore_countUp _ _).symm)).symm

variable {fs : FileState} {filep : FileRef}

lemma countStore_opened {fs' : FileState} (h : Opened fs filep fs') : countStore fs' = (countStore fs).take filep 1 := by
  have hSet := countStore_setFile fs filep (fs'.file filep)
  rw [h.count] at hSet
  rw [h.rest]
  exact congrArg (fun c : Store FileRef => Store.mk c.count (insert filep c.inUse)) hSet

lemma countStore_pipeCreate {fin fout : FileRef} (page : PageRef) (hNe : fin ≠ fout) :
    countStore (pipeCreate fs (some fin) (some fout) (some page)).1 =
      ((countStore fs).take fin (fs.file fin).count).take fout (fs.file fout).count := by
  simp only [pipeCreate, vfsFileAlloc]
  rw [countStore_setFile, countStore_setFile]
  simp only [FileState.setFile, update_of_ne hNe.symm]
  rfl

structure FdState.Counted (k : FdState) : Prop where
  tidy : k.Tidy
  balanced : Balanced (countStore k.fs) k.refs

/-- Nothing is duplicated, and a pipe gets objects that were left with a count of one. -/
def FdAction.Counts (k : FdState) : FdAction → Prop
  | .pipe2 cur objIn objOut page =>
    (k.proc cur).freeFd ((k.proc cur).freeFd 0 + 1) < processMaxFile → page.isSome →
      ∀ fin ∈ objIn, ∀ fout ∈ objOut, (k.fs.file fin).count = 1 ∧ (k.fs.file fout).count = 1
  | a => a.NoDup k

instance (k : FdState) : (a : FdAction) → Decidable (a.Counts k)
  | .pipe2 .. => inferInstanceAs (Decidable (_ → _ → _))
  | .dup .. | .dup2 .. => inferInstanceAs (Decidable (_ ∨ _))
  | .openName .. | .close .. | .fork .. | .exit _ => isTrue trivial

variable {k : FdState} {a : FdAction}

lemma FdAction.Counts.noDup (h : a.Counts k) : a.NoDup k := by
  cases a with
  | pipe2 cur objIn objOut page => trivial
  | openName cur inode flags object => trivial
  | close cur fd => trivial
  | dup cur oldfd => exact h
  | dup2 cur oldfd newfd => exact h
  | fork cur fresh => trivial
  | exit cur => trivial

lemma Balanced_setFile {refs : FileRef → Nat} (h : Balanced (countStore fs) refs) (hFree : filep ∉ fs.inUse) (file : File) :
    Balanced (countStore (fs.setFile filep file)) refs := by
  rw [countStore_setFile]
  refine ⟨fun f hf => ?_, h.inUse_of_refs⟩
  have hNe : f ≠ filep := by
    rintro rfl
    exact hFree hf
  simp only [update_of_ne hNe]
  exact h.count_eq f hf

lemma FdEffect.balanced {k' : FdState} (extra : FileRef → Nat) (hEffect : FdEffect k a k')
    (hEnabled : a.Enabled k) (hCounts : a.Counts k) (h : Balanced (countStore k.fs) fun f => k.refs f + extra f) :
    Balanced (countStore k'.fs) fun f => k'.refs f + extra f := by
  cases hEffect with
  | unchanged hFs hRefs =>
    rw [hFs, funext hRefs]
    exact h
  | failed filep file hFree hFs hRefs =>
    rw [hFs, funext hRefs]
    exact Balanced_setFile h hFree file
  | opened filep hFree hFs hRefs =>
    rw [countStore_opened hFs]
    exact h.take hFree fun s => by rw [hRefs s, Nat.add_right_comm]
  | piped cur fin fout page hAction hFds hFs hRefs =>
    subst hAction
    obtain ⟨_, hFreeIn, hFreeOut, hOther, _⟩ := hEnabled
    have hNe : fin ≠ fout := by
      rintro rfl
      exact hOther fin rfl rfl
    obtain ⟨hIn, hOut⟩ := hCounts hFds rfl fin rfl fout rfl
    have hTaken := h.take (hFreeIn fin rfl) fun _ => rfl
    rw [hFs, countStore_pipeCreate page hNe, hIn, hOut]
    refine hTaken.take ?_ fun s => ?_
    · simpa [Store.take, countStore, hNe.symm] using hFreeOut fout rfl
    · have hRef := hRefs s
      omega
  | acquired rs hHeld hFs hRefs =>
    rw [hFs, countStore_countUps]
    refine h.acquireAll rs (fun r hr => h.inUse_of_refs r ?_) fun s => by rw [hRefs s, Nat.add_right_comm]
    have hRef := hHeld r hr
    omega
  | dropped hFs hRefs =>
    rw [hFs, countStore_closes]
    exact h.dropAll _ fun s => by rw [hRefs s, Nat.add_right_comm]

lemma FdEffect.referenced {k' : FdState} (hEffect : FdEffect k a k') (hEnabled : a.Enabled k)
    (hBalanced : Balanced (countStore k.fs) k.refs) (h : Referenced (countStore k.fs) k.refs) :
    Referenced (countStore k'.fs) k'.refs := by
  cases hEffect with
  | unchanged hFs hRefs =>
    rw [hFs, funext hRefs]
    exact h
  | failed filep file hFree hFs hRefs =>
    rw [hFs, funext hRefs, countStore_setFile]
    exact h
  | opened filep hFree hFs hRefs =>
    rw [countStore_opened hFs]
    exact h.take hRefs
  | piped cur fin fout page hAction hFds hFs hRefs =>
    subst hAction
    obtain ⟨_, _, _, hOther, _⟩ := hEnabled
    have hNe : fin ≠ fout := by
      rintro rfl
      exact hOther fin rfl rfl
    rw [hFs, countStore_pipeCreate page hNe]
    exact (h.take fun _ => rfl).take hRefs
  | acquired rs hHeld hFs hRefs =>
    rw [hFs, countStore_countUps]
    intro r hr
    rw [Store.acquireAll_inUse] at hr
    exact h.mono (fun s => by rw [hRefs s]; exact Nat.le_add_right _ _) r hr
  | dropped hFs hRefs =>
    rw [hFs, countStore_closes]
    exact h.dropAll hBalanced _ hRefs

lemma FdState.Counted.step {k' : FdState} (h : k.Counted) (hCounts : a.Counts k)
    (hStep : k.step a = some k') : k'.Counted := by
  have hEnabled := (Option.ite_none_right_eq_some.mp hStep).1
  obtain ⟨hEffect, hTidy⟩ := FdState.step_effect h.tidy hCounts.noDup hStep
  exact ⟨hTidy, FdEffect.balanced (fun _ => 0) hEffect hEnabled hCounts h.balanced⟩

lemma sysDup2_open {cur : ProcRef} {oldfd newfd : Int}
    (h : 0 ≤ (sysDup2 k cur oldfd newfd).2) : ((k.proc cur).fileOf oldfd).isSome := by
  simp only [sysDup2] at h
  split at h
  · exact absurd h (show ¬ (0 : Int) ≤ -EBADF by decide)
  · cases hFile : (k.proc cur).fileOf oldfd with
    | none =>
      rw [hFile] at h
      exact absurd h (show ¬ (0 : Int) ≤ -EBADF by decide)
    | some filep => rfl

/-- In every run of calls that meet the condition, files are counted by the slots and areas that point to them, none
points to a freed one, and `dup` and `dup2` succeed only on an open descriptor. -/
theorem file_counts_match {k₀ k : FdState} {actions : List FdAction} (hInit : k₀.Counted)
    (hRun : Run FdState.step (fun k a => a.Counts k) k₀ actions k) :
    (∀ f ∈ k.fs.inUse, (k.fs.file f).count = k.slotRefs f + k.areaRefs f) ∧
    (∀ p ∈ k.live, ∀ f, some f ∈ (k.proc p).files → f ∈ k.fs.inUse) ∧
    (∀ p ∈ k.live, ∀ area ∈ (k.proc p).memAreas, ∀ f ∈ area.filep, f ∈ k.fs.inUse) ∧
    (∀ cur oldfd, (FdAction.dup cur oldfd).Counts k → 0 ≤ (sysDup k cur oldfd).2 → ((k.proc cur).fileOf oldfd).isSome) ∧
    ∀ cur oldfd newfd, 0 ≤ (sysDup2 k cur oldfd newfd).2 → ((k.proc cur).fileOf oldfd).isSome := by
  have hCounted : k.Counted := hRun.invariant (fun _ _ _ hCounts h hStep => h.step hCounts hStep) hInit
  have hHeld : ∀ p ∈ k.live, ∀ f ∈ (k.proc p).refs, f ∈ k.fs.inUse := fun p hp f hf =>
    hCounted.balanced.inUse_of_refs f (k.refs_ne_zero hp hf)
  refine ⟨fun f hf => ?_, fun p hp f hf => ?_, fun p hp area hArea f hf => ?_, ?_, ?_⟩
  · have hCount := hCounted.balanced.count_eq f hf
    rw [k.refs_eq f] at hCount
    exact_mod_cast hCount
  · exact hHeld p hp f (mem_append_left _ (mem_filterMap.mpr ⟨some f, hf, rfl⟩))
  · exact hHeld p hp f (mem_append_right _ (mem_filterMap.mpr ⟨area, hArea, hf⟩))
  · intro cur oldfd hCounts hRet
    exact absurd hRet (not_le.mpr (sysDup_refused hCounts).2)
  · exact fun cur oldfd newfd hRet => sysDup2_open hRet

def FdState.boot (contents : FileRef → File) : FdState where
  fs := {
    file := contents
    inUse := ∅
    pipeCount := fun _ => 0
    pipePages := ∅
    listener := 0
    activated := 0
    releases := fun _ => 0 }
  proc := fun _ =>
    ⟨replicate processMaxFile none, replicate processMaxFile 0, [], length_noFiles⟩
  live := [0]

section

variable (contents : FileRef → File)
include contents

lemma FdState.boot_tidy : (FdState.boot contents).Tidy := ⟨nodup_singleton 0, fun _ _ => List.Pairwise.nil⟩

lemma FdState.boot_refs (filep : FileRef) : (FdState.boot contents).refs filep = 0 := by
  rw [FdState.refs_eq]
  simp [slotRefs, areaRefs, boot, count_replicate]

lemma FdState.boot_counted : (FdState.boot contents).Counted where
  tidy := boot_tidy contents
  balanced := ⟨fun f hf => absurd hf (Finset.notMem_empty f), fun f hf => absurd (boot_refs contents f) hf⟩

end

def leftOver (count : Int) : File := ⟨0, 0, none, .directory, count, .null⟩

def rootInode : Inode := ⟨some .protofs, true, false, 0, 0, 0⟩

/-- Closing one of two descriptors frees the file of the other; `dup` of an empty slot succeeds; a pipe from freed
objects is not counted. -/
theorem dup_and_pipe_uncounted : (∃ k, exec FdState.step (FdState.boot fun _ => leftOver 0)
        [.openName 0 (some rootInode) O_RDONLY (some 5), .dup 0 0, .close 0 0] = some k ∧
      (k.proc 0).fileOf 1 = some 5 ∧ 5 ∉ k.fs.inUse) ∧
    ((FdState.boot fun _ => leftOver 0).proc 0).fileOf 3 = none ∧ (sysDup (FdState.boot fun _ => leftOver 0) 0 3).2 = 0 ∧
    ∃ k, exec FdState.step (FdState.boot fun _ => leftOver 0) [.pipe2 0 (some 5) (some 6) (some 7)] = some k ∧
      5 ∈ k.fs.inUse ∧ (k.fs.file 5).count = 0 ∧ k.slotRefs 5 + k.areaRefs 5 = 1 :=
  ⟨⟨_, rfl, by decide, by decide⟩, by decide, by decide, _, rfl, by decide, by decide, by decide⟩

theorem file_counts_match_fork : ∃ k, exec FdState.step (FdState.boot fun _ => leftOver 1)
        [.openName 0 (some rootInode) O_RDONLY (some 5), .pipe2 0 (some 6) (some 7) (some 9),
          .fork 0 1, .dup2 0 0 0, .close 1 0, .exit 1] = some k ∧
      ∀ f ∈ k.fs.inUse, (k.fs.file f).count = k.slotRefs f + k.areaRefs f :=
  ⟨_, rfl, (file_counts_match (FdState.boot_counted fun _ => leftOver 1) (run_of_exec_guarded rfl : Run FdState.step
    (fun k a => a.Counts k) (FdState.boot fun _ => leftOver 1)
    [.openName 0 (some rootInode) O_RDONLY (some 5), .pipe2 0 (some 6) (some 7) (some 9),
      .fork 0 1, .dup2 0 0 0, .close 1 0, .exit 1] _)).1⟩

end Fixos.Sys
