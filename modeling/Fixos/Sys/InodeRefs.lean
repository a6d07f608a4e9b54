import Mathlib.Algebra.Order.BigOperators.Group.List
import Mathlib.Algebra.Order.Group.Nat
import Fixos.Fs.OpenNode
import Fixos.Fs.VfsRun
import Fixos.Sys.FileCounts

/-! # References to inodes (`sys/files.c`, `fs/vfs_file.c`, `sys/process.c`)

Nothing gives up the reference of a struct file when it is freed, nor the one that `sys_stat`, a failed `sys_open` or a
`sys_chdir` to something else than a directory has taken.
-/

namespace Fixos.Sys

open Fs RefCount Transition Option Function List

/-- `inodeOf` is the field `inode` of the struct files; a process without a working directory has 0
in `cwd`. -/
structure InodeSys where
  vfs : Vfs
  fds : FdState
  inodeOf : FileRef → InodeRef
  cwd : ProcRef → InodeRef

def InodeSys.setCache (s : InodeSys) (cache : VfsCache) : InodeSys := { s with vfs := { s.vfs with cache } }

def InodeSys.resolve (fs : FsTable) (s : InodeSys) (cur : ProcRef) (path : Bytes) : Option (InodeSys × InodeRef) :=
  (vfsResolve fs s.vfs.rootFs s.vfs.cache (s.cwd cur) path).map fun (cache, r) => (s.setCache cache, r)

def InodeSys.releaseCwd (s : InodeSys) (cur : ProcRef) : Option InodeSys :=
  if s.cwd cur ≠ 0 then (vfsReleaseInode s.vfs.cache (s.cwd cur)).map s.setCache else some s

/-- The pointer in an object that is freed again by a failed open is not kept here. -/
def InodeSys.sysOpen (fs : FsTable) (s : InodeSys) (cur : ProcRef) (name : Bytes) (flags : BitVec 32)
    (object : Option FileRef) : Option (InodeSys × Int) :=
  if (s.fds.proc cur).freeFd 0 < processMaxFile then do
    let (s, r) ← s.resolve fs cur name
    let inode := if r ≠ 0 then some (openView fs (s.vfs.cache.inode r)) else none
    let opened := Sys.sysOpen s.fds cur inode flags object
    return ({ s with
      fds := opened.1
      inodeOf := if 0 ≤ opened.2 then object.elim s.inodeOf fun f => update s.inodeOf f r else s.inodeOf },
      opened.2)
  else some (s, -1)

def InodeSys.sysClose (s : InodeSys) (cur : ProcRef) (fd : Int) : InodeSys × Int :=
  let closed := Sys.sysClose s.fds cur fd
  ({ s with fds := closed.1 }, closed.2)

def FsData.hasIstat : FsData → Bool
  | .protofs _ => true
  | .smemfs _ => true

def InodeSys.sysStat (fs : FsTable) (s : InodeSys) (cur : ProcRef) (path : Bytes) : Option (InodeSys × Int) := do
  let (s, target) ← s.resolve fs cur path
  if target ≠ 0 then
    if FsData.hasIstat (fs (s.vfs.cache.inode target).fsOp) then return (s, 0)
    else
      let cache ← vfsReleaseInode s.vfs.cache target
      return (s.setCache cache, -1)
  else return (s, -1)

def InodeSys.sysChdir (fs : FsTable) (s : InodeSys) (cur : ProcRef) (path : Bytes) : Option (InodeSys × Int) := do
  let (s, inode) ← s.resolve fs cur path
  if inode ≠ 0 then
    if (s.vfs.cache.inode inode).typeFlags.parent then
      let s ← s.releaseCwd cur
      return ({ s with cwd := update s.cwd cur inode }, 0)
    else return (s, -ENOTDIR)
  else return (s, -ENOENT)

def InodeSys.sysFork (s : InodeSys) (cur fresh : ProcRef) : InodeSys where
  vfs := { s.vfs with cache := if s.cwd cur ≠ 0 then s.vfs.cache.countUp (s.cwd cur) else s.vfs.cache }
  fds := forkFiles s.fds cur fresh
  inodeOf := s.inodeOf
  cwd := update s.cwd fresh (s.cwd cur)

def InodeSys.processTerminate (s : InodeSys) (cur : ProcRef) : Option InodeSys :=
  (InodeSys.releaseCwd { s with fds := terminateFiles s.fds cur } cur).map fun s =>
    { s with cwd := update s.cwd cur 0 }

inductive InodeAction where
  | openName (cur : ProcRef) (name : Bytes) (flags : BitVec 32) (object : Option FileRef)
  | close (cur : ProcRef) (fd : Int)
  | stat (cur : ProcRef) (path : Bytes)
  | chdir (cur : ProcRef) (path : Bytes)
  | fork (cur fresh : ProcRef)
  | exit (cur : ProcRef)
deriving DecidableEq

def InodeAction.call (fs : FsTable) (s : InodeSys) : InodeAction → Option (InodeSys × Int)
  | .openName cur name flags object => s.sysOpen fs cur name flags object
  | .close cur fd => some (s.sysClose cur fd)
  | .stat cur path => s.sysStat fs cur path
  | .chdir cur path => s.sysChdir fs cur path
  | .fork cur fresh => some (s.sysFork cur fresh, 0)
  | .exit cur => (s.processTerminate cur).map fun s => (s, 0)

/-- Paths are absolute, and the pool hands out an object that is not in use. -/
def InodeAction.Enabled (s : InodeSys) : InodeAction → Prop
  | .openName cur name _ object => cur ∈ s.fds.live ∧ name.head? = some 47 ∧ ∀ f ∈ object, f ∉ s.fds.fs.inUse
  | .stat cur path | .chdir cur path => cur ∈ s.fds.live ∧ path.head? = some 47
  | .close cur _ | .exit cur => cur ∈ s.fds.live
  | .fork cur fresh => cur ∈ s.fds.live ∧ fresh ∉ s.fds.live ∧ s.fds.live.length < configProcMax

instance InodeAction.decidableEnabled (s : InodeSys) (a : InodeAction) : Decidable (a.Enabled s) := by
  unfold InodeAction.Enabled
  split <;> infer_instance

def InodeSys.step (fs : FsTable) (s : InodeSys) (a : InodeAction) : Option InodeSys :=
  if a.Enabled s then (a.call fs s).map Prod.fst else none

def InodeSys.boot (v : Vfs) (contents : FileRef → File) (inodeOf : FileRef → InodeRef) : InodeSys :=
  ⟨v, FdState.boot contents, inodeOf, fun _ => 0⟩

def InodeSys.openFiles (s : InodeSys) (r : InodeRef) : Nat := (s.fds.fs.inUse.filter fun f => s.inodeOf f = r).card

def InodeSys.workDirs (s : InodeSys) (r : InodeRef) : Nat := s.fds.live.countP fun p => s.cwd p = r

def InodeSys.refs (s : InodeSys) (r : InodeRef) : Nat := s.openFiles r + s.workDirs r

def InodeSys.FreesPinned (s : InodeSys) (a : FdAction) : Prop :=
  ∀ f ∈ a.drops s.fds, (s.fds.fs.file f).count ≤ (a.drops s.fds).count f → (s.vfs.cache.inode (s.inodeOf f)).pinned
deriving Decidable

def InodeSys.NoLeak (fs : FsTable) (s : InodeSys) : InodeAction → Prop
  | .openName cur name flags object => (s.fds.proc cur).freeFd 0 < processMaxFile →
      ∀ k ∈ s.vfs.nameSpace.lookupPath fs name, s.vfs.nameSpace.Pins fs k ∨
        (object.isSome ∧ ∃ inode ∈ nodeView fs k, inode.Openable (flags &&& ~~~O_CLOEXEC))
  | .close cur fd => s.FreesPinned (.close cur fd)
  | .stat _ path => ∀ k ∈ s.vfs.nameSpace.lookupPath fs path, s.vfs.nameSpace.Pins fs k
  | .chdir _ path => ∀ k ∈ s.vfs.nameSpace.lookupPath fs path, s.vfs.nameSpace.Pins fs k ∨ (fs k.1).isDirectory k.2
  | .fork _ _ => True
  | .exit cur => s.FreesPinned (.exit cur)

noncomputable def InodeSys.held (s : InodeSys) : List InodeRef :=
  (s.fds.fs.inUse.toList.map s.inodeOf ++ s.fds.live.map s.cwd).filter fun r => r ≠ 0

section

variable {s : InodeSys} {r : InodeRef} {live : List ProcRef} {cur : ProcRef}

lemma InodeSys.held_count (s : InodeSys) (hr : r ≠ 0) : s.held.count r = s.refs r := by
  have hFiles : (s.fds.fs.inUse.toList.map s.inodeOf).count r = s.openFiles r := by
    have hTest : (fun x => x == r) ∘ s.inodeOf = fun f => decide (s.inodeOf f = r) := by
      funext f
      rfl
    rw [count_eq_countP, countP_map, hTest, ← Multiset.coe_countP, Finset.coe_toList, Multiset.countP_eq_card_filter]
    rfl
  have hDirs : (s.fds.live.map s.cwd).count r = s.workDirs r := by
    rw [count_eq_countP, countP_map]
    rfl
  rw [held, count_filter (by simpa using hr), count_append, hFiles, hDirs, refs]

lemma InodeSys.zero_notMem_held (s : InodeSys) : 0 ∉ s.held := by
  simp [held]

lemma card_filter_open {inUse : Finset FileRef} {f : FileRef} (hFree : f ∉ inUse) (inodeOf : FileRef → InodeRef)
    (r x : InodeRef) : ((insert f inUse).filter fun g => update inodeOf f r g = x).card =
      (inUse.filter fun g => inodeOf g = x).card + if r = x then 1 else 0 := by
  have hOld : (inUse.filter fun g => update inodeOf f r g = x) = inUse.filter fun g => inodeOf g = x := by
    refine Finset.filter_congr fun g hg => ?_
    have hNe : g ≠ f := fun hEq => hFree (hEq ▸ hg)
    rw [update_of_ne hNe]
  rw [Finset.filter_insert, update_self, hOld]
  split
  · exact Finset.card_insert_of_notMem fun hMem => hFree (Finset.mem_filter.mp hMem).1
  · rfl

lemma countP_cons_update (hNot : cur ∉ live) (cwd : ProcRef → InodeRef) (r x : InodeRef) :
    (cur :: live).countP (fun p => update cwd cur r p = x) = live.countP (fun p => cwd p = x) + if r = x then 1 else 0 := by
  have hOthers : live.countP (fun p => update cwd cur r p = x) = live.countP fun p => cwd p = x := by
    refine countP_congr fun p hp => ?_
    rw [update_of_ne (ne_of_mem_of_not_mem hp hNot)]
  rw [countP_cons, hOthers, update_self]
  simp

section

variable (hNodup : live.Nodup) (hLive : cur ∈ live) (cwd : ProcRef → InodeRef)
include hNodup hLive cwd

lemma countP_erase (r x : InodeRef) : live.countP (fun p => update cwd cur r p = x) =
      (live.erase cur).countP (fun p => cwd p = x) + if r = x then 1 else 0 := by
  rw [(perm_cons_erase hLive).countP_eq, countP_cons_update hNodup.not_mem_erase]

lemma countP_chdir (r x : InodeRef) : live.countP (fun p => update cwd cur r p = x) + (if cwd cur = x then 1 else 0) =
      live.countP (fun p => cwd p = x) + if r = x then 1 else 0 := by
  have hOld := countP_erase hNodup hLive cwd (cwd cur) x
  rw [update_eq_self] at hOld
  rw [countP_erase hNodup hLive, hOld, Nat.add_right_comm]

lemma countP_exit (x : InodeRef) : live.countP (fun p => cwd p = x) =
      (live.erase cur).countP (fun p => update cwd cur 0 p = x) + if cwd cur = x then 1 else 0 := by
  have hOld := countP_erase hNodup hLive (update cwd cur 0) (cwd cur) x
  rwa [update_idem, update_eq_self] at hOld

end

end

section

variable {k : FdState} {cur : ProcRef} {object : Option FileRef}

lemma memAreas_setProc {proc : FileProc} (h : proc.memAreas = (k.proc cur).memAreas) (p : ProcRef) :
    ((k.setProc cur proc).proc p).memAreas = (k.proc p).memAreas := by
  rcases eq_or_ne p cur with rfl | hNe
  · simp [FdState.setProc, h]
  · simp [FdState.setProc, update_of_ne hNe]

lemma sysOpen_rest (k : FdState) (cur : ProcRef) (inode : Option Inode) (flags : BitVec 32) (object : Option FileRef) :
    (Sys.sysOpen k cur inode flags object).1.live = k.live ∧
      ∀ p, ((Sys.sysOpen k cur inode flags object).1.proc p).memAreas = (k.proc p).memAreas := by
  unfold Sys.sysOpen
  dsimp only
  split
  · cases inode with
    | none => exact ⟨rfl, fun _ => rfl⟩
    | some inode => exact ⟨rfl, memAreas_setProc rfl⟩
  · exact ⟨rfl, fun _ => rfl⟩

lemma sysClose_rest (k : FdState) (cur : ProcRef) (fd : Int) : (Sys.sysClose k cur fd).1.live = k.live ∧
    ∀ p, ((Sys.sysClose k cur fd).1.proc p).memAreas = (k.proc p).memAreas := by
  unfold Sys.sysClose
  split
  · exact ⟨rfl, memAreas_setProc rfl⟩
  · exact ⟨rfl, fun _ => rfl⟩

lemma sysOpen_inUse (inode : Inode) (flags : BitVec 32) (hFd : (k.proc cur).freeFd 0 < processMaxFile)
    (hFree : ∀ f ∈ object, f ∉ k.fs.inUse) :
    ((Sys.sysOpen k cur (some inode) flags object).2 = -1 ∧
      (Sys.sysOpen k cur (some inode) flags object).1.fs.inUse = k.fs.inUse ∧
      ¬ (object.isSome ∧ inode.Openable (flags &&& ~~~O_CLOEXEC))) ∨
    ∃ f, object = some f ∧ 0 ≤ (Sys.sysOpen k cur (some inode) flags object).2 ∧
      (Sys.sysOpen k cur (some inode) flags object).1.fs.inUse = insert f k.fs.inUse := by
  simp only [Sys.sysOpen, if_pos hFd]
  cases hOpen : vfsOpen k.fs inode (flags &&& ~~~O_CLOEXEC) object with
  | mk fs' result =>
    have hFails : result = none → ¬ (object.isSome ∧ inode.Openable (flags &&& ~~~O_CLOEXEC)) := by
      rintro rfl ⟨hSome, hOpenable⟩
      obtain ⟨f, rfl⟩ := isSome_iff_exists.mp hSome
      have hTaken := (vfsOpen_openable k.fs f).mpr hOpenable
      rw [hOpen] at hTaken
      cases hTaken
    rcases vfsOpen_cases hFree hOpen with ⟨rfl, rfl⟩ | ⟨f, _, rfl, rfl, rfl⟩ | ⟨f, rfl, rfl, hOpened⟩
    · exact Or.inl ⟨rfl, rfl, hFails rfl⟩
    · exact Or.inl ⟨rfl, rfl, hFails rfl⟩
    · refine Or.inr ⟨f, rfl, Int.natCast_nonneg _, ?_⟩
      exact congrArg FileState.inUse hOpened.rest

lemma forkFiles_inUse (fresh : ProcRef) (hAreas : (k.proc cur).memAreas = []) :
    (forkFiles k cur fresh).fs.inUse = k.fs.inUse ∧
    ((forkFiles k cur fresh).proc fresh).memAreas = [] := by
  simp only [forkFiles, hAreas, update_self]
  refine ⟨?_, rfl⟩
  exact (congrArg Store.inUse (countStore_countUps k.fs _)).trans (Store.acquireAll_inUse _ _)

lemma foldl_vfsClose_inUse (fs : FileState) (rs : List FileRef) :
    (rs.foldl (fun fs f => (vfsClose fs f).1) fs).inUse ⊆ fs.inUse ∧
      ∀ f ∈ fs.inUse, f ∉ (rs.foldl (fun fs f => (vfsClose fs f).1) fs).inUse →
        f ∈ rs ∧ (fs.file f).count ≤ rs.count f := by
  have hUse : (rs.foldl (fun fs f => (vfsClose fs f).1) fs).inUse = (rs.foldl Store.drop (countStore fs)).inUse :=
    congrArg Store.inUse (countStore_closes fs rs)
  rw [hUse]
  exact ⟨Store.dropAll_inUse_subset (countStore fs) rs, fun f hf hFreed => Store.dropAll_freed hf hFreed⟩

lemma sysClose_fs (k : FdState) (cur : ProcRef) (fd : Int) : (Sys.sysClose k cur fd).1.fs =
    ((FdAction.close cur fd).drops k).foldl (fun fs f => (vfsClose fs f).1) k.fs := by
  simp only [Sys.sysClose, FdAction.drops]
  cases (k.proc cur).fileOf fd <;> rfl

lemma terminateFiles_fs (k : FdState) (cur : ProcRef) : (terminateFiles k cur).fs =
    ((FdAction.exit cur).drops k).foldl (fun fs f => (vfsClose fs f).1) k.fs := by
  simp [terminateFiles, FdAction.drops, FileProc.refs]

end

namespace InodeSys

/-- The counts are right, and there are so few references that no count is near its largest value. -/
structure Right (fs : FsTable) (s : InodeSys) : Prop where
  ready : s.vfs.Ready fs s.held
  files : s.fds.Counted
  referenced : Referenced (countStore s.fds.fs) s.fds.refs
  few : s.fds.live.length ≤ configProcMax
  areas : ∀ p ∈ s.fds.live, (s.fds.proc p).memAreas = []

section

variable {fs : FsTable} {s t : InodeSys} {r x : InodeRef} {cur fresh : ProcRef} {path : Bytes} {c : VfsCache}

variable {held : List InodeRef}

lemma ready_of_refs (h : t.vfs.Ready fs held)
    (hRefs : ∀ x ≠ 0, t.refs x ≤ held.count x ∧ ((t.vfs.cache.inode x).pinned = false → t.refs x = held.count x)) :
    t.vfs.Ready fs t.held := by
  have hCount : ∀ x, t.held.count x ≤ held.count x ∧
      ((t.vfs.cache.inode x).pinned = false → t.held.count x = held.count x) := by
    intro x
    rcases eq_or_ne x 0 with rfl | hx
    · rw [count_eq_zero_of_not_mem t.zero_notMem_held, count_eq_zero_of_not_mem fun hMem => (h.counted.cached 0 hMem).1 rfl]
      exact ⟨Nat.le_refl 0, fun _ => rfl⟩
    · rw [t.held_count hx]
      exact hRefs x hx
  exact { h with counted := h.counted.settle (fun x => (hCount x).1) fun x => (hCount x).2 }

lemma Right.files_le (h : s.Right fs) : s.fds.fs.inUse.card ≤ processMaxFile * s.fds.live.length := by
  have hSub : s.fds.fs.inUse ⊆ (s.fds.live.flatMap fun p => (s.fds.proc p).refs).toFinset := by
    intro f hf
    rw [List.mem_toFinset, mem_flatMap]
    by_contra hNone
    refine h.referenced f hf (sum_eq_zero ?_)
    intro n hn
    obtain ⟨p, hp, rfl⟩ := mem_map.mp hn
    exact count_eq_zero_of_not_mem fun hMem => hNone ⟨p, hp, hMem⟩
  have hSlots : ∀ n ∈ s.fds.live.map fun p => (s.fds.proc p).refs.length, n ≤ processMaxFile := by
    intro n hn
    obtain ⟨p, hp, rfl⟩ := mem_map.mp hn
    rw [FileProc.refs, h.areas p hp, filterMap_nil, append_nil, ← (s.fds.proc p).length_files]
    exact length_filterMap_le _ _
  have hSum := sum_le_card_nsmul _ _ hSlots
  rw [length_map, Nat.nsmul_eq_mul, Nat.mul_comm, ← length_flatMap] at hSum
  exact (Finset.card_le_card hSub).trans ((toFinset_card_le _).trans hSum)

lemma Right.refs_le (h : s.Right fs) (x : InodeRef) : s.refs x ≤ (processMaxFile + 1) * configProcMax := by
  have hFiles : s.openFiles x ≤ processMaxFile * s.fds.live.length := (Finset.card_filter_le _ _).trans h.files_le
  have hDirs : s.workDirs x ≤ s.fds.live.length := countP_le_length
  have hFew := h.few
  simp only [processMaxFile, configProcMax, refs] at *
  omega

lemma Right.roomy (h : s.Right fs) : Roomy s.held := by
  intro x hx
  have hNe : x ≠ 0 := fun hZero => s.zero_notMem_held (hZero ▸ hx)
  have hLe := h.refs_le x
  rw [s.held_count hNe]
  simp only [processMaxFile, configProcMax, countModulus] at *
  omega

structure Found (fs : FsTable) (s : InodeSys) (path : Bytes) (c : VfsCache) (r : InodeRef) : Prop where
  ready : (s.setCache c).vfs.Ready fs (refsOf r s.held)
  node : r ≠ 0 → s.vfs.nameSpace.lookupPath fs path = some (c.key r)
  view : r ≠ 0 → (c.inode r).pinned = false → nodeView fs (c.key r) = some (openView fs (c.inode r))
  pinned : r ≠ 0 → ((c.inode r).pinned ↔ s.vfs.nameSpace.Pins fs (c.key r))
  directory : r ≠ 0 → (c.inode r).typeFlags.parent = (fs (c.key r).1).isDirectory (c.key r).2

lemma cwd_mem (hLive : cur ∈ s.fds.live) (hNe : s.cwd cur ≠ 0) : s.cwd cur ∈ s.held :=
  mem_filter.mpr ⟨mem_append_right _ (mem_map_of_mem hLive), by simpa using hNe⟩

lemma Right.found (h : s.Right fs) (hLive : cur ∈ s.fds.live) (hPath : path.head? = some 47)
    (hResolve : s.resolve fs cur path = some (t, r)) : ∃ c, t = s.setCache c ∧ s.Found fs path c r := by
  obtain ⟨⟨c, _⟩, hVfs, ⟨⟩⟩ := map_eq_some_iff.mp hResolve
  have hCwd : s.cwd cur = 0 ∨ s.cwd cur ∈ s.held := or_iff_not_imp_left.mpr (s.cwd_mem hLive)
  obtain ⟨hReady, _, _⟩ := h.ready.resolve h.roomy hCwd (Or.inl hPath) hVfs
  have hResolves := vfsResolve_resolves h.ready.legible h.ready.root h.ready.layout hPath hVfs
  refine ⟨c, rfl, hReady, ?_, ?_, ?_, ?_⟩
  · intro hr
    refine Namespace.lookup_of_follow ?_
    have hFound := hResolves.found_eq
    rwa [if_neg hr] at hFound
  · exact fun hr => (hResolves.faithful hr).nodeView h.ready.legible
  · exact fun hr => (hResolves.faithful hr).pinned_iff h.ready.legible
  · exact fun hr => (hResolves.faithful hr).directory

lemma Found.forget (h : s.Found fs path c r) (hPinned : r ≠ 0 → (c.inode r).pinned) :
    (s.setCache c).vfs.Ready fs s.held := by
  have hReady := h.ready
  by_cases hr : r = 0
  · rwa [refsOf, if_pos hr] at hReady
  · rw [refsOf, if_neg hr] at hReady
    exact { hReady with counted := hReady.counted.forget (hPinned hr) }

lemma Right.setCache (h : s.Right fs) (hReady : (s.setCache c).vfs.Ready fs s.held) : (s.setCache c).Right fs :=
  ⟨hReady, h.files, h.referenced, h.few, h.areas⟩

variable {a : FdAction}

lemma Right.next (h : s.Right fs) (hStep : s.fds.step a = some t.fds) (hCounts : a.Counts s.fds)
    (hReady : t.vfs.Ready fs t.held) (hFew : t.fds.live.length ≤ configProcMax)
    (hAreas : ∀ p ∈ t.fds.live, (t.fds.proc p).memAreas = []) : t.Right fs := by
  obtain ⟨hEffect, _⟩ := FdState.step_effect h.files.tidy hCounts.noDup hStep
  have hEnabled := (ite_none_right_eq_some.mp hStep).1
  exact ⟨hReady, h.files.step hCounts hStep, hEffect.referenced hEnabled h.files.balanced h.referenced, hFew, hAreas⟩

lemma Right.stat (h : s.Right fs) (hLive : cur ∈ s.fds.live) (hPath : path.head? = some 47)
    (hGuard : s.NoLeak fs (.stat cur path)) {ret : Int} (hCall : s.sysStat fs cur path = some (t, ret)) : t.Right fs := by
  obtain ⟨⟨_, r⟩, hResolve, hRest⟩ := bind_eq_some_iff.mp hCall
  obtain ⟨c, rfl, hFound⟩ := h.found hLive hPath hResolve
  have hRight : (s.setCache c).Right fs :=
    h.setCache (hFound.forget fun hr => (hFound.pinned hr).mpr (hGuard _ (hFound.node hr)))
  dsimp only at hRest
  split at hRest
  · have hIstat : FsData.hasIstat (fs ((s.setCache c).vfs.cache.inode r).fsOp) = true := by
      cases fs ((s.setCache c).vfs.cache.inode r).fsOp <;> rfl
    rw [if_pos hIstat] at hRest
    cases hRest
    exact hRight
  · cases hRest
    exact hRight

lemma count_refsOf (s : InodeSys) (r : InodeRef) (hx : x ≠ 0) :
    (refsOf r s.held).count x = s.refs x + if r = x then 1 else 0 := by
  rw [Fs.count_refsOf r x s.held hx, s.held_count hx]

variable {flags : BitVec 32} {object : Option FileRef}

lemma Found.pinned_of_failed (h : s.Found fs path c r) (hr : r ≠ 0)
    (hFd : (s.fds.proc cur).freeFd 0 < processMaxFile) (hGuard : s.NoLeak fs (.openName cur path flags object))
    (hFailed : ¬ (object.isSome ∧ (openView fs (c.inode r)).Openable (flags &&& ~~~O_CLOEXEC))) :
    (c.inode r).pinned := by
  by_contra hNot
  rcases hGuard hFd _ (h.node hr) with hPins | ⟨hSome, _, hView, hOpenable⟩
  · exact hNot ((h.pinned hr).mpr hPins)
  · have hSame := h.view hr (Bool.not_eq_true _ ▸ hNot)
    rw [mem_def.mp hView, some.injEq] at hSame
    exact hFailed ⟨hSome, hSame ▸ hOpenable⟩

def afterOpen (s : InodeSys) (r : InodeRef) (object : Option FileRef) (opened : FdState × Int) : InodeSys :=
  { s with
    fds := opened.1
    inodeOf := if 0 ≤ opened.2 then object.elim s.inodeOf fun f => update s.inodeOf f r else s.inodeOf }

lemma Found.open_refs (h : s.Found fs path c r)
    (hFd : (s.fds.proc cur).freeFd 0 < processMaxFile) (hFree : ∀ f ∈ object, f ∉ s.fds.fs.inUse)
    (hGuard : s.NoLeak fs (.openName cur path flags object)) {opened : FdState × Int}
    (hOpened : Sys.sysOpen s.fds cur (if r ≠ 0 then some (openView fs (c.inode r)) else none) flags object = opened) :
    ∃ held, (s.setCache c).vfs.Ready fs held ∧
      ∀ x ≠ 0, ((s.setCache c).afterOpen r object opened).refs x = held.count x := by
  have hDirs : ∀ x, ((s.setCache c).afterOpen r object opened).workDirs x = s.workDirs x := by
    intro x
    rw [workDirs, workDirs, ← (sysOpen_rest s.fds cur _ flags object).1, hOpened]
    rfl
  have hSame : opened.2 = -1 → opened.1.fs.inUse = s.fds.fs.inUse →
      ∀ x ≠ 0, ((s.setCache c).afterOpen r object opened).refs x = s.held.count x := by
    intro hRet hUse x hx
    rw [s.held_count hx, refs, refs, hDirs, InodeSys.openFiles, InodeSys.openFiles, afterOpen, hRet, if_neg (by decide),
      hUse]
    rfl
  by_cases hr : r = 0
  · rw [if_neg (not_not.mpr hr), Sys.sysOpen, if_pos hFd] at hOpened
    subst hOpened
    exact ⟨s.held, h.forget fun hNe => absurd hr hNe, hSame rfl rfl⟩
  · rw [if_pos hr] at hOpened
    rcases sysOpen_inUse (openView fs (c.inode r)) flags hFd hFree with ⟨hRet, hUse, hFailed⟩ | ⟨f, rfl, hRet, hUse⟩
    · rw [hOpened] at hRet hUse
      exact ⟨s.held, h.forget fun _ => h.pinned_of_failed hr hFd hGuard hFailed, hSame hRet hUse⟩
    · rw [hOpened] at hRet hUse
      refine ⟨_, h.ready, fun x hx => ?_⟩
      have hFiles : ((s.setCache c).afterOpen r (some f) opened).openFiles x = s.openFiles x + if r = x then 1 else 0 := by
        rw [InodeSys.openFiles, afterOpen, if_pos hRet, hUse]
        exact card_filter_open (hFree f rfl) s.inodeOf r x
      rw [s.count_refsOf r hx, refs, refs, hDirs, hFiles, Nat.add_right_comm]

lemma Right.openName (h : s.Right fs) (hLive : cur ∈ s.fds.live)
    (hPath : path.head? = some 47) (hFree : ∀ f ∈ object, f ∉ s.fds.fs.inUse)
    (hGuard : s.NoLeak fs (.openName cur path flags object)) {ret : Int}
    (hCall : s.sysOpen fs cur path flags object = some (t, ret)) : t.Right fs := by
  unfold sysOpen at hCall
  split at hCall
  case isFalse =>
    cases hCall
    exact h
  rename_i hFd
  obtain ⟨⟨_, r⟩, hResolve, hRest⟩ := bind_eq_some_iff.mp hCall
  obtain ⟨c, rfl, hFound⟩ := h.found hLive hPath hResolve
  obtain ⟨rfl, _⟩ := Prod.mk.inj (some.inj hRest)
  obtain ⟨hSameLive, hSameAreas⟩ := sysOpen_rest s.fds cur
    (if r ≠ 0 then some (openView fs (c.inode r)) else none) flags object
  obtain ⟨_, hReady, hRefs⟩ := hFound.open_refs hFd hFree hGuard rfl
  exact h.next (a := .openName cur _ flags object) (if_pos ⟨hLive, hFree⟩) trivial
    (ready_of_refs hReady fun x hx => ⟨(hRefs x hx).le, fun _ => hRefs x hx⟩) (hSameLive.symm ▸ h.few)
    fun p hp => (hSameAreas p).trans (h.areas p (hSameLive ▸ hp))

lemma FreesPinned.openFiles (h : s.FreesPinned a)
    (hFs : t.fds.fs = (a.drops s.fds).foldl (fun fs f => (vfsClose fs f).1) s.fds.fs) (hInode : t.inodeOf = s.inodeOf)
    (x : InodeRef) : t.openFiles x ≤ s.openFiles x ∧
      ((s.vfs.cache.inode x).pinned = false → t.openFiles x = s.openFiles x) := by
  obtain ⟨hSub, hFreed⟩ := foldl_vfsClose_inUse s.fds.fs (a.drops s.fds)
  rw [← hFs] at hSub hFreed
  rw [InodeSys.openFiles, InodeSys.openFiles, hInode]
  refine ⟨Finset.card_le_card (Finset.filter_subset_filter _ hSub), fun hNot => congrArg Finset.card ?_⟩
  refine Finset.Subset.antisymm (Finset.filter_subset_filter _ hSub) fun f hf => ?_
  obtain ⟨hUse, rfl⟩ := Finset.mem_filter.mp hf
  refine Finset.mem_filter.mpr ⟨?_, rfl⟩
  by_contra hGone
  obtain ⟨hMem, hCount⟩ := hFreed f hUse hGone
  rw [h f hMem hCount] at hNot
  cases hNot

lemma Right.dropped (h : s.Right fs) (hGuard : s.FreesPinned a)
    (hStep : s.fds.step a = some t.fds) (hCounts : a.Counts s.fds)
    (hFs : t.fds.fs = (a.drops s.fds).foldl (fun fs f => (vfsClose fs f).1) s.fds.fs) (hInode : t.inodeOf = s.inodeOf)
    (hReady : t.vfs.Ready fs held) (hHeld : ∀ x ≠ 0, held.count x = s.openFiles x + t.workDirs x)
    (hPinned : ∀ x, (t.vfs.cache.inode x).pinned = (s.vfs.cache.inode x).pinned)
    (hFew : t.fds.live.length ≤ s.fds.live.length)
    (hAreas : ∀ p ∈ t.fds.live, (t.fds.proc p).memAreas = []) : t.Right fs := by
  refine h.next hStep hCounts (ready_of_refs hReady fun x hx => ?_) (hFew.trans h.few) hAreas
  obtain ⟨hLe, hSame⟩ := hGuard.openFiles hFs hInode x
  rw [hHeld x hx, refs, hPinned]
  exact ⟨Nat.add_le_add_right hLe _, fun hNot => congrArg (· + _) (hSame hNot)⟩

lemma Right.close (h : s.Right fs) (hLive : cur ∈ s.fds.live) {fd : Int}
    (hGuard : s.NoLeak fs (.close cur fd)) : (s.sysClose cur fd).1.Right fs := by
  obtain ⟨hSameLive, hSameAreas⟩ := sysClose_rest s.fds cur fd
  refine h.dropped hGuard (if_pos hLive) trivial (sysClose_fs s.fds cur fd) rfl h.ready (fun x hx => ?_) (fun _ => rfl)
    (congrArg length hSameLive).le fun p hp => ?_
  · have hDirs : (s.sysClose cur fd).1.workDirs x = s.workDirs x := congrArg (countP fun p => s.cwd p = x) hSameLive
    rw [s.held_count hx, refs, hDirs]
  · exact (hSameAreas p).trans (h.areas p (hSameLive ▸ hp))

lemma releaseCwd_spec (hReady : s.vfs.Ready fs held)
    (hMem : s.cwd cur ≠ 0 → s.cwd cur ∈ held) (hRelease : s.releaseCwd cur = some t) :
    ∃ c held', t = s.setCache c ∧ t.vfs.Ready fs held' ∧ (∀ x, (c.inode x).pinned = (s.vfs.cache.inode x).pinned) ∧
      ∀ x ≠ 0, held'.count x + (if s.cwd cur = x then 1 else 0) = held.count x := by
  unfold releaseCwd at hRelease
  split_ifs at hRelease with hCwd
  · obtain ⟨c, hInode, rfl⟩ := map_eq_some_iff.mp hRelease
    have hDrop := hReady.counted.sound.released hInode
    refine ⟨c, held.erase (s.cwd cur), rfl, (hReady.release (hMem hCwd) hInode).1, hDrop.pinned_eq, fun x _ => ?_⟩
    have hPerm := (perm_cons_erase (hMem hCwd)).count_eq x
    rw [hPerm, count_cons]
    simp
  · cases hRelease
    refine ⟨s.vfs.cache, held, rfl, hReady, fun _ => rfl, fun x hx => ?_⟩
    rw [not_not.mp hCwd, if_neg hx.symm, Nat.add_zero]

section

variable (h : s.Right fs) (hLive : cur ∈ s.fds.live)
include h hLive

lemma Right.chdir (hPath : path.head? = some 47) (hGuard : s.NoLeak fs (.chdir cur path)) {ret : Int}
    (hCall : s.sysChdir fs cur path = some (t, ret)) : t.Right fs := by
  obtain ⟨⟨_, r⟩, hResolve, hRest⟩ := bind_eq_some_iff.mp hCall
  obtain ⟨c, rfl, hFound⟩ := h.found hLive hPath hResolve
  dsimp only at hRest
  split at hRest
  case isFalse =>
    rename_i hr
    cases hRest
    exact h.setCache (hFound.forget fun hNe => absurd hNe hr)
  rename_i hr
  split at hRest
  case isFalse =>
    rename_i hFile
    cases hRest
    refine h.setCache (hFound.forget fun _ => (hFound.pinned hr).mpr ?_)
    refine (hGuard _ (hFound.node hr)).resolve_right fun hDirectory => hFile ?_
    exact (hFound.directory hr).trans hDirectory
  obtain ⟨_, hRelease, hRest⟩ := bind_eq_some_iff.mp hRest
  have hMem : (s.setCache c).cwd cur ≠ 0 → (s.setCache c).cwd cur ∈ refsOf r s.held := by
    intro hNe
    rw [refsOf, if_neg hr]
    exact mem_cons_of_mem r (s.cwd_mem hLive hNe)
  obtain ⟨c₂, held', rfl, hReady, _, hCount⟩ := releaseCwd_spec hFound.ready hMem hRelease
  cases hRest
  have hRefs : ∀ x ≠ 0, refs { (s.setCache c).setCache c₂ with cwd := update s.cwd cur r } x = held'.count x := by
    intro x hx
    have hDirs := countP_chdir h.files.tidy.nodup hLive s.cwd r x
    have hGiven : held'.count x + (if s.cwd cur = x then 1 else 0) = _ := hCount x hx
    rw [s.count_refsOf r hx, refs, workDirs] at hGiven
    show s.openFiles x + s.fds.live.countP (fun p => update s.cwd cur r p = x) = held'.count x
    omega
  exact ⟨ready_of_refs hReady fun x hx => ⟨(hRefs x hx).le, fun _ => hRefs x hx⟩, h.files, h.referenced, h.few, h.areas⟩

lemma Right.exit (hGuard : s.NoLeak fs (.exit cur)) (hCall : s.processTerminate cur = some t) : t.Right fs := by
  obtain ⟨_, hRelease, hRest⟩ := map_eq_some_iff.mp hCall
  obtain ⟨c, held', rfl, hReady, hPinned, hCount⟩ := releaseCwd_spec
    (s := { s with fds := terminateFiles s.fds cur }) h.ready (s.cwd_mem hLive) hRelease
  subst hRest
  refine h.dropped hGuard (if_pos hLive) trivial (terminateFiles_fs s.fds cur) rfl hReady (fun x hx => ?_) hPinned
    length_erase_le fun p hp => ?_
  · have hDirs : s.workDirs x = _ + if s.cwd cur = x then 1 else 0 := countP_exit h.files.tidy.nodup hLive s.cwd x
    have hHeld : held'.count x + (if s.cwd cur = x then 1 else 0) = s.held.count x := hCount x hx
    rw [s.held_count hx, refs, hDirs, ← Nat.add_assoc] at hHeld
    exact Nat.add_right_cancel hHeld
  · have hOther := (List.Nodup.mem_erase_iff h.files.tidy.nodup).mp hp
    exact (congrArg FileProc.memAreas (update_of_ne hOther.1 _ _)).trans (h.areas p hOther.2)

lemma Right.fork (hFresh : fresh ∉ s.fds.live) (hFew : s.fds.live.length < configProcMax) :
    (s.sysFork cur fresh).Right fs := by
  obtain ⟨hUse, hAreas⟩ := forkFiles_inUse fresh (h.areas cur hLive)
  have hReady : (s.sysFork cur fresh).vfs.Ready fs (refsOf (s.cwd cur) s.held) := by
    simp only [sysFork, refsOf]
    by_cases hCwd : s.cwd cur = 0
    · rw [if_neg (not_not.mpr hCwd), if_pos hCwd]
      exact h.ready
    · rw [if_pos hCwd, if_neg hCwd]
      have hCached := h.ready.counted.cached _ (s.cwd_mem hLive hCwd)
      have hGot : s.vfs.cache.Got fs (s.vfs.cache.key (s.cwd cur)) (s.vfs.cache.countUp (s.cwd cur)) (s.cwd cur) :=
        hCached.got_countUp
      have hRoom : s.vfs.cache.Room (s.vfs.cache.key (s.cwd cur)) := by
        intro x hx _ hNot
        rw [h.ready.counted.count_eq x hx hNot]
        exact (Nat.lt_succ_self _).trans (h.roomy x (h.ready.counted.used x hx hNot))
      exact (h.ready.of_stays (hGot.stays h.ready.counted.sound s.held) (h.ready.layout.keeps_setCount _ _).layout
        (h.ready.counted.got hGot hRoom hCwd)).1
  have hRefs : ∀ x ≠ 0, (s.sysFork cur fresh).refs x = (refsOf (s.cwd cur) s.held).count x := by
    intro x hx
    have hFiles : (s.sysFork cur fresh).openFiles x = s.openFiles x := by
      rw [InodeSys.openFiles, InodeSys.openFiles]
      exact congrArg (fun U : Finset FileRef => (U.filter fun f => s.inodeOf f = x).card) hUse
    have hDirs : (s.sysFork cur fresh).workDirs x = s.workDirs x + if s.cwd cur = x then 1 else 0 :=
      countP_cons_update hFresh s.cwd (s.cwd cur) x
    rw [s.count_refsOf _ hx, refs, refs, hFiles, hDirs, Nat.add_assoc]
  refine h.next (a := .fork cur fresh) (if_pos ⟨hLive, hFresh⟩) trivial
    (ready_of_refs hReady fun x hx => ⟨(hRefs x hx).le, fun _ => hRefs x hx⟩) hFew fun p hp => ?_
  rcases mem_cons.mp hp with rfl | hOld
  · exact hAreas
  · have hNe : p ≠ fresh := fun hEq => hFresh (hEq ▸ hOld)
    simp only [sysFork, forkFiles, update_of_ne hNe]
    exact h.areas p hOld

end

lemma Right.step {a : InodeAction} (h : s.Right fs) (hGuard : s.NoLeak fs a) (hStep : s.step fs a = some t) :
    t.Right fs := by
  obtain ⟨hEnabled, hTaken⟩ := ite_none_right_eq_some.mp hStep
  obtain ⟨⟨u, _⟩, hCall, rfl⟩ := map_eq_some_iff.mp hTaken
  cases a with
  | openName cur name flags object => exact h.openName hEnabled.1 hEnabled.2.1 hEnabled.2.2 hGuard hCall
  | close cur fd =>
    cases hCall
    exact h.close hEnabled hGuard
  | stat cur path => exact h.stat hEnabled.1 hEnabled.2 hGuard hCall
  | chdir cur path => exact h.chdir hEnabled.1 hEnabled.2 hGuard hCall
  | fork cur fresh =>
    cases hCall
    exact h.fork hEnabled.1 hEnabled.2.1 hEnabled.2.2
  | exit cur =>
    obtain ⟨_, hTerminate, ⟨⟩⟩ := map_eq_some_iff.mp hCall
    exact h.exit hEnabled hGuard hTerminate

end

/-- The counts of the inodes that can leave the cache are the numbers of their references, far from where a count goes
around. -/
structure CountsMatch (s : InodeSys) : Prop where
  count_eq : ∀ r, s.vfs.cache.Cached r → (s.vfs.cache.inode r).pinned = false →
    (s.vfs.cache.inode r).count = s.openFiles r + s.workDirs r
  fits : ∀ r, s.openFiles r + s.workDirs r + 2 < countModulus
  cached : ∀ r ≠ 0, s.openFiles r + s.workDirs r ≠ 0 → s.vfs.cache.Cached r
  ended : s.fds.live = [] → s.fds.fs.inUse = ∅ ∧ ∀ r, s.vfs.cache.Cached r → (s.vfs.cache.inode r).pinned

variable {fs : FsTable}

lemma Right.countsMatch {s : InodeSys} (h : s.Right fs) : s.CountsMatch := by
  have hCount : ∀ r, s.vfs.cache.Cached r → (s.vfs.cache.inode r).pinned = false →
      (s.vfs.cache.inode r).count = s.refs r := by
    intro r hr hNot
    rw [h.ready.counted.count_eq r hr hNot, s.held_count hr.1]
  refine ⟨hCount, fun r => ?_, fun r hr hRefs => ?_, fun hEnded => ?_⟩
  · have hLe := h.refs_le r
    simp only [refs, processMaxFile, configProcMax, countModulus] at *
    omega
  · refine h.ready.counted.cached r (count_pos_iff.mp ?_)
    rw [s.held_count hr]
    exact Nat.pos_of_ne_zero hRefs
  · have hFiles := h.files_le
    rw [hEnded, length_nil, Nat.mul_zero, Nat.le_zero, Finset.card_eq_zero] at hFiles
    refine ⟨hFiles, fun r hr => ?_⟩
    by_contra hNot
    have hHeld := count_pos_iff.mpr (h.ready.counted.used r hr (Bool.not_eq_true _ ▸ hNot))
    rw [s.held_count hr.1, refs, InodeSys.openFiles, workDirs, hFiles, hEnded] at hHeld
    exact Nat.lt_irrefl 0 hHeld

lemma boot_right {v : Vfs} (h : v.Ready fs []) (contents : FileRef → File)
    (inodeOf : FileRef → InodeRef) : (boot v contents inodeOf).Right fs where
  ready := by
    have hNone : (boot v contents inodeOf).held = [] := by
      simp [held, boot, FdState.boot]
    rw [hNone]
    exact h
  files := FdState.boot_counted contents
  referenced f hf := absurd hf (Finset.notMem_empty f)
  few := show 1 ≤ configProcMax by decide
  areas _ _ := rfl

end InodeSys

/-- After the mounts, in every run of calls that leave no reference behind, the counts match. -/
theorem inode_refs_match {fs : FsTable} (hFs : ∀ inst, (fs inst).Legible) {v v' : Vfs} (hBoot : v.Booted fs) {mounts : List VfsAction}
    (hMounts : Run (VfsRun.step fs) (VfsRun.Careful fs) ⟨v, []⟩ mounts ⟨v', []⟩) {contents : FileRef → File}
    {inodeOf : FileRef → InodeRef} {actions : List InodeAction} {s : InodeSys}
    (hRun : Run (InodeSys.step fs) (InodeSys.NoLeak fs) (InodeSys.boot v' contents inodeOf) actions s) :
    s.CountsMatch := by
  have hReady : v'.Ready fs [] := VfsRun.ready_of_run hFs hBoot hMounts
  have hRight : s.Right fs := hRun.invariant (fun _ _ _ hGuard hInv hStep => InodeSys.Right.step hInv hGuard hStep)
    (InodeSys.boot_right hReady contents inodeOf)
  exact hRight.countsMatch

instance (fs : FsTable) (ns : Namespace) (k : NodeKey) : Decidable (ns.Pins fs k) :=
  inferInstanceAs (Decidable (_ ∧ _ ∨ _))

instance (fs : FsTable) (s : InodeSys) (a : InodeAction) : Decidable (s.NoLeak fs a) := by
  unfold InodeSys.NoLeak
  split <;> infer_instance

def treeMounts : List VfsAction := [.mount 0x8800_2000 [47, 109, 110, 116, 47, 115, 109, 101, 109]]

def treeSys (s : VfsRun) : InodeSys := InodeSys.boot s.vfs (fun _ => leftOver 0) fun _ => 0

def devPath : Bytes := [47, 100, 101, 118]

def ueditPath : Bytes := [47, 109, 110, 116, 47, 115, 109, 101, 109, 47, 85, 69, 68, 73, 84]

def shareActions : List InodeAction :=
  [.openName 0 devPath O_RDONLY (some 5), .fork 0 1, .close 1 0, .chdir 1 ueditPath,
    .stat 0 [47, 109, 110, 116, 47, 115, 109, 101, 109]]

theorem inode_refs_match_share : ∃ v s t, vfsMountRoot treeFs treeBoot 0x8800_1000 = some (v, 0) ∧
    Run (VfsRun.step treeFs) (VfsRun.Careful treeFs) ⟨v, []⟩ treeMounts s ∧ s.held = [] ∧
    Run (InodeSys.step treeFs) (InodeSys.NoLeak treeFs) (treeSys s) shareActions t ∧ t.CountsMatch ∧
    t.fds.live = [1, 0] ∧ t.openFiles 4 = 1 ∧ t.workDirs 5 = 1 := by
  have hEval : ((treeRun treeMounts).bind fun s =>
    (exec (guarded (InodeSys.step treeFs) (InodeSys.NoLeak treeFs)) (treeSys s)
      shareActions).map fun t => (s.held, t.fds.live, t.openFiles 4, t.workDirs 5)) = some ([], [1, 0], 1, 1) := by
    decide +kernel
  obtain ⟨⟨_, _⟩, hMounted, hRest⟩ := bind_eq_some_iff.mp hEval
  obtain ⟨t, hExec, hEq⟩ := map_eq_some_iff.mp hRest
  simp only [Prod.mk.injEq] at hEq
  obtain ⟨rfl, hLive, hFiles, hDirs⟩ := hEq
  obtain ⟨v, hBoot, hMounts⟩ := treeRun_run hMounted
  have hRun := run_of_exec_guarded hExec
  exact ⟨v, _, t, hBoot, hMounts, rfl, hRun, inode_refs_match treeFs_legible (treeBoot_booted hBoot) hMounts hRun, hLive,
    hFiles, hDirs⟩

def InodeSys.LeftBehind (s : InodeSys) (r : InodeRef) : Prop :=
  s.vfs.cache.Cached r ∧ (s.vfs.cache.inode r).pinned = false ∧ (s.vfs.cache.inode r).count = 1 ∧
    s.openFiles r + s.workDirs r = 0
deriving Decidable

/-- A `sys_stat`, an open that is refused, an exit after an open and close, and a `sys_chdir` to a file each leave an
inode. -/
theorem references_left_behind : ∃ s, treeRun treeMounts = some s ∧ s.held = [] ∧
    (∃ t, exec (InodeSys.step treeFs) (treeSys s) [.stat 0 devPath] = some t ∧ t.LeftBehind 4) ∧
    (∃ t, exec (InodeSys.step treeFs) (treeSys s) [.openName 0 devPath 0 (some 5)] = some t ∧ t.LeftBehind 4) ∧
    (∃ t, exec (InodeSys.step treeFs) (treeSys s) [.openName 0 devPath O_RDONLY (some 5), .close 0 0, .exit 0] = some t ∧
      t.fds.live = [] ∧ t.LeftBehind 4) ∧
    ∃ t, exec (InodeSys.step treeFs) (treeSys s)
      [.chdir 0 (ueditPath ++ [47, 97, 99, 111, 114, 101, 46, 99, 102, 103])] = some t ∧ t.LeftBehind 5 := by
  have hEval : ((treeRun treeMounts).map fun s =>
      (s.held, (exec (InodeSys.step treeFs) (treeSys s) [.stat 0 devPath]).any fun t => t.LeftBehind 4,
        (exec (InodeSys.step treeFs) (treeSys s) [.openName 0 devPath 0 (some 5)]).any fun t => t.LeftBehind 4,
        (exec (InodeSys.step treeFs) (treeSys s) [.openName 0 devPath O_RDONLY (some 5), .close 0 0, .exit 0]).any fun t =>
          t.fds.live = [] ∧ t.LeftBehind 4,
        (exec (InodeSys.step treeFs) (treeSys s)
          [.chdir 0 (ueditPath ++ [47, 97, 99, 111, 114, 101, 46, 99, 102, 103])]).any fun t => t.LeftBehind 5)) =
      some ([], true, true, true, true) := by
    decide +kernel
  obtain ⟨s, hMounted, hEq⟩ := map_eq_some_iff.mp hEval
  simp only [Prod.mk.injEq, Option.any_eq_true, decide_eq_true_eq] at hEq
  exact ⟨s, hMounted, hEq⟩

end Fixos.Sys
