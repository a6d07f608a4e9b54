import Fixos.Fs.DirWalk

/-! # Listing directories

The calls on one file together give one record for every child, and leave the cache as it was, unless the count of a
child was zero or goes around.
-/

namespace Fixos.Fs

open Bytes MountTree Transition Option List

structure DirCall where
  mem : ByteMemory
  buf : Nat
  len : Nat

def DirCall.Gives (fs : FsTable) (c : VfsCache) (filep : DirFile) (call : DirCall) (batch : List Dirent) (ret : Int)
    (c' : VfsCache) (filep' : DirFile) : Prop :=
  ∃ mem', vfsDirGetdents fs c filep call.mem call.buf call.len = some (c', filep', mem', ret) ∧
    HoldsDirents mem' call.buf batch ∧ ∀ a, a < call.buf ∨ call.buf + call.len ≤ a → mem' a = call.mem a

section

variable {fs : FsTable} {ns : Namespace} {entries : NodeKey → Option CacheEntry} {c : VfsCache} {r : InodeRef}
  {inst node : Nat} {done rest : List Nat}

variable {batch : List Dirent}

lemma direntsSize_pos (h : batch ≠ []) : 0 < direntsSize batch := by
  obtain ⟨entry, batch, rfl⟩ := exists_cons_of_ne_nil h
  have hSize := entry.size_bounds
  rw [direntsSize_cons]
  omega

lemma direntsSize_signed (h : direntsSize batch < 2 ^ 31) :
    (if direntsSize batch > 0 then Word.signed (direntsSize batch) else -EINVAL) =
      if batch = [] then -EINVAL else (direntsSize batch : Int) := by
  by_cases hEmpty : batch = []
  · subst hEmpty
    rfl
  · rw [if_pos (direntsSize_pos hEmpty), if_neg hEmpty, Word.signed_of_lt h]

lemma vfsDirGetdents_gives (hLegible : ns.Legible fs) (hListable : ∀ inst, (fs inst).Listable) (h : Layout fs ns c)
    (hr : c.Cached r) (hParent : (c.inode r).typeFlags.parent = true)
    (hKey : fs.forest.real ns.mounts (c.key r) = (inst, node))
    (hPool : 2 ≤ c.inodeAlloc.length) (hChildren : (fs inst).children node = done ++ rest) (call : DirCall) :
    ∃ batch rest' c', rest = batch ++ rest' ∧ call.Gives fs c ⟨r, done.length⟩ (batch.map (fs inst).direntOf)
        (if batch.map (fs inst).direntOf = [] then -EINVAL else direntsSize (batch.map (fs inst).direntOf))
        c' ⟨r, (done ++ batch).length⟩ ∧
      Layout fs ns c' ∧ c'.entry = visitAll inst (done ++ batch ++ rest'.take 1) c.entry ∧
      c.inodeAlloc.length ≤ c'.inodeAlloc.length ∧
      ∀ y, rest'.head? = some y → call.len ≤ direntsSize (batch.map (fs inst).direntOf) + ((fs inst).direntOf y).size := by
  have hFaithful := h.faithful r hr
  have hInst := hFaithful.real_inst hKey
  obtain ⟨_, _⟩ := (hListable inst).direntsSize_lt (hLegible.legible inst hInst) node
  obtain ⟨_, _, hFirst, hWalk⟩ := vfsFirstChild_walking hLegible h hFaithful hParent hKey (ne_nil_of_length_pos (by omega))
  rw [hChildren] at hWalk
  obtain ⟨c₂, cur₂, hSkip, hStart⟩ := skipEntries_walking hLegible hInst (hListable inst) hPool hChildren hWalk
  rw [nil_append] at hStart
  have hCall : vfsDirGetdents fs c ⟨r, done.length⟩ call.mem call.buf call.len =
      if cur₂ ≠ 0 then (copyEntries fs call.buf call.len direntLimit ⟨c₂, cur₂, done.length, call.mem, 0⟩).bind fun s =>
        (if s.cur ≠ 0 then vfsReleaseInode s.cache s.cur else some s.cache).bind fun c =>
          some (c, ⟨r, s.pos⟩, s.mem, if s.curlen > 0 then Word.signed s.curlen else -EINVAL)
      else some (c₂, ⟨r, done.length⟩, call.mem, -EINVAL) := by
    rw [vfsDirGetdents, if_pos ⟨hr.1, hParent⟩, hFirst]
    simp only [bind_eq_bind, bind_some, hSkip]
    rfl
  by_cases hCur : cur₂ = 0
  · subst hCur
    obtain ⟨rfl, hEntries, hLength⟩ := hStart.ends
    refine ⟨[], [], c₂, rfl, ⟨call.mem, ?_, trivial, fun _ _ => rfl⟩, hStart.layout, ?_, hLength, fun y hy => by cases hy⟩
    · rw [hCall, append_nil]
      rfl
    · rw [hEntries, append_nil, take_nil, append_nil]
  · have hSum : direntsSize ((fs inst).dirents node) =
        direntsSize (done.map (fs inst).direntOf) + direntsSize (rest.map (fs inst).direntOf) := by
      rw [FsData.dirents, hChildren, map_append, direntsSize_append]
    have hLength : rest.length ≤ ((fs inst).dirents node).length := by
      rw [FsData.dirents, hChildren, length_map, length_append]
      omega
    obtain ⟨batch, rest', s, rfl, hCopy, hCopied⟩ :=
      copyEntries_copied hLegible hInst (hListable inst) hPool call.buf call.len
      direntLimit ⟨c₂, cur₂, done.length, call.mem, 0⟩ hChildren (by omega) (by dsimp only; omega) hStart
    obtain ⟨c', hRelease, hLayout, hEntries, hLength⟩ := hCopied.walking.finish hLegible
    have hCurlen := hCopied.curlen
    rw [Nat.zero_add] at hCurlen
    refine ⟨batch, rest', c', rfl, ⟨s.mem, ?_, hCopied.holds, hCopied.outside⟩, hLayout, hEntries, hLength, ?_⟩
    · have hSmall : direntsSize (batch.map (fs inst).direntOf) < 2 ^ 31 := by
        rw [map_append, direntsSize_append] at hSum
        omega
      rw [hCall, if_pos hCur, hCopy, bind_some, hRelease, bind_some, hCurlen, direntsSize_signed hSmall,
        hCopied.pos, length_append]
    · rw [← hCurlen]
      exact hCopied.full

/-- The calls leave all entries of the cache as they were and give the records, until there are no more. -/
inductive Lists (fs : FsTable) : VfsCache → DirFile → List DirCall → List Dirent → Prop
  | done {c c' : VfsCache} {filep filep' : DirFile} {call : DirCall} {calls : List DirCall}
      (hGives : call.Gives fs c filep [] (-EINVAL) c' filep') (hEntries : c'.entry = c.entry) :
      Lists fs c filep (call :: calls) []
  | more {c c' : VfsCache} {filep filep' : DirFile} {call : DirCall} {calls : List DirCall} {batch rest : List Dirent}
      (hBatch : batch ≠ []) (hGives : call.Gives fs c filep batch (direntsSize batch) c' filep')
      (hEntries : c'.entry = c.entry) (hRest : Lists fs c' filep' calls rest) :
      Lists fs c filep (call :: calls) (batch ++ rest)

def VfsInode.Steady (inode : VfsInode) : Prop := 1 ≤ inode.count ∧ inode.count + 1 < countModulus

variable {calls : List DirCall}

lemma lists_of_steady (hLegible : ns.Legible fs) (hListable : ∀ inst, (fs inst).Listable) (h : Layout fs ns c)
    (hr : c.Cached r) (hParent : (c.inode r).typeFlags.parent = true)
    (hKey : fs.forest.real ns.mounts (c.key r) = (inst, node))
    (hPool : 2 ≤ c.inodeAlloc.length) (hChildren : (fs inst).children node = done ++ rest)
    (hSteady : ∀ x ∈ (fs inst).children node, ∀ entry, c.entry (inst, x) = some entry → entry.2.Steady)
    (hLarge : ∀ call ∈ calls, ∀ entry ∈ (fs inst).dirents node, entry.size < call.len)
    (hCalls : rest.length < calls.length) :
    Lists fs c ⟨r, done.length⟩ calls (rest.map (fs inst).direntOf) := by
  induction calls generalizing c done rest with
  | nil => exact absurd hCalls (Nat.not_lt_zero _)
  | cons call calls ih =>
    obtain ⟨batch, rest', c', rfl, hGives, hLayout, hEntries, hLength, hFull⟩ :=
      vfsDirGetdents_gives hLegible hListable h hr hParent hKey hPool hChildren call
    have hSame : c'.entry = c.entry := by
      rw [hEntries]
      refine visitAll_eq_self fun x hx entry hEntry => visitEntry_eq_self.mpr (hSteady x ?_ entry hEntry)
      rw [hChildren, ← append_assoc]
      rcases mem_append.mp hx with hx | hx
      · exact mem_append_left _ hx
      · exact mem_append_right _ (mem_of_mem_take hx)
    rw [map_append]
    cases batch with
    | nil =>
      -- the first record would have fitted
      cases rest' with
      | nil => exact .done hGives hSame
      | cons y rest' =>
        have hFits := hLarge call mem_cons_self ((fs inst).direntOf y) (mem_map_of_mem (by rw [hChildren]; simp))
        exact absurd (hFull y rfl) (Nat.not_le_of_lt (by simpa [direntsSize] using hFits))
    | cons x batch =>
      rw [if_neg (by simp)] at hGives
      have hEntry : c'.entry (c.key r) = some (r, c.inode r) := by
        rw [hSame, hr.entry_eq rfl]
      obtain ⟨hCached, hSameKey, hInode⟩ := hLayout.sound.entry_eq_some hEntry
      refine .more (by simp) hGives hSame (ih hLayout hCached ?_ ?_ (hPool.trans hLength) ?_ ?_ ?_ ?_)
      · rw [← hInode]
        exact hParent
      · rw [hSameKey]
        exact hKey
      · rw [hChildren, append_assoc]
      · rw [hSame]
        exact hSteady
      · exact fun call hCall => hLarge call (mem_cons_of_mem _ hCall)
      · simp only [length_append, length_cons] at hCalls
        omega

lemma Lists.first {filep : DirFile} {call : DirCall} {records : List Dirent}
    (h : Lists fs c filep (call :: calls) records) :
    ∃ batch ret c' filep', call.Gives fs c filep batch ret c' filep' ∧ c'.entry = c.entry := by
  cases h with
  | done hGives hEntries | more _ hGives hEntries _ => exact ⟨_, _, _, _, hGives, hEntries⟩

lemma steady_of_lists (hLegible : ns.Legible fs) (hListable : ∀ inst, (fs inst).Listable) (h : Layout fs ns c)
    (hr : c.Cached r) (hParent : (c.inode r).typeFlags.parent = true)
    (hKey : fs.forest.real ns.mounts (c.key r) = (inst, node))
    (hPool : 2 ≤ c.inodeAlloc.length) {mem : ByteMemory} {buf : Nat}
    (hLists : Lists fs c ⟨r, 0⟩ (⟨mem, buf, 2 ^ 31⟩ :: calls) ((fs inst).dirents node)) :
    ∀ x ∈ (fs inst).children node, ∀ entry, c.entry (inst, x) = some entry → entry.2.Steady := by
  obtain ⟨_, _, c₁, _, ⟨_, hCall₁, _⟩, hSame⟩ := hLists.first
  obtain ⟨_, rest, c', hSplit, ⟨_, hCall, _⟩, _, hEntries, _, hFull⟩ :=
    vfsDirGetdents_gives hLegible hListable h hr hParent hKey hPool (nil_append _).symm ⟨mem, buf, 2 ^ 31⟩
  obtain rfl : c₁ = c' := congrArg Prod.fst (some.inj (hCall₁.symm.trans hCall))
  have hInst := (h.faithful r hr).real_inst hKey
  have hAll : rest = [] := by
    cases rest with
    | nil => rfl
    | cons y rest =>
      have hWord := ((hListable inst).direntsSize_lt (hLegible.legible inst hInst) node).2
      rw [FsData.dirents, hSplit, map_append, direntsSize_append, map_cons, direntsSize_cons] at hWord
      have hLess := hFull y rfl
      dsimp only at hLess
      omega
  subst hAll
  rw [append_nil] at hSplit
  rw [nil_append, take_nil, append_nil, ← hSplit, hSame] at hEntries
  intro x hx entry hEntry
  have hVisited := congrFun hEntries (inst, x)
  rw [visitAll, if_pos ⟨rfl, hx⟩, hEntry, bind_some] at hVisited
  exact visitEntry_eq_self.mp hVisited.symm

end

/-- Calls of `getdents` on an open directory, with buffers larger than every record, list its children, or those of the
root that is mounted on it, in order. No call changes the cache just if every child in the cache has a count that is not
zero and does not go around. -/
theorem getdents_lists_children_iff {fs : FsTable} (hFs : ∀ inst, (fs inst).Legible) (hListable : ∀ inst, (fs inst).Listable)
    {v : Vfs} (hBoot : v.Booted fs) {as bs : List VfsAction} {s t : VfsRun}
    (hRun : Run (VfsRun.step fs) (VfsRun.Careful fs) ⟨v, []⟩ as s) (hUse : Run (VfsRun.step fs) VfsRun.Holder s bs t)
    {r : InodeRef} (hr : t.vfs.cache.Cached r) (hParent : (t.vfs.cache.inode r).typeFlags.parent = true)
    (hEnough : 2 ≤ t.vfs.cache.inodeAlloc.length) {dir : NodeKey}
    (hDir : fs.forest.real s.vfs.nameSpace.mounts (t.vfs.cache.key r) = dir) :
    (∀ calls : List DirCall, (∀ call ∈ calls, ∀ entry ∈ (fs dir.1).dirents dir.2, entry.size < call.len) →
        ((fs dir.1).dirents dir.2).length < calls.length →
        Lists fs t.vfs.cache ⟨r, 0⟩ calls ((fs dir.1).dirents dir.2)) ↔
      ∀ x ∈ (fs dir.1).children dir.2, ∀ entry, t.vfs.cache.entry (dir.1, x) = some entry → entry.2.Steady := by
  obtain ⟨hReady, hStanding⟩ := VfsRun.standing_of_runs hFs hBoot hRun
  have hLayout := (hStanding bs t hUse).layout
  constructor
  · intro hLists
    refine steady_of_lists hReady.legible hListable hLayout hr hParent hDir hEnough
      (hLists (replicate (((fs dir.1).dirents dir.2).length + 1) ⟨fun _ => 0, 0, 2 ^ 31⟩)
        (fun call hCall entry hEntry => ?_) ?_)
    · have hSmall := ((hListable dir.1).dirent_bounds (hFs dir.1) hEntry).2
      rw [eq_of_mem_replicate hCall]
      dsimp only
      omega
    · rw [length_replicate]
      exact Nat.lt_succ_self _
  · intro hSteady calls hLarge hCalls
    refine lists_of_steady hReady.legible hListable hLayout hr hParent hDir hEnough (nil_append _).symm hSteady hLarge ?_
    rwa [FsData.dirents, length_map] at hCalls

lemma treeFs_listable (inst : Nat) : (treeFs inst).Listable := by
  unfold treeFs
  split
  · intro i _ _
    dsimp only
    split
    · decide
    · split <;> decide
  · exact ⟨by decide, by decide⟩

def smallCall : DirCall := ⟨fun _ => 0, 0x1000, 17⟩

theorem getdents_lists_root : ∃ v s, vfsMountRoot treeFs treeBoot 0x8800_1000 = some (v, 0) ∧
      Run (VfsRun.step treeFs) (VfsRun.Careful treeFs) ⟨v, []⟩ treeActions s ∧
      Lists treeFs s.vfs.cache ⟨1, 0⟩ (replicate 3 smallCall) [⟨0, [109, 110, 116]⟩, ⟨2, [100, 101, 118]⟩] := by
  have hEval : treeState.map (fun s => decide (s.vfs.cache.Cached 1 ∧ (s.vfs.cache.inode 1).typeFlags.parent = true ∧
      s.vfs.cache.inodeAlloc.length = 56 ∧
      treeFs.forest.real s.vfs.nameSpace.mounts (s.vfs.cache.key 1) = (0x8800_1000, protofsRootNode) ∧
      (s.vfs.cache.entry (0x8800_1000, 0)).isNone ∧
      ((s.vfs.cache.entry (0x8800_1000, 2)).map fun entry => entry.2.count) = some 1)) = some true := by
    decide +kernel
  obtain ⟨s, hState, hEq⟩ := map_eq_some_iff.mp hEval
  obtain ⟨hCached, hParent, hLength, hReal, hMnt, hDev⟩ := of_decide_eq_true hEq
  obtain ⟨v, hBoot, hRun⟩ := treeRun_run (hState : treeRun treeActions = some s)
  have hDirents : (treeFs 0x8800_1000).dirents protofsRootNode = [⟨0, [109, 110, 116]⟩, ⟨2, [100, 101, 118]⟩] := by
    decide +kernel
  have hChildren : (treeFs 0x8800_1000).children protofsRootNode = [0, 2] := by
    decide +kernel
  have hLists := (getdents_lists_children_iff treeFs_legible treeFs_listable (treeBoot_booted hBoot) hRun
    (.nil s) hCached hParent (by rw [hLength]; decide) hReal).mpr
  rw [hDirents, hChildren] at hLists
  refine ⟨v, s, hBoot, hRun, hLists ?_ (replicate 3 smallCall) ?_ (by decide)⟩
  · intro x hx entry hEntry
    simp only [mem_cons, not_mem_nil, or_false] at hx
    rcases hx with rfl | rfl
    · rw [hEntry] at hMnt
      cases hMnt
    · rw [hEntry, map_some, some.injEq] at hDev
      rw [VfsInode.Steady, hDev]
      decide
  · intro _ hCall
    rw [eq_of_mem_replicate hCall]
    decide

section

variable {fs : FsTable} {c : VfsCache} {root child : InodeRef} {rootFs node : Nat} {name : Bytes}

structure ChildCached (fs : FsTable) (rootFs node : Nat) (root child : InodeRef) (c : VfsCache) : Prop where
  sound : c.Sound
  root_cached : c.Cached root
  root_key : c.key root = (rootFs, (fs rootFs).rootNode)
  root_type : (c.inode root).typeFlags = rootTypeFlags
  root_steady : (c.inode root).Steady
  child_cached : c.Cached child
  child_key : c.key child = (rootFs, node)
  ne : root ≠ child

lemma ChildCached.countUp (h : ChildCached fs rootFs node root child c) :
    ChildCached fs rootFs node root child (c.countUp child) := by
  have hKept := h.sound.kept_countUp child
  have hInode : (c.countUp child).inode root = c.inode root := by
    rw [VfsCache.countUp_inode, if_neg h.ne]
  constructor
  case sound => exact hKept.sound
  case root_cached => exact hKept.cached_iff.mpr h.root_cached
  case root_key => rw [hKept.key_eq, h.root_key]
  case root_type => rw [hInode, h.root_type]
  case root_steady =>
    rw [hInode]
    exact h.root_steady
  case child_cached => exact hKept.cached_iff.mpr h.child_cached
  case child_key => rw [hKept.key_eq, h.child_key]
  case ne => exact h.ne

lemma ChildCached.resolve (h : ChildCached fs rootFs node root child c) (hFs : rootFs ≠ 0)
    (hFind : (fs rootFs).findSubNode true (fs rootFs).rootNode name = some node) (hName : IsComponent name)
    (hShort : name.length < inodeMaxName) (cwd : InodeRef) :
    vfsResolve fs rootFs c cwd (47 :: name) = some (c.countUp child, child) := by
  obtain ⟨hSound, hRoot, hRootKey, hType, hSteady, hChild, hChildKey, hNe⟩ := h
  have hKept := hSound.kept_countUp root
  have hInode : (c.countUp root).inode root = { c.inode root with count := (c.inode root).count + 1 } := by
    rw [VfsCache.countUp_inode, if_pos rfl, Nat.mod_eq_of_lt hSteady.2]
  have hOp : (c.inode root).fsOp = rootFs := congrArg Prod.fst hRootKey
  have hNode : (c.inode root).node = (fs rootFs).rootNode := congrArg Prod.snd hRootKey
  have hGet : vfsGetInode fs (c.countUp root) rootFs node = some ((c.countUp root).countUp child, child) :=
    vfsGetInode_cached (hKept.cached_iff.mpr hChild) (by rw [hKept.key_eq, hChildKey])
  have hWalk : vfsWalkEntry fs (c.countUp root) root name = some ((c.countUp root).countUp child, child) := by
    rw [vfsWalkEntry, if_neg hName.ne_dot, if_neg hName.ne_dots, hInode]
    dsimp only
    rw [hType, if_neg (by decide), hInode]
    rw [hType, hOp, hNode]
    dsimp only [rootTypeFlags]
    rw [hFind]
    exact hGet
  have hRelease : vfsReleaseInode ((c.countUp root).countUp child) root = some (c.countUp child) := by
    have hHere : ((c.countUp root).countUp child).inode root = { c.inode root with count := (c.inode root).count + 1 } := by
      rw [VfsCache.countUp_inode, if_neg hNe, hInode]
    have hBack : (((c.countUp root).countUp child).setInode root (c.inode root)).inode = (c.countUp child).inode := by
      funext s
      by_cases hs : s = root
      · rw [hs, VfsCache.setInode_inode, if_pos rfl, VfsCache.countUp_inode, if_neg hNe]
      · rw [VfsCache.setInode_inode, if_neg hs, VfsCache.countUp_inode, VfsCache.countUp_inode, VfsCache.countUp_inode,
          VfsCache.countUp_inode, if_neg hs, if_neg hNe.symm]
    have hPos := hSteady.1
    rw [vfsReleaseInode, hHere]
    dsimp only
    rw [if_pos (Nat.succ_pos _), if_neg (by omega), if_neg (by omega), Nat.add_sub_cancel]
    exact congrArg some (congrArg (fun inode => { c with inode }) hBack)
  have hHead : (47 :: name).head? = some 47 := head?_cons
  rw [vfsResolve, if_neg hFs, if_pos (Or.inl hHead), if_pos hHead, getRootNode, vfsGetInode_cached hRoot hRootKey]
  simp only [bind_eq_bind, bind_some, tail_cons, pathNames_name hName.slash]
  rw [resolveNames, if_neg (Nat.not_le_of_lt hShort), if_neg hName.ne_nil, hWalk]
  simp only [bind_eq_bind, bind_some, hRelease, if_neg hChild.1]
  rfl

lemma VfsRun.resolve_again {s : VfsRun} (h : ChildCached fs s.vfs.rootFs node root child s.vfs.cache)
    (hFs : s.vfs.rootFs ≠ 0)
    (hFind : (fs s.vfs.rootFs).findSubNode true (fs s.vfs.rootFs).rootNode name = some node) (hName : IsComponent name)
    (hShort : name.length < inodeMaxName) (n : Nat) (hCount : (s.vfs.cache.inode child).count + n < countModulus) :
    ∃ t, Run (VfsRun.step fs) VfsRun.Holder s (replicate n (.resolve 0 (47 :: name))) t ∧
      t.vfs.cache = s.vfs.cache.setInode child
        { s.vfs.cache.inode child with count := (s.vfs.cache.inode child).count + n } := by
  induction n generalizing s with
  | zero =>
    refine ⟨s, .nil s, ?_⟩
    exact (congrArg (fun inode => { s.vfs.cache with inode }) (Function.update_eq_self child s.vfs.cache.inode)).symm
  | succ n ih =>
    have hInode : (s.vfs.cache.countUp child).inode child =
        { s.vfs.cache.inode child with count := (s.vfs.cache.inode child).count + 1 } := by
      rw [VfsCache.countUp_inode, if_pos rfl, Nat.mod_eq_of_lt (by omega)]
    obtain ⟨t, hRun, hCache⟩ := ih (s := ⟨{ s.vfs with cache := s.vfs.cache.countUp child }, child :: s.held⟩) h.countUp
      hFs hFind
      (by dsimp only; rw [hInode]; dsimp only; omega)
    refine ⟨t, ?_, ?_⟩
    · refine .cons (Or.inl rfl) ?_ hRun
      simp [VfsRun.step, h.resolve hFs hFind hName hShort 0, refsOf, if_neg h.child_cached.1]
    · rw [hCache]
      rw [hInode, VfsCache.countUp, VfsCache.setInode_setInode]
      rw [Nat.add_assoc, Nat.add_comm 1 n]

end

def fullCache (s : VfsRun) : VfsCache := s.vfs.cache.setInode 4 { s.vfs.cache.inode 4 with count := 65535 }

/-- After 65535 references to `/dev` a listing of the root makes its count zero. -/
theorem listing_loses_references : ∃ v s t c' mem', vfsMountRoot treeFs treeBoot 0x8800_1000 = some (v, 0) ∧
      Run (VfsRun.step treeFs) (VfsRun.Careful treeFs) ⟨v, []⟩ treeActions s ∧
      Run (VfsRun.step treeFs) VfsRun.Holder s (replicate 65534 (.resolve 0 [47, 100, 101, 118])) t ∧
      t.vfs.cache.Cached 1 ∧ t.vfs.cache.useCount (0x8800_1000, 2) = 65535 ∧
      vfsDirGetdents treeFs t.vfs.cache ⟨1, 0⟩ (fun _ => 0) 0x1000 64 = some (c', ⟨1, 2⟩, mem', 32) ∧
      c'.useCount (0x8800_1000, 2) = 0 := by
  have hEval : (treeState.bind fun s => (vfsDirGetdents treeFs (fullCache s) ⟨1, 0⟩ (fun _ => 0) 0x1000 64).map
      fun (c', filep, _, ret) => decide (filep = ⟨1, 2⟩ ∧ ret = 32 ∧ c'.useCount (0x8800_1000, 2) = 0 ∧
        (fullCache s).Cached 1 ∧ (fullCache s).useCount (0x8800_1000, 2) = 65535 ∧ s.vfs.rootFs = 0x8800_1000 ∧
        s.held = [4] ∧
        s.vfs.cache.Cached 1 ∧ s.vfs.cache.key 1 = (0x8800_1000, protofsRootNode) ∧
        (s.vfs.cache.inode 1).typeFlags = rootTypeFlags ∧ (s.vfs.cache.inode 1).count = 1 ∧
        s.vfs.cache.key 4 = (0x8800_1000, 2) ∧ (s.vfs.cache.inode 4).count = 1)) = some true := by
    decide +kernel
  obtain ⟨s, hState, hRest⟩ := bind_eq_some_iff.mp hEval
  obtain ⟨⟨c', filep, mem', ret⟩, hCall, hEq⟩ := map_eq_some_iff.mp hRest
  obtain ⟨rfl, rfl, hLost, hCached, hFull, hRootFs, hHeld, hRoot, hRootKey, hType, hOne, hDevKey, hDevCount⟩ :=
    of_decide_eq_true hEq
  obtain ⟨v, hBoot, hRun⟩ := treeRun_run (hState : treeRun treeActions = some s)
  have hReady := (VfsRun.standing_of_runs treeFs_legible (treeBoot_booted hBoot) hRun).1
  have hDev : s.vfs.cache.Cached 4 := hReady.counted.cached 4 (by rw [hHeld]; exact mem_singleton_self 4)
  have hChild : ChildCached treeFs s.vfs.rootFs 2 1 4 s.vfs.cache := by
    rw [hRootFs]
    exact ⟨hReady.layout.sound, hRoot, hRootKey, hType, by rw [VfsInode.Steady, hOne]; decide, hDev, hDevKey, by decide⟩
  obtain ⟨t, hUse, hCache⟩ := VfsRun.resolve_again hChild (by rw [hRootFs]; decide) (by rw [hRootFs]; decide +kernel)
    (show IsComponent [100, 101, 118] by decide) (by decide) 65534 (by rw [hDevCount]; decide)
  have hSame : t.vfs.cache = fullCache s := by
    rw [hCache, hDevCount]
    rfl
  rw [← hSame] at hCall hCached hFull
  exact ⟨v, s, t, c', mem', hBoot, hRun, hUse, hCached, hFull, hCall, hLost⟩

end Fixos.Fs
