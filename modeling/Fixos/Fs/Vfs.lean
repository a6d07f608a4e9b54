import Fixos.Fs.FileSystem

/-! # The virtual file system (`fs/vfs.c`)

A path is resolved name by name, with a reference to the current inode that is given up when the next one is found.
-/

namespace Fixos.Fs

open Option

abbrev FsTable := Nat → FsData

def inodeMaxName : Nat := 20

def vfsMaxMount : Nat := 6

def countModulus : Nat := 2 ^ 16

def VfsInode.pinned (inode : VfsInode) : Bool := inode.typeFlags.root || inode.typeFlags.mountpoint

def VfsCache.countUp (c : VfsCache) (r : InodeRef) : VfsCache :=
  c.setInode r { c.inode r with count := ((c.inode r).count + 1) % countModulus }

def vfsReleaseInode (c : VfsCache) (r : InodeRef) : Option VfsCache :=
  let inode := c.inode r
  if inode.count > 0 then
    if inode.count = 1 ∧ inode.pinned then some c
    else
      let c := c.setInode r { inode with count := inode.count - 1 }
      if inode.count - 1 = 0 then vfsCacheRemove c inode.fsOp inode.node else some c
  else some c

def vfsGetInode (fs : FsTable) (c : VfsCache) (inst nodeid : Nat) : Option (VfsCache × InodeRef) := do
  let cached ← vfsCacheFind c inst nodeid
  let (c, ret) ← (if cached = 0 then (fs inst).getInode c inst nodeid else some (c, cached))
  return (if ret ≠ 0 then c.countUp ret else c, ret)

def getRootNode (fs : FsTable) (c : VfsCache) (inst : Nat) : Option (VfsCache × InodeRef) :=
  vfsGetInode fs c inst (fs inst).rootNode

def vfsWalkEntry (fs : FsTable) (c : VfsCache) (parent : InodeRef) (name : Bytes) :
    Option (VfsCache × InodeRef) :=
  let inode := c.inode parent
  if name = [46] then some (c.countUp parent, parent)
  else if name = [46, 46] then
    let real := if inode.typeFlags.root then inode.typespec else parent
    if real ≠ 0 then vfsGetInode fs c (c.inode real).fsOp (c.inode real).parent else some (c, 0)
  else
    let real := if inode.typeFlags.mountpoint then inode.typespec else parent
    match (fs (c.inode real).fsOp).findSubNode (c.inode real).typeFlags.parent (c.inode real).node name with
    | some node => vfsGetInode fs c (c.inode real).fsOp node
    | none => some (c, 0)

/-- The names between the slashes, some of which may be empty. -/
def pathNames : Bytes → List Bytes
  | [] => [[]]
  | c :: path =>
    if c = 47 then [] :: pathNames path
    else
      match pathNames path with
      | [] => [[c]]
      | name :: names => (c :: name) :: names

/-- The loop of `vfs_resolve`; a longer name would be written behind the end of `tmpname`. -/
def resolveNames (fs : FsTable) : VfsCache → InodeRef → List Bytes → Option (VfsCache × InodeRef)
  | c, current, [] => some (c, current)
  | c, current, name :: names =>
    if name.length ≥ inodeMaxName then none
    else if name = [] then resolveNames fs c current names
    else do
      let (c, swap) ← vfsWalkEntry fs c current name
      let c ← vfsReleaseInode c current
      if swap = 0 then return (c, 0) else resolveNames fs c swap names

def vfsResolve (fs : FsTable) (rootFs : Nat) (c : VfsCache) (cwd : InodeRef) (path : Bytes) :
    Option (VfsCache × InodeRef) :=
  if rootFs = 0 then some (c, 0)
  else if path.head? = some 47 ∨ cwd = 0 then do
    let (c, current) ← getRootNode fs c rootFs
    resolveNames fs c current (pathNames (if path.head? = some 47 then path.tail else path))
  -- no reference is taken for the working directory
  else resolveNames fs c cwd (pathNames path)

structure Vfs where
  cache : VfsCache
  rootFs : Nat
  mounted : List (Nat × InodeRef)

/-- `mount` of a file system fails when its only instance is in use. -/
def Vfs.isMounted (v : Vfs) (inst : Nat) : Bool := inst = v.rootFs || inst ∈ v.mounted.map Prod.fst

def setRoot (c : VfsCache) (root mntPoint : InodeRef) : VfsCache :=
  c.setInode root { c.inode root with typeFlags := rootTypeFlags, typespec := mntPoint }

def setMountPoint (c : VfsCache) (mntPoint root : InodeRef) : VfsCache :=
  c.setInode mntPoint { c.inode mntPoint with
    typeFlags := { (c.inode mntPoint).typeFlags with mountpoint := true }
    typespec := root }

def vfsMountRoot (fs : FsTable) (v : Vfs) (inst : Nat) : Option (Vfs × Int) :=
  if v.rootFs = 0 ∧ !v.isMounted inst then do
    let (cache, root) ← getRootNode fs v.cache inst
    if root ≠ 0 then return ({ v with cache := setRoot cache root 0, rootFs := inst }, 0)
    else return ({ v with cache, rootFs := inst }, -1)
  else some (v, -1)

/-- The reference to the mount point is kept, also when the mount fails after it was found. -/
def vfsMount (fs : FsTable) (v : Vfs) (cwd : InodeRef) (inst : Nat) (path : Bytes) : Option (Vfs × Int) :=
  if v.mounted.length < vfsMaxMount then do
    let (cache, mntInode) ← vfsResolve fs v.rootFs v.cache cwd path
    if mntInode ≠ 0 ∧ (cache.inode mntInode).typeFlags.parent ∧ !v.isMounted inst then do
      let (cache, root) ← getRootNode fs cache inst
      if root ≠ 0 then
        return ({ v with
          cache := setMountPoint (setRoot cache root mntInode) mntInode root
          mounted := v.mounted ++ [(inst, mntInode)] }, 0)
      else return ({ v with cache, mounted := v.mounted ++ [(inst, 0)] }, -1)
    else return ({ v with cache }, -1)
  else some (v, -1)

variable {fs : FsTable} {c c' : VfsCache} {inst nodeid : Nat} {r : InodeRef}

namespace VfsCache

@[simp] lemma setInode_inode (c : VfsCache) (r s : InodeRef) (inode : VfsInode) :
    (c.setInode r inode).inode s = if s = r then inode else c.inode s :=
  Function.update_apply _ _ _ _

lemma setInode_setInode (c : VfsCache) (r : InodeRef) (inode inode' : VfsInode) :
    (c.setInode r inode).setInode r inode' = c.setInode r inode' := by
  simp [setInode]

lemma setCount_inode (c : VfsCache) (r s : InodeRef) (n : Nat) : (c.setInode r { c.inode r with count := n }).inode s =
      { c.inode s with count := ((c.setInode r { c.inode r with count := n }).inode s).count } := by
  rw [setInode_inode]
  split_ifs with hs
  · rw [hs]
  · rfl

structure Kept (c c' : VfsCache) : Prop where
  sound : c'.Sound
  key_eq : c'.key = c.key
  find_eq : ∀ k : NodeKey, vfsCacheFind c' k.1 k.2 = vfsCacheFind c k.1 k.2
  pool_eq : c'.inodeAlloc = c.inodeAlloc

lemma Kept.cached_iff (h : c.Kept c') : c'.Cached r ↔ c.Cached r := cached_congr h.key_eq h.find_eq

lemma Sound.kept_setInode (h : c.Sound) {inode : VfsInode}
    (hKey : (inode.fsOp, inode.node) = c.key r) : c.Kept (c.setInode r inode) := by
  obtain ⟨hSound, hSame, hFind⟩ := h.setInode hKey
  exact ⟨hSound, hSame, hFind, rfl⟩

lemma Sound.kept_setCount (h : c.Sound) (r : InodeRef) (n : Nat) : c.Kept (c.setInode r { c.inode r with count := n }) :=
  h.kept_setInode rfl

lemma Sound.kept_countUp (h : c.Sound) (r : InodeRef) : c.Kept (c.countUp r) := h.kept_setCount r _

@[simp] lemma countUp_inode (c : VfsCache) (r s : InodeRef) : (c.countUp r).inode s =
      if s = r then { c.inode r with count := ((c.inode r).count + 1) % countModulus } else c.inode s :=
  c.setInode_inode r s _

inductive Got (fs : FsTable) (c : VfsCache) (k : NodeKey) : VfsCache → InodeRef → Prop
  | none (hNone : (fs k.1).fillOf k.1 k.2 = none) (hAbsent : c.lookup k = 0) : Got fs c k c 0
  | cached {r : InodeRef} (hCached : c.Cached r) (hKey : c.key r = k) : Got fs c k (c.countUp r) r
  | filled {r : InodeRef} {c₁ : VfsCache} {fill : VfsInode → VfsInode} (hFill : (fs k.1).fillOf k.1 k.2 = some fill)
      (hAbsent : c.lookup k = 0) (hEntered : c.Entered k r c₁)
      (hInode : c₁.inode r = fill { c.inode r with count := 0 }) (hCount : (c₁.inode r).count = 0) :
      Got fs c k (c₁.countUp r) r

end VfsCache

lemma vfsGetInode_got (h : c.Sound) (hIds : (fs inst).EntryIds) (hHanded : (fs inst).HandsOut nodeid)
    (hGet : vfsGetInode fs c inst nodeid = some (c', r)) : c.Got fs (inst, nodeid) c' r := by
  obtain ⟨cached, hFind, hRest⟩ := bind_eq_some_iff.mp hGet
  obtain ⟨⟨_, ret⟩, hHere, hEq⟩ := bind_eq_some_iff.mp hRest
  rcases h.find_cases (inst, nodeid) with ⟨hNull, _⟩ | ⟨s, hFound, hCached, hKey⟩
  · obtain rfl : 0 = cached := some.inj (hNull.symm.trans hFind)
    have hLookup : c.lookup (inst, nodeid) = 0 := by
      rw [VfsCache.lookup, hNull]
      rfl
    rw [if_pos rfl, FsData.getInode] at hHere
    split at hHere
    · rename_i hNone
      cases hHere
      cases hEq
      exact .none hNone hLookup
    · rename_i fill hFill
      obtain ⟨⟨_, ret'⟩, hAllocInode, ⟨⟩⟩ := map_eq_some_iff.mp hHere
      obtain ⟨⟨c₃, ret'⟩, hAlloc, ⟨⟩⟩ := map_eq_some_iff.mp hAllocInode
      rw [VfsCache.setInode_setInode, VfsCache.setInode_inode, if_pos rfl] at hEq
      obtain ⟨hKey, hCount⟩ := FsData.fillOf_key hIds hHanded hFill { c₃.inode ret with count := 0 }
      have hEntered := vfsCacheAlloc_entered h hNull hAlloc hKey
      have hNe : ret ≠ 0 := by
        refine (h.pool_proper ret ?_).1
        rw [hEntered.pool]
        exact List.mem_cons_self
      have hSame : c₃.inode = c.inode := by
        unfold vfsCacheAlloc at hAlloc
        split at hAlloc <;> cases hAlloc
        rfl
      dsimp only at hEq
      rw [if_pos hNe] at hEq
      cases hEq
      refine .filled hFill hLookup hEntered ?_ ?_ <;> rw [VfsCache.setInode_inode, if_pos rfl]
      · rw [hSame]
      · exact hCount
  · obtain rfl : s = cached := some.inj (hFound.symm.trans hFind)
    rw [if_neg hCached.1] at hHere
    cases hHere
    dsimp only at hEq
    rw [if_pos hCached.1] at hEq
    cases hEq
    exact .cached hCached hKey

lemma vfsGetInode_cached (hr : c.Cached r) (hKey : c.key r = (inst, nodeid)) :
    vfsGetInode fs c inst nodeid = some (c.countUp r, r) := by
  have hFind := hr.find_eq hKey
  simp only [vfsGetInode, hFind, bind_eq_bind, bind_some, if_neg hr.1, if_pos hr.1]
  rfl

lemma vfsGetInode_null (h : c.Sound) (hAbsent : c.lookup (inst, nodeid) = 0)
    (hNone : (fs inst).fillOf inst nodeid = none) : vfsGetInode fs c inst nodeid = some (c, 0) := by
  unfold vfsGetInode
  rw [h.find_eq (inst, nodeid), hAbsent, bind_eq_bind, bind_some, if_pos rfl, FsData.getInode, hNone]
  rfl

lemma vfsGetInode_some (fs : FsTable) (inst nodeid : Nat) (h : c.Sound) (hPool : c.inodeAlloc ≠ []) :
    ∃ c' r, vfsGetInode fs c inst nodeid = some (c', r) := by
  unfold vfsGetInode
  rw [h.find_eq (inst, nodeid), bind_eq_bind, bind_some]
  obtain ⟨⟨_, _⟩, hHere⟩ : ∃ p, (if c.lookup (inst, nodeid) = 0 then (fs inst).getInode c inst nodeid
      else some (c, c.lookup (inst, nodeid))) = some p := by
    split
    · unfold FsData.getInode
      split
      · exact ⟨_, rfl⟩
      · obtain ⟨_, _, hFirst⟩ := List.exists_cons_of_ne_nil hPool
        rw [vfsAllocInode, vfsCacheAlloc, hFirst]
        exact ⟨_, rfl⟩
    · exact ⟨_, rfl⟩
  rw [hHere]
  exact ⟨_, _, rfl⟩

lemma vfsCacheRemove_cases (h : c.Sound) (k : NodeKey) :
    (vfsCacheRemove c k.1 k.2 = some c ∧ ∀ s, c.Cached s → c.key s ≠ k) ∨
      ∃ s c', vfsCacheRemove c k.1 k.2 = some c' ∧ c.Cached s ∧ c.key s = k ∧ c.Removed s c' := by
  rcases h.find_cases k with ⟨_, hAbsent⟩ | ⟨s, _, hCached, hKey⟩
  · exact Or.inl ⟨vfsCacheRemove_absent h hAbsent, hAbsent⟩
  · obtain ⟨c', hRemove, hRemoved⟩ := vfsCacheRemove_cached h hCached hKey
    exact Or.inr ⟨s, c', hRemove, hCached, hKey, hRemoved⟩

/-- A count is lowered, and the entry taken out when it comes to zero. The last reference to a pinned inode stays. -/
inductive VfsCache.Dropped (c : VfsCache) (r : InodeRef) : VfsCache → Prop
  | same (hCount : (c.inode r).count = 0 ∨ ((c.inode r).count = 1 ∧ (c.inode r).pinned)) : VfsCache.Dropped c r c
  | less (hCount : 1 < (c.inode r).count) :
      VfsCache.Dropped c r (c.setInode r { c.inode r with count := (c.inode r).count - 1 })
  | last {s : InodeRef} {c' : VfsCache} (hCount : (c.inode r).count = 1) (hPinned : (c.inode r).pinned = false)
      (hCached : c.Cached s) (hKey : c.key s = c.key r)
      (hRemoved : VfsCache.Removed (c.setInode r { c.inode r with count := 0 }) s c') : VfsCache.Dropped c r c'
  | stale (hCount : (c.inode r).count = 1) (hPinned : (c.inode r).pinned = false)
      (hAbsent : ∀ s, c.Cached s → c.key s ≠ c.key r) :
      VfsCache.Dropped c r (c.setInode r { c.inode r with count := 0 })

lemma vfsReleaseInode_dropped (h : c.Sound) (r : InodeRef) : ∃ c', vfsReleaseInode c r = some c' ∧ c.Dropped r c' := by
  unfold vfsReleaseInode
  dsimp only
  split
  · split
    · rename_i hLast
      exact ⟨c, rfl, .same (Or.inr hLast)⟩
    · rename_i hLast
      split_ifs with hZero
      · have hOne : (c.inode r).count = 1 := by omega
        have hPinned : (c.inode r).pinned = false := by
          rw [← Bool.not_eq_true]
          exact fun hPinned => hLast ⟨hOne, hPinned⟩
        have hKept := h.kept_setCount r 0
        rw [hZero]
        rcases vfsCacheRemove_cases hKept.sound (c.key r) with ⟨hRemove, hAbsent⟩ | ⟨s, c', hRemove, hs, hKey, hRemoved⟩
        · refine ⟨_, hRemove, .stale hOne hPinned fun s hs => ?_⟩
          have hNe := hAbsent s (hKept.cached_iff.mpr hs)
          rwa [hKept.key_eq] at hNe
        · rw [hKept.key_eq] at hKey
          exact ⟨c', hRemove, .last hOne hPinned (hKept.cached_iff.mp hs) hKey hRemoved⟩
      · exact ⟨_, rfl, .less (by omega)⟩
  · rename_i hZero
    exact ⟨c, rfl, .same (Or.inl (Nat.eq_zero_of_not_pos hZero))⟩

lemma VfsCache.Sound.released (h : c.Sound) {r : InodeRef} {c' : VfsCache} (hRelease : vfsReleaseInode c r = some c') :
    c.Dropped r c' := by
  obtain ⟨c₁, hSame, hDrop⟩ := vfsReleaseInode_dropped h r
  obtain rfl : c₁ = c' := some.inj (hSame.symm.trans hRelease)
  exact hDrop

end Fixos.Fs
