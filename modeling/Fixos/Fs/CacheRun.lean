import Fixos.Fs.InodeCounts

/-! # Runs of the inode cache

As long as no count is full when one more reference is taken, the cache stays a table with one entry for each node in
use.
-/

namespace Fixos.Fs

open Transition Option List

structure CacheRun where
  cache : VfsCache
  held : List InodeRef

inductive CacheAction where
  | get (inst nodeid : Nat)
  | release (r : InodeRef)
  | mountRoot (inst : Nat)
  | mountOn (mntInode : InodeRef) (inst : Nat)
deriving DecidableEq

/-- A mount keeps its references for ever. -/
def CacheRun.step (fs : FsTable) (s : CacheRun) : CacheAction → Option CacheRun
  | .get inst nodeid => (vfsGetInode fs s.cache inst nodeid).map fun (cache, r) =>
      ⟨cache, if r ≠ 0 then r :: s.held else s.held⟩
  | .release r => (vfsReleaseInode s.cache r).map fun cache => ⟨cache, s.held.erase r⟩
  | .mountRoot inst => (getRootNode fs s.cache inst).map fun (cache, root) =>
      ⟨if root ≠ 0 then setRoot cache root 0 else cache, s.held⟩
  | .mountOn mntInode inst =>
    if (s.cache.inode mntInode).typeFlags.parent then
      (getRootNode fs s.cache inst).map fun (cache, root) =>
        if root ≠ 0 then ⟨setMountPoint (setRoot cache root mntInode) mntInode root, s.held.erase mntInode⟩
        else ⟨cache, s.held⟩
    else some s

def CacheRun.boot (inode : InodeRef → VfsInode) (next : InodeRef → InodeRef) (pool : List InodeRef) : CacheRun :=
  ⟨⟨inode, next, fun _ => 0, pool⟩, []⟩

def VfsCache.NotFull (c : VfsCache) (k : NodeKey) : Prop :=
  c.lookup k ≠ 0 → (c.inode (c.lookup k)).count + 1 < countModulus
deriving Decidable

/-- Only a holder gives up a reference, numbers come from the file system, and no count is full. -/
def CacheRun.Allowed (fs : FsTable) (s : CacheRun) : CacheAction → Prop
  | .get inst nodeid => (fs inst).HandsOut nodeid ∧ s.cache.NotFull (inst, nodeid)
  | .release r => r ∈ s.held
  | .mountRoot inst => s.cache.NotFull (inst, (fs inst).rootNode)
  | .mountOn mntInode inst => mntInode ∈ s.held ∧ s.cache.NotFull (inst, (fs inst).rootNode)

instance (fs : FsTable) (s : CacheRun) (a : CacheAction) : Decidable (s.Allowed fs a) := by
  unfold CacheRun.Allowed
  split <;> infer_instance

def VfsCache.Positive (c : VfsCache) : Prop := ∀ r, c.Cached r → 1 ≤ (c.inode r).count

structure CacheRun.Inv (s : CacheRun) : Prop where
  counted : Counted s.cache s.held
  positive : s.cache.Positive

section

variable {fs : FsTable} {c c' : VfsCache} {k : NodeKey} {r : InodeRef} {held : List InodeRef}

namespace VfsCache

lemma Sound.find_congr (h : c.Sound) (h' : c'.Sound)
    (hSame : ∀ s, (c'.Cached s ∧ c'.key s = k) ↔ (c.Cached s ∧ c.key s = k)) :
    vfsCacheFind c' k.1 k.2 = vfsCacheFind c k.1 k.2 := by
  rcases h.find_cases k with ⟨hFind, hAbsent⟩ | ⟨s, hFind, hs⟩
  · rcases h'.find_cases k with ⟨hFind', _⟩ | ⟨s, _, hs⟩
    · rw [hFind, hFind']
    · exact absurd ((hSame s).mp hs).2 (hAbsent s ((hSame s).mp hs).1)
  · obtain ⟨hs', hKey⟩ := (hSame s).mpr hs
    rw [hFind, hs'.find_eq hKey]

lemma NotFull.count_lt (h : c.NotFull k) (hr : c.Cached r) (hKey : c.key r = k) : (c.inode r).count + 1 < countModulus := by
  have hLookup := hr.lookup_eq hKey
  unfold NotFull at h
  rw [hLookup] at h
  exact h hr.1

section

variable (h : c.Positive) (hSound : c.Sound)
include h hSound

lemma Positive.got (hGot : c.Got fs k c' r) (hFull : c.NotFull k) : c'.Positive := by
  intro s hs
  rcases eq_or_ne s r with rfl | hNe
  · rcases hGot.count_self hs.1 with ⟨hCached, hKey, hCount⟩ | ⟨_, hCount⟩
    · rw [hCount, Nat.mod_eq_of_lt (hFull.count_lt hCached hKey)]
      exact Nat.le_add_left 1 _
    · rw [hCount]
  · rw [hGot.count_of_ne hNe]
    exact h s (((hGot.cached_iff hSound s).mp hs).resolve_left fun hEq => hNe hEq.1)

lemma Positive.dropped (hr : c.Cached r) (hDrop : c.Dropped r c') : c'.Positive := by
  intro s hs
  have hsOld := hDrop.cached_of hSound hs
  have hPos := h s hsOld
  rcases eq_or_ne s r with rfl | hNe
  · cases hDrop with
    | same hCount => exact hPos
    | less hCount =>
      rw [setInode_inode, if_pos rfl]
      exact Nat.le_sub_one_of_lt hCount
    | last hCount hPinned hCached hKey hRemoved =>
      exact absurd (hsOld.eq_of_key hCached hKey.symm) ((hRemoved.cached_iff s).mp hs).2
    | stale hCount hPinned hAbsent => exact absurd rfl (hAbsent s hsOld)
  · cases hDrop with
    | same hCount => exact hPos
    | less hCount => rwa [setInode_inode, if_neg hNe]
    | last hCount hPinned hCached hKey hRemoved => rwa [hRemoved.inode_eq, setInode_inode, if_neg hNe]
    | stale hCount hPinned hAbsent => exact absurd rfl (hAbsent r hr)

lemma Positive.setInode {inode : VfsInode}
    (hKey : (inode.fsOp, inode.node) = c.key r) (hCount : inode.count = (c.inode r).count) :
    (c.setInode r inode).Positive := by
  intro s hs
  have hPos := h s ((hSound.kept_setInode hKey).cached_iff.mp hs)
  rw [setInode_inode]
  split_ifs with hEq
  · rwa [hCount, ← hEq]
  · exact hPos

end

end VfsCache

lemma CacheRun.Inv.setInode (h : CacheRun.Inv ⟨c, held⟩) {inode : VfsInode}
    (hKey : (inode.fsOp, inode.node) = c.key r) (hCount : inode.count = (c.inode r).count)
    (hPinned : (c.inode r).pinned → inode.pinned) : CacheRun.Inv ⟨c.setInode r inode, held⟩ :=
  ⟨h.counted.setInode hKey hCount hPinned, h.positive.setInode h.counted.sound hKey hCount⟩

lemma setRoot_pinned (root mntPoint : InodeRef) : ((setRoot c root mntPoint).inode root).pinned := by
  rw [setRoot, VfsCache.setInode_inode, if_pos rfl]
  rfl

lemma setMountPoint_pinned (mntPoint root : InodeRef) : ((setMountPoint c mntPoint root).inode mntPoint).pinned := by
  rw [setMountPoint, VfsCache.setInode_inode, if_pos rfl]
  exact Bool.or_true _

namespace CacheRun

section

variable (h : Inv ⟨c, held⟩)
include h

lemma Inv.setRoot (root mntPoint : InodeRef) : Inv ⟨setRoot c root mntPoint, held⟩ := h.setInode rfl rfl fun _ => rfl

lemma Inv.setMountPoint (mntPoint root : InodeRef) : Inv ⟨setMountPoint c mntPoint root, held⟩ :=
  h.setInode rfl rfl fun _ => Bool.or_true _

lemma Inv.got (hGot : c.Got fs k c' r) (hFull : c.NotFull k) : Inv ⟨c', if r ≠ 0 then r :: held else held⟩ := by
  have hSound := h.counted.sound
  refine ⟨?_, h.positive.got hSound hGot hFull⟩
  split_ifs with hr
  · exact h.counted.got hGot (fun s hs hKey _ => hFull.count_lt hs hKey) hr
  · cases hGot with
    | none hNone hAbsent => exact h.counted
    | cached hCached hKey => exact absurd hCached.1 hr
    | filled hFill hAbsent hEntered hInode hCount => exact absurd ((hEntered.cached_iff r).mpr (Or.inl rfl)).1 hr

lemma Inv.gotRoot (hGot : c.Got fs k c' r) (hFull : c.NotFull k)
    (hr : r ≠ 0) (mntPoint : InodeRef) : Inv ⟨Fs.setRoot c' r mntPoint, held⟩ := by
  have hInv := h.got hGot hFull
  rw [if_pos hr] at hInv
  have hSet := hInv.setRoot r mntPoint
  exact ⟨hSet.counted.forget (setRoot_pinned r mntPoint), hSet.positive⟩

end

end CacheRun

end

variable {fs : FsTable} {inst : Nat}

lemma getRootNode_got {c c' : VfsCache} {root : InodeRef}
    (hIds : ∀ inst, (fs inst).EntryIds) (h : c.Sound) (hGet : getRootNode fs c inst = some (c', root)) :
    c.Got fs (inst, (fs inst).rootNode) c' root :=
  vfsGetInode_got h (hIds inst) (fs inst).handsOut_rootNode hGet

variable {s t : CacheRun} {a : CacheAction}

lemma CacheRun.Inv.step (hIds : ∀ inst, (fs inst).EntryIds)
    (hAllowed : s.Allowed fs a) (h : s.Inv) (hStep : s.step fs a = some t) : t.Inv := by
  have hSound := h.counted.sound
  cases a with
  | get inst nodeid =>
    obtain ⟨⟨cache, r⟩, hGet, rfl⟩ := map_eq_some_iff.mp hStep
    exact h.got (vfsGetInode_got hSound (hIds inst) hAllowed.1 hGet) hAllowed.2
  | release r =>
    obtain ⟨cache, hRelease, rfl⟩ := map_eq_some_iff.mp hStep
    have hDrop := hSound.released hRelease
    have hHeld : r ∈ s.held := hAllowed
    exact ⟨(h.counted.perm (perm_cons_erase hHeld)).dropped hDrop,
      h.positive.dropped hSound (h.counted.cached r hHeld) hDrop⟩
  | mountRoot inst =>
    obtain ⟨⟨cache, root⟩, hGet, rfl⟩ := map_eq_some_iff.mp hStep
    have hGot := getRootNode_got hIds hSound hGet
    dsimp only
    split_ifs with hr
    · exact h.gotRoot hGot hAllowed hr 0
    · have hInv := h.got hGot hAllowed
      rwa [if_neg hr] at hInv
  | mountOn mntInode inst =>
    simp only [CacheRun.step] at hStep
    split at hStep
    · obtain ⟨⟨cache, root⟩, hGet, hEq⟩ := map_eq_some_iff.mp hStep
      have hGot := getRootNode_got hIds hSound hGet
      split_ifs at hEq with hr
      · subst hEq
        have hInv := (h.gotRoot hGot hAllowed.2 hr mntInode).setMountPoint mntInode root
        exact ⟨(hInv.counted.perm (perm_cons_erase hAllowed.1)).forget (setMountPoint_pinned _ _), hInv.positive⟩
      · subst hEq
        have hInv := h.got hGot hAllowed.2
        rwa [if_neg hr] at hInv
    · cases hStep
      exact h

structure PoolFresh (pool : List InodeRef) : Prop where
  nodup : pool.Nodup
  proper : ∀ r ∈ pool, r ≠ 0 ∧ r < cacheLimit

section

variable (inode : InodeRef → VfsInode) (next : InodeRef → InodeRef)
include inode next

lemma CacheRun.boot_absent (pool : List InodeRef) (r : InodeRef) : ¬ (CacheRun.boot inode next pool).cache.Cached r := by
  rintro ⟨hNe, hFind⟩
  have hEnd : vfsCacheFind (CacheRun.boot inode next pool).cache
      ((CacheRun.boot inode next pool).cache.key r).1 ((CacheRun.boot inode next pool).cache.key r).2 = some 0 := rfl
  exact hNe (some.inj (hFind.symm.trans hEnd))

lemma CacheRun.boot_inv {pool : List InodeRef} (hPool : PoolFresh pool) : (CacheRun.boot inode next pool).Inv := by
  have hNone := CacheRun.boot_absent inode next pool
  refine ⟨⟨⟨⟨fun _ => [], ?_, ?_⟩, hPool.nodup, hPool.proper⟩, ?_, ?_, ?_⟩, fun r hr => absurd hr (hNone r)⟩
  · exact ⟨fun _ => rfl, fun _ => nodup_nil, fun _ => not_mem_nil, fun _ _ hp => absurd hp not_mem_nil,
      fun _ _ hp => absurd hp not_mem_nil⟩
  · rintro r ⟨b, hMem⟩
    exact absurd hMem not_mem_nil
  · exact fun r hr => absurd hr not_mem_nil
  · exact fun r hr => absurd hr (hNone r)
  · exact fun r hr => absurd hr (hNone r)

end

variable {r : InodeRef}

lemma CacheRun.Inv.pinned_stays (hIds : ∀ inst, (fs inst).EntryIds)
    (hAllowed : s.Allowed fs a) (h : s.Inv) (hStep : s.step fs a = some t)
    (hr : s.cache.Cached r) (hPinned : (s.cache.inode r).pinned) :
    vfsCacheFind t.cache (s.cache.key r).1 (s.cache.key r).2 = some r ∧ (t.cache.inode r).pinned := by
  have hSound := h.counted.sound
  have hGot : ∀ {k cache r'}, s.cache.Got fs k cache r' →
      cache.Sound ∧ cache.Cached r ∧ cache.key r = s.cache.key r ∧ (cache.inode r).pinned := fun hGot =>
    ⟨hGot.sound hSound, (hGot.cached_iff hSound r).mpr (Or.inr hr), hGot.key_eq hr, by rw [hGot.pinned_eq hr, hPinned]⟩
  have hSet : ∀ {cache : VfsCache} {r' : InodeRef} {inode : VfsInode},
      cache.Sound ∧ cache.Cached r ∧ cache.key r = s.cache.key r ∧ (cache.inode r).pinned →
      (inode.fsOp, inode.node) = cache.key r' → ((cache.inode r').pinned → inode.pinned) →
      (cache.setInode r' inode).Sound ∧ (cache.setInode r' inode).Cached r ∧
        (cache.setInode r' inode).key r = s.cache.key r ∧ ((cache.setInode r' inode).inode r).pinned := by
    rintro cache r' inode ⟨hCache, hCached, hKey, hWas⟩ hSame hKeeps
    have hKept := hCache.kept_setInode hSame
    refine ⟨hKept.sound, hKept.cached_iff.mpr hCached, by rw [hKept.key_eq, hKey], ?_⟩
    rw [VfsCache.setInode_inode]
    split_ifs with hEq
    · exact hKeeps (hEq ▸ hWas)
    · exact hWas
  suffices hStays : t.cache.Sound ∧ t.cache.Cached r ∧ t.cache.key r = s.cache.key r ∧ (t.cache.inode r).pinned from
    ⟨hStays.2.1.find_eq hStays.2.2.1, hStays.2.2.2⟩
  cases a with
  | get inst nodeid =>
    obtain ⟨⟨cache, r'⟩, hGet, rfl⟩ := map_eq_some_iff.mp hStep
    exact hGot (vfsGetInode_got hSound (hIds inst) hAllowed.1 hGet)
  | release r' =>
    obtain ⟨cache, hRelease, rfl⟩ := map_eq_some_iff.mp hStep
    have hDrop := hSound.released hRelease
    refine ⟨hDrop.sound hSound, ?_, congrFun hDrop.key_eq r, by rw [hDrop.pinned_eq, hPinned]⟩
    by_cases hKey : s.cache.key r = s.cache.key r'
    · refine hDrop.cached_of_count hSound hr (Or.inr ?_)
      rwa [← hr.eq_of_key (h.counted.cached r' hAllowed) hKey]
    · exact hDrop.cached_of_ne hSound hr hKey
  | mountRoot inst =>
    obtain ⟨⟨cache, root⟩, hGet, rfl⟩ := map_eq_some_iff.mp hStep
    have hHere := hGot (getRootNode_got hIds hSound hGet)
    dsimp only
    split
    · exact hSet hHere rfl fun _ => rfl
    · exact hHere
  | mountOn mntInode inst =>
    simp only [CacheRun.step] at hStep
    split at hStep
    · obtain ⟨⟨cache, root⟩, hGet, hEq⟩ := map_eq_some_iff.mp hStep
      have hHere := hGot (getRootNode_got hIds hSound hGet)
      split at hEq <;> subst hEq
      · exact hSet (hSet hHere rfl fun _ => rfl) rfl fun _ => Bool.or_true _
      · exact hHere
    · cases hStep
      exact ⟨hSound, hr, rfl, hPinned⟩

lemma CacheRun.Inv.release_find (h : s.Inv)
    (hStep : s.step fs (.release r) = some t) {k : NodeKey} (hk : k ≠ s.cache.key r) :
    vfsCacheFind t.cache k.1 k.2 = vfsCacheFind s.cache k.1 k.2 := by
  have hSound := h.counted.sound
  obtain ⟨_, hRelease, rfl⟩ := map_eq_some_iff.mp hStep
  have hDrop := hSound.released hRelease
  refine hSound.find_congr (hDrop.sound hSound) fun s => ?_
  rw [hDrop.key_eq]
  constructor
  · exact fun hs => ⟨hDrop.cached_of hSound hs.1, hs.2⟩
  · exact fun hs => ⟨hDrop.cached_of_ne hSound hs.1 (hs.2 ▸ hk), hs.2⟩

/-- One entry for each node in use, in the bucket of its hash, with the count of its references. -/
structure CacheRun.Consistent (s : CacheRun) : Prop where
  bucket : ∀ hash, ∀ r ∈ s.cache.chain hash,
    hash = vfsCacheHash (s.cache.inode r).fsOp (s.cache.inode r).node ∧ 1 ≤ (s.cache.inode r).count
  unique : ∀ hash hash', ∀ r ∈ s.cache.chain hash, ∀ r' ∈ s.cache.chain hash',
    (s.cache.inode r).fsOp = (s.cache.inode r').fsOp → (s.cache.inode r).node = (s.cache.inode r').node → r = r'
  counts : ∀ hash, ∀ r ∈ s.cache.chain hash, (s.cache.inode r).pinned = false →
    (s.cache.inode r).count = s.held.count r
  found : ∀ r ∈ s.held, vfsCacheFind s.cache (s.cache.inode r).fsOp (s.cache.inode r).node = some r
  released : ∀ inst nodeid r, vfsCacheFind s.cache inst nodeid = some r → r ≠ 0 →
    (s.cache.inode r).pinned = false → r ∈ s.held

lemma CacheRun.Inv.consistent (h : s.Inv) : s.Consistent := by
  have hSound := h.counted.sound
  constructor
  case bucket =>
    intro hash r hr
    obtain ⟨hCached, hHash⟩ := hSound.mem_chain_iff.mp hr
    exact ⟨hHash.symm, h.positive r hCached⟩
  case unique =>
    intro hash _ r hr r' hr' hFs hNode
    exact (hSound.mem_chain_iff.mp hr).1.eq_of_key (hSound.mem_chain_iff.mp hr').1 (Prod.ext hFs hNode)
  case counts => exact fun hash r hr => h.counted.count_eq r (hSound.mem_chain_iff.mp hr).1
  case found => exact fun r hr => (h.counted.cached r hr).2
  case released =>
    intro inst nodeid r hFind hr hPinned
    rcases hSound.find_cases (inst, nodeid) with ⟨hNull, _⟩ | ⟨r', hFound, hCached, _⟩
    · exact absurd (some.inj (hFind.symm.trans hNull)) hr
    · obtain rfl : r' = r := some.inj (hFound.symm.trans hFind)
      exact h.counted.used r' hCached hPinned

/-- While no full count is raised the cache is consistent: roots and mount points are never removed, and a release
changes no lookup but the one of its inode. -/
theorem inode_cache_consistent {fs : FsTable} (hIds : ∀ inst, (fs inst).EntryIds)
    {inode : InodeRef → VfsInode} {next : InodeRef → InodeRef} {pool : List InodeRef} (hPool : PoolFresh pool)
    {as : List CacheAction} {s : CacheRun}
    (h : Run (CacheRun.step fs) (CacheRun.Allowed fs) (CacheRun.boot inode next pool) as s) :
    s.Consistent ∧ ∀ a t, s.Allowed fs a → s.step fs a = some t →
      (∀ hash, ∀ r ∈ s.cache.chain hash, (s.cache.inode r).pinned →
        vfsCacheFind t.cache (s.cache.inode r).fsOp (s.cache.inode r).node = some r ∧ (t.cache.inode r).pinned) ∧
      ∀ r, a = .release r → ∀ inst nodeid, (inst, nodeid) ≠ s.cache.key r →
        vfsCacheFind t.cache inst nodeid = vfsCacheFind s.cache inst nodeid := by
  have hInv : s.Inv := h.invariant (fun _ _ _ hAllowed hInv => hInv.step hIds hAllowed) (CacheRun.boot_inv inode next hPool)
  refine ⟨hInv.consistent, fun a t hAllowed hStep => ⟨fun hash r hr hPinned => ?_, ?_⟩⟩
  · exact hInv.pinned_stays hIds hAllowed hStep (hInv.counted.sound.mem_chain_iff.mp hr).1 hPinned
  · rintro r rfl inst nodeid hNe
    exact hInv.release_find (k := (inst, nodeid)) hStep hNe

def smallFs : FsTable := fun inst =>
  if inst = 0x8800_1000 then
    .protofs fun i => ⟨if i = 0 then [109, 110, 116] else [100, 101, 118], none, ⟨true, false, false, false⟩,
      2 ≤ i, 7#32, 0⟩
  else .smemfs [⟨false, smemfsFileDir, 5, smemfsFileRootId, [68]⟩, ⟨false, smemfsFileFileH, 5, 5, [70]⟩]

def blankInode : VfsInode := ⟨0, 0, 0, ⟨false, false, false, false⟩, 0, 0, 0, [], none⟩

def smallBoot : CacheRun := CacheRun.boot (fun _ => blankInode) (fun _ => 0) [40, 30, 20, 10]

def smallActions : List CacheAction :=
  [.mountRoot 0x8800_1000, .get 0x8800_1000 0, .mountOn 30 0x8800_2000, .get 0x8800_1000 1, .release 10,
    .get 0x8800_2000 5, .get 0x8800_2000 5]

lemma smallFs_entryIds (inst : Nat) : (smallFs inst).EntryIds := by
  unfold smallFs
  split
  · trivial
  · exact ⟨by decide, by decide⟩

theorem inode_cache_consistent_small : ∃ s,
    Run (CacheRun.step smallFs) (CacheRun.Allowed smallFs) smallBoot smallActions s ∧
      s.held = [10, 10] ∧ (s.cache.inode 10).node = 5 ∧ s.Consistent := by
  have hExec : (exec (guarded (CacheRun.step smallFs) (CacheRun.Allowed smallFs)) smallBoot smallActions).map
      (fun s => (s.held, (s.cache.inode 10).node)) = some ([10, 10], 5) := by
    decide +kernel
  obtain ⟨s, hRun, hEq⟩ := map_eq_some_iff.mp hExec
  obtain ⟨hHeld, hNode⟩ := Prod.mk.inj hEq
  have hGuarded := run_of_exec_guarded hRun
  exact ⟨s, hGuarded, hHeld, hNode, (inode_cache_consistent smallFs_entryIds ⟨by decide, by decide⟩ hGuarded).1⟩

lemma gets_go_around (fs : FsTable) {nodeid : Nat} (n : Nat)
    (hSound : s.cache.Sound) (hr : s.cache.Cached r) (hKey : s.cache.key r = (inst, nodeid))
    (hCount : (s.cache.inode r).count < countModulus) :
    ∃ t, exec (CacheRun.step fs) s (replicate n (.get inst nodeid)) = some t ∧ t.cache.Cached r ∧
      (t.cache.inode r).pinned = (s.cache.inode r).pinned ∧
      (t.cache.inode r).count = ((s.cache.inode r).count + n) % countModulus ∧
      t.held.count r = s.held.count r + n := by
  induction n generalizing s with
  | zero => exact ⟨s, rfl, hr, rfl, (Nat.mod_eq_of_lt hCount).symm, rfl⟩
  | succ n ih =>
    have hKept := hSound.kept_countUp r
    have hInode : (s.cache.countUp r).inode r =
        { s.cache.inode r with count := ((s.cache.inode r).count + 1) % countModulus } := by
      rw [VfsCache.countUp_inode, if_pos rfl]
    obtain ⟨t, hExec, hCached, hPinned, hTotal, hHeld⟩ := ih (s := ⟨s.cache.countUp r, r :: s.held⟩) hKept.sound
      (hKept.cached_iff.mpr hr) (by rw [hKept.key_eq, hKey]) (by rw [hInode]; exact Nat.mod_lt _ (by decide))
    refine ⟨t, ?_, hCached, ?_, ?_, ?_⟩
    · have hStep : s.step fs (.get inst nodeid) = some ⟨s.cache.countUp r, r :: s.held⟩ := by
        simp only [CacheRun.step, vfsGetInode_cached hr hKey, map_some, if_pos hr.1]
      rw [replicate_succ, exec, hStep]
      exact hExec
    · rw [hPinned, hInode]
      rfl
    · rw [hTotal, hInode, Nat.mod_add_mod, Nat.add_assoc, Nat.add_comm 1 n]
    · rw [hHeld, count_cons_self, Nat.add_assoc, Nat.add_comm 1 n]

lemma gets_go_around_small (n : Nat) : ∃ s,
    exec (CacheRun.step smallFs) smallBoot (replicate (n + 1) (.get 0x8800_1000 1)) = some s ∧
      s.cache.Cached 40 ∧ (s.cache.inode 40).pinned = false ∧ s.held.count 40 = n + 1 ∧
      (s.cache.inode 40).count = (n + 1) % countModulus := by
  have hFirst : (exec (guarded (CacheRun.step smallFs) (CacheRun.Allowed smallFs)) smallBoot
      [.get 0x8800_1000 1]).map (fun s => (s.held, s.cache.key 40, (s.cache.inode 40).pinned, (s.cache.inode 40).count)) =
      some ([40], (0x8800_1000, 1), false, 1) := by
    decide +kernel
  obtain ⟨s, hGuarded, hEq⟩ := map_eq_some_iff.mp hFirst
  simp only [Prod.mk.injEq] at hEq
  obtain ⟨hHeld, hKey, hFree, hOne⟩ := hEq
  have hRun := run_of_exec_guarded hGuarded
  have hInv : s.Inv := hRun.invariant (fun _ _ _ hAllowed hInv => hInv.step smallFs_entryIds hAllowed)
    (CacheRun.boot_inv _ _ ⟨by decide, by decide⟩)
  obtain ⟨t, hExec, hCached, hPinned, hCount, hTotal⟩ := gets_go_around smallFs n hInv.counted.sound
    (hInv.counted.cached 40 (by rw [hHeld]; exact mem_singleton_self 40)) hKey (by rw [hOne]; decide)
  refine ⟨t, ?_, hCached, by rw [hPinned, hFree], ?_, ?_⟩
  · cases hRun with
    | cons _ hStep hNil =>
      cases hNil
      rw [replicate_succ, exec, hStep]
      exact hExec
  · rw [hTotal, hHeld, count_singleton_self, Nat.add_comm]
  · rw [hCount, hOne, Nat.add_comm]

theorem full_count_goes_around : (smallFs 0x8800_1000).HandsOut 1 ∧ ∃ s,
    exec (CacheRun.step smallFs) smallBoot (replicate countModulus (.get 0x8800_1000 1)) = some s ∧
      s.cache.Cached 40 ∧ (s.cache.inode 40).pinned = false ∧ s.held.count 40 = countModulus ∧
      (s.cache.inode 40).count = 0 := by
  obtain ⟨s, hExec, hCached, hPinned, hHeld, hCount⟩ := gets_go_around_small (countModulus - 1)
  have hPred : countModulus - 1 + 1 = countModulus := Nat.sub_add_cancel (Nat.two_pow_pos 16)
  rw [hPred] at hExec hHeld hCount
  rw [Nat.mod_self] at hCount
  exact ⟨by decide, s, hExec, hCached, hPinned, hHeld, hCount⟩

end Fixos.Fs
