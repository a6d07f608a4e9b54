import Mathlib.Data.List.Perm.Subperm
import Fixos.Lib.HashChain
import Fixos.Lib.Word

/-! # The inode cache (`fs/vfs_cache.c`)

The inodes are entries of a hash table. An object that was given back to the pool keeps its contents. `NULL` is 0.
-/

namespace Fixos.Fs

open Links HashChain Function List Option

abbrev InodeRef := Nat

abbrev NodeKey := Nat × Nat

structure TypeFlags where
  parent : Bool
  dev : Bool
  root : Bool
  mountpoint : Bool
deriving DecidableEq

/-- A header of the SMEM volume; `name` has the lower bytes of its twelve characters. -/
structure SmemHeader where
  deleted : Bool
  type : UInt8
  entryId : Nat
  parentId : Nat
  name : Bytes
deriving DecidableEq

/-- `typespec` is the word that `dev`, `mnt_root` and `mnt_point` share; `abstract` points to a header or is `NULL`. -/
structure VfsInode where
  fsOp : Nat
  node : Nat
  parent : Nat
  typeFlags : TypeFlags
  flags : BitVec 32
  typespec : Nat
  count : Nat
  name : Bytes
  abstract : Option SmemHeader
deriving DecidableEq

/-- The entries by their address, the heads of the buckets, and the free objects of the pool in order. -/
structure VfsCache where
  inode : InodeRef → VfsInode
  next : InodeRef → InodeRef
  hashHead : Nat → InodeRef
  inodeAlloc : List InodeRef

def vfsCacheHashtableSize : Nat := 31

def vfsCacheHash (inst nodeid : Nat) : Nat :=
  ((((inst >>> 16) ^^^ inst) ^^^ ((nodeid >>> 16) ^^^ nodeid)) &&& 0xFFFF) % vfsCacheHashtableSize

/-- Addresses have 32 bits, so no bucket has more entries. -/
def cacheLimit : Nat := 2 ^ 32

def VfsCache.key (c : VfsCache) (r : InodeRef) : NodeKey := ((c.inode r).fsOp, (c.inode r).node)

def VfsCache.isEntry (c : VfsCache) (inst nodeid : Nat) (cur : InodeRef) : Bool :=
  cur = 0 || ((c.inode cur).fsOp = inst && (c.inode cur).node = nodeid)

def vfsCacheFind (c : VfsCache) (inst nodeid : Nat) : Option InodeRef :=
  advance (c.isEntry inst nodeid) c.next cacheLimit (c.hashHead (vfsCacheHash inst nodeid))

/-- The kernel stops when the pool gets no page, so no object is `none`. -/
def vfsCacheAlloc (c : VfsCache) (inst nodeid : Nat) : Option (VfsCache × InodeRef) :=
  match c.inodeAlloc with
  | [] => none
  | ret :: inodeAlloc =>
    let hash := vfsCacheHash inst nodeid
    some ({ c with
      next := update c.next ret (c.hashHead hash)
      hashHead := update c.hashHead hash ret
      inodeAlloc }, ret)

/-- `cur` is taken out of its bucket, in which it comes after `prev`, and given back to the pool. -/
def VfsCache.unlinkEntry (c : VfsCache) (hash : Nat) (prev cur : InodeRef) : VfsCache :=
  { c with
    next := if prev = 0 then c.next else update c.next prev (c.next cur)
    hashHead := if prev = 0 then update c.hashHead hash (c.next cur) else c.hashHead
    inodeAlloc := cur :: c.inodeAlloc }

def vfsCacheRemove (c : VfsCache) (inst nodeid : Nat) : Option VfsCache :=
  let hash := vfsCacheHash inst nodeid
  (advancePair (c.isEntry inst nodeid) c.next cacheLimit 0 (c.hashHead hash)).map fun (prev, cur) =>
    if cur = 0 then c else c.unlinkEntry hash prev cur

def VfsCache.setInode (c : VfsCache) (r : InodeRef) (inode : VfsInode) : VfsCache :=
  { c with inode := update c.inode r inode }

def VfsCache.chain (c : VfsCache) (hash : Nat) : List InodeRef := collect c.next 0 cacheLimit (c.hashHead hash)

def VfsCache.lookup (c : VfsCache) (k : NodeKey) : InodeRef := (vfsCacheFind c k.1 k.2).getD 0

def VfsCache.Cached (c : VfsCache) (r : InodeRef) : Prop := r ≠ 0 ∧ vfsCacheFind c (c.key r).1 (c.key r).2 = some r
deriving Decidable

def keyHash (k : NodeKey) : Nat := vfsCacheHash k.1 k.2

structure VfsCache.Sound (c : VfsCache) : Prop where
  chained : ∃ chain, Chained c.key keyHash 0 c.next c.hashHead chain ∧
    ∀ r, Member chain r → r < cacheLimit ∧ r ∉ c.inodeAlloc
  pool_nodup : c.inodeAlloc.Nodup
  pool_proper : ∀ r ∈ c.inodeAlloc, r ≠ 0 ∧ r < cacheLimit

lemma vfsCacheFind_eq (c : VfsCache) (inst nodeid : Nat) :
    vfsCacheFind c inst nodeid = find c.key keyHash 0 c.next c.hashHead cacheLimit (inst, nodeid) := by
  have hStop : c.isEntry inst nodeid = fun p => p = 0 || decide (c.key p = (inst, nodeid)) := by
    funext p
    simp [VfsCache.isEntry, VfsCache.key]
  rw [vfsCacheFind, hStop]
  rfl

lemma chain_length_lt {key : InodeRef → NodeKey} {next : InodeRef → InodeRef} {head : Nat → InodeRef}
    {chain : Nat → List InodeRef} (h : Chained key keyHash 0 next head chain)
    (hLimit : ∀ r, Member chain r → r < cacheLimit) (hash : Nat) : (chain hash).length < cacheLimit := by
  have hSub : chain hash ⊆ range' 1 (cacheLimit - 1) := by
    intro r hr
    have hPos : 1 ≤ r := Nat.pos_of_ne_zero (h.ne_null ⟨hash, hr⟩)
    have hLt : r < cacheLimit := hLimit r ⟨hash, hr⟩
    refine mem_range'_1.mpr ⟨hPos, ?_⟩
    rwa [Nat.add_sub_cancel' (Nat.le_of_lt (Nat.lt_of_le_of_lt hPos hLt))]
  have hLength := (subperm_of_subset (h.nodup hash) hSub).length_le
  rw [length_range'] at hLength
  have hPos : 0 < cacheLimit := Nat.two_pow_pos 32
  omega

section

variable {c : VfsCache} {chain : Nat → List InodeRef}

section

variable (h : Chained c.key keyHash 0 c.next c.hashHead chain) (hLimit : ∀ r, Member chain r → r < cacheLimit)
include h hLimit

lemma cached_iff_member {r : InodeRef} : c.Cached r ↔ Member chain r := by
  have hFuel := chain_length_lt h hLimit
  constructor
  · rintro ⟨hNe, hFind⟩
    rw [vfsCacheFind_eq] at hFind
    rcases h.find_cases hFuel (c.key r) with ⟨hNull, _⟩ | ⟨p, hp, hMember, _⟩
    · exact absurd (some.inj (hFind.symm.trans hNull)) hNe
    · rwa [some.inj (hFind.symm.trans hp)]
  · intro hMember
    refine ⟨h.ne_null hMember, ?_⟩
    rw [vfsCacheFind_eq]
    exact h.find_member hFuel hMember

lemma chain_eq (hash : Nat) : c.chain hash = chain hash :=
  collect_walk (h.walk hash) (h.proper hash) (Nat.le_of_lt (chain_length_lt h hLimit hash))

end

lemma VfsCache.Sound.find_cases (h : c.Sound) (k : NodeKey) :
    (vfsCacheFind c k.1 k.2 = some 0 ∧ ∀ r, c.Cached r → c.key r ≠ k) ∨
      ∃ r, vfsCacheFind c k.1 k.2 = some r ∧ c.Cached r ∧ c.key r = k := by
  obtain ⟨_, hChained, hProper⟩ := h.chained
  have hLimit := fun r hr => (hProper r hr).1
  rw [vfsCacheFind_eq]
  rcases hChained.find_cases (chain_length_lt hChained hLimit) k with ⟨hNull, hAbsent⟩ | ⟨r, hFind, hMember, hKey⟩
  · exact Or.inl ⟨hNull, fun r hr => hAbsent r ((cached_iff_member hChained hLimit).mp hr)⟩
  · exact Or.inr ⟨r, hFind, (cached_iff_member hChained hLimit).mpr hMember, hKey⟩

variable {r : InodeRef} {k : NodeKey}

lemma VfsCache.Cached.find_eq (h : c.Cached r) (hKey : c.key r = k) : vfsCacheFind c k.1 k.2 = some r := by
  rw [← hKey]
  exact h.2

lemma VfsCache.Cached.eq_of_key {s : InodeRef} (hr : c.Cached r) (hs : c.Cached s) (hKey : c.key r = c.key s) : r = s :=
  some.inj ((hr.find_eq hKey).symm.trans hs.2)

lemma VfsCache.Cached.lookup_eq (h : c.Cached r) (hKey : c.key r = k) : c.lookup k = r := by
  rw [lookup, h.find_eq hKey]
  rfl

lemma VfsCache.Sound.find_eq (h : c.Sound) (k : NodeKey) : vfsCacheFind c k.1 k.2 = some (c.lookup k) := by
  rcases h.find_cases k with ⟨hFind, _⟩ | ⟨r, hFind, _⟩ <;> rw [lookup, hFind] <;> rfl

lemma VfsCache.Sound.lookup_cases (h : c.Sound) (k : NodeKey) :
    (c.lookup k = 0 ∧ ∀ r, c.Cached r → c.key r ≠ k) ∨ (c.Cached (c.lookup k) ∧ c.key (c.lookup k) = k) := by
  rcases h.find_cases k with ⟨hFind, hAbsent⟩ | ⟨r, hFind, hCached, hKey⟩
  · refine Or.inl ⟨?_, hAbsent⟩
    rw [lookup, hFind]
    rfl
  · rw [hCached.lookup_eq hKey]
    exact Or.inr ⟨hCached, hKey⟩

lemma VfsCache.Sound.not_pool (h : c.Sound) (hr : c.Cached r) : r ∉ c.inodeAlloc := by
  obtain ⟨_, hChained, hProper⟩ := h.chained
  exact (hProper r ((cached_iff_member hChained fun r hr => (hProper r hr).1).mp hr)).2

end

lemma VfsCache.Sound.mem_chain_iff {c : VfsCache} (h : c.Sound) {r : InodeRef} {hash : Nat} :
    r ∈ c.chain hash ↔ c.Cached r ∧ keyHash (c.key r) = hash := by
  obtain ⟨_, hChained, hProper⟩ := h.chained
  have hLimit := fun r hr => (hProper r hr).1
  rw [chain_eq hChained hLimit, cached_iff_member hChained hLimit]
  constructor
  · exact fun hr => ⟨⟨hash, hr⟩, hChained.hashed hash r hr⟩
  · rintro ⟨hMember, rfl⟩
    exact hChained.member_iff.mp hMember

variable {c c' : VfsCache} {inst nodeid : Nat} {r : InodeRef}

variable {inode : VfsInode}

lemma VfsCache.Sound.setInode (h : c.Sound) (hKey : (inode.fsOp, inode.node) = c.key r) :
    (c.setInode r inode).Sound ∧ (c.setInode r inode).key = c.key ∧
      ∀ k : NodeKey, vfsCacheFind (c.setInode r inode) k.1 k.2 = vfsCacheFind c k.1 k.2 := by
  have hSame : (c.setInode r inode).key = c.key := by
    funext s
    unfold VfsCache.key VfsCache.setInode
    rcases eq_or_ne s r with rfl | hs
    · simp only [update_self]
      exact hKey
    · simp [update_of_ne hs]
  refine ⟨⟨?_, h.pool_nodup, h.pool_proper⟩, hSame, fun k => ?_⟩
  · rw [hSame]
    exact h.chained
  · rw [vfsCacheFind_eq, vfsCacheFind_eq, hSame]
    rfl

lemma VfsCache.cached_congr (hKey : c'.key = c.key)
    (hFind : ∀ k : NodeKey, vfsCacheFind c' k.1 k.2 = vfsCacheFind c k.1 k.2) : c'.Cached r ↔ c.Cached r := by
  rw [VfsCache.Cached, VfsCache.Cached, hKey, hFind (c.key r)]

/-- The entry is hashed before its key is written. -/
structure VfsCache.Entered (c : VfsCache) (k : NodeKey) (r : InodeRef) (c' : VfsCache) : Prop where
  sound : c'.Sound
  fresh : ¬ c.Cached r
  pool : c.inodeAlloc = r :: c'.inodeAlloc
  key_self : c'.key r = k
  inode_of_ne : ∀ s, s ≠ r → c'.inode s = c.inode s
  cached_iff : ∀ s, c'.Cached s ↔ s = r ∨ c.Cached s

lemma vfsCacheAlloc_entered (h : c.Sound) (hAbsent : vfsCacheFind c inst nodeid = some 0)
    (hAlloc : vfsCacheAlloc c inst nodeid = some (c', r))
    (hKey : (inode.fsOp, inode.node) = (inst, nodeid)) : c.Entered (inst, nodeid) r (c'.setInode r inode) := by
  obtain ⟨chain, hChained, hProper⟩ := h.chained
  have hLimit := fun s hs => (hProper s hs).1
  unfold vfsCacheAlloc at hAlloc
  split at hAlloc
  · cases hAlloc
  · rename_i ret inodeAlloc hPool
    cases hAlloc
    have hMem : r ∈ c.inodeAlloc := by
      rw [hPool]
      exact mem_cons_self
    have hNew : ¬ Member chain r := fun hMember => (hProper r hMember).2 hMem
    have hNone : ∀ s, Member chain s → c.key s ≠ (inst, nodeid) := by
      intro s hs
      rw [← cached_iff_member hChained hLimit] at hs
      rcases h.find_cases (inst, nodeid) with ⟨_, hAll⟩ | ⟨s, hFind, hCached, _⟩
      · exact hAll s hs
      · exact absurd (some.inj (hFind.symm.trans hAbsent)) hCached.1
    obtain ⟨c', hc'⟩ : ∃ c' : VfsCache, c' = VfsCache.setInode { c with
          next := update c.next r (c.hashHead (vfsCacheHash inst nodeid))
          hashHead := update c.hashHead (vfsCacheHash inst nodeid) r
          inodeAlloc } r inode := ⟨_, rfl⟩
    have hSelf : c'.key r = (inst, nodeid) := by
      subst hc'
      unfold VfsCache.key VfsCache.setInode
      simp only [update_self]
      exact hKey
    have hOther : ∀ s, s ≠ r → c'.inode s = c.inode s := fun s hs => by
      subst hc'
      exact update_of_ne hs _ _
    have hLinked : Chained c'.key keyHash 0 c'.next c'.hashHead (link chain (keyHash (c'.key r)) r) := by
      refine hChained.insert (h.pool_proper r hMem).1 hNew (by rwa [hSelf])
        (fun s hs => by rw [VfsCache.key, VfsCache.key, hOther s hs]) ?_ ?_ <;>
      · rw [hSelf]
        subst hc'
        rfl
    have hNodup := h.pool_nodup
    rw [hPool, nodup_cons] at hNodup
    have hAll : ∀ s, Member (link chain (keyHash (c'.key r)) r) s → s < cacheLimit ∧ s ∉ c'.inodeAlloc := by
      have hRest : c'.inodeAlloc = inodeAlloc := by
        subst hc'
        rfl
      rw [hRest]
      intro s hs
      rcases member_link.mp hs with rfl | hs
      · exact ⟨(h.pool_proper s hMem).2, hNodup.1⟩
      · refine ⟨hLimit s hs, fun hPoolMem => (hProper s hs).2 ?_⟩
        rw [hPool]
        exact mem_cons_of_mem _ hPoolMem
    rw [← hc']
    constructor
    case sound =>
      refine ⟨⟨_, hLinked, hAll⟩, ?_, ?_⟩
      · subst hc'
        exact hNodup.2
      · intro s hs
        subst hc'
        refine h.pool_proper s ?_
        rw [hPool]
        exact mem_cons_of_mem _ hs
    case fresh => exact fun hCached => h.not_pool hCached hMem
    case pool =>
      subst hc'
      exact hPool
    case key_self => exact hSelf
    case inode_of_ne => exact hOther
    case cached_iff =>
      intro s
      rw [cached_iff_member hLinked fun s hs => (hAll s hs).1, member_link, cached_iff_member hChained hLimit]

structure VfsCache.Removed (c : VfsCache) (r : InodeRef) (c' : VfsCache) : Prop where
  sound : c'.Sound
  pool : c'.inodeAlloc = r :: c.inodeAlloc
  inode_eq : c'.inode = c.inode
  cached_iff : ∀ s, c'.Cached s ↔ c.Cached s ∧ s ≠ r

lemma VfsCache.isEntry_iff : c.isEntry inst nodeid r = true ↔ r = 0 ∨ c.key r = (inst, nodeid) := by
  simp [VfsCache.isEntry, VfsCache.key]

section

variable {chain : Nat → List InodeRef}

section

variable (hChained : Chained c.key keyHash 0 c.next c.hashHead chain)
include hChained

lemma advancePair_cached
    (hLimit : ∀ s, Member chain s → s < cacheLimit) (hMember : Member chain r) (hKey : c.key r = (inst, nodeid)) :
    ∃ front back, chain (keyHash (c.key r)) = front ++ r :: back ∧
      advancePair (c.isEntry inst nodeid) c.next cacheLimit 0 (c.hashHead (keyHash (c.key r))) =
        some (front.getLastD 0, r) := by
  have hMem := hChained.member_iff.mp hMember
  obtain ⟨front, back, hSplit⟩ := append_of_mem hMem
  have hNodup := hChained.nodup (keyHash (c.key r))
  have hWalk := hChained.walk (keyHash (c.key r))
  have hLength := chain_length_lt hChained hLimit (keyHash (c.key r))
  rw [hSplit] at hNodup hWalk hLength
  obtain ⟨mid, hFront, rfl, _⟩ := walk_append.mp hWalk
  have hBefore : ∀ s ∈ front, c.isEntry inst nodeid s = false := by
    intro s hs
    have hsMem : s ∈ chain (keyHash (c.key mid)) := by
      rw [hSplit]
      exact mem_append_left _ hs
    by_contra hStop
    rw [Bool.not_eq_false] at hStop
    rcases VfsCache.isEntry_iff.mp hStop with rfl | hSame
    · exact hChained.proper _ hsMem
    · rw [hChained.unique _ s hsMem mid hMem (hSame.trans hKey.symm)] at hs
      exact (nodup_append.mp hNodup).2.2 mid hs mid mem_cons_self rfl
  have hHere : c.isEntry inst nodeid mid = true := VfsCache.isEntry_iff.mpr (Or.inr hKey)
  refine ⟨front, back, hSplit, advancePair_walk hFront hBefore hHere ?_⟩
  rw [length_append] at hLength
  omega

lemma unlinkEntry_chained {front back : List InodeRef} (hSplit : chain (keyHash (c.key r)) = front ++ r :: back) :
    Chained c.key keyHash 0 (c.unlinkEntry (keyHash (c.key r)) (front.getLastD 0) r).next
      (c.unlinkEntry (keyHash (c.key r)) (front.getLastD 0) r).hashHead (unlink chain (keyHash (c.key r)) r) := by
  have hNodup := hChained.nodup (keyHash (c.key r))
  have hNull := hChained.proper (keyHash (c.key r))
  have hWalk := hChained.walk (keyHash (c.key r))
  rw [hSplit] at hNodup hNull hWalk
  have hNotFront : r ∉ front := fun hIn => (nodup_append.mp hNodup).2.2 r hIn r mem_cons_self rfl
  have hErase : (chain (keyHash (c.key r))).erase r = front ++ back := by
    rw [hSplit, erase_append_right _ hNotFront, erase_cons_head]
  unfold VfsCache.unlinkEntry
  dsimp only
  apply hChained.remove
  · rw [hErase, apply_ite (fun head : Nat → InodeRef => head (keyHash (c.key r))), update_self]
    exact hWalk.unlink hNodup hNull
  · intro s hs
    split
    · rfl
    · refine update_of_ne (fun hEq => hs ?_) _ _
      rw [hSplit, hEq]
      rcases eq_nil_or_concat front with rfl | ⟨_, _, rfl⟩
      · rename_i hLast
        exact absurd getLastD_nil hLast
      · rw [concat_eq_append, getLastD_concat]
        simp
  · intro b hb
    split
    · exact update_of_ne hb _ _
    · rfl

end

end

lemma vfsCacheRemove_cached (h : c.Sound) (hr : c.Cached r) (hKey : c.key r = (inst, nodeid)) :
    ∃ c', vfsCacheRemove c inst nodeid = some c' ∧ c.Removed r c' := by
  obtain ⟨chain, hChained, hProper⟩ := h.chained
  have hLimit := fun s hs => (hProper s hs).1
  have hMember := (cached_iff_member hChained hLimit).mp hr
  have hHash : vfsCacheHash inst nodeid = keyHash (c.key r) := by
    rw [hKey]
    rfl
  obtain ⟨front, _, hSplit, hLoop⟩ := advancePair_cached hChained hLimit hMember hKey
  have hLinked := unlinkEntry_chained hChained hSplit
  have hAll : ∀ s, Member (unlink chain (keyHash (c.key r)) r) s → s < cacheLimit ∧ s ∉ r :: c.inodeAlloc := by
    intro s hs
    obtain ⟨hMemberS, hNe⟩ := (member_unlink hChained).mp hs
    exact ⟨hLimit s hMemberS, not_mem_cons_of_ne_of_not_mem hNe (hProper s hMemberS).2⟩
  refine ⟨c.unlinkEntry (keyHash (c.key r)) (front.getLastD 0) r, ?_, ?_⟩
  · rw [vfsCacheRemove, hHash, hLoop]
    exact congrArg some (if_neg hr.1)
  constructor
  case sound =>
    refine ⟨⟨_, hLinked, hAll⟩, nodup_cons.mpr ⟨h.not_pool hr, h.pool_nodup⟩, fun s hs => ?_⟩
    rcases mem_cons.mp hs with rfl | hs
    · exact ⟨hr.1, hLimit s hMember⟩
    · exact h.pool_proper s hs
  case pool => rfl
  case inode_eq => rfl
  case cached_iff =>
    intro s
    rw [cached_iff_member hLinked fun s hs => (hAll s hs).1, member_unlink hChained, cached_iff_member hChained hLimit]

lemma vfsCacheRemove_absent (h : c.Sound) (hAbsent : ∀ r, c.Cached r → c.key r ≠ (inst, nodeid)) :
    vfsCacheRemove c inst nodeid = some c := by
  obtain ⟨chain, hChained, hProper⟩ := h.chained
  have hLimit := fun s hs => (hProper s hs).1
  have hBefore : ∀ s ∈ chain (vfsCacheHash inst nodeid), c.isEntry inst nodeid s = false := by
    intro s hs
    by_contra hStop
    rw [Bool.not_eq_false] at hStop
    rcases VfsCache.isEntry_iff.mp hStop with rfl | hSame
    · exact hChained.proper _ hs
    · exact hAbsent s ((cached_iff_member hChained hLimit).mpr ⟨_, hs⟩) hSame
  have hLoop : advancePair (c.isEntry inst nodeid) c.next cacheLimit 0 (c.hashHead (vfsCacheHash inst nodeid)) =
      some ((chain (vfsCacheHash inst nodeid)).getLastD 0, 0) :=
    advancePair_walk (hChained.walk _) hBefore rfl (chain_length_lt hChained hLimit _)
  rw [vfsCacheRemove, hLoop]
  rfl

end Fixos.Fs
