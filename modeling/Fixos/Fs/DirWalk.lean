import Fixos.Fs.Directory
import Fixos.Fs.PathLaws

/-! # The walk over a directory

Every call walks over the children again, with a reference to one of them that is given up when the
next one has been found.
-/

namespace Fixos.Fs

open Bytes MountTree Transition Option Function List

abbrev CacheEntry := InodeRef × VfsInode

def VfsCache.entry (c : VfsCache) (k : NodeKey) : Option CacheEntry :=
  if c.lookup k = 0 then none else some (c.lookup k, c.inode (c.lookup k))

def VfsInode.released (inode : VfsInode) : Option VfsInode :=
  if inode.count = 0 ∨ (inode.count = 1 ∧ inode.pinned) then some inode
  else if inode.count = 1 then none
  else some { inode with count := inode.count - 1 }

/-- The same after a reference was taken and given up. -/
def VfsInode.visited (inode : VfsInode) : Option VfsInode :=
  VfsInode.released { inode with count := (inode.count + 1) % countModulus }

def visitEntry (entry : CacheEntry) : Option CacheEntry := entry.2.visited.map (Prod.mk entry.1)

variable {inode : VfsInode}

lemma VfsInode.released_last (hCount : inode.count = 1) (hPinned : inode.pinned = false) : inode.released = none := by
  rw [released, if_neg (by simp [hCount, hPinned]), if_pos hCount]

lemma VfsInode.visited_eq_self : inode.visited = some inode ↔ 1 ≤ inode.count ∧ inode.count + 1 < countModulus := by
  have hMod : (inode.count + 1) % countModulus < countModulus := Nat.mod_lt _ (by decide)
  unfold VfsInode.visited VfsInode.released
  dsimp only
  constructor
  · intro h
    split at h
    · -- the count would be its own successor, or zero
      have hCount := congrArg VfsInode.count (some.inj h)
      simp only [countModulus] at *
      omega
    · split at h
      · cases h
      · have hCount := congrArg VfsInode.count (some.inj h)
        dsimp only at hCount
        omega
  · rintro ⟨_, hLt⟩
    rw [Nat.mod_eq_of_lt hLt, if_neg (by omega), if_neg (by omega), Nat.add_sub_cancel]

section

variable {fs : FsTable} {c c' : VfsCache} {k k' : NodeKey} {r : InodeRef} {entry : CacheEntry}

namespace VfsCache

lemma Cached.entry_eq (h : c.Cached r) (hKey : c.key r = k) : c.entry k = some (r, c.inode r) := by
  rw [VfsCache.entry, h.lookup_eq hKey, if_neg h.1]

lemma Sound.entry_eq_some (h : c.Sound) (hEntry : c.entry k = some entry) :
    c.Cached entry.1 ∧ c.key entry.1 = k ∧ entry.2 = c.inode entry.1 := by
  rcases h.lookup_cases k with ⟨hNull, _⟩ | ⟨hCached, hKey⟩
  · rw [VfsCache.entry, if_pos hNull] at hEntry
    cases hEntry
  · rw [VfsCache.entry, if_neg hCached.1, some.injEq] at hEntry
    rw [← hEntry]
    exact ⟨hCached, hKey, rfl⟩

lemma Sound.entry_eq_none (h : c.Sound) : c.entry k = none ↔ ∀ s, c.Cached s → c.key s ≠ k := by
  constructor
  · intro hNone s hs hKey
    rw [hs.entry_eq hKey] at hNone
    cases hNone
  · intro hAbsent
    rcases h.lookup_cases k with ⟨hNull, _⟩ | ⟨hCached, hKey⟩
    · rw [VfsCache.entry, if_pos hNull]
    · exact absurd hKey (hAbsent _ hCached)

lemma entry_same (h : c.Sound) (h' : c'.Sound) (hTo : ∀ s, c.Cached s → c.key s = k → c'.Cached s ∧ c'.inode s = c.inode s)
    (hFrom : ∀ s, c'.Cached s → c'.key s = k → c.Cached s ∧ c.key s = k) : c'.entry k = c.entry k := by
  cases hEntry : c.entry k with
  | none =>
    refine h'.entry_eq_none.mpr fun s hs hKey => ?_
    obtain ⟨hCached, hSame⟩ := hFrom s hs hKey
    exact h.entry_eq_none.mp hEntry s hCached hSame
  | some entry =>
    obtain ⟨hCached, hKey, hInode⟩ := h.entry_eq_some hEntry
    obtain ⟨hCached', hInode'⟩ := hTo entry.1 hCached hKey
    rw [hCached'.entry_eq (by rw [key, hInode', ← hKey]; rfl), hInode', ← hInode]

lemma Got.entry_eq (h : c.Got fs k c' r) (hSound : c.Sound) (hr : r ≠ 0) :
    c'.entry = update c.entry k (some (r, c'.inode r)) := by
  have hCached : c'.Cached r := (h.cached_iff hSound r).mpr (Or.inl ⟨rfl, hr⟩)
  have hKey := h.key_self hSound hr
  funext k'
  by_cases hk : k' = k
  · rw [hk, update_self, hCached.entry_eq hKey]
  · rw [update_of_ne hk]
    refine entry_same hSound (h.sound hSound) (fun s hs hs' => ?_) fun s hs hs' => ?_
    · have hNe : s ≠ r := by
        rintro rfl
        exact hk (by rw [← hs', ← hKey, h.key_eq hs])
      refine ⟨(h.cached_iff hSound s).mpr (Or.inr hs), ?_⟩
      rw [h.inode_eq hs, h.count_of_ne hNe]
    · rcases (h.cached_iff hSound s).mp hs with ⟨rfl, _⟩ | hOld
      · exact absurd (hs'.symm.trans hKey) hk
      · exact ⟨hOld, by rw [← hs', h.key_eq hOld]⟩

lemma Dropped.inode_of_ne (h : c.Dropped r c') {s : InodeRef} (hs : s ≠ r) : c'.inode s = c.inode s := by
  cases h with
  | same hCount => rfl
  | less hCount => rw [setInode_inode, if_neg hs]
  | last hCount hPinned hCached hKey hRemoved => rw [hRemoved.inode_eq, setInode_inode, if_neg hs]
  | stale hCount hPinned hAbsent => rw [setInode_inode, if_neg hs]

section

variable (h : c.Dropped r c') (hSound : c.Sound) (hr : c.Cached r)
include h hSound hr

lemma Dropped.released : c'.entry (c.key r) = (c.inode r).released.map (Prod.mk r) ∧
      c'.inodeAlloc.length = c.inodeAlloc.length + if (c.inode r).released.isNone then 1 else 0 := by
  cases h with
  | same hCount =>
    rw [VfsInode.released, if_pos hCount, hr.entry_eq rfl]
    exact ⟨rfl, rfl⟩
  | less hCount =>
    have hKept := hSound.kept_setCount r ((c.inode r).count - 1)
    rw [VfsInode.released, if_neg (by omega), if_neg (by omega),
      (hKept.cached_iff.mpr hr).entry_eq (congrFun hKept.key_eq r), setInode_inode, if_pos rfl]
    exact ⟨rfl, rfl⟩
  | last hCount hPinned hCached hKey hRemoved =>
    have hSame := hCached.eq_of_key hr hKey
    rw [hSame] at hRemoved
    have hKept := hSound.kept_setCount r 0
    rw [VfsInode.released_last hCount hPinned, hRemoved.pool]
    refine ⟨hRemoved.sound.entry_eq_none.mpr fun s hs hSame => ?_, rfl⟩
    obtain ⟨hOld, hNe⟩ := (hRemoved.cached_iff s).mp hs
    rw [key, hRemoved.inode_eq, ← key, hKept.key_eq] at hSame
    exact hNe ((hKept.cached_iff.mp hOld).eq_of_key hr hSame)
  | stale hCount hPinned hAbsent => exact absurd rfl (hAbsent r hr)

lemma Dropped.entry_eq : c'.entry = update c.entry (c.key r) ((c.inode r).released.map (Prod.mk r)) := by
  funext k
  by_cases hk : k = c.key r
  · rw [hk, update_self, (h.released hSound hr).1]
  · rw [update_of_ne hk]
    refine entry_same hSound (h.sound hSound) (fun s hs hs' => ?_) fun s hs hs' => ?_
    · have hNe : c.key s ≠ c.key r := by
        rw [hs']
        exact hk
      exact ⟨h.cached_of_ne hSound hs hNe, h.inode_of_ne fun hEq => hNe (congrArg c.key hEq)⟩
    · rw [h.key_eq] at hs'
      exact ⟨h.cached_of hSound hs, hs'⟩

end

lemma Got.visit (h : c.Got fs k c' r) (hr : r ≠ 0) (hLegible : (fs k.1).Legible)
    (hHanded : (fs k.1).HandsOut k.2) (hParent : ((fs k.1).parentOf k.2).isSome) :
    (c'.inode r).released.map (Prod.mk r) = (c.entry k).bind visitEntry ∧
      c.inodeAlloc.length ≤ c'.inodeAlloc.length + if (c'.inode r).released.isNone then 1 else 0 := by
  cases h with
  | none hNone hAbsent => exact absurd rfl hr
  | cached hCached hKey =>
    refine ⟨?_, Nat.le_add_right _ _⟩
    rw [hCached.entry_eq hKey, countUp_inode, if_pos rfl]
    rfl
  | filled hFill hAbsent hEntered hInode hCount =>
    rename_i c₁ fill
    obtain ⟨fill', hFill', hDescribes⟩ := hLegible.fillOf_some k.1 hHanded
    obtain rfl : fill' = fill := some.inj (hFill'.symm.trans hFill)
    have hNew := hDescribes { c.inode r with count := 0 }
    rw [← hInode] at hNew
    have hRoot : (c₁.inode r).typeFlags.root = false := by
      rw [hNew.root, isNone_eq_false_iff]
      exact hParent
    have hGone : ((c₁.countUp r).inode r).released = Option.none := by
      rw [countUp_inode, if_pos rfl, hCount]
      refine VfsInode.released_last rfl ?_
      rw [VfsInode.pinned, hRoot, hNew.mountpoint]
      rfl
    refine ⟨?_, ?_⟩
    · rw [hGone, VfsCache.entry, if_pos hAbsent]
      rfl
    · rw [hGone, hEntered.pool, length_cons]
      exact Nat.le_refl _

end VfsCache

end

def VfsCache.settled (c : VfsCache) (cur : InodeRef) : NodeKey → Option CacheEntry :=
  if cur = 0 then c.entry else update c.entry (c.key cur) ((c.inode cur).released.map (Prod.mk cur))

def VfsCache.settledPool (c : VfsCache) (cur : InodeRef) : Nat :=
  c.inodeAlloc.length + if cur ≠ 0 ∧ (c.inode cur).released.isNone then 1 else 0

def visitAll (inst : Nat) (xs : List Nat) (entries : NodeKey → Option CacheEntry) : NodeKey → Option CacheEntry := fun k =>
  if k.1 = inst ∧ k.2 ∈ xs then (entries k).bind visitEntry else entries k

variable {fs : FsTable} {ns : Namespace} {entries : NodeKey → Option CacheEntry} {c c' : VfsCache} {cur : InodeRef}
  {inst node x size : Nat} {done rest front : List Nat}

lemma visitAll_nil (inst : Nat) (entries : NodeKey → Option CacheEntry) : visitAll inst [] entries = entries :=
  funext fun _ => if_neg (by simp)

lemma visitAll_concat (inst : Nat) (entries : NodeKey → Option CacheEntry) (hx : x ∉ done) :
    visitAll inst (done ++ [x]) entries =
    update (visitAll inst done entries) (inst, x) ((visitAll inst done entries (inst, x)).bind visitEntry) := by
  funext k
  have hOld : visitAll inst done entries (inst, x) = entries (inst, x) := if_neg (by simp [hx])
  by_cases hk : k = (inst, x)
  · rw [hk, update_self, hOld]
    exact if_pos (by simp)
  · rw [update_of_ne hk]
    have hNe : ¬ (k.1 = inst ∧ k.2 = x) := fun h => hk (Prod.ext h.1 h.2)
    unfold visitAll
    simp only [mem_append, mem_singleton]
    split <;> split <;> simp_all

lemma visitAll_eq_self (h : ∀ x ∈ done, ∀ entry, entries (inst, x) = some entry → visitEntry entry = some entry) :
    visitAll inst done entries = entries := by
  funext k
  unfold visitAll
  split_ifs with hk
  · cases hEntry : entries k with
    | none => rfl
    | some entry =>
      refine h k.2 hk.2 entry ?_
      rw [← hEntry, ← hk.1]
  · rfl

lemma visitEntry_eq_self {entry : CacheEntry} :
    visitEntry entry = some entry ↔ 1 ≤ entry.2.count ∧ entry.2.count + 1 < countModulus := by
  rw [← VfsInode.visited_eq_self, visitEntry, map_eq_some_iff]
  constructor
  · rintro ⟨_, hVisited, hEq⟩
    rw [hVisited, ← hEq]
  · exact fun h => ⟨entry.2, h, rfl⟩

variable {r : InodeRef}

lemma VfsCache.Dropped.settled_of_ne (h : c.Dropped r c') (hSound : c.Sound) (hr : c.Cached r) (hCur : cur ≠ 0)
    (hNe : c.key cur ≠ c.key r) :
    c'.settled cur = update (c.settled cur) (c.key r) ((c.inode r).released.map (Prod.mk r)) ∧
      c'.settledPool cur = c.settledPool cur + if (c.inode r).released.isNone then 1 else 0 := by
  have hInode : c'.inode cur = c.inode cur := h.inode_of_ne fun hEq => hNe (congrArg c.key hEq)
  unfold VfsCache.settled VfsCache.settledPool
  rw [if_neg hCur, if_neg hCur, hInode, h.key_eq, h.entry_eq hSound hr, (h.released hSound hr).2]
  exact ⟨update_comm hNe.symm _ _ _, Nat.add_right_comm _ _ _⟩

structure Walking (fs : FsTable) (ns : Namespace) (entries : NodeKey → Option CacheEntry) (size inst : Nat) (c : VfsCache)
    (cur : InodeRef) (done rest : List Nat) : Prop where
  layout : Layout fs ns c
  found : foundNode c cur = rest.head?.map (Prod.mk inst)
  cached : cur ≠ 0 → c.Cached cur
  settled : c.settled cur = visitAll inst (done ++ rest.take 1) entries
  pool : size ≤ c.settledPool cur

lemma Walking.nil_iff (h : Walking fs ns entries size inst c cur done rest) : cur = 0 ↔ rest = [] := by
  have hFound := h.found
  unfold foundNode at hFound
  split_ifs at hFound with hNull
  · refine iff_of_true hNull (head?_eq_none_iff.mp ?_)
    exact map_eq_none_iff.mp hFound.symm
  · refine iff_of_false hNull ?_
    rintro rfl
    cases hFound

lemma Walking.head (h : Walking fs ns entries size inst c cur done (x :: rest)) :
    cur ≠ 0 ∧ c.Cached cur ∧ c.key cur = (inst, x) := by
  have hCur : cur ≠ 0 := fun hNull => cons_ne_nil x rest (h.nil_iff.mp hNull)
  have hFound := h.found
  rw [foundNode, if_neg hCur] at hFound
  exact ⟨hCur, h.cached hCur, some.inj hFound⟩

lemma Walking.ends (h : Walking fs ns entries size inst c 0 done rest) :
    rest = [] ∧ c.entry = visitAll inst done entries ∧ size ≤ c.inodeAlloc.length := by
  obtain rfl := h.nil_iff.mp rfl
  have hSettled := h.settled
  rw [VfsCache.settled, if_pos rfl, take_nil, append_nil] at hSettled
  exact ⟨rfl, hSettled, h.pool⟩

section

variable (hLegible : ns.Legible fs) (h : Walking fs ns entries size inst c cur done rest)
include hLegible h

lemma Walking.release (hCur : cur ≠ 0) (hDrop : c.Dropped cur c') :
    Layout.Keeps fs ns c c' ∧ c'.entry = visitAll inst (done ++ rest.take 1) entries ∧ size ≤ c'.inodeAlloc.length := by
  have hCached := h.cached hCur
  refine ⟨h.layout.keeps_dropped hLegible (h.layout.faithful cur hCached) hDrop, ?_, ?_⟩
  · rw [hDrop.entry_eq h.layout.sound hCached, ← h.settled, VfsCache.settled, if_neg hCur]
  · have hPool := h.pool
    rw [VfsCache.settledPool] at hPool
    rw [(hDrop.released h.layout.sound hCached).2]
    simpa [hCur] using hPool

lemma Walking.finish : ∃ c', (if cur ≠ 0 then vfsReleaseInode c cur else some c) = some c' ∧ Layout fs ns c' ∧
      c'.entry = visitAll inst (done ++ rest.take 1) entries ∧ size ≤ c'.inodeAlloc.length := by
  by_cases hCur : cur = 0
  · subst hCur
    obtain ⟨rfl, hEntries, hPool⟩ := h.ends
    refine ⟨c, rfl, h.layout, ?_, hPool⟩
    rw [hEntries, take_nil, append_nil]
  · obtain ⟨c', _, hDrop⟩ := vfsReleaseInode_dropped h.layout.sound cur
    obtain ⟨hKeeps, hEntries, hPool⟩ := h.release hLegible hCur hDrop
    exact ⟨c', by rwa [if_pos hCur], hKeeps.layout, hEntries, hPool⟩

end

structure GotChild (fs : FsTable) (ns : Namespace) (c : VfsCache) (k : NodeKey) (c' : VfsCache) (r : InodeRef) : Prop where
  got : c.Got fs k c' r
  layout : Layout fs ns c'
  ne_zero : r ≠ 0
  cached : c'.Cached r
  key : c'.key r = k
  settled : c'.settled r = update c.entry k ((c.entry k).bind visitEntry)
  pool : c.inodeAlloc.length ≤ c'.settledPool r

lemma vfsGetInode_child (hLegible : ns.Legible fs) (hInst : inst ∈ ns.insts) (h : Layout fs ns c)
    (hx : x ∈ (fs inst).children node) (hPool : c.inodeAlloc ≠ []) :
    ∃ c' r, vfsGetInode fs c inst x = some (c', r) ∧ GotChild fs ns c (inst, x) c' r := by
  have hFs := hLegible.legible inst hInst
  have hHanded := FsData.children_handsOut hx
  obtain ⟨c', r, hGet⟩ := vfsGetInode_some fs inst x h.sound hPool
  have hGot := vfsGetInode_got h.sound hFs.entryIds hHanded hGet
  obtain ⟨hKeeps, hr, hCached, hKey⟩ := h.keeps_got hLegible hInst hHanded hGot
  obtain ⟨hVisit, hLength⟩ := hGot.visit hr hFs hHanded (FsData.children_parentOf hFs hx)
  refine ⟨c', r, hGet, hGot, hKeeps.layout, hr, hCached, hKey, ?_, ?_⟩
  · rw [VfsCache.settled, if_neg hr, hKey, hVisit, hGot.entry_eq h.sound hr, update_idem]
  · rw [VfsCache.settledPool]
    simpa [hr] using hLength

lemma Faithful.real_inst (hr : Faithful fs ns c r) (hKey : fs.forest.real ns.mounts (c.key r) = (inst, node)) :
    inst ∈ ns.insts := by
  have hReal : (fs.forest.real ns.mounts (c.key r)).1 ∈ ns.insts := Namespace.real_inst hr.inst
  rwa [hKey] at hReal

lemma Faithful.real_parent {real : InodeRef} (hr : Faithful fs ns c r) (hParent : (c.inode r).typeFlags.parent = true)
    (hReal : Faithful fs ns c real) (hKey : c.key real = fs.forest.real ns.mounts (c.key r)) :
    (c.inode real).typeFlags.parent = true := by
  have hNode : (c.inode real).typeFlags.parent = (fs (c.key real).1).isDirectory (c.key real).2 := hReal.directory
  rw [hNode, hKey]
  unfold Forest.real
  split
  · exact (fs _).isDirectory_rootNode
  · rw [← hParent]
    exact hr.directory.symm

section

variable (hLegible : ns.Legible fs)
include hLegible

lemma vfsFirstChild_walking (h : Layout fs ns c) (hr : Faithful fs ns c r)
    (hParent : (c.inode r).typeFlags.parent = true) (hKey : fs.forest.real ns.mounts (c.key r) = (inst, node))
    (hPool : c.inodeAlloc ≠ []) : ∃ c' cur, vfsFirstChild fs c r = some (c', cur) ∧
      Walking fs ns c.entry c.inodeAlloc.length inst c' cur [] ((fs inst).children node) := by
  obtain ⟨real, hReal, hFaithful, hRealKey⟩ := hr.real h
  have hDirectory := hr.real_parent hParent hFaithful hRealKey
  rw [hKey] at hRealKey
  have hFs : (c.inode real).fsOp = inst := congrArg Prod.fst hRealKey
  have hNode : (c.inode real).node = node := congrArg Prod.snd hRealKey
  rw [vfsFirstChild, if_pos hParent, hReal]
  dsimp only
  rw [FsData.firstChild_eq hDirectory, hNode, hFs]
  cases hChildren : (fs inst).children node with
  | nil =>
    refine ⟨c, 0, rfl, h, rfl, fun hNe => absurd rfl hNe, ?_, Nat.le_add_right _ _⟩
    rw [VfsCache.settled, if_pos rfl, take_nil, append_nil, visitAll_nil]
  | cons x rest =>
    have hx : x ∈ (fs inst).children node := by
      rw [hChildren]
      exact mem_cons_self
    obtain ⟨c', cur, hGet, hChild⟩ := vfsGetInode_child hLegible (hFs ▸ hFaithful.inst) h hx hPool
    refine ⟨c', cur, hGet, hChild.layout, ?_, fun _ => hChild.cached, ?_, hChild.pool⟩
    · rw [foundNode, if_neg hChild.ne_zero, hChild.key]
      rfl
    · have hConcat := visitAll_concat inst c.entry (not_mem_nil (a := x))
      rw [visitAll_nil, ← hChild.settled] at hConcat
      exact hConcat.symm

lemma Walking.nextSibling (hInst : inst ∈ ns.insts) (hListable : (fs inst).Listable)
    (hChildren : (fs inst).children node = done ++ x :: rest) (h : Walking fs ns entries size inst c cur done (x :: rest)) :
    vfsNextSibling fs c cur = rest.head?.elim (some (c, 0)) (vfsGetInode fs c inst) := by
  have hFs := hLegible.legible inst hInst
  obtain ⟨_, hCached, hKey⟩ := h.head
  have hFaithful := h.layout.faithful cur hCached
  have hOp : (c.inode cur).fsOp = inst := congrArg Prod.fst hKey
  have hNode : (c.inode cur).node = x := congrArg Prod.snd hKey
  have hRoot : (c.inode cur).typeFlags.root = false := by
    have hx : x ∈ (fs inst).children node := by
      rw [hChildren]
      simp
    rw [hFaithful.root, hOp, hNode, isNone_eq_false_iff]
    exact FsData.children_parentOf hFs hx
  have hNext : (fs inst).nextSibling (c.inode cur) = rest.head? := by
    have hSplit : (fs inst).children node = done ++ (c.inode cur).node :: rest := by
      rw [hNode, hChildren]
    refine hListable.nextSibling_eq hFs ?_ ?_ hSplit
    · rw [← hOp]
      exact hFaithful.parent
    · rw [← hOp]
      exact hFaithful.shown
  unfold vfsNextSibling
  dsimp only
  rw [hRoot, hOp, hNext]
  rfl

lemma Walking.move {c₁ : VfsCache} {cur' : InodeRef} {y : Nat} (hDone : y ∉ done ++ [x])
    (h : Walking fs ns entries size inst c cur done (x :: y :: rest)) (hChild : GotChild fs ns c (inst, y) c₁ cur')
    (hDrop : c₁.Dropped cur c') : Walking fs ns entries size inst c' cur' (done ++ [x]) (y :: rest) := by
  obtain ⟨hCur, hCached, hKey⟩ := h.head
  obtain ⟨hGot, hLayout, hNe, hCached', hKey', hSettled, _⟩ := hChild
  have hStill : c₁.Cached cur := (hGot.cached_iff h.layout.sound cur).mpr (Or.inr hCached)
  have hStillKey : c₁.key cur = (inst, x) := by
    rw [hGot.key_eq hCached, hKey]
  have hyx : (inst, y) ≠ (inst, x) := by
    intro hEq
    rw [(Prod.mk.inj hEq).2] at hDone
    exact hDone (mem_append_right _ (mem_singleton_self x))
  have hKeyNe : c₁.key cur' ≠ c₁.key cur := by
    rw [hKey', hStillKey]
    exact hyx
  have hInode : c₁.inode cur = c.inode cur := by
    rw [hGot.inode_eq hCached, hGot.count_of_ne fun hEq => hKeyNe (congrArg c₁.key hEq.symm)]
  obtain ⟨hSettled₂, hPool₂⟩ := hDrop.settled_of_ne hLayout.sound hStill hNe hKeyNe
  constructor
  case layout => exact (hLayout.keeps_dropped hLegible (hLayout.faithful cur hStill) hDrop).layout
  case found =>
    rw [foundNode, if_neg hNe, hDrop.key_eq, hKey']
    rfl
  case cached => exact fun _ => hDrop.cached_of_ne hLayout.sound hCached' hKeyNe
  case settled =>
    have hBefore : visitAll inst (done ++ [x]) entries =
        update c.entry (inst, x) ((c.inode cur).released.map (Prod.mk cur)) := by
      have hHere := h.settled
      rw [VfsCache.settled, if_neg hCur, hKey] at hHere
      exact hHere.symm
    rw [take_succ_cons, take_zero, visitAll_concat inst entries hDone, hBefore, update_of_ne hyx, hSettled₂,
      hSettled, hStillKey, hInode, update_comm hyx]
  case pool =>
    have hSettledPool : c.settledPool cur = c.inodeAlloc.length + if (c.inode cur).released.isNone then 1 else 0 := by
      simp [VfsCache.settledPool, hCur]
    have hSize := h.pool
    rw [hPool₂, hInode]
    omega

end

lemma Walking.pool_ne_nil (h : Walking fs ns entries size inst c cur done rest) (hSize : 2 ≤ size) : c.inodeAlloc ≠ [] := by
  have hLength := h.pool
  unfold VfsCache.settledPool at hLength
  refine ne_nil_of_length_pos ?_
  split at hLength <;> omega

section

variable (hLegible : ns.Legible fs) (hInst : inst ∈ ns.insts) (hListable : (fs inst).Listable) (hSize : 2 ≤ size)
include hLegible hInst hListable hSize

lemma Walking.advance (hChildren : (fs inst).children node = done ++ x :: rest)
    (h : Walking fs ns entries size inst c cur done (x :: rest)) :
    ∃ c' cur', nextEntry fs c cur = some (c', cur') ∧ Walking fs ns entries size inst c' cur' (done ++ [x]) rest := by
  have hSibling := h.nextSibling hLegible hInst hListable hChildren
  cases rest with
  | nil =>
    obtain ⟨c', hRelease, hDrop⟩ := vfsReleaseInode_dropped h.layout.sound cur
    obtain ⟨hKeeps, hEntries, hPool⟩ := h.release hLegible h.head.1 hDrop
    refine ⟨c', 0, ?_, hKeeps.layout, rfl, fun hNe => absurd rfl hNe, ?_, hPool⟩
    · rw [nextEntry, hSibling]
      simp [hRelease]
    · rw [VfsCache.settled, if_pos rfl, hEntries]
      simp
  | cons y rest =>
    have hy : y ∈ (fs inst).children node := by
      rw [hChildren]
      simp
    have hDone : y ∉ done ++ [x] := by
      intro hy
      have hNodup := hListable.children_nodup (hLegible.legible inst hInst) node
      rw [hChildren, append_cons, nodup_append] at hNodup
      exact hNodup.2.2 y hy y mem_cons_self rfl
    obtain ⟨_, cur', hGet, hChild⟩ := vfsGetInode_child hLegible hInst h.layout hy (h.pool_ne_nil hSize)
    obtain ⟨c₂, hRelease, hDrop⟩ := vfsReleaseInode_dropped hChild.layout.sound cur
    refine ⟨c₂, cur', ?_, h.move hLegible hDone hChild hDrop⟩
    rw [nextEntry, hSibling, head?_cons, elim_some, hGet]
    simp [hRelease]

lemma skipEntries_walking (hChildren : (fs inst).children node = done ++ (front ++ rest))
    (h : Walking fs ns entries size inst c cur done (front ++ rest)) :
    ∃ c' cur', skipEntries fs front.length c cur = some (c', cur') ∧
      Walking fs ns entries size inst c' cur' (done ++ front) rest := by
  induction front generalizing c cur done with
  | nil =>
    rw [append_nil]
    exact ⟨c, cur, rfl, h⟩
  | cons x front ih =>
    rw [cons_append] at hChildren h
    obtain ⟨_, _, hNext, hWalking⟩ := h.advance hLegible hInst hListable hSize hChildren
    obtain ⟨c₂, cur₂, hSkip, _⟩ := ih (by rw [hChildren, append_cons]) hWalking
    refine ⟨c₂, cur₂, ?_, by rwa [append_cons]⟩
    rw [length_cons, skipEntries, if_neg h.head.1, hNext]
    exact hSkip

end

/-- What the loop has copied when it ends: some more children, one record behind the other, and the next one did not fit. -/
structure Copied (fs : FsTable) (ns : Namespace) (entries : NodeKey → Option CacheEntry) (size inst buf len : Nat)
    (s : DirCopy) (done batch rest : List Nat) (s' : DirCopy) : Prop where
  walking : Walking fs ns entries size inst s'.cache s'.cur (done ++ batch) rest
  pos : s'.pos = s.pos + batch.length
  curlen : s'.curlen = s.curlen + direntsSize (batch.map (fs inst).direntOf)
  holds : HoldsDirents s'.mem (buf + s.curlen) (batch.map (fs inst).direntOf)
  outside : ∀ a, a < buf + s.curlen ∨ buf + len ≤ a → s'.mem a = s.mem a
  full : ∀ y, rest.head? = some y → len ≤ s'.curlen + ((fs inst).direntOf y).size

lemma Copied.cons {buf len : Nat} {s s' : DirCopy} {batch : List Nat} (hIno : ((fs inst).direntOf x).ino < 2 ^ 32)
    (hSmall : ((fs inst).direntOf x).size < 2 ^ 32) (hFits : s.curlen + ((fs inst).direntOf x).size < len)
    (h : Copied fs ns entries size inst buf len ⟨c, cur, s.pos + 1, ((fs inst).direntOf x).store s.mem (buf + s.curlen),
      s.curlen + ((fs inst).direntOf x).size⟩ (done ++ [x]) batch rest s') :
    Copied fs ns entries size inst buf len s done (x :: batch) rest s' := by
  obtain ⟨_, hPos, hCurlen, hHolds, hOutside, hFull⟩ := h
  dsimp only at hPos hCurlen hHolds hOutside
  rw [← Nat.add_assoc] at hHolds hOutside
  constructor
  case walking => rwa [append_cons]
  case pos =>
    rw [hPos, length_cons]
    omega
  case curlen => rw [hCurlen, map_cons, direntsSize_cons, Nat.add_assoc]
  case holds =>
    refine ⟨(Dirent.store_at hIno hSmall).congr fun a _ hHigh => hOutside a (Or.inl hHigh), hHolds⟩
  case outside =>
    intro a _
    rw [hOutside a (by omega), Dirent.store_of_out (by omega)]
  case full => exact hFull

lemma copyEntries_copied (hLegible : ns.Legible fs) (hInst : inst ∈ ns.insts) (hListable : (fs inst).Listable)
    (hSize : 2 ≤ size) (buf len fuel : Nat) (s : DirCopy) (hChildren : (fs inst).children node = done ++ rest)
    (hFuel : rest.length < fuel) (hWord : s.curlen + direntsSize (rest.map (fs inst).direntOf) < 2 ^ 32)
    (h : Walking fs ns entries size inst s.cache s.cur done rest) :
    ∃ batch rest' s', rest = batch ++ rest' ∧ copyEntries fs buf len fuel s = some s' ∧
      Copied fs ns entries size inst buf len s done batch rest' s' := by
  induction fuel generalizing s done rest with
  | zero => exact absurd hFuel (Nat.not_lt_zero _)
  | succ fuel ih =>
    cases rest with
    | nil =>
      refine ⟨[], [], s, rfl, by rw [copyEntries, if_pos (h.nil_iff.mpr rfl)], ?_⟩
      exact ⟨by rwa [append_nil], rfl, rfl, trivial, fun _ _ => rfl, fun _ hNone => by cases hNone⟩
    | cons x rest =>
      obtain ⟨hCur, hCached, hKey⟩ := h.head
      have hEntry : (s.cache.inode s.cur).dirent = (fs inst).direntOf x := by
        have hFaithful := h.layout.faithful s.cur hCached
        have hOp : (s.cache.inode s.cur).fsOp = inst := congrArg Prod.fst hKey
        have hNode : (s.cache.inode s.cur).node = x := congrArg Prod.snd hKey
        rw [VfsInode.dirent, FsData.direntOf, hFaithful.shown.name, hOp, hNode]
      have hMem : (fs inst).direntOf x ∈ (fs inst).dirents node := by
        rw [FsData.dirents, hChildren]
        exact mem_map_of_mem (mem_append_right _ mem_cons_self)
      obtain ⟨hIno, _⟩ := hListable.dirent_bounds (hLegible.legible inst hInst) hMem
      rw [map_cons, direntsSize_cons] at hWord
      rw [copyEntries, if_neg hCur]
      dsimp only
      rw [hEntry, Word.add_of_lt (by omega)]
      by_cases hFull : len ≤ s.curlen + ((fs inst).direntOf x).size
      · refine ⟨[], x :: rest, s, rfl, if_pos hFull, ?_⟩
        refine ⟨by rwa [append_nil], rfl, rfl, trivial, fun _ _ => rfl, fun y hy => ?_⟩
        cases hy
        exact hFull
      · obtain ⟨c₁, cur₁, hNext, hWalking⟩ := h.advance hLegible hInst hListable hSize hChildren
        obtain ⟨batch, rest', s', hSplit, hCopy, hCopied⟩ := ih
          ⟨c₁, cur₁, s.pos + 1, ((fs inst).direntOf x).store s.mem (buf + s.curlen), s.curlen + ((fs inst).direntOf x).size⟩
          (by rw [hChildren, append_cons]) (by rw [length_cons] at hFuel; omega) (by dsimp only; omega) hWalking
        refine ⟨x :: batch, rest', s', by rw [hSplit, cons_append], ?_, ?_⟩
        · rw [if_neg hFull, hNext]
          exact hCopy
        · exact hCopied.cons hIno (by omega) (Nat.lt_of_not_le hFull)

end Fixos.Fs
