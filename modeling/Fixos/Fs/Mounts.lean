import Fixos.Fs.CacheRun
import Fixos.Fs.ResolveCounts

/-! # Mounted file systems

A mount writes into the inodes of the mount point and of the root, and both stay in the cache from then on.
-/

namespace Fixos.Fs

open MountTree Transition List Option

def Vfs.nameSpace (v : Vfs) : Namespace := ⟨v.rootFs, (v.mounted.map fun p => (v.cache.key p.2, p.1)).reverse⟩

def Vfs.boot (inode : InodeRef → VfsInode) (next : InodeRef → InodeRef) (pool : List InodeRef) : Vfs :=
  ⟨(CacheRun.boot inode next pool).cache, 0, []⟩

structure Joined (fs : FsTable) (c : VfsCache) (mnt : InodeRef) (inst : Nat) (root : InodeRef) (c' : VfsCache) :
    Prop where
  sound : c'.Sound
  fresh : ¬ c.Cached root
  cached_iff : ∀ s, c'.Cached s ↔ s = root ∨ c.Cached s
  key_root : c'.key root = (inst, (fs inst).rootNode)
  root_flags : (c'.inode root).typeFlags = rootTypeFlags
  root_typespec : (c'.inode root).typespec = mnt
  root_shown : ((fs inst).attrs (fs inst).rootNode).Shown (c'.inode root)
  point_inode : c'.inode mnt =
    { c.inode mnt with typeFlags := { (c.inode mnt).typeFlags with mountpoint := true }, typespec := root }
  inode_eq : ∀ s, s ≠ root → s ≠ mnt → c'.inode s = c.inode s

section

variable {fs : FsTable} {ns : Namespace} {c c' : VfsCache} {mnt root : InodeRef} {inst : Nat}

lemma Layout.root_absent (h : Layout fs ns c) (hInst : inst ∉ ns.insts) (s : InodeRef) (hs : c.Cached s) :
    c.key s ≠ (inst, (fs inst).rootNode) := by
  intro hKey
  have hFs : (c.inode s).fsOp = inst := congrArg Prod.fst hKey
  exact hInst (hFs ▸ (h.faithful s hs).inst)

lemma VfsCache.Got.root_shown (h : c.Got fs (inst, (fs inst).rootNode) c' root) (hLegible : (fs inst).Legible)
    (hFresh : ¬ c.Cached root) (hRoot : root ≠ 0) (mnt : InodeRef) :
    ((fs inst).attrs (fs inst).rootNode).Shown ((setRoot c' root mnt).inode root) := by
  have hDevice := (fs inst).attrs_rootNode_device
  have hShown : ((fs inst).attrs (fs inst).rootNode).Shown (c'.inode root) := by
    obtain ⟨_, hFill, hDescribes⟩ := hLegible.fillOf_some inst (fs inst).handsOut_rootNode
    cases h with
    | none hNone hAbsent => exact absurd rfl hRoot
    | cached hCached hKey => exact absurd hCached hFresh
    | filled hFill' hAbsent hEntered hInode hCount =>
      cases some.inj (hFill.symm.trans hFill')
      have hHere := (hDescribes { c.inode root with count := 0 }).shown
      rw [← hInode] at hHere
      rw [VfsCache.countUp_inode, if_pos rfl]
      exact ⟨hHere.dev, hHere.special, hHere.flags, hHere.name, hHere.abstract⟩
  rw [setRoot, VfsCache.setInode_inode, if_pos rfl]
  refine ⟨?_, fun dev hDev => ?_, hShown.flags, hShown.name, hShown.abstract⟩
  · rw [hDevice]
    rfl
  · rw [hDevice] at hDev
    cases hDev

lemma Layout.joined (h : Layout fs ns c) (hInst : inst ∉ ns.insts) (hLegible : (fs inst).Legible) (hMnt : c.Cached mnt)
    (hGot : c.Got fs (inst, (fs inst).rootNode) c' root) (hRoot : root ≠ 0) :
    Joined fs c mnt inst root (setMountPoint (setRoot c' root mnt) mnt root) := by
  have hFresh : ¬ c.Cached root := by
    rcases hGot.count_self hRoot with ⟨hCached, hKey, _⟩ | ⟨hFresh, _⟩
    · exact absurd hKey (h.root_absent hInst root hCached)
    · exact hFresh
  have hNe : mnt ≠ root := fun hEq => hFresh (hEq ▸ hMnt)
  have hOld : ∀ s, s ≠ root → c'.inode s = c.inode s := by
    intro s hs
    cases hGot with
    | none hNone hAbsent => rfl
    | cached hCached hKey => exact absurd hCached hFresh
    | filled hFill hAbsent hEntered hInode hCount =>
      rw [VfsCache.countUp_inode, if_neg hs, hEntered.inode_of_ne s hs]
  have hFirst : c'.Kept (setRoot c' root mnt) := (hGot.sound h.sound).kept_setInode rfl
  have hKept : (setRoot c' root mnt).Kept (setMountPoint (setRoot c' root mnt) mnt root) := hFirst.sound.kept_setInode rfl
  constructor
  case sound => exact hKept.sound
  case fresh => exact hFresh
  case cached_iff =>
    intro s
    rw [hKept.cached_iff, hFirst.cached_iff, hGot.cached_iff h.sound]
    simp [hRoot]
  case key_root => rw [hKept.key_eq, hFirst.key_eq, hGot.key_self h.sound hRoot]
  case root_flags => simp [setMountPoint, setRoot, hNe.symm]
  case root_typespec => simp [setMountPoint, setRoot, hNe.symm]
  case root_shown =>
    rw [setMountPoint, VfsCache.setInode_inode, if_neg hNe.symm]
    exact hGot.root_shown hLegible hFresh hRoot mnt
  case point_inode => simp [setMountPoint, setRoot, hNe, hOld mnt hNe]
  case inode_eq =>
    intro s hs hsMnt
    simp [setMountPoint, setRoot, hs, hsMnt, hOld s hs]

variable {s : InodeRef}

section

variable (h : Joined fs c mnt inst root c') (hs : c.Cached s)
include h hs

lemma Joined.ne : s ≠ root := fun hEq => h.fresh (hEq ▸ hs)

lemma Joined.stays : c'.Cached s ∧ c'.key s = c.key s := by
  refine ⟨(h.cached_iff s).mpr (Or.inr hs), ?_⟩
  rcases eq_or_ne s mnt with rfl | hsMnt
  · rw [VfsCache.key, h.point_inode]
    rfl
  · rw [VfsCache.key, VfsCache.key, h.inode_eq s (h.ne hs) hsMnt]

end

def Namespace.mount (ns : Namespace) (k : NodeKey) (inst : Nat) : Namespace := ⟨ns.rootFs, (k, inst) :: ns.mounts⟩

variable {k : NodeKey}

lemma Namespace.mem_insts_mount {i : Nat} : i ∈ (ns.mount k inst).insts ↔ i = inst ∨ i ∈ ns.insts := by
  simp only [insts, mount, map_cons, mem_cons]
  exact or_left_comm

lemma Namespace.Legible.mount (h : ns.Legible fs) (hInst : inst ∉ ns.insts)
    (hLegible : (fs inst).Legible) (hPoint : k.1 ∈ ns.insts) (hHanded : (fs k.1).HandsOut k.2)
    (hInside : ((fs k.1).parentOf k.2).isSome) : (ns.mount k inst).Legible fs := by
  constructor
  case legible =>
    intro i hi
    rcases mem_insts_mount.mp hi with rfl | hi
    · exact hLegible
    · exact h.legible i hi
  case nodup =>
    have hPerm : (ns.mount k inst).insts.Perm (inst :: ns.insts) := List.Perm.swap inst ns.rootFs _
    exact hPerm.nodup_iff.mpr (nodup_cons.mpr ⟨hInst, h.nodup⟩)
  all_goals
    intro p hp
    rcases mem_cons.mp hp with rfl | hp
  case point_inst.inl => exact mem_insts_mount.mpr (Or.inr hPoint)
  case point_inst.inr => exact mem_insts_mount.mpr (Or.inr (h.point_inst p hp))
  case point_handed.inl => exact hHanded
  case point_handed.inr => exact h.point_handed p hp
  case point_inside.inl => exact hInside
  case point_inside.inr => exact h.point_inside p hp

lemma faithful_root (hKey : c.key root = (inst, (fs inst).rootNode)) (hFlags : (c.inode root).typeFlags = rootTypeFlags)
    (hShown : ((fs inst).attrs (fs inst).rootNode).Shown (c.inode root)) (hRoot : root ≠ 0) (hInst : inst ∈ ns.insts)
    (hLegible : (fs inst).Legible) (hOn : ns.mounts.on (inst, (fs inst).rootNode) = none)
    (hPoint : match ns.mounts.pointOf inst with
      | none => (c.inode root).typespec = 0
      | some k => c.Cached (c.inode root).typespec ∧ c.key (c.inode root).typespec = k) :
    Faithful fs ns c root := by
  have hFs : (c.inode root).fsOp = inst := congrArg Prod.fst hKey
  have hNode : (c.inode root).node = (fs inst).rootNode := congrArg Prod.snd hKey
  have hParent : (fs inst).parentOf (fs inst).rootNode = none :=
    (hLegible.parentOf_eq_none (fs inst).handsOut_rootNode).mpr rfl
  constructor
  case ne_zero => exact hRoot
  case shown => rwa [hFs, hNode]
  case inst => rwa [hFs]
  case handed =>
    rw [hFs, hNode]
    exact (fs inst).handsOut_rootNode
  case root =>
    rw [hFs, hNode, hParent, hFlags]
    rfl
  case directory =>
    rw [hFs, hNode, hFlags, (fs inst).isDirectory_rootNode]
    rfl
  case parent =>
    intro p hp
    rw [hFs, hNode, hParent] at hp
    cases hp
  case mountpoint =>
    rw [hKey, hOn, hFlags]
    rfl
  case mnt_root =>
    intro i hi
    rw [hKey, hOn] at hi
    cases hi
  case mnt_point =>
    intro _
    rw [hFs]
    exact hPoint

section

variable (hJoined : Joined fs c mnt inst root c')
include hJoined

lemma Joined.faithful_root (hSpace : ns.Legible fs) (h : Layout fs ns c) (hInst : inst ∉ ns.insts)
    (hLegible : (fs inst).Legible) (hMnt : c.Cached mnt) :
    Faithful fs (ns.mount (c.key mnt) inst) c' root := by
  have hOn : (ns.mount (c.key mnt) inst).mounts.on (inst, (fs inst).rootNode) = none := by
    rw [Namespace.mount, Mounts.on_cons, if_neg (h.root_absent hInst mnt hMnt), Mounts.on_eq_none]
    intro p hp hEq
    have hFs : p.1.1 = inst := congrArg Prod.fst hEq
    exact hInst (hFs ▸ hSpace.point_inst p hp)
  refine Fs.faithful_root hJoined.key_root hJoined.root_flags hJoined.root_shown
    ((hJoined.cached_iff root).mpr (Or.inl rfl)).1 (Namespace.mem_insts_mount.mpr (Or.inl rfl)) hLegible hOn ?_
  rw [Namespace.mount, Mounts.pointOf_cons, if_pos rfl, hJoined.root_typespec]
  exact hJoined.stays hMnt

lemma Joined.faithful_of (h : Layout fs ns c) (hInst : inst ∉ ns.insts) (hMnt : c.Cached mnt)
    (hInside : ((fs (c.key mnt).1).parentOf (c.key mnt).2).isSome) {s : InodeRef} (hs : c.Cached s) :
    Faithful fs (ns.mount (c.key mnt) inst) c' s := by
  have hFaithful := h.faithful s hs
  have hKey := (hJoined.stays hs).2
  have hOf : (ns.mount (c.key mnt) inst).mounts.pointOf (c.inode s).fsOp = ns.mounts.pointOf (c.inode s).fsOp := by
    have hNe : inst ≠ (c.inode s).fsOp := fun hEq => hInst (hEq ▸ hFaithful.inst)
    rw [Namespace.mount, Mounts.pointOf_cons, if_neg hNe]
  rcases eq_or_ne s mnt with rfl | hsMnt
  · have hOn : (ns.mount (c.key s) inst).mounts.on (c'.key s) = some inst := by
      rw [hKey, Namespace.mount, Mounts.on_cons, if_pos rfl]
    constructor
    case ne_zero => exact hs.1
    case mountpoint =>
      rw [hOn, hJoined.point_inode]
      rfl
    case mnt_root =>
      intro i hi
      rw [hOn] at hi
      cases hi
      rw [hJoined.point_inode]
      exact ⟨(hJoined.cached_iff root).mpr (Or.inl rfl), hJoined.key_root⟩
    all_goals rw [hJoined.point_inode]
    case shown =>
      have hShown := hFaithful.shown
      exact ⟨hShown.dev, fun _ _ hNot => absurd hNot Bool.noConfusion, hShown.flags, hShown.name, hShown.abstract⟩
    case inst => exact Namespace.mem_insts_mount.mpr (Or.inr hFaithful.inst)
    case handed => exact hFaithful.handed
    case root => exact hFaithful.root
    case directory => exact hFaithful.directory
    case parent => exact hFaithful.parent
    case mnt_point =>
      intro hNone
      have hSome : ((fs (c.inode s).fsOp).parentOf (c.inode s).node).isSome := hInside
      have hNone' : (fs (c.inode s).fsOp).parentOf (c.inode s).node = none := hNone
      rw [hNone'] at hSome
      cases hSome
  · have hInode := hJoined.inode_eq s (hJoined.ne hs) hsMnt
    have hOn : (ns.mount (c.key mnt) inst).mounts.on (c'.key s) = ns.mounts.on (c.key s) := by
      rw [hKey, Namespace.mount, Mounts.on_cons, if_neg fun hEq => hsMnt (hs.eq_of_key hMnt hEq.symm)]
    constructor
    case ne_zero => exact hs.1
    case mountpoint => rw [hOn, hInode, hFaithful.mountpoint]
    case mnt_root =>
      intro i hi
      rw [hOn] at hi
      obtain ⟨hCached, hRoot⟩ := hFaithful.mnt_root i hi
      rw [hInode, (hJoined.stays hCached).2]
      exact ⟨(hJoined.stays hCached).1, hRoot⟩
    all_goals rw [hInode]
    case shown => exact hFaithful.shown
    case inst => exact Namespace.mem_insts_mount.mpr (Or.inr hFaithful.inst)
    case handed => exact hFaithful.handed
    case root => exact hFaithful.root
    case directory => exact hFaithful.directory
    case parent => exact hFaithful.parent
    case mnt_point =>
      intro hNone
      have hPoint := hFaithful.mnt_point hNone
      rw [hOf]
      cases hAt : ns.mounts.pointOf (c.inode s).fsOp with
      | none =>
        rw [hAt] at hPoint
        exact hPoint
      | some k =>
        rw [hAt] at hPoint
        rw [(hJoined.stays hPoint.1).2]
        exact ⟨(hJoined.stays hPoint.1).1, hPoint.2⟩

lemma Joined.layout (hSpace : ns.Legible fs) (h : Layout fs ns c) (hInst : inst ∉ ns.insts)
    (hLegible : (fs inst).Legible) (hMnt : c.Cached mnt)
    (hInside : ((fs (c.key mnt).1).parentOf (c.key mnt).2).isSome) :
    Layout fs (ns.mount (c.key mnt) inst) c' := by
  have hOld : ∀ s, c.Cached s → ∃ r, c'.Cached r ∧ c'.key r = c.key s := fun s hs => ⟨s, hJoined.stays hs⟩
  refine ⟨hJoined.sound, fun s hs => ?_, fun k hk => ?_⟩
  · rcases (hJoined.cached_iff s).mp hs with rfl | hs
    · exact hJoined.faithful_root hSpace h hInst hLegible hMnt
    · exact hJoined.faithful_of h hInst hMnt hInside hs
  · rcases hk with ⟨hIn, hNode⟩ | ⟨p, hp, rfl⟩
    · rcases Namespace.mem_insts_mount.mp hIn with hEq | hIn
      · refine ⟨root, (hJoined.cached_iff root).mpr (Or.inl rfl), ?_⟩
        rw [hJoined.key_root]
        exact Prod.ext hEq.symm (by rw [hNode, hEq])
      · obtain ⟨s, hs, hKey⟩ := h.pins k (Or.inl ⟨hIn, hNode⟩)
        rw [← hKey]
        exact hOld s hs
    · rcases mem_cons.mp hp with rfl | hp
      · exact hOld mnt hMnt
      · obtain ⟨s, hs, hKey⟩ := h.pins p.1 (Or.inr ⟨p, hp, rfl⟩)
        rw [← hKey]
        exact hOld s hs

end

end

namespace Vfs

structure Ready (fs : FsTable) (v : Vfs) (held : List InodeRef) : Prop where
  root : v.rootFs ≠ 0
  legible : v.nameSpace.Legible fs
  layout : Layout fs v.nameSpace v.cache
  counted : Counted v.cache held
  points : ∀ p ∈ v.mounted, v.cache.Cached p.2

section

variable {fs : FsTable} {v v' : Vfs} {held held' : List InodeRef} {inst : Nat} {c' : VfsCache}

lemma nameSpace_congr (hSame : ∀ p ∈ v.mounted, c'.key p.2 = v.cache.key p.2) :
    ({ v with cache := c' } : Vfs).nameSpace = v.nameSpace := by
  refine congrArg (Namespace.mk v.rootFs ∘ reverse) ?_
  refine map_congr_left fun p hp => ?_
  rw [hSame p hp]

lemma Ready.point_pinned (h : v.Ready fs held) {p : Nat × InodeRef} (hp : p ∈ v.mounted) : (v.cache.inode p.2).pinned := by
  refine ((h.layout.faithful p.2 (h.points p hp)).pinned_iff h.legible).mpr (Or.inr ⟨(v.cache.key p.2, p.1), ?_, rfl⟩)
  exact mem_reverse.mpr (mem_map_of_mem hp)

lemma Ready.of_stays (h : v.Ready fs held) {kept : List InodeRef} (hStays : Stays v.cache kept c')
    (hLayout : Layout fs v.nameSpace c') (hCounted : Counted c' held') :
    ({ v with cache := c' } : Vfs).Ready fs held' ∧ ({ v with cache := c' } : Vfs).nameSpace = v.nameSpace := by
  have hWhy : ∀ p ∈ v.mounted, (v.cache.inode p.2).pinned ∨ p.2 ∈ kept := fun p hp => Or.inl (h.point_pinned hp)
  have hSpace : ({ v with cache := c' } : Vfs).nameSpace = v.nameSpace :=
    nameSpace_congr fun p hp => hStays.key_eq p.2 (h.points p hp) (hWhy p hp)
  refine ⟨⟨h.root, by rw [hSpace]; exact h.legible, by rw [hSpace]; exact hLayout, hCounted, fun p hp => ?_⟩, hSpace⟩
  exact hStays.cached p.2 (h.points p hp) (hWhy p hp)

lemma not_isMounted : v.isMounted inst = false ↔ inst ∉ v.nameSpace.insts := by
  simp only [isMounted, nameSpace, Namespace.insts, map_reverse, List.map_map, mem_cons,
    mem_reverse, Bool.or_eq_false_iff, decide_eq_false_iff_not, not_or]
  rfl

/-- The inode `mnt` has been found, and the root of the other file system is joined to it. -/
structure MountEffect (fs : FsTable) (v : Vfs) (held : List InodeRef) (inst : Nat) (c : VfsCache) (mnt root : InodeRef)
    (v' : Vfs) : Prop where
  found : ({ v with cache := c } : Vfs).Ready fs (mnt :: held)
  layout : Layout fs v.nameSpace c
  cached : c.Cached mnt
  directory : (c.inode mnt).typeFlags.parent = true
  inside : ((fs (c.key mnt).1).parentOf (c.key mnt).2).isSome
  other : inst ∉ v.nameSpace.insts
  joined : Joined fs c mnt inst root v'.cache
  counted : Counted v'.cache held
  rootFs : v'.rootFs = v.rootFs
  mounted : v'.mounted = v.mounted ++ [(inst, mnt)]
  space : v'.nameSpace = v.nameSpace.mount (c.key mnt) inst

variable {cwd : InodeRef} {path : Bytes}

section

variable (h : v.Ready fs held) (hRoomy : Roomy held) (hLegible : (fs inst).Legible) (hPath : path.head? = some 47)
  (hInside : ∀ k, v.nameSpace.lookupPath fs path = some k → k.2 ≠ (fs k.1).rootNode)
  (hMount : vfsMount fs v cwd inst path = some (v', 0))
include h hRoomy hLegible hPath hInside hMount

lemma Ready.mountEffect : ∃ c mnt root, v.MountEffect fs held inst c mnt root v' := by
  unfold vfsMount at hMount
  split at hMount
  case isFalse => cases hMount
  obtain ⟨⟨c₁, mnt⟩, hResolve, hMount⟩ := bind_eq_some_iff.mp hMount
  dsimp only at hMount
  split at hMount
  case isFalse => cases hMount
  rename_i hTarget
  obtain ⟨hMnt, hDirectory, hNot⟩ := hTarget
  obtain ⟨⟨c₂, root⟩, hGet, hMount⟩ := bind_eq_some_iff.mp hMount
  split at hMount
  case isFalse => cases hMount
  rename_i hRoot
  cases hMount
  -- the mount point is in the cache, since it is referred to now
  obtain ⟨hLayout, hCounted, hStays⟩ := vfsResolve_counted_root h.legible h.root h.layout h.counted hRoomy (Or.inl hPath)
    hResolve
  rw [refsOf, if_neg hMnt] at hCounted
  have hCached := hCounted.cached mnt mem_cons_self
  have hFaithful := hLayout.faithful mnt hCached
  have hInst : inst ∉ v.nameSpace.insts := not_isMounted.mp (by simpa using hNot)
  have hFound := (vfsResolve_resolves h.legible h.root h.layout hPath hResolve).found_eq
  rw [if_neg hMnt] at hFound
  have hLookup : v.nameSpace.lookupPath fs path = some (c₁.key mnt) := Namespace.lookup_of_follow hFound
  have hGot : c₁.Got fs (inst, (fs inst).rootNode) c₂ root :=
    vfsGetInode_got hLayout.sound hLegible.entryIds (fs inst).handsOut_rootNode hGet
  have hJoined := hLayout.joined hInst hLegible hCached hGot hRoot
  obtain ⟨hMid, hMidSpace⟩ := h.of_stays hStays hLayout hCounted
  refine ⟨c₁, mnt, root, hMid, hLayout, hCached, hDirectory, ?_, hInst, hJoined, ?_, rfl, rfl, ?_⟩
  case refine_1 =>
    rw [isSome_iff_ne_none]
    intro hNone
    exact hInside _ hLookup (((h.legible.legible _ hFaithful.inst).parentOf_eq_none hFaithful.handed).mp hNone)
  case refine_2 =>
    have hTaken := hCounted.got hGot (fun s hs hKey => absurd hKey (hLayout.root_absent hInst s hs)) hRoot
    have hSet : Counted (setRoot c₂ root mnt) (root :: mnt :: held) := hTaken.setInode rfl rfl fun _ => rfl
    have hKeep := hSet.forget (setRoot_pinned root mnt)
    have hLast : Counted (setMountPoint (setRoot c₂ root mnt) mnt root) (mnt :: held) :=
      hKeep.setInode rfl rfl fun _ => Bool.or_true _
    exact hLast.forget (setMountPoint_pinned mnt root)
  case refine_3 =>
    have hSame : (⟨setMountPoint (setRoot c₂ root mnt) mnt root, v.rootFs, v.mounted⟩ : Vfs).nameSpace = v.nameSpace :=
      (nameSpace_congr (v := { v with cache := c₁ }) fun p hp => (hJoined.stays (hMid.points p hp)).2).trans hMidSpace
    rw [← hSame, ← (hJoined.stays hCached).2]
    simp [nameSpace, Namespace.mount, reverse_append, reverse_cons, reverse_nil]

lemma Ready.mount : v'.Ready fs held := by
  obtain ⟨c, mnt, root, hEffect⟩ := h.mountEffect hRoomy hLegible hPath hInside hMount
  have hFaithful := hEffect.layout.faithful mnt hEffect.cached
  refine { hEffect with root := ?_, legible := ?_, layout := ?_, points := ?_ }
  · rw [hEffect.rootFs]
    exact h.root
  · rw [hEffect.space]
    exact h.legible.mount hEffect.other hLegible hFaithful.inst hFaithful.handed hEffect.inside
  · rw [hEffect.space]
    exact hEffect.joined.layout h.legible hEffect.layout hEffect.other hLegible hEffect.cached hEffect.inside
  · rw [hEffect.mounted]
    intro p hp
    rcases mem_append.mp hp with hp | hp
    · exact (hEffect.joined.stays (hEffect.found.points p hp)).1
    · rw [mem_singleton.mp hp]
      exact (hEffect.joined.stays hEffect.cached).1

end

lemma Ready.mountRoot {inode : InodeRef → VfsInode} {next : InodeRef → InodeRef} {pool : List InodeRef}
    (hPool : PoolFresh pool) (hLegible : (fs inst).Legible)
    (hMount : vfsMountRoot fs (boot inode next pool) inst = some (v, 0)) : v.Ready fs [] := by
  have hInv := CacheRun.boot_inv inode next hPool
  have hEmpty := CacheRun.boot_absent inode next pool
  unfold vfsMountRoot at hMount
  split at hMount
  case isFalse => cases hMount
  rename_i hFree
  obtain ⟨⟨c₁, root⟩, hGet, hMount⟩ := bind_eq_some_iff.mp hMount
  dsimp only at hMount
  split at hMount
  case isFalse => cases hMount
  rename_i hRoot
  cases hMount
  have hInst : inst ≠ 0 := by
    rintro rfl
    simp [isMounted, boot] at hFree
  have hGot : (CacheRun.boot inode next pool).cache.Got fs (inst, (fs inst).rootNode) c₁ root :=
    vfsGetInode_got hInv.counted.sound hLegible.entryIds (fs inst).handsOut_rootNode hGet
  have hKept : c₁.Kept (setRoot c₁ root 0) := (hGot.sound hInv.counted.sound).kept_setInode rfl
  have hKey : (setRoot c₁ root 0).key root = (inst, (fs inst).rootNode) := by
    rw [hKept.key_eq, hGot.key_self hInv.counted.sound hRoot]
  have hCached : ∀ s, (setRoot c₁ root 0).Cached s ↔ s = root := by
    intro s
    rw [hKept.cached_iff, hGot.cached_iff hInv.counted.sound]
    simp [hRoot, hEmpty]
  constructor
  case root => exact hInst
  case legible =>
    constructor
    case legible =>
      intro i hi
      rw [mem_singleton.mp hi]
      exact hLegible
    case nodup => exact nodup_singleton inst
    all_goals
      intro p hp
      cases hp
  case layout =>
    refine ⟨hKept.sound, fun s hs => ?_, fun k hk => ?_⟩
    · rw [(hCached s).mp hs]
      refine faithful_root hKey ?_ (hGot.root_shown hLegible (hEmpty root) hRoot 0) hRoot (mem_singleton_self inst)
        hLegible rfl ?_
      · simp [setRoot]
      · simp [setRoot, nameSpace, boot, Mounts.pointOf]
    · rcases hk with ⟨hIn, hNode⟩ | ⟨p, hp, _⟩
      · have hEq : k.1 = inst := mem_singleton.mp hIn
        refine ⟨root, (hCached root).mpr rfl, ?_⟩
        rw [hKey]
        exact Prod.ext hEq.symm (by rw [hNode, hEq])
      · cases hp
  case counted =>
    have hTaken := hInv.counted.got hGot (fun s hs => absurd hs (hEmpty s)) hRoot
    have hSet : Counted (setRoot c₁ root 0) [root] := hTaken.setInode rfl rfl fun _ => rfl
    exact hSet.forget (setRoot_pinned root 0)
  case points =>
    intro p hp
    cases hp

/-- The root file system has just been mounted; before that, the objects of the pool held anything. -/
def Booted (fs : FsTable) (v : Vfs) : Prop :=
  ∃ inode next pool inst, PoolFresh pool ∧ vfsMountRoot fs (boot inode next pool) inst = some (v, 0)

lemma Booted.ready (hFs : ∀ inst, (fs inst).Legible) (h : v.Booted fs) : v.Ready fs [] := by
  obtain ⟨_, _, _, inst, hPool, hMount⟩ := h
  exact .mountRoot hPool (hFs inst) hMount

end

end Vfs

end Fixos.Fs
