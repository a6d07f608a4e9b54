import Fixos.Fs.InodeCounts
import Fixos.Fs.NodeTree

/-! # Path lookup

An inode is faithful when it says what the file systems and the mounts say about its node; then the walk over inodes is
the walk over the joined trees. Counts play no part: an inode given back too early is still read before it is filled
again.
-/

namespace Fixos.Fs

open MountTree Option List

structure Namespace where
  rootFs : Nat
  mounts : Mounts Nat Nat

def Namespace.insts (ns : Namespace) : List Nat := ns.rootFs :: ns.mounts.map Prod.snd

structure Namespace.Legible (fs : FsTable) (ns : Namespace) : Prop where
  legible : ∀ inst ∈ ns.insts, (fs inst).Legible
  nodup : ns.insts.Nodup
  point_inst : ∀ p ∈ ns.mounts, p.1.1 ∈ ns.insts
  point_handed : ∀ p ∈ ns.mounts, (fs p.1.1).HandsOut p.1.2
  point_inside : ∀ p ∈ ns.mounts, ((fs p.1.1).parentOf p.1.2).isSome

structure Namespace.Proper (fs : FsTable) (ns : Namespace) : Prop extends Namespace.Legible fs ns where
  wellFormed : ∀ inst ∈ ns.insts, (fs inst).WellFormed

def stepOf (name : Bytes) : Step Bytes :=
  if name = [] ∨ name = [46] then .stay else if name = [46, 46] then .up else .down name

variable {inst : Nat} {k k' : NodeKey} {name : Bytes} {names : List Bytes}

lemma stepOf_stay : stepOf name = .stay ↔ name = [] ∨ name = [46] := by
  unfold stepOf
  split
  · rename_i h
    exact iff_of_true rfl h
  · rename_i h
    refine iff_of_false ?_ h
    split <;> simp

namespace Namespace

def lookup (fs : FsTable) (ns : Namespace) (k : NodeKey) (names : List Bytes) : Option NodeKey :=
  fs.forest.lookup ns.mounts k (names.map stepOf)

def walk (fs : FsTable) (ns : Namespace) (k : NodeKey) (name : Bytes) : Option NodeKey :=
  (fs.forest.walk ns.mounts k (stepOf name)).filter fun k => (fs k.1).HandsOut k.2

def follow (fs : FsTable) (ns : Namespace) : NodeKey → List Bytes → Option NodeKey
  | k, [] => some k
  | k, name :: names => (ns.walk fs k name).bind fun k => ns.follow fs k names

def Pins (fs : FsTable) (ns : Namespace) (k : NodeKey) : Prop :=
  (k.1 ∈ ns.insts ∧ k.2 = (fs k.1).rootNode) ∨ ∃ p ∈ ns.mounts, p.1 = k

section

variable {fs : FsTable} {ns : Namespace}

lemma mount_inst {p : NodeKey × Nat} (hp : p ∈ ns.mounts) : p.2 ∈ ns.insts := mem_cons_of_mem _ (mem_map_of_mem hp)

lemma Legible.root_parentOf (h : ns.Legible fs) (hInst : inst ∈ ns.insts) : (fs inst).parentOf (fs inst).rootNode = none :=
  ((h.legible inst hInst).parentOf_eq_none (fs inst).handsOut_rootNode).mpr rfl

lemma Legible.mounts (h : ns.Legible fs) : ns.mounts.Proper fs.forest where
  once := (nodup_cons.mp h.nodup).2
  inside := h.point_inside
  root _ hp := h.root_parentOf (mount_inst hp)

lemma pins_iff_on : (∃ p ∈ ns.mounts, p.1 = k) ↔ (ns.mounts.on k).isSome := by
  rw [← not_iff_not, Bool.not_eq_true, isSome_eq_false_iff, isNone_iff_eq_none, Mounts.on_eq_none]
  simp only [not_exists, not_and, ne_eq]

lemma follow_append (k : NodeKey) (names names' : List Bytes) :
    ns.follow fs k (names ++ names') = (ns.follow fs k names).bind fun k => ns.follow fs k names' := by
  induction names generalizing k with
  | nil => rfl
  | cons name names ih =>
    rw [cons_append, follow, follow, bind_assoc]
    exact congrArg _ (funext fun k => ih k)

lemma walk_handed (h : ns.walk fs k name = some k') :
    fs.forest.walk ns.mounts k (stepOf name) = some k' ∧ (fs k'.1).HandsOut k'.2 := by
  obtain ⟨hWalk, hHanded⟩ := filter_eq_some_iff.mp h
  exact ⟨hWalk, of_decide_eq_true hHanded⟩

lemma walk_eq_some (hWalk : fs.forest.walk ns.mounts k (stepOf name) = some k') (hHanded : (fs k'.1).HandsOut k'.2) :
    ns.walk fs k name = some k' :=
  filter_eq_some_iff.mpr ⟨hWalk, decide_eq_true hHanded⟩

lemma walk_stay (hStay : stepOf name = .stay) (hHanded : (fs k.1).HandsOut k.2) : ns.walk fs k name = some k :=
  walk_eq_some (by rw [hStay]; rfl) hHanded

lemma lookup_of_follow (h : ns.follow fs k names = some k') : ns.lookup fs k names = some k' := by
  induction names generalizing k with
  | nil => exact h
  | cons name names ih =>
    obtain ⟨_, hWalk, hRest⟩ := bind_eq_some_iff.mp h
    have hLookup : ns.lookup fs k (name :: names) =
        (fs.forest.walk ns.mounts k (stepOf name)).bind fun k => ns.lookup fs k names := rfl
    rw [hLookup, (walk_handed hWalk).1, bind_some]
    exact ih hRest

lemma real_inst (hInst : k.1 ∈ ns.insts) : (fs.forest.real ns.mounts k).1 ∈ ns.insts := by
  unfold Forest.real
  split
  · rename_i inst hOn
    exact mount_inst (Mounts.on_mem hOn)
  · exact hInst

lemma real_handed (hHanded : (fs k.1).HandsOut k.2) :
    (fs (fs.forest.real ns.mounts k).1).HandsOut (fs.forest.real ns.mounts k).2 := by
  unfold Forest.real
  split
  · rename_i inst hOn
    exact (fs inst).handsOut_rootNode
  · exact hHanded

section

variable (h : ns.Legible fs) (hInst : k.1 ∈ ns.insts) (hHanded : (fs k.1).HandsOut k.2)
include h hInst hHanded

lemma Legible.below (hBelow : fs.forest.below ns.mounts k = some k') : k'.1 ∈ ns.insts ∧ (fs k'.1).HandsOut k'.2 := by
  unfold Forest.below at hBelow
  split at hBelow
  · cases hBelow
    exact ⟨hInst, hHanded⟩
  · have hMem := Mounts.pointOf_mem hBelow
    exact ⟨h.point_inst _ hMem, h.point_handed _ hMem⟩

lemma Legible.walk_inst {step : Step Bytes} (hWalk : fs.forest.walk ns.mounts k step = some k') : k'.1 ∈ ns.insts := by
  cases step with
  | stay =>
    cases hWalk
    exact hInst
  | up =>
    obtain ⟨_, hBelow, hParent⟩ := bind_eq_some_iff.mp hWalk
    obtain ⟨p, _, rfl⟩ := map_eq_some_iff.mp hParent
    exact (h.below hInst hHanded hBelow).1
  | down label =>
    obtain ⟨x, _, rfl⟩ := map_eq_some_iff.mp hWalk
    exact real_inst hInst

end

section

variable (h : ns.Proper fs) (hInst : k.1 ∈ ns.insts) (hHanded : (fs k.1).HandsOut k.2)
include h hInst hHanded

lemma Proper.walk_eq (name : Bytes) : ns.walk fs k name = fs.forest.walk ns.mounts k (stepOf name) := by
  cases hWalk : fs.forest.walk ns.mounts k (stepOf name) with
  | none => rw [walk, hWalk, filter_none]
  | some k' =>
    refine walk_eq_some hWalk ?_
    cases hStep : stepOf name with
    | stay =>
      rw [hStep] at hWalk
      cases hWalk
      exact hHanded
    | up =>
      rw [hStep] at hWalk
      obtain ⟨below, hBelow, hParent⟩ := bind_eq_some_iff.mp hWalk
      obtain ⟨p, hp, rfl⟩ := map_eq_some_iff.mp hParent
      obtain ⟨hBelowInst, hBelowHanded⟩ := h.below hInst hHanded hBelow
      exact ((h.wellFormed below.1 hBelowInst).parentOf_directory hBelowHanded hp).1
    | down label =>
      rw [hStep] at hWalk
      obtain ⟨x, hx, rfl⟩ := map_eq_some_iff.mp hWalk
      exact FsData.findSubNode_handsOut hx

lemma Proper.follow_eq (names : List Bytes) : ns.follow fs k names = ns.lookup fs k names := by
  induction names generalizing k with
  | nil => rfl
  | cons name names ih =>
    have hLookup : ns.lookup fs k (name :: names) =
        (fs.forest.walk ns.mounts k (stepOf name)).bind fun k => ns.lookup fs k names := rfl
    rw [hLookup, follow, ← h.walk_eq hInst hHanded name]
    cases hWalk : ns.walk fs k name with
    | none => rfl
    | some k' =>
      obtain ⟨hForest, hNext⟩ := walk_handed hWalk
      exact ih (h.walk_inst hInst hHanded hForest) hNext

end

end

end Namespace

structure Faithful (fs : FsTable) (ns : Namespace) (c : VfsCache) (r : InodeRef) : Prop where
  ne_zero : r ≠ 0
  inst : (c.inode r).fsOp ∈ ns.insts
  handed : (fs (c.inode r).fsOp).HandsOut (c.inode r).node
  root : (c.inode r).typeFlags.root = ((fs (c.inode r).fsOp).parentOf (c.inode r).node).isNone
  directory : (c.inode r).typeFlags.parent = (fs (c.inode r).fsOp).isDirectory (c.inode r).node
  shown : ((fs (c.inode r).fsOp).attrs (c.inode r).node).Shown (c.inode r)
  parent : ∀ p, (fs (c.inode r).fsOp).parentOf (c.inode r).node = some p → (c.inode r).parent = p
  mountpoint : (c.inode r).typeFlags.mountpoint = (ns.mounts.on (c.key r)).isSome
  mnt_root : ∀ inst, ns.mounts.on (c.key r) = some inst →
    c.Cached (c.inode r).typespec ∧ c.key (c.inode r).typespec = (inst, (fs inst).rootNode)
  mnt_point : (fs (c.inode r).fsOp).parentOf (c.inode r).node = none →
    match ns.mounts.pointOf (c.inode r).fsOp with
    | none => (c.inode r).typespec = 0
    | some k => c.Cached (c.inode r).typespec ∧ c.key (c.inode r).typespec = k

structure Layout (fs : FsTable) (ns : Namespace) (c : VfsCache) : Prop where
  sound : c.Sound
  faithful : ∀ r, c.Cached r → Faithful fs ns c r
  pins : ∀ k, ns.Pins fs k → ∃ r, c.Cached r ∧ c.key r = k

section

variable {fs : FsTable} {ns : Namespace} {c c' : VfsCache} {k : NodeKey} {r : InodeRef}

lemma Faithful.pinned_iff (h : Faithful fs ns c r) (hLegible : ns.Legible fs) :
    (c.inode r).pinned ↔ ns.Pins fs (c.key r) := by
  have hRoot : (c.inode r).typeFlags.root ↔ (c.key r).1 ∈ ns.insts ∧ (c.key r).2 = (fs (c.key r).1).rootNode := by
    rw [h.root, isNone_iff_eq_none, (hLegible.legible _ h.inst).parentOf_eq_none h.handed]
    exact ⟨fun hEq => ⟨h.inst, hEq⟩, And.right⟩
  rw [VfsInode.pinned, Bool.or_eq_true, hRoot, h.mountpoint, ← Namespace.pins_iff_on]
  rfl

lemma Faithful.transfer (h : Faithful fs ns c r) (hInode : c'.inode r = { c.inode r with count := (c'.inode r).count })
    (hStays : ∀ s, c.Cached s → ns.Pins fs (c.key s) → c'.Cached s ∧ c'.key s = c.key s) :
    Faithful fs ns c' r := by
  have hKey : c'.key r = c.key r := by
    rw [VfsCache.key, hInode]
    rfl
  constructor
  case ne_zero => exact h.ne_zero
  all_goals rw [hInode]
  case inst => exact h.inst
  case handed => exact h.handed
  case root => exact h.root
  case directory => exact h.directory
  case shown => exact ⟨h.shown.dev, h.shown.special, h.shown.flags, h.shown.name, h.shown.abstract⟩
  case parent => exact h.parent
  case mountpoint =>
    rw [hKey]
    exact h.mountpoint
  case mnt_root =>
    intro inst hOn
    rw [hKey] at hOn
    obtain ⟨hCached, hRoot⟩ := h.mnt_root inst hOn
    obtain ⟨hCached', hSame⟩ := hStays _ hCached (by
      rw [hRoot]
      exact Or.inl ⟨Namespace.mount_inst (Mounts.on_mem hOn), rfl⟩)
    exact ⟨hCached', hSame.trans hRoot⟩
  case mnt_point =>
    intro hNone
    have hPoint := h.mnt_point hNone
    split
    · rename_i hNo
      rwa [hNo] at hPoint
    · rename_i k hYes
      rw [hYes] at hPoint
      obtain ⟨hCached', hSame⟩ := hStays _ hPoint.1 (by
        rw [hPoint.2]
        exact Or.inr ⟨_, Mounts.pointOf_mem hYes, rfl⟩)
      exact ⟨hCached', hSame.trans hPoint.2⟩

lemma FsData.Describes.faithful (h : (fs (c.inode r).fsOp).Describes (c.inode r).node (c.inode r)) (hr : r ≠ 0)
    (hInst : (c.inode r).fsOp ∈ ns.insts) (hLegible : (fs (c.inode r).fsOp).Legible)
    (hHanded : (fs (c.inode r).fsOp).HandsOut (c.inode r).node) (hPins : ¬ ns.Pins fs (c.key r)) :
    Faithful fs ns c r := by
  have hOn : ns.mounts.on (c.key r) = none := by
    by_contra hSome
    exact hPins (Or.inr (Namespace.pins_iff_on.mpr (isSome_iff_ne_none.mpr hSome)))
  refine { h with ne_zero := ?_, inst := ?_, handed := ?_, mountpoint := ?_, mnt_root := ?_, mnt_point := ?_ }
  · exact hr
  · exact hInst
  · exact hHanded
  · rw [hOn, h.mountpoint]
    rfl
  · intro inst hSome
    rw [hOn] at hSome
    cases hSome
  · intro hNone
    exact absurd (Or.inl ⟨hInst, (hLegible.parentOf_eq_none hHanded).mp hNone⟩) hPins

end

section

variable {fs : FsTable} {ns : Namespace} {c c' : VfsCache} {k : NodeKey} {r : InodeRef}

namespace Layout

structure Keeps (fs : FsTable) (ns : Namespace) (c c' : VfsCache) : Prop where
  layout : Layout fs ns c'
  faithful : ∀ r, Faithful fs ns c r → Faithful fs ns c' r

lemma Keeps.refl (h : Layout fs ns c) : Keeps fs ns c c := ⟨h, fun _ hr => hr⟩

lemma Keeps.trans {c₁ c₂ c₃ : VfsCache} (h₁ : Keeps fs ns c₁ c₂) (h₂ : Keeps fs ns c₂ c₃) : Keeps fs ns c₁ c₃ :=
  ⟨h₂.layout, fun r hr => h₂.faithful r (h₁.faithful r hr)⟩

lemma keeps_setCount (h : Layout fs ns c) (r : InodeRef) (n : Nat) :
    Keeps fs ns c (c.setInode r { c.inode r with count := n }) := by
  have hKept := h.sound.kept_setCount r n
  have hFaithful : ∀ s, Faithful fs ns c s → Faithful fs ns (c.setInode r { c.inode r with count := n }) s :=
    fun s hs => hs.transfer (c.setCount_inode r s n) fun t ht _ => ⟨hKept.cached_iff.mpr ht, congrFun hKept.key_eq t⟩
  refine ⟨⟨hKept.sound, fun s hs => hFaithful s (h.faithful s (hKept.cached_iff.mp hs)), fun k hk => ?_⟩, hFaithful⟩
  obtain ⟨s, hs, hKey⟩ := h.pins k hk
  exact ⟨s, hKept.cached_iff.mpr hs, by rw [hKept.key_eq, hKey]⟩

section

variable (h : Layout fs ns c) (hLegible : ns.Legible fs)
include h hLegible

lemma keeps_entered (hInst : k.1 ∈ ns.insts)
    (hHanded : (fs k.1).HandsOut k.2) (hAbsent : c.lookup k = 0) (hEntered : c.Entered k r c')
    (hDescribes : (fs k.1).Describes k.2 (c'.inode r)) : Keeps fs ns c c' := by
  have hNotCached : ∀ s, c.Cached s → c.key s ≠ k := by
    intro s hs hKey
    exact hs.1 (by rw [← hs.lookup_eq hKey, hAbsent])
  have hPins : ¬ ns.Pins fs k := by
    intro hk
    obtain ⟨s, hs, hKey⟩ := h.pins k hk
    exact hNotCached s hs hKey
  have hNe : ∀ {s}, c.Cached s → s ≠ r := fun hs hEq => hEntered.fresh (hEq ▸ hs)
  have hKeySame : ∀ s, s ≠ r → c'.key s = c.key s := fun s hs => by
    rw [VfsCache.key, VfsCache.key, hEntered.inode_of_ne s hs]
  have hSelf := Prod.ext_iff.mp hEntered.key_self
  have hNew : Faithful fs ns c' r := by
    have hFs : (c'.inode r).fsOp = k.1 := hSelf.1
    have hNode : (c'.inode r).node = k.2 := hSelf.2
    refine FsData.Describes.faithful ?_ ((hEntered.cached_iff r).mpr (Or.inl rfl)).1 ?_ ?_ ?_ ?_
    · rwa [hFs, hNode]
    · rwa [hFs]
    · rw [hFs]
      exact hLegible.legible k.1 hInst
    · rwa [hFs, hNode]
    · rwa [hEntered.key_self]
  have hFaithful : ∀ s, Faithful fs ns c s → Faithful fs ns c' s := by
    intro s hs
    rcases eq_or_ne s r with rfl | hsr
    · exact hNew
    · refine hs.transfer (by rw [hEntered.inode_of_ne s hsr]) fun t ht _ => ?_
      exact ⟨(hEntered.cached_iff t).mpr (Or.inr ht), hKeySame t (hNe ht)⟩
  refine ⟨⟨hEntered.sound, fun s hs => ?_, fun k' hk' => ?_⟩, hFaithful⟩
  · rcases (hEntered.cached_iff s).mp hs with rfl | hs
    · exact hNew
    · exact hFaithful s (h.faithful s hs)
  · obtain ⟨s, hs, hKey⟩ := h.pins k' hk'
    exact ⟨s, (hEntered.cached_iff s).mpr (Or.inr hs), by rw [hKeySame s (hNe hs), hKey]⟩

lemma keeps_got (hInst : k.1 ∈ ns.insts) (hHanded : (fs k.1).HandsOut k.2) (hGot : c.Got fs k c' r) :
    Keeps fs ns c c' ∧ r ≠ 0 ∧ c'.Cached r ∧ c'.key r = k := by
  obtain ⟨_, hFill, hDescribes⟩ := (hLegible.legible k.1 hInst).fillOf_some k.1 hHanded
  have hKeeps : Keeps fs ns c c' ∧ r ≠ 0 := by
    cases hGot with
    | none hNone hAbsent =>
      rw [hFill] at hNone
      cases hNone
    | cached hCached hKey => exact ⟨h.keeps_setCount r _, hCached.1⟩
    | filled hFill' hAbsent hEntered hInode hCount =>
      rw [hFill] at hFill'
      cases hFill'
      have hFirst := h.keeps_entered hLegible hInst hHanded hAbsent hEntered (by rw [hInode]; exact hDescribes _)
      exact ⟨hFirst.trans (hFirst.layout.keeps_setCount r _), ((hEntered.cached_iff r).mpr (Or.inl rfl)).1⟩
  exact ⟨hKeeps.1, hKeeps.2, (hGot.cached_iff h.sound r).mpr (Or.inl ⟨rfl, hKeeps.2⟩), hGot.key_self h.sound hKeeps.2⟩

lemma keeps_dropped (hr : Faithful fs ns c r) (hDrop : c.Dropped r c') : Keeps fs ns c c' := by
  have hStays : ∀ s, c.Cached s → ns.Pins fs (c.key s) → c'.Cached s ∧ c'.key s = c.key s := by
    intro s hs hPins
    refine ⟨?_, congrFun hDrop.key_eq s⟩
    by_cases hKey : c.key s = c.key r
    · rw [hKey, ← hr.pinned_iff hLegible] at hPins
      exact hDrop.cached_of_count h.sound hs (Or.inr hPins)
    · exact hDrop.cached_of_ne h.sound hs hKey
  have hFaithful : ∀ s, Faithful fs ns c s → Faithful fs ns c' s := fun s hs =>
    hs.transfer (hDrop.inode_eq s) hStays
  refine ⟨⟨hDrop.sound h.sound, fun s hs => hFaithful s (h.faithful s (hDrop.cached_of h.sound hs)), fun k hk => ?_⟩,
    hFaithful⟩
  obtain ⟨s, hs, rfl⟩ := h.pins k hk
  exact ⟨s, hStays s hs hk⟩

end

end Layout

end

section

variable {fs : FsTable} {ns : Namespace} {c c' : VfsCache} {r : InodeRef} {name : Bytes}

lemma Layout.absent (h : Layout fs ns c) {nodeid : Nat} (hNot : ¬ (fs inst).HandsOut nodeid) :
    c.lookup (inst, nodeid) = 0 := by
  rcases h.sound.lookup_cases (inst, nodeid) with ⟨hNull, _⟩ | ⟨hCached, hKey⟩
  · exact hNull
  · have hHanded := (h.faithful _ hCached).handed
    rw [show (c.inode (c.lookup (inst, nodeid))).fsOp = inst from congrArg Prod.fst hKey,
      show (c.inode (c.lookup (inst, nodeid))).node = nodeid from congrArg Prod.snd hKey] at hHanded
    exact absurd hHanded hNot

lemma Faithful.real (h : Layout fs ns c) (hr : Faithful fs ns c r) : ∃ real,
    (if (c.inode r).typeFlags.mountpoint then (c.inode r).typespec else r) = real ∧
      Faithful fs ns c real ∧ c.key real = fs.forest.real ns.mounts (c.key r) := by
  have hFlag := hr.mountpoint
  cases hOn : ns.mounts.on (c.key r) with
  | none =>
    rw [hOn] at hFlag
    refine ⟨r, if_neg (by simp [hFlag]), hr, ?_⟩
    rw [Forest.real, hOn]
  | some inst =>
    rw [hOn] at hFlag
    obtain ⟨hCached, hRoot⟩ := hr.mnt_root inst hOn
    refine ⟨_, if_pos (by simp [hFlag]), h.faithful _ hCached, ?_⟩
    rw [Forest.real, hOn, hRoot]
    rfl

section

variable (hLegible : ns.Legible fs) (h : Layout fs ns c)
include hLegible h

lemma vfsGetInode_parent {s : InodeRef} (hs : Faithful fs ns c s) (hSome : ((fs (c.key s).1).parentOf (c.key s).2).isSome) :
    ∃ k, fs.forest.parentKey (c.key s) = some k ∧ k.1 ∈ ns.insts ∧
      vfsGetInode fs c (c.inode s).fsOp (c.inode s).parent = vfsGetInode fs c k.1 k.2 ∧
        (¬ (fs k.1).HandsOut k.2 → vfsGetInode fs c k.1 k.2 = some (c, 0)) := by
  obtain ⟨p, hp⟩ := isSome_iff_exists.mp hSome
  refine ⟨((c.key s).1, p), congrArg (Option.map (Prod.mk (c.key s).1)) hp, hs.inst, ?_, fun hNot => ?_⟩
  · rw [hs.parent p hp]
    rfl
  · exact vfsGetInode_null h.sound (h.absent hNot) ((hLegible.legible _ hs.inst).fillOf_parent _ hs.handed hp hNot)

lemma vfsWalkEntry_walk (hr : Faithful fs ns c r) (hName : stepOf name ≠ .stay) :
    (ns.walk fs (c.key r) name = none ∧ vfsWalkEntry fs c r name = some (c, 0)) ∨
    ∃ k, ns.walk fs (c.key r) name = some k ∧ k.1 ∈ ns.insts ∧
      (fs k.1).HandsOut k.2 ∧ vfsWalkEntry fs c r name = vfsGetInode fs c k.1 k.2 := by
  obtain ⟨hEmpty, hDot⟩ := not_or.mp (mt stepOf_stay.mpr hName)
  -- up from an inode that has a parent
  have hUp : ∀ s, Faithful fs ns c s → ((fs (c.key s).1).parentOf (c.key s).2).isSome →
      fs.forest.walk ns.mounts (c.key r) (stepOf name) = fs.forest.parentKey (c.key s) →
      vfsWalkEntry fs c r name = vfsGetInode fs c (c.inode s).fsOp (c.inode s).parent →
      (ns.walk fs (c.key r) name = none ∧ vfsWalkEntry fs c r name = some (c, 0)) ∨
      ∃ k, ns.walk fs (c.key r) name = some k ∧ k.1 ∈ ns.insts ∧
        (fs k.1).HandsOut k.2 ∧ vfsWalkEntry fs c r name = vfsGetInode fs c k.1 k.2 := by
    intro s hs hSome hWalk hEntry
    obtain ⟨k, hKey, hInst, hGet, hNull⟩ := vfsGetInode_parent hLegible h hs hSome
    rw [hKey] at hWalk
    rw [hGet] at hEntry
    by_cases hHanded : (fs k.1).HandsOut k.2
    · exact Or.inr ⟨k, Namespace.walk_eq_some hWalk hHanded, hInst, hHanded, hEntry⟩
    · refine Or.inl ⟨?_, hEntry.trans (hNull hHanded)⟩
      rw [Namespace.walk, hWalk, filter_some_neg (by simp [hHanded])]
  by_cases hDots : name = [46, 46]
  · have hStep : stepOf name = .up := by
      rw [hDots]
      rfl
    by_cases hInside : (fs.forest.parentOf (c.key r).1 (c.key r).2).isSome
    · have hNotRoot : (c.inode r).typeFlags.root = false := by
        rw [hr.root, isNone_eq_false_iff]
        exact hInside
      refine hUp r hr hInside ?_ ?_
      · rw [hStep, Forest.walk, Forest.below, if_pos hInside, bind_some]
      · rw [vfsWalkEntry, if_neg hDot, if_pos hDots, hNotRoot, if_neg Bool.false_ne_true, if_pos hr.ne_zero]
    · have hNone : (fs (c.inode r).fsOp).parentOf (c.inode r).node = none := not_isSome_iff_eq_none.mp hInside
      have hRoot : (c.inode r).typeFlags.root = true := by
        rw [hr.root, isNone_iff_eq_none]
        exact hNone
      have hPoint := hr.mnt_point hNone
      cases hOf : ns.mounts.pointOf (c.key r).1 with
      | none =>
        have hOf' : ns.mounts.pointOf (c.inode r).fsOp = none := hOf
        rw [hOf'] at hPoint
        refine Or.inl ⟨?_, ?_⟩
        · rw [Namespace.walk, hStep, Forest.walk, Forest.below, if_neg hInside, hOf]
          rfl
        · rw [vfsWalkEntry, if_neg hDot, if_pos hDots, if_pos hRoot, if_neg (not_not.mpr hPoint)]
      | some mk =>
        have hOf' : ns.mounts.pointOf (c.inode r).fsOp = some mk := hOf
        rw [hOf'] at hPoint
        obtain ⟨hCached, hMk⟩ := hPoint
        have hMem := Mounts.pointOf_mem hOf
        refine hUp _ (h.faithful _ hCached) (by rw [hMk]; exact hLegible.point_inside _ hMem) ?_ ?_
        · rw [hStep, Forest.walk, Forest.below, if_neg hInside, hOf, bind_some, hMk]
        · rw [vfsWalkEntry, if_neg hDot, if_pos hDots, if_pos hRoot, if_pos hCached.1]
  · have hStep : stepOf name = .down name := by
      rw [stepOf, if_neg (by simp [hEmpty, hDot]), if_neg hDots]
    obtain ⟨real, hReal, hFaithful, hKey⟩ := hr.real h
    have hChild : fs.forest.walk ns.mounts (c.key r) (stepOf name) =
        ((fs (c.inode real).fsOp).findSubNode (c.inode real).typeFlags.parent (c.inode real).node name).map
          (Prod.mk (c.inode real).fsOp) := by
      rw [hStep, Forest.walk, ← hKey, hFaithful.directory]
      rfl
    rw [vfsWalkEntry, if_neg hDot, if_neg hDots]
    dsimp only
    rw [hReal]
    cases hFind : (fs (c.inode real).fsOp).findSubNode (c.inode real).typeFlags.parent (c.inode real).node name with
    | none =>
      rw [hFind] at hChild
      refine Or.inl ⟨?_, rfl⟩
      rw [Namespace.walk, hChild]
      rfl
    | some node =>
      rw [hFind] at hChild
      have hHanded := FsData.findSubNode_handsOut hFind
      exact Or.inr ⟨_, Namespace.walk_eq_some hChild hHanded, hFaithful.inst, hHanded, rfl⟩

lemma resolve_turn (hr : Faithful fs ns c r) (hName : name ≠ []) {c₁ c₂ : VfsCache} {swap : InodeRef}
    (hWalk : vfsWalkEntry fs c r name = some (c₁, swap)) (hRelease : vfsReleaseInode c₁ r = some c₂) :
    Layout.Keeps fs ns c c₂ ∧ ((swap = 0 ∧ ns.walk fs (c.key r) name = none) ∨
        (Faithful fs ns c₂ swap ∧ ns.walk fs (c.key r) name = some (c₂.key swap))) := by
  have hDropped : ∀ {c₁}, Layout.Keeps fs ns c c₁ → vfsReleaseInode c₁ r = some c₂ →
      Layout.Keeps fs ns c₁ c₂ ∧ c₂.key = c₁.key := by
    intro c₁ hKeeps hRelease
    have hDrop := hKeeps.layout.sound.released hRelease
    exact ⟨hKeeps.layout.keeps_dropped hLegible (hKeeps.faithful r hr) hDrop, hDrop.key_eq⟩
  by_cases hDot : name = [46]
  · subst hDot
    obtain ⟨rfl, rfl⟩ : c.countUp r = c₁ ∧ r = swap := Prod.mk.inj (some.inj hWalk)
    have hFirst : Layout.Keeps fs ns c (c.countUp r) := h.keeps_setCount r _
    obtain ⟨hSecond, hKey⟩ := hDropped hFirst hRelease
    refine ⟨hFirst.trans hSecond, Or.inr ⟨(hFirst.trans hSecond).faithful r hr, ?_⟩⟩
    rw [hKey, (h.sound.kept_countUp r).key_eq]
    exact Namespace.walk_stay rfl hr.handed
  · have hStep : stepOf name ≠ .stay := fun hStay => (stepOf_stay.mp hStay).elim hName hDot
    rcases vfsWalkEntry_walk hLegible h hr hStep with ⟨hNone, hNull⟩ | ⟨k, hKey, hInst, hHanded, hGet⟩
    · obtain ⟨rfl, rfl⟩ : c = c₁ ∧ 0 = swap := Prod.mk.inj (some.inj (hNull.symm.trans hWalk))
      exact ⟨(hDropped (.refl h) hRelease).1, Or.inl ⟨rfl, hNone⟩⟩
    · have hGot := vfsGetInode_got h.sound (hLegible.legible k.1 hInst).entryIds hHanded (hGet.symm.trans hWalk)
      obtain ⟨hFirst, _, hCached, hSwap⟩ := h.keeps_got hLegible hInst hHanded hGot
      obtain ⟨hSecond, hSame⟩ := hDropped hFirst hRelease
      refine ⟨hFirst.trans hSecond, Or.inr ⟨hSecond.faithful swap (hFirst.layout.faithful swap hCached), ?_⟩⟩
      rw [hKey, hSame, hSwap]

end

/-- What `vfs_resolve` returns is the inode of the node that the lookup gives, or `NULL` if it gives
none. -/
structure Resolves (fs : FsTable) (ns : Namespace) (c : VfsCache) (found : Option NodeKey) (c' : VfsCache)
    (r : InodeRef) : Prop where
  keeps : Layout.Keeps fs ns c c'
  found_eq : found = if r = 0 then none else some (c'.key r)
  faithful : r ≠ 0 → Faithful fs ns c' r

lemma resolveNames_resolves (hLegible : ns.Legible fs) (h : Layout fs ns c) (hr : Faithful fs ns c r)
    {r' : InodeRef} (hResolve : resolveNames fs c r names = some (c', r')) :
    Resolves fs ns c (ns.follow fs (c.key r) names) c' r' := by
  induction names generalizing c r with
  | nil =>
    obtain ⟨rfl, rfl⟩ : c = c' ∧ r = r' := Prod.mk.inj (some.inj hResolve)
    refine ⟨.refl h, ?_, fun _ => hr⟩
    rw [if_neg hr.ne_zero]
    rfl
  | cons name names ih =>
    rw [resolveNames] at hResolve
    split at hResolve
    · cases hResolve
    · split_ifs at hResolve with hEmpty
      · subst hEmpty
        have hStay : ns.walk fs (c.key r) [] = some (c.key r) := Namespace.walk_stay rfl hr.handed
        rw [Namespace.follow, hStay]
        exact ih h hr hResolve
      · obtain ⟨⟨_, _⟩, hWalk, hRest⟩ := bind_eq_some_iff.mp hResolve
        obtain ⟨c₂, hRelease, hRest⟩ := bind_eq_some_iff.mp hRest
        obtain ⟨hKeeps, hNext⟩ := resolve_turn hLegible h hr hEmpty hWalk hRelease
        have hLookup : ns.follow fs (c.key r) (name :: names) =
            (ns.walk fs (c.key r) name).bind fun k => ns.follow fs k names := rfl
        rw [hLookup]
        rcases hNext with ⟨rfl, hNone⟩ | ⟨hFaithful, hSome⟩
        · rw [if_pos rfl] at hRest
          obtain ⟨rfl, rfl⟩ : c₂ = c' ∧ 0 = r' := Prod.mk.inj (some.inj hRest)
          exact ⟨hKeeps, by rw [hNone]; rfl, fun hNe => absurd rfl hNe⟩
        · rw [if_neg hFaithful.ne_zero] at hRest
          rw [hSome, bind_some]
          obtain ⟨hLater, hFound, hLast⟩ := ih hKeeps.layout hFaithful hRest
          exact ⟨hKeeps.trans hLater, hFound, hLast⟩

def Namespace.lookupPath (fs : FsTable) (ns : Namespace) (path : Bytes) : Option NodeKey :=
  ns.lookup fs (ns.rootFs, (fs ns.rootFs).rootNode) (pathNames path.tail)

def Namespace.followPath (fs : FsTable) (ns : Namespace) (path : Bytes) : Option NodeKey :=
  ns.follow fs (ns.rootFs, (fs ns.rootFs).rootNode) (pathNames path.tail)

lemma Namespace.root_mem (ns : Namespace) : ns.rootFs ∈ ns.insts := mem_cons_self

lemma getRootNode_keeps (hLegible : ns.Legible fs) (h : Layout fs ns c) {root : InodeRef} (hInst : inst ∈ ns.insts)
    (hGet : getRootNode fs c inst = some (c', root)) :
    c.Got fs (inst, (fs inst).rootNode) c' root ∧ Layout.Keeps fs ns c c' ∧ c'.Cached root ∧
      c'.key root = (inst, (fs inst).rootNode) := by
  have hGot : c.Got fs (inst, (fs inst).rootNode) c' root :=
    vfsGetInode_got h.sound (hLegible.legible inst hInst).entryIds (fs inst).handsOut_rootNode hGet
  obtain ⟨hKeeps, _, hCached, hKey⟩ := h.keeps_got hLegible hInst (fs inst).handsOut_rootNode hGot
  exact ⟨hGot, hKeeps, hCached, hKey⟩

lemma vfsResolve_resolves (hLegible : ns.Legible fs) (hRoot : ns.rootFs ≠ 0) (h : Layout fs ns c) {cwd r' : InodeRef}
    {path : Bytes} (hPath : path.head? = some 47)
    (hResolve : vfsResolve fs ns.rootFs c cwd path = some (c', r')) :
    Resolves fs ns c (ns.followPath fs path) c' r' := by
  rw [vfsResolve, if_neg hRoot, if_pos (Or.inl hPath), if_pos hPath] at hResolve
  obtain ⟨⟨_, current⟩, hGet, hNames⟩ := bind_eq_some_iff.mp hResolve
  obtain ⟨_, hFirst, hCached, hKey⟩ := getRootNode_keeps hLegible h ns.root_mem hGet
  obtain ⟨hLater, hFound, hLast⟩ := resolveNames_resolves hLegible hFirst.layout
    (hFirst.layout.faithful current hCached) hNames
  rw [hKey] at hFound
  exact ⟨hFirst.trans hLater, hFound, hLast⟩

end

variable {fs : FsTable} {ns : Namespace} {c c' : VfsCache} {r : InodeRef}

lemma VfsCache.Got.pool_length (h : c.Got fs k c' r) : c.inodeAlloc.length ≤ c'.inodeAlloc.length + 1 := by
  cases h with
  | none hNone hAbsent | cached hCached hKey => exact Nat.le_succ _
  | filled hFill hAbsent hEntered hInode hCount =>
    rw [hEntered.pool, length_cons]
    exact Nat.le_refl _

lemma VfsCache.Dropped.pool_length (h : c.Dropped r c') : c.inodeAlloc.length ≤ c'.inodeAlloc.length := by
  cases h with
  | same hCount | less hCount => exact Nat.le_refl _
  | last hCount hPinned hCached hKey hRemoved =>
    rw [hRemoved.pool]
    exact Nat.le_succ _
  | stale hCount hPinned hAbsent => exact Nat.le_refl _

lemma vfsWalkEntry_some (hLegible : ns.Legible fs) (h : Layout fs ns c) (hr : Faithful fs ns c r)
    (hName : name ≠ []) (hPool : c.inodeAlloc ≠ []) :
    ∃ c' swap, vfsWalkEntry fs c r name = some (c', swap) ∧ Layout fs ns c' ∧
      c.inodeAlloc.length ≤ c'.inodeAlloc.length + 1 := by
  by_cases hDot : name = [46]
  · subst hDot
    exact ⟨c.countUp r, r, rfl, (h.keeps_setCount r _).layout, Nat.le_succ _⟩
  · have hStep : stepOf name ≠ .stay := fun hStay => (stepOf_stay.mp hStay).elim hName hDot
    rcases vfsWalkEntry_walk hLegible h hr hStep with ⟨_, hNull⟩ | ⟨k, _, hInst, hHanded, hGet⟩
    · exact ⟨c, 0, hNull, h, Nat.le_succ _⟩
    · obtain ⟨c₁, swap, hSome⟩ := vfsGetInode_some fs k.1 k.2 h.sound hPool
      have hGot := vfsGetInode_got h.sound (hLegible.legible k.1 hInst).entryIds hHanded hSome
      exact ⟨c₁, swap, hGet.trans hSome, (h.keeps_got hLegible hInst hHanded hGot).1.layout, hGot.pool_length⟩

lemma resolveNames_some (hLegible : ns.Legible fs) (hNames : ∀ name ∈ names, name.length < inodeMaxName)
    (h : Layout fs ns c) (hr : Faithful fs ns c r) (hPool : names.length ≤ c.inodeAlloc.length) :
    ∃ c' r', resolveNames fs c r names = some (c', r') ∧ c.inodeAlloc.length ≤ c'.inodeAlloc.length + names.length := by
  induction names generalizing c r with
  | nil => exact ⟨c, r, rfl, Nat.le_refl _⟩
  | cons name names ih =>
    have hRest := fun name hName => hNames name (mem_cons_of_mem _ hName)
    rw [length_cons] at hPool
    rw [resolveNames, if_neg (Nat.not_le_of_lt (hNames name mem_cons_self))]
    by_cases hEmpty : name = []
    · rw [if_pos hEmpty]
      obtain ⟨c', r', hResolve, hLeft⟩ := ih hRest h hr (Nat.le_of_succ_le hPool)
      exact ⟨c', r', hResolve, Nat.le_succ_of_le hLeft⟩
    · rw [if_neg hEmpty]
      obtain ⟨_, _, hWalk, hLayout, _⟩ := vfsWalkEntry_some hLegible h hr hEmpty
        (ne_nil_of_length_pos (Nat.lt_of_lt_of_le (Nat.succ_pos _) hPool))
      obtain ⟨_, hRelease, hDrop⟩ := vfsReleaseInode_dropped hLayout.sound r
      obtain ⟨hKeeps, hNext⟩ := resolve_turn hLegible h hr hEmpty hWalk hRelease
      simp only [hWalk, hRelease, bind_eq_bind, bind_some, length_cons]
      have hMore := hDrop.pool_length
      split_ifs with hSwap
      · exact ⟨_, _, rfl, by omega⟩
      · have hFaithful := (hNext.resolve_left fun hNull => hSwap hNull.1).1
        obtain ⟨c', r', hResolve, hLeft⟩ := ih hRest hKeeps.layout hFaithful (by omega)
        exact ⟨c', r', hResolve, by omega⟩

lemma pathNames_length (path : Bytes) : (pathNames path).length ≤ path.length + 1 := by
  induction path with
  | nil => exact Nat.le_refl 1
  | cons c path ih =>
    rw [pathNames, length_cons]
    split
    · exact Nat.succ_le_succ ih
    · split
      · exact Nat.le_add_left 1 _
      · rename_i hNames
        rw [hNames] at ih
        exact Nat.le_succ_of_le ih

def ShortNames (path : Bytes) : Prop := ∀ name ∈ pathNames path, name.length < inodeMaxName

lemma vfsResolve_some (hLegible : ns.Legible fs) (hRoot : ns.rootFs ≠ 0) (h : Layout fs ns c) {cwd : InodeRef}
    (hCwd : cwd ≠ 0 → Faithful fs ns c cwd) {path : Bytes} (hShort : ShortNames path)
    (hPool : path.length + 2 ≤ c.inodeAlloc.length) :
    ∃ c' r', vfsResolve fs ns.rootFs c cwd path = some (c', r') ∧
      c.inodeAlloc.length ≤ c'.inodeAlloc.length + (path.length + 2) := by
  have hLength := pathNames_length path
  rw [vfsResolve, if_neg hRoot]
  by_cases hStart : path.head? = some 47 ∨ cwd = 0
  · rw [if_pos hStart]
    obtain ⟨_, current, hGet⟩ := vfsGetInode_some fs ns.rootFs (fs ns.rootFs).rootNode h.sound
      (ne_nil_of_length_pos (l := c.inodeAlloc) (by omega))
    obtain ⟨hGot, hKeeps, hCached, _⟩ := getRootNode_keeps hLegible h ns.root_mem hGet
    have hNames : ∀ rest, rest = (if path.head? = some 47 then path.tail else path) →
        (∀ name ∈ pathNames rest, name.length < inodeMaxName) ∧ (pathNames rest).length ≤ path.length + 1 := by
      rintro rest rfl
      split_ifs with hSlash
      · obtain ⟨rest, rfl⟩ := head?_eq_some_iff.mp hSlash
        have hSplit : pathNames (47 :: rest) = [] :: pathNames rest := if_pos rfl
        rw [ShortNames, hSplit] at hShort
        refine ⟨fun name hName => hShort name (mem_cons_of_mem _ hName), ?_⟩
        rw [tail_cons, length_cons]
        exact (pathNames_length rest).trans (Nat.le_succ _)
      · exact ⟨hShort, hLength⟩
    obtain ⟨hRest, _⟩ := hNames _ rfl
    have hLess := hGot.pool_length
    obtain ⟨c', r', hResolve, hLeft⟩ := resolveNames_some hLegible hRest hKeeps.layout
      (hKeeps.layout.faithful current hCached) (by omega)
    refine ⟨c', r', ?_, by omega⟩
    rw [getRootNode, hGet, bind_eq_bind, bind_some]
    exact hResolve
  · rw [if_neg hStart]
    obtain ⟨c', r', hResolve, hLeft⟩ := resolveNames_some hLegible hShort h (hCwd fun hNull => hStart (Or.inr hNull))
      (by omega)
    exact ⟨c', r', hResolve, by omega⟩

end Fixos.Fs
