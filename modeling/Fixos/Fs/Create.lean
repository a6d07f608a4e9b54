import Fixos.Fs.GrownTree
import Fixos.Fs.PathLaws

/-! # Creating nodes (`fs/vfs_op.c`, `fs/protofs/file_system.c`)

The number of a new node was not handed out before, so no inode in the cache speaks of it.
-/

namespace Fixos.Fs

open MountTree Transition Option Function List

/-- The bits of `type_flags` by the names of `inode.h`. -/
def typeFlagsOf (typeFlags : BitVec 16) : TypeFlags :=
  ⟨typeFlags.getLsbD 0, typeFlags.getLsbD 1, typeFlags.getLsbD 2, typeFlags.getLsbD 3⟩

def protofsNewNode (old : ProtofsNode) (parent : Nat) (name : Bytes) (typeFlags modeFlags : BitVec 16)
    (special : Nat) : ProtofsNode where
  name := name
  parent := if parent = protofsRootNode then none else some parent
  typeFlags := typeFlagsOf typeFlags
  typeEmpty := typeFlags.getLsbD 14
  mode := modeFlags.setWidth 32
  dev := if (typeFlagsOf typeFlags).dev then special else old.dev

def protofsCreateNode (fs : FsTable) (c : VfsCache) (parent : InodeRef) (name : Bytes)
    (typeFlags modeFlags : BitVec 16) (special : Nat) : Option (FsTable × VfsCache × InodeRef) :=
  match fs (c.inode parent).fsOp with
  | .smemfs _ => none -- `create_node` is `NULL`
  | .protofs page =>
    match (range protofsPerPage).find? fun i => (page i).typeEmpty with
    | none => some (fs, c, 0)
    | some cur =>
      -- a longer name would be copied over the next fields
      if protofsMaxName ≤ name.length then none
      else
        let node := protofsNewNode (page cur) (c.inode parent).node name typeFlags modeFlags special
        let fs := update fs (c.inode parent).fsOp (.protofs (update page cur node))
        (vfsGetInode fs c (c.inode parent).fsOp cur).map fun (c, ret) => (fs, c, ret)

def vfsCreate (fs : FsTable) (v : Vfs) (cwd : InodeRef) (path name : Bytes) (typeFlags modeFlags : BitVec 16)
    (special : Nat) : Option (FsTable × Vfs × Int) := do
  let (cache, target) ← vfsResolve fs v.rootFs v.cache cwd path
  if target ≠ 0 then
    let (fs, cache, newnode) ← protofsCreateNode fs cache target name typeFlags modeFlags special
    let cache ← (if newnode ≠ 0 then vfsReleaseInode cache newnode else some cache)
    let cache ← vfsReleaseInode cache target
    return (fs, { v with cache }, if newnode = 0 then -1 else 0)
  else return (fs, { v with cache }, -1)

section

variable {page : Nat → ProtofsNode} {cur dir n : Nat} {name : Bytes} {new : ProtofsNode}

namespace ProtofsNode

/-- It is in use, is neither a root nor a mount point, and has an existing directory for its parent. -/
structure Fits (new : ProtofsNode) (page : Nat → ProtofsNode) (cur dir : Nat) (name : Bytes) : Prop where
  cur_lt : cur < protofsPerPage
  empty : (page cur).typeEmpty = true
  dir_handed : (FsData.protofs page).HandsOut dir
  dir_parent : (FsData.protofs page).isDirectory dir = true
  unused : protofsFindSubNode page true dir name = none
  new_name : new.name = name
  new_parent : new.parent = if dir = protofsRootNode then none else some dir
  new_used : new.typeEmpty = false
  new_root : new.typeFlags.root = false
  new_mountpoint : new.typeFlags.mountpoint = false

section

variable (h : new.Fits page cur dir name)
include h

lemma Fits.ne (hHanded : (FsData.protofs page).HandsOut n) : n ≠ cur := by
  rintro rfl
  rcases hHanded with hRoot | ⟨_, hUsed⟩
  · exact absurd hRoot (ne_protofsRootNode h.cur_lt)
  · rw [h.empty] at hUsed
    cases hUsed

lemma Fits.handed_iff (n : Nat) :
    (FsData.protofs (update page cur new)).HandsOut n ↔ (FsData.protofs page).HandsOut n ∨ n = cur := by
  by_cases hn : n = cur
  · subst hn
    refine iff_of_true (Or.inr ⟨h.cur_lt, ?_⟩) (Or.inr rfl)
    rw [update_self]
    exact h.new_used
  · simp [FsData.HandsOut, hn]

lemma Fits.legible (hLegible : (FsData.protofs page).Legible) : (FsData.protofs (update page cur new)).Legible := by
  have hStill : ∀ p, p < protofsPerPage ∧ (page p).typeEmpty = false →
      p < protofsPerPage ∧ (update page cur new p).typeEmpty = false := by
    rintro p ⟨hLt, hUsed⟩
    rw [update_of_ne (h.ne (Or.inr ⟨hLt, hUsed⟩))]
    exact ⟨hLt, hUsed⟩
  intro i hi hUsed
  by_cases hNew : i = cur
  · subst hNew
    rw [update_self]
    refine ⟨h.new_root, h.new_mountpoint, fun p hp => hStill p ?_⟩
    rw [h.new_parent] at hp
    split_ifs at hp with hRoot
    · cases hp
    · cases hp
      exact h.dir_handed.resolve_left hRoot
  · rw [update_of_ne hNew] at hUsed ⊢
    obtain ⟨hRoot, hMount, hParent⟩ := hLegible i hi hUsed
    exact ⟨hRoot, hMount, fun p hp => hStill p (hParent p hp)⟩

lemma Fits.same (hHanded : (FsData.protofs page).HandsOut n) :
    (FsData.protofs (update page cur new)).parentOf n = (FsData.protofs page).parentOf n ∧
      (FsData.protofs (update page cur new)).isDirectory n = (FsData.protofs page).isDirectory n ∧
      (FsData.protofs (update page cur new)).attrs n = (FsData.protofs page).attrs n := by
  have hPage : update page cur new n = page n := update_of_ne (h.ne hHanded) new page
  rcases hHanded with rfl | ⟨hLt, _⟩
  · simp [FsData.parentOf, FsData.isDirectory, FsData.attrs, protofsNodePtr_root]
  · simp [FsData.parentOf, FsData.isDirectory, FsData.attrs, protofsNodePtr_node hLt, hPage]

lemma Fits.child (n : Nat) (label : Bytes) :
    protofsFindSubNode (update page cur new) ((FsData.protofs page).isDirectory n) n label =
      if n = dir ∧ label = name then some cur
      else protofsFindSubNode page ((FsData.protofs page).isDirectory n) n label := by
  by_cases hHere : n = dir ∧ label = name
  · obtain ⟨rfl, rfl⟩ := hHere
    have hNone := h.unused
    rw [if_pos ⟨rfl, rfl⟩, h.dir_parent]
    -- no other node passes the test
    refine find?_range_eq_some.mpr ⟨?_, mem_range.mpr h.cur_lt, fun i hi => ?_⟩
    · simp [h.new_used, h.new_parent, h.new_name]
    · rw [update_of_ne hi.ne]
      exact find?_range_eq_none.mp hNone i (hi.trans h.cur_lt)
  · rw [if_neg hHere]
    unfold protofsFindSubNode
    split
    · refine congrArg (fun p => find? p _) (funext fun i => ?_)
      by_cases hNew : i = cur
      · subst hNew
        rw [update_self, h.empty, h.new_used, h.new_parent, h.new_name]
        refine Bool.eq_false_iff.mpr fun hTest => hHere ?_
        simp only [Bool.not_false, Bool.true_and, Bool.and_eq_true, decide_eq_true_eq] at hTest
        refine ⟨?_, hTest.2.symm⟩
        have hParent := hTest.1
        split at hParent <;> split at hParent <;> simp_all
      · rw [update_of_ne hNew]
    · rfl

lemma Fits.childless (hLegible : (FsData.protofs page).Legible) (typeParent : Bool) (label : Bytes) :
    protofsFindSubNode (update page cur new) typeParent cur label = none := by
  refine eq_none_iff_forall_ne_some.mpr fun x hFind => ?_
  have hNotRoot := ne_protofsRootNode h.cur_lt
  obtain ⟨hLt, hUsed, hParent⟩ := protofsFindSubNode_spec hFind
  by_cases hNew : x = cur
  · rw [hNew, update_self, h.new_parent] at hParent
    refine h.ne h.dir_handed ?_
    split_ifs at hParent with hRoot
    · exact hRoot.trans hParent
    · exact hParent
  · rw [update_of_ne hNew] at hUsed hParent
    cases hOf : (page x).parent with
    | none =>
      rw [hOf] at hParent
      exact hNotRoot hParent.symm
    | some p =>
      rw [hOf] at hParent
      have hOld := ((hLegible x hLt hUsed).2.2 p hOf).2
      rw [show p = cur from hParent, h.empty] at hOld
      cases hOld

lemma Fits.upward (hLegible : (FsData.protofs page).Legible) (hHanded : (FsData.protofs page).HandsOut n) {p : Nat}
    (hParent : (FsData.protofs page).parentOf n = some p) : p ≠ cur := by
  refine h.ne ?_
  rcases hHanded with rfl | ⟨hLt, hUsed⟩
  · simp [FsData.parentOf, protofsNodePtr_root] at hParent
  · simp only [FsData.parentOf, protofsNodePtr_node hLt, bind_some, map_some, some.injEq] at hParent
    subst hParent
    cases hOf : (page n).parent with
    | none => exact Or.inl rfl
    | some p => exact Or.inr ((hLegible n hLt hUsed).2.2 p hOf)

lemma Fits.parentOf : (FsData.protofs (update page cur new)).parentOf cur = some dir := by
  simp only [FsData.parentOf, protofsNodePtr_node h.cur_lt, bind_some, map_some, update_self, h.new_parent]
  split_ifs with hRoot
  · rw [hRoot]
    rfl
  · rfl

lemma Fits.extends : (FsData.protofs page).Extends (.protofs (update page cur new)) where
  rootNode := rfl
  legible := h.legible
  handed hHanded := (h.handed_iff _).mpr (Or.inl hHanded)
  parentOf hHanded := (h.same hHanded).1
  isDirectory hHanded := (h.same hHanded).2.1
  attrs hHanded := (h.same hHanded).2.2

lemma Fits.grows {fs : FsTable} {inst : Nat} (hFs : fs inst = .protofs page) (hLegible : (fs inst).Legible) :
    fs.Grows (inst, dir) name cur (update fs inst (.protofs (update page cur new))) := by
  rw [hFs] at hLegible
  have hNew : update fs inst (.protofs (update page cur new)) inst = .protofs (update page cur new) := update_self _ _ _
  constructor
  case extend =>
    intro i
    by_cases hi : i = inst
    · rw [hi, hNew, hFs]
      exact h.extends
    · rw [update_of_ne hi]
      exact .refl _
  case fresh =>
    rw [hFs]
    exact fun hHanded => h.ne hHanded rfl
  case handed_iff =>
    intro i n
    by_cases hi : i = inst
    · rw [hi, hNew, hFs, h.handed_iff]
      simp
    · rw [update_of_ne hi]
      simp [hi]
  case upward =>
    rw [hFs]
    exact fun hHanded => h.upward hLegible hHanded
  case unused =>
    have hChild : fs.forest.childOf inst dir name = (fs inst).findSubNode ((fs inst).isDirectory dir) dir name := rfl
    rw [hChild, hFs, h.dir_parent]
    exact h.unused
  case child =>
    intro i n hHanded label
    have hChild : ∀ fs : FsTable, fs.forest.childOf i n label = (fs i).findSubNode ((fs i).isDirectory n) n label :=
      fun _ => rfl
    rw [hChild, hChild]
    by_cases hi : i = inst
    · subst hi
      rw [hFs] at hHanded
      rw [hNew, hFs, (h.same hHanded).2.1]
      simp only [Prod.mk.injEq, true_and]
      exact h.child n label
    · rw [update_of_ne hi, if_neg (by simp [hi])]
  case childless =>
    intro label
    have hChild : ∀ fs : FsTable, fs.forest.childOf inst cur label =
        (fs inst).findSubNode ((fs inst).isDirectory cur) cur label := fun _ => rfl
    rw [hChild, hNew]
    exact h.childless hLegible _ label
  case parent =>
    rw [hNew]
    exact h.parentOf

end

end ProtofsNode

end

def FsData.hasFreeNode : FsData → Bool
  | .protofs page => (range protofsPerPage).any fun i => (page i).typeEmpty
  | .smemfs _ => false

def FsData.nameUnused (node : Nat) (name : Bytes) : FsData → Bool
  | .protofs page => (protofsFindSubNode page true node name).isNone
  | .smemfs _ => false

def VfsInode.takesName (fs : FsTable) (inode : VfsInode) (name : Bytes) : Bool :=
  inode.typeFlags.parent && !inode.typeFlags.mountpoint && (fs inode.fsOp).nameUnused inode.node name

def plainType (typeFlags : BitVec 16) : Bool :=
  !(typeFlagsOf typeFlags).root && !(typeFlagsOf typeFlags).mountpoint && !typeFlags.getLsbD 14

structure FsTable.Adds (fs : FsTable) (dir : NodeKey) (name : Bytes) (typeFlags modeFlags : BitVec 16)
    (special node : Nat) (fs' : FsTable) : Prop where
  grows : fs.Grows dir name node fs'
  isDirectory : (fs' dir.1).isDirectory node = (typeFlagsOf typeFlags).parent
  attrs : (fs' dir.1).attrs node =
    ⟨if (typeFlagsOf typeFlags).dev then some special else none, modeFlags.setWidth 32, name, none⟩

variable {fs fs' : FsTable} {ns : Namespace} {c c' : VfsCache} {target new : InodeRef} {path name : Bytes}
  {typeFlags modeFlags : BitVec 16} {special node : Nat} {v v' : Vfs} {ret : Int} {held : List InodeRef}
  {cwd : InodeRef} {c₁ c₂ c₃ : VfsCache}

lemma FsData.nameUnused_protofs {data : FsData} (h : data.nameUnused node name = true) :
    ∃ page, data = .protofs page ∧ protofsFindSubNode page true node name = none := by
  cases data with
  | protofs page => exact ⟨page, rfl, isNone_iff_eq_none.mp h⟩
  | smemfs headers => cases h

lemma protofsNewNode_fits {page : Nat → ProtofsNode} {cur dir : Nat} (hPlain : plainType typeFlags)
    (hLt : cur < protofsPerPage) (hEmpty : (page cur).typeEmpty = true) (hHanded : (FsData.protofs page).HandsOut dir)
    (hDirectory : (FsData.protofs page).isDirectory dir = true) (hUnused : protofsFindSubNode page true dir name = none)
    (modeFlags : BitVec 16) (special : Nat) :
    (protofsNewNode (page cur) dir name typeFlags modeFlags special).Fits page cur dir name := by
  simp only [plainType, Bool.and_eq_true, Bool.not_eq_true'] at hPlain
  exact ⟨hLt, hEmpty, hHanded, hDirectory, hUnused, rfl, rfl, hPlain.2, hPlain.1.1, hPlain.1.2⟩

lemma protofsCreateNode_cases (hLegible : ns.Legible fs) (hTarget : Faithful fs ns c target)
    (hTakes : (c.inode target).takesName fs name) (hPlain : plainType typeFlags)
    (hCreate : protofsCreateNode fs c target name typeFlags modeFlags special = some (fs', c', new)) :
    ((fs (c.inode target).fsOp).hasFreeNode = false ∧ fs' = fs ∧ c' = c ∧ new = 0) ∨
      ((fs (c.inode target).fsOp).hasFreeNode = true ∧ ∃ node,
        fs.Adds (c.key target) name typeFlags modeFlags special node fs' ∧
          vfsGetInode fs' c (c.inode target).fsOp node = some (c', new)) := by
  simp only [VfsInode.takesName, Bool.and_eq_true] at hTakes
  obtain ⟨⟨hParent, _⟩, hName⟩ := hTakes
  obtain ⟨_, hPage, hUnused⟩ := FsData.nameUnused_protofs hName
  have hHanded := hTarget.handed
  have hDirectory := hTarget.directory.symm.trans hParent
  have hFile := hLegible.legible _ hTarget.inst
  rw [hPage] at hHanded hDirectory
  rw [protofsCreateNode, hPage] at hCreate
  rw [hPage]
  dsimp only at hCreate
  split at hCreate
  · rename_i hNone
    cases hCreate
    refine Or.inl ⟨any_eq_false.mpr fun i hi => ?_, rfl, rfl, rfl⟩
    exact find?_eq_none.mp hNone i hi
  · rename_i cur hCur
    split at hCreate
    · cases hCreate
    · obtain ⟨⟨_, _⟩, hGet, ⟨⟩⟩ := map_eq_some_iff.mp hCreate
      have hMem := mem_of_find?_eq_some hCur
      have hEmpty := find?_some hCur
      have hFits := protofsNewNode_fits hPlain (mem_range.mp hMem) hEmpty hHanded hDirectory hUnused modeFlags special
      refine Or.inr ⟨any_eq_true.mpr ⟨cur, hMem, hEmpty⟩, cur, ⟨hFits.grows hPage hFile, ?_, ?_⟩, hGet⟩
      · simp [VfsCache.key, FsData.isDirectory, protofsNodePtr_node hFits.cur_lt, protofsNewNode]
      · simp only [VfsCache.key, FsData.attrs, protofsNodePtr_node hFits.cur_lt, protofsNewNode, update_self, join_some]
        split <;> simp_all

lemma vfsCreate_split (hResolve : vfsResolve fs v.rootFs v.cache cwd path = some (c, target))
    (hNe : target ≠ 0) (hCreate : vfsCreate fs v cwd path name typeFlags modeFlags special = some (fs', v', ret)) :
    ∃ c₁ new c₂ c₃, protofsCreateNode fs c target name typeFlags modeFlags special = some (fs', c₁, new) ∧
      (if new ≠ 0 then vfsReleaseInode c₁ new else some c₁) = some c₂ ∧ vfsReleaseInode c₂ target = some c₃ ∧
        v' = { v with cache := c₃ } ∧ ret = if new = 0 then -1 else 0 := by
  simp only [vfsCreate, hResolve, bind_eq_bind, bind_some, if_pos hNe] at hCreate
  obtain ⟨⟨_, c₁, new⟩, hNode, hRest⟩ := bind_eq_some_iff.mp hCreate
  obtain ⟨c₂, hNew, hRest⟩ := bind_eq_some_iff.mp hRest
  obtain ⟨c₃, hDrop, ⟨⟩⟩ := bind_eq_some_iff.mp hRest
  exact ⟨c₁, new, c₂, c₃, hNode, hNew, hDrop, rfl, rfl⟩

lemma FsTable.Adds.got (h : fs.Adds (c.key target) name typeFlags modeFlags special node fs')
    (hLegible : ns.Legible fs) (hLayout : Layout fs ns c) (hTarget : Faithful fs ns c target)
    (hGet : vfsGetInode fs' c (c.inode target).fsOp node = some (c', new)) :
    c.Got fs' ((c.key target).1, node) c' new ∧ Layout.Keeps fs' ns c c' ∧ new ≠ 0 ∧ c'.Cached new ∧
      c.Room ((c.key target).1, node) := by
  have hHanded : (fs' (c.key target).1).HandsOut node := (h.grows.handed_iff _ _).mpr (Or.inr rfl)
  have hSpace := hLegible.extend h.grows.extend
  have hLayout' := hLayout.extend h.grows.extend
  have hGot := vfsGetInode_got hLayout.sound (hSpace.legible _ hTarget.inst).entryIds hHanded hGet
  obtain ⟨hKeeps, hNew, hCached, _⟩ := hLayout'.keeps_got hSpace hTarget.inst hHanded hGot
  refine ⟨hGot, hKeeps, hNew, hCached, fun r hr hKey => ?_⟩
  have hAbsent := hLayout.absent h.grows.fresh
  exact absurd ((hr.lookup_eq hKey).symm.trans hAbsent) hr.1

lemma Layout.created (hLegible : ns.Legible fs) (h : Layout fs ns c) (hTarget : Faithful fs ns c target)
    (hTakes : (c.inode target).takesName fs name) (hPlain : plainType typeFlags)
    (hNode : protofsCreateNode fs c target name typeFlags modeFlags special = some (fs', c₁, new))
    (hNew : (if new ≠ 0 then vfsReleaseInode c₁ new else some c₁) = some c₂) (hDrop : vfsReleaseInode c₂ target = some c₃) :
    Layout fs' ns c₃ ∧ (∀ r, Faithful fs ns c r → Faithful fs' ns c₃ r) ∧
      ((new = 0 ∧ (fs (c.inode target).fsOp).hasFreeNode = false ∧ fs' = fs) ∨
        (new ≠ 0 ∧ (fs (c.inode target).fsOp).hasFreeNode = true ∧
          ∃ node, fs.Adds (c.key target) name typeFlags modeFlags special node fs')) := by
  have hDropped : ∀ {fs c c' r}, ns.Legible fs → Layout fs ns c → Faithful fs ns c r → vfsReleaseInode c r = some c' →
      Layout.Keeps fs ns c c' := by
    intro fs c c' r hSpace hLayout hr hRelease
    have hDrop := hLayout.sound.released hRelease
    exact hLayout.keeps_dropped hSpace hr hDrop
  rcases protofsCreateNode_cases hLegible hTarget hTakes hPlain hNode with ⟨hFull, rfl, rfl, rfl⟩ |
    ⟨hFree, node, hAdds, hGet⟩
  · rw [if_neg (not_not.mpr rfl)] at hNew
    cases hNew
    have hKeeps := hDropped hLegible h hTarget hDrop
    exact ⟨hKeeps.layout, hKeeps.faithful, Or.inl ⟨rfl, hFull, rfl⟩⟩
  · obtain ⟨_, hFirst, hNe, hCached, _⟩ := hAdds.got hLegible h hTarget hGet
    rw [if_pos hNe] at hNew
    have hSpace := hLegible.extend hAdds.grows.extend
    have hSecond := hFirst.trans (hDropped hSpace hFirst.layout (hFirst.layout.faithful new hCached) hNew)
    have hLast := hSecond.trans
      (hDropped hSpace hSecond.layout (hSecond.faithful target (hTarget.extend hAdds.grows.extend)) hDrop)
    exact ⟨hLast.layout, fun r hr => hLast.faithful r (hr.extend hAdds.grows.extend), Or.inr ⟨hNe, hFree, node, hAdds⟩⟩

lemma Vfs.Ready.created (h : v.Ready fs (target :: held)) (hTakes : (v.cache.inode target).takesName fs name)
    (hPlain : plainType typeFlags)
    (hNode : protofsCreateNode fs v.cache target name typeFlags modeFlags special = some (fs', c₁, new))
    (hNew : (if new ≠ 0 then vfsReleaseInode c₁ new else some c₁) = some c₂) (hDrop : vfsReleaseInode c₂ target = some c₃) :
    ({ v with cache := c₃ } : Vfs).Ready fs' held ∧ fs.Extends fs' := by
  have hTarget := h.layout.faithful target (h.counted.cached target mem_cons_self)
  have hLast : ∀ {fs : FsTable} {v : Vfs} {c₃ : VfsCache}, v.Ready fs (target :: held) →
    vfsReleaseInode v.cache target = some c₃ → ({ v with cache := c₃ } : Vfs).Ready fs held := by
    intro fs v c₃ h hDrop
    have hReady := (h.release mem_cons_self hDrop).1
    rwa [erase_cons_head] at hReady
  rcases protofsCreateNode_cases h.legible hTarget hTakes hPlain hNode with ⟨_, rfl, rfl, rfl⟩ | ⟨_, _, hAdds, hGet⟩
  · rw [if_neg (not_not.mpr rfl)] at hNew
    cases hNew
    exact ⟨hLast h hDrop, fun _ => .refl _⟩
  · obtain ⟨hGot, hKeeps, hNe, _, hRoom⟩ := hAdds.got h.legible h.layout hTarget hGet
    rw [if_pos hNe] at hNew
    have hGrown := h.extend hAdds.grows.extend
    obtain ⟨hReady, _⟩ := hGrown.of_stays (hGot.stays h.counted.sound (target :: held)) hKeeps.layout
      (h.counted.got hGot hRoom hNe)
    have hSecond := (hReady.release mem_cons_self hNew).1
    rw [erase_cons_head] at hSecond
    exact ⟨hLast (v := { v with cache := c₂ }) hSecond hDrop, hAdds.grows.extend⟩

lemma protofsCreateNode_some (hSound : c.Sound) (hTakes : (c.inode target).takesName fs name)
    (hFits : name.length < protofsMaxName) (hPool : c.inodeAlloc ≠ []) (typeFlags modeFlags : BitVec 16) (special : Nat) :
    ∃ fs' c₁ new, protofsCreateNode fs c target name typeFlags modeFlags special = some (fs', c₁, new) := by
  simp only [VfsInode.takesName, Bool.and_eq_true] at hTakes
  obtain ⟨page, hPage, _⟩ := FsData.nameUnused_protofs hTakes.2
  unfold protofsCreateNode
  rw [hPage]
  dsimp only
  split
  · exact ⟨_, _, _, rfl⟩
  · rename_i cur hCur
    obtain ⟨c₁, new, hGet⟩ := vfsGetInode_some (update fs (c.inode target).fsOp (.protofs (update page cur
      (protofsNewNode (page cur) (c.inode target).node name typeFlags modeFlags special)))) (c.inode target).fsOp cur
      hSound hPool
    rw [if_neg (Nat.not_le_of_lt hFits), hGet]
    exact ⟨_, _, _, rfl⟩

lemma vfsCreate_some (hLegible : ns.Legible fs) (h : Layout fs ns c) (hTarget : Faithful fs ns c target)
    (hTakes : (c.inode target).takesName fs name) (hFits : name.length < protofsMaxName) (hPlain : plainType typeFlags)
    (hResolve : vfsResolve fs v.rootFs v.cache cwd path = some (c, target)) (hPool : c.inodeAlloc ≠ [])
    (modeFlags : BitVec 16) (special : Nat) :
    ∃ fs' v' ret, vfsCreate fs v cwd path name typeFlags modeFlags special = some (fs', v', ret) := by
  obtain ⟨fs', c₁, new, hNode⟩ := protofsCreateNode_some h.sound hTakes hFits hPool typeFlags modeFlags special
  have hSound : c₁.Sound := by
    rcases protofsCreateNode_cases hLegible hTarget hTakes hPlain hNode with ⟨_, _, rfl, _⟩ | ⟨_, _, hAdds, hGet⟩
    · exact h.sound
    · exact (hAdds.got hLegible h hTarget hGet).1.sound h.sound
  have hNew : ∃ c₂, (if new ≠ 0 then vfsReleaseInode c₁ new else some c₁) = some c₂ ∧ c₂.Sound := by
    split
    · obtain ⟨c₂, hRelease, hDrop⟩ := vfsReleaseInode_dropped hSound new
      exact ⟨c₂, hRelease, hDrop.sound hSound⟩
    · exact ⟨c₁, rfl, hSound⟩
  obtain ⟨c₂, hNew, hSound₂⟩ := hNew
  obtain ⟨c₃, hDrop, _⟩ := vfsReleaseInode_dropped hSound₂ target
  refine ⟨fs', { v with cache := c₃ }, if new = 0 then -1 else 0, ?_⟩
  simp only [vfsCreate, hResolve, bind_eq_bind, bind_some, if_pos hTarget.ne_zero, hNode, hNew, hDrop]
  rfl

end Fixos.Fs
