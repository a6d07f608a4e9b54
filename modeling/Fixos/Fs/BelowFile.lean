import Fixos.Fs.PathLaws

/-! # Names below a file (`fs/vfs.c`, `fs/casio_smemfs/file_system.c`)

Only protofs looks at the type of the inode that a name is looked for in.
-/

namespace Fixos.Fs

open MountTree Transition Option List

/-- No existing entry of a volume has the number of the node for the one of its directory, and the name. -/
def FsData.NoNamesake (node : Nat) (name : Bytes) : FsData → Prop
  | .protofs _ => True
  | .smemfs headers => ∀ header ∈ headers, header.deleted = false → header.parentId = node % 2 ^ 16 →
      cmpstr2fhn name header.name = false

instance (node : Nat) (name : Bytes) : (fs : FsData) → Decidable (fs.NoNamesake node name)
  | .protofs _ => isTrue trivial
  | .smemfs headers => inferInstanceAs (Decidable (∀ header ∈ headers, _))

def Namespace.OnDirectories (fs : FsTable) (ns : Namespace) : Prop :=
  ∀ p ∈ ns.mounts, (fs p.1.1).isDirectory p.1.2 = true

lemma FsData.findSubNode_eq_none_iff (fs : FsData) (node : Nat) (name : Bytes) :
    fs.findSubNode false node name = none ↔ fs.NoNamesake node name := by
  cases fs with
  | protofs page => exact iff_of_true rfl trivial
  | smemfs headers =>
    rw [findSubNode, smemfsFindSubNode, map_eq_none_iff, smemfsPrimGetAtomicFile, find?_eq_none]
    refine forall₂_congr fun header _ => ?_
    rw [Bool.and_eq_true, Bool.and_eq_true, Bool.not_eq_true', decide_eq_true_iff, not_and, not_and, Bool.not_eq_true]
    exact imp_congr_right fun _ => imp_congr_left eq_comm

section

variable {fs : FsTable} {ns : Namespace} {c : VfsCache} {r : InodeRef} {name : Bytes}

section

variable (hr : Faithful fs ns c r) (hPoints : ns.OnDirectories fs) (hFile : (c.inode r).typeFlags.parent = false)
include hr hPoints hFile

lemma Faithful.not_mountpoint : ns.mounts.on (c.key r) = none := by
  rw [eq_none_iff_forall_ne_some]
  intro _ hOn
  have hDirectory := hPoints _ (Mounts.on_mem hOn)
  have hFlag := hr.directory
  rw [hFile] at hFlag
  exact Bool.false_ne_true (hFlag.trans hDirectory)

lemma Namespace.walk_file_iff (hName : stepOf name = .down name) :
    ns.walk fs (c.key r) name = none ↔ (fs (c.inode r).fsOp).NoNamesake (c.inode r).node name := by
  have hReal : fs.forest.real ns.mounts (c.key r) = c.key r := by
    rw [Forest.real, hr.not_mountpoint hPoints hFile]
  have hChild : fs.forest.childOf (c.key r).1 (c.key r).2 name =
      (fs (c.inode r).fsOp).findSubNode false (c.inode r).node name := by
    rw [← hFile, hr.directory]
    rfl
  rw [← FsData.findSubNode_eq_none_iff, Namespace.walk, hName, Forest.walk, hReal, hChild]
  cases hFind : (fs (c.inode r).fsOp).findSubNode false (c.inode r).node name with
  | none => exact iff_of_true rfl rfl
  | some node =>
    have hHanded : (fs (c.key r).1).HandsOut node := FsData.findSubNode_handsOut hFind
    rw [map_some, filter_some_pos (by simpa using hHanded)]
    exact iff_of_false (by simp) (by simp)

end

lemma vfsWalkEntry_file_iff (hLegible : ns.Legible fs) (h : Layout fs ns c) (hr : Faithful fs ns c r)
    (hPoints : ns.OnDirectories fs) (hFile : (c.inode r).typeFlags.parent = false) (hDot : name ≠ [46])
    (hDots : name ≠ [46, 46]) :
    vfsWalkEntry fs c r name = some (c, 0) ↔ (fs (c.inode r).fsOp).NoNamesake (c.inode r).node name := by
  have hFlag : (c.inode r).typeFlags.mountpoint = false := by
    rw [hr.mountpoint, hr.not_mountpoint hPoints hFile]
    rfl
  rw [← FsData.findSubNode_eq_none_iff, vfsWalkEntry, if_neg hDot, if_neg hDots, hFlag]
  dsimp only
  rw [if_neg Bool.false_ne_true, hFile]
  cases hFind : (fs (c.inode r).fsOp).findSubNode false (c.inode r).node name with
  | none => exact iff_of_true rfl rfl
  | some node =>
    refine iff_of_false (fun hNull => ?_) (by simp)
    have hHanded := FsData.findSubNode_handsOut hFind
    have hGot := vfsGetInode_got h.sound (hLegible.legible _ hr.inst).entryIds hHanded hNull
    obtain ⟨_, _, hCached, _⟩ := h.keeps_got hLegible (k := ((c.inode r).fsOp, node)) hr.inst hHanded hGot
    exact hCached.1 rfl

end

section

variable {fs : FsTable} {s t : VfsRun} {a : VfsAction}

lemma VfsRun.onDirectories_step (hFs : ∀ inst, (fs inst).Legible) (hCareful : s.Careful fs a) (h : s.vfs.Ready fs s.held)
    (hPoints : s.vfs.nameSpace.OnDirectories fs) (hStep : s.step fs a = some t) : t.vfs.nameSpace.OnDirectories fs := by
  cases a with
  | mount inst path =>
    obtain ⟨hRoomy, hPath, hInside⟩ := hCareful
    obtain ⟨⟨_, _⟩, hMount, hRest⟩ := bind_eq_some_iff.mp hStep
    obtain ⟨rfl, ⟨⟩⟩ := ite_none_right_eq_some.mp hRest
    have hPlace : ∀ k, s.vfs.nameSpace.lookupPath fs path = some k → k.2 ≠ (fs k.1).rootNode := by
      intro k hk
      rw [hk] at hInside
      simpa using hInside
    obtain ⟨c, mnt, _, hEffect⟩ := h.mountEffect hRoomy (hFs inst) hPath hPlace hMount
    rw [hEffect.space]
    intro p hp
    rcases mem_cons.mp hp with rfl | hOld
    · exact (hEffect.layout.faithful mnt hEffect.cached).directory.symm.trans hEffect.directory
    · exact hPoints p hOld
  | resolve cwd path =>
    obtain ⟨hRoomy, hCwd, hStart⟩ := hCareful
    obtain ⟨⟨cache, r⟩, hResolve, rfl⟩ := map_eq_some_iff.mp hStep
    rw [(h.resolve hRoomy hCwd hStart hResolve).2.1]
    exact hPoints
  | release r =>
    obtain ⟨cache, hRelease, rfl⟩ := map_eq_some_iff.mp hStep
    rw [(h.release hCareful hRelease).2]
    exact hPoints

lemma VfsRun.onDirectories (hFs : ∀ inst, (fs inst).Legible) {v : Vfs} (hBoot : v.Booted fs) {as : List VfsAction}
    (hMounts : Run (VfsRun.step fs) (VfsRun.Careful fs) ⟨v, []⟩ as s) : s.vfs.nameSpace.OnDirectories fs := by
  have hBare : v.mounted = [] := by
    obtain ⟨_, _, _, _, _, hMount⟩ := hBoot
    unfold vfsMountRoot at hMount
    split at hMount
    case isFalse => cases hMount
    obtain ⟨⟨c, _⟩, _, hRest⟩ := bind_eq_some_iff.mp hMount
    dsimp only at hRest
    split at hRest <;> cases hRest
    rfl
  have hBoth := hMounts.invariant (I := fun s => s.vfs.Ready fs s.held ∧ s.vfs.nameSpace.OnDirectories fs)
    (fun _ _ _ hCareful hInv hStep => ⟨VfsRun.ready_step hFs hCareful hInv.1 hStep,
      VfsRun.onDirectories_step hFs hCareful hInv.1 hInv.2 hStep⟩)
    ⟨hBoot.ready hFs, by
      intro p hp
      rw [Vfs.nameSpace, hBare] at hp
      exact absurd hp not_mem_nil⟩
  exact hBoth.2

lemma VfsRun.Standing.follow_below {ns : Namespace} (hLegible : ns.Legible fs) (hRoot : ns.rootFs ≠ 0) (h : t.Standing fs ns)
    {p x : Bytes} (hp : p.head? = some 47) (hx : IsComponent x) {c : VfsCache} {r : InodeRef}
    (hResolve : vfsResolve fs t.vfs.rootFs t.vfs.cache 0 p = some (c, r)) (hr : r ≠ 0) {names : List Bytes}
    (hNames : ∀ name ∈ names, 47 ∉ name) :
    ns.followPath fs (p ++ componentsPath (x :: names)) = (ns.walk fs (c.key r) x).bind fun k => ns.follow fs k names := by
  have hSlashes : ∀ name ∈ x :: names, 47 ∉ name := by
    intro name hName
    rcases mem_cons.mp hName with rfl | hRest
    · exact hx.slash
    · exact hNames name hRest
  rw [Namespace.followPath_append hp (pathNames_components hSlashes), (h.resolve hLegible hRoot hp hResolve).1, foundNode,
    if_neg hr, bind_some]
  rfl

end

/-- A name other than the dots, and a path through it, lead nowhere from an inode that is not a directory, just when no
entry of a volume has the number of the file for its directory, and the name. -/
theorem below_file_iff {fs : FsTable} (hFs : ∀ inst, (fs inst).Legible) {v : Vfs} (hBoot : v.Booted fs) {as : List VfsAction} {s : VfsRun}
    (hMounts : Run (VfsRun.step fs) (VfsRun.Careful fs) ⟨v, []⟩ as s) {bs : List VfsAction} {t : VfsRun}
    (hUse : Run (VfsRun.step fs) VfsRun.Holder s bs t) :
    (∀ r, t.vfs.cache.Cached r ∨ r ∈ t.held → (t.vfs.cache.inode r).typeFlags.parent = false →
      ∀ name, name ≠ [46] → name ≠ [46, 46] → (vfsWalkEntry fs t.vfs.cache r name = some (t.vfs.cache, 0) ↔
        (fs (t.vfs.cache.inode r).fsOp).NoNamesake (t.vfs.cache.inode r).node name)) ∧
    ∀ p x c r, p.head? = some 47 → IsComponent x → vfsResolve fs t.vfs.rootFs t.vfs.cache 0 p = some (c, r) → r ≠ 0 →
      (c.inode r).typeFlags.parent = false →
      ((fs (c.inode r).fsOp).NoNamesake (c.inode r).node x → ∀ names : List Bytes, (∀ name ∈ names, 47 ∉ name) →
        ∀ cwd c' r', vfsResolve fs t.vfs.rootFs t.vfs.cache cwd (p ++ componentsPath (x :: names)) = some (c', r') →
          r' = 0) ∧
      (¬ (fs (c.inode r).fsOp).NoNamesake (c.inode r).node x → ShortNames (p ++ componentsPath [x]) →
        (p ++ componentsPath [x]).length + 2 ≤ t.vfs.cache.inodeAlloc.length →
        ∃ c' r', vfsResolve fs t.vfs.rootFs t.vfs.cache 0 (p ++ componentsPath [x]) = some (c', r') ∧ r' ≠ 0) := by
  obtain ⟨hReady, hStands⟩ := VfsRun.standing_of_runs hFs hBoot hMounts
  have hPoints := VfsRun.onDirectories hFs hBoot hMounts
  have hStanding := hStands bs t hUse
  refine ⟨fun r hr hFile name hDot hDots => ?_, fun p x c r hp hx hResolve hr hFile => ?_⟩
  · have hFaithful : Faithful fs s.vfs.nameSpace t.vfs.cache r := hr.elim (hStanding.layout.faithful r) (hStanding.held r)
    exact vfsWalkEntry_file_iff hReady.legible hStanding.layout hFaithful hPoints hFile hDot hDots
  · have hFaithful := (hStanding.resolve hReady.legible hReady.root hp hResolve).2 hr
    have hWalk := Namespace.walk_file_iff hFaithful hPoints hFile hx.stepOf
    have hBelow : ∀ names : List Bytes, (∀ name ∈ names, 47 ∉ name) → _ := fun names hNames =>
      hStanding.follow_below hReady.legible hReady.root hp hx hResolve hr hNames
    have hAbsolute : ∀ rest, (p ++ rest).head? = some 47 := by
      intro rest
      obtain ⟨_, rfl⟩ := head?_eq_some_iff.mp hp
      rfl
    refine ⟨fun hNone names hNames cwd c' r' hLater => ?_, fun hSome hShort hEnough => ?_⟩
    · have hFound := (hStanding.resolve hReady.legible hReady.root (hAbsolute _) hLater).1
      rw [hBelow names hNames, hWalk.mpr hNone, bind_none, foundNode] at hFound
      by_contra hNe
      rw [if_neg hNe] at hFound
      cases hFound
    · obtain ⟨c', r', hLater, _⟩ := vfsResolve_some hReady.legible hReady.root hStanding.layout
        (fun hNe : (0 : InodeRef) ≠ 0 => absurd rfl hNe) hShort hEnough
      rw [← hStanding.rootFs] at hLater
      refine ⟨c', r', hLater, fun hNull => hSome (hWalk.mp ?_)⟩
      have hFound := (hStanding.resolve hReady.legible hReady.root (hAbsolute _) hLater).1
      rw [hBelow [] (by simp), foundNode, if_pos hNull] at hFound
      cases hStep : s.vfs.nameSpace.walk fs (c.key r) x with
      | none => rfl
      | some k =>
        rw [hStep] at hFound
        cases hFound

def cfgPath : Bytes := smemPath ++ componentsPath [ueditName, cfgName]

theorem below_file_uedit : ∃ s c r, treeState = some s ∧
    vfsResolve treeFs s.vfs.rootFs s.vfs.cache 0 cfgPath = some (c, r) ∧ r ≠ 0 ∧ (c.inode r).typeFlags.parent = false ∧
    ∀ names : List Bytes, (∀ name ∈ names, 47 ∉ name) → ∀ cwd c' r', vfsResolve treeFs s.vfs.rootFs s.vfs.cache cwd
      (cfgPath ++ componentsPath (ueditName :: names)) = some (c', r') → r' = 0 := by
  have hEval : (treeState.bind fun s => (vfsResolve treeFs s.vfs.rootFs s.vfs.cache 0 cfgPath).map fun found =>
      (decide (found.2 = 0), (found.1.inode found.2).typeFlags.parent, (found.1.inode found.2).fsOp,
        (found.1.inode found.2).node)) = some (false, false, 0x8800_2000, 5) := by
    decide +kernel
  obtain ⟨s, hState, hRest⟩ := bind_eq_some_iff.mp hEval
  obtain ⟨⟨c, r⟩, hResolve, hEq⟩ := map_eq_some_iff.mp hRest
  simp only [Prod.mk.injEq, decide_eq_false_iff_not] at hEq
  obtain ⟨hr, hFile, hInst, hNode⟩ := hEq
  obtain ⟨v, hBoot, hRun⟩ := treeRun_run (hState : treeRun treeActions = some s)
  obtain ⟨_, hPaths⟩ := below_file_iff treeFs_legible (treeBoot_booted hBoot) hRun (.nil s)
  have hBelow := (hPaths cfgPath ueditName c r rfl (by decide) hResolve hr hFile).1
  refine ⟨s, c, r, hState, hResolve, hr, hFile, hBelow ?_⟩
  rw [hInst, hNode]
  decide

/-- But the name `acore.cfg` below it leads to the file again, as it does in its directory. -/
theorem file_below_itself : ∃ s c r c' r', treeState = some s ∧
    vfsResolve treeFs s.vfs.rootFs s.vfs.cache 0 cfgPath = some (c, r) ∧ r ≠ 0 ∧ (c.inode r).typeFlags.parent = false ∧
    vfsWalkEntry treeFs c r cfgName = some (c', r') ∧ r' = r ∧
    (vfsResolve treeFs s.vfs.rootFs s.vfs.cache 0 (cfgPath ++ componentsPath [cfgName])).map Prod.snd = some r := by
  have hEval : (treeState.bind fun s => (vfsResolve treeFs s.vfs.rootFs s.vfs.cache 0 cfgPath).bind fun found =>
      (vfsWalkEntry treeFs found.1 found.2 cfgName).map fun below =>
        (decide (found.2 = 0), (found.1.inode found.2).typeFlags.parent, decide (below.2 = found.2),
          decide ((vfsResolve treeFs s.vfs.rootFs s.vfs.cache 0 (cfgPath ++ componentsPath [cfgName])).map Prod.snd =
            some found.2))) = some (false, false, true, true) := by
    decide +kernel
  obtain ⟨s, hState, hRest⟩ := bind_eq_some_iff.mp hEval
  obtain ⟨⟨c, r⟩, hResolve, hRest⟩ := bind_eq_some_iff.mp hRest
  obtain ⟨⟨c', r'⟩, hWalk, hEq⟩ := map_eq_some_iff.mp hRest
  simp only [Prod.mk.injEq, decide_eq_false_iff_not, decide_eq_true_eq] at hEq
  obtain ⟨hr, hFile, hSame, hAgain⟩ := hEq
  exact ⟨s, c, r, c', r', hState, hResolve, hr, hFile, hWalk, hSame, hAgain⟩

end Fixos.Fs
