import Fixos.Fs.VfsRun

/-! # Laws of path lookup

Whatever is looked up and given up, with counts right or wrong, laws of the walk over the trees are laws of
`vfs_resolve`.
-/

namespace Fixos.Fs

open MountTree Transition Option List

variable {name path : Bytes} {names : List Bytes}

section

lemma pathNames_ne_nil (path : Bytes) : pathNames path ≠ [] := by
  cases path with
  | nil => exact cons_ne_nil _ _
  | cons c path =>
    rw [pathNames]
    split
    · exact cons_ne_nil _ _
    · split <;> exact cons_ne_nil _ _

lemma pathNames_append (p q : Bytes) : pathNames (p ++ 47 :: q) = pathNames p ++ pathNames q := by
  induction p with
  | nil => exact if_pos rfl
  | cons c p ih =>
    obtain ⟨_, _, hNames⟩ := exists_cons_of_ne_nil (pathNames_ne_nil p)
    rw [cons_append, pathNames, pathNames, ih, hNames]
    split <;> rfl

lemma pathNames_name (h : 47 ∉ name) : pathNames name = [name] := by
  induction name with
  | nil => rfl
  | cons c name ih =>
    obtain ⟨hc, hName⟩ := ne_and_not_mem_of_not_mem_cons h
    rw [pathNames, if_neg hc.symm, ih hName]

@[mk_iff] structure IsComponent (name : Bytes) : Prop where
  ne_nil : name ≠ []
  slash : 47 ∉ name
  ne_dot : name ≠ [46]
  ne_dots : name ≠ [46, 46]

instance (name : Bytes) : Decidable (IsComponent name) := decidable_of_iff' _ (isComponent_iff name)

lemma IsComponent.stepOf (h : IsComponent name) : Fs.stepOf name = .down name := by
  rw [Fs.stepOf, if_neg (by simp [h.ne_nil, h.ne_dot]), if_neg h.ne_dots]

def componentsPath (names : List Bytes) : Bytes := names.flatMap fun name => 47 :: name

lemma componentsPath_cons (name : Bytes) (names : List Bytes) :
    componentsPath (name :: names) = 47 :: (name ++ componentsPath names) :=
  flatMap_cons

lemma pathNames_components (hNames : ∀ name ∈ names, 47 ∉ name) (path : Bytes) :
    pathNames (path ++ componentsPath names) = pathNames path ++ names := by
  induction names generalizing path with
  | nil => rw [componentsPath, flatMap_nil, append_nil, append_nil]
  | cons name names ih =>
    have hHere : path ++ componentsPath (name :: names) = (path ++ 47 :: name) ++ componentsPath names := by
      rw [componentsPath_cons, append_assoc, cons_append]
    rw [hHere, ih (fun name hMem => hNames name (mem_cons_of_mem _ hMem)), pathNames_append,
      pathNames_name (hNames name mem_cons_self), append_assoc]
    rfl

lemma componentsPath_append (names names' : List Bytes) :
    componentsPath (names ++ names') = componentsPath names ++ componentsPath names' :=
  flatMap_append

lemma componentsPath_pathNames (path : Bytes) : componentsPath (pathNames path) = 47 :: path := by
  induction path with
  | nil => rfl
  | cons c path ih =>
    obtain ⟨_, _, hNames⟩ := exists_cons_of_ne_nil (pathNames_ne_nil path)
    rw [hNames, componentsPath_cons, cons.injEq] at ih
    rw [pathNames, hNames]
    split_ifs with hSlash
    · rw [componentsPath_cons, componentsPath_cons, nil_append, ih.2, hSlash]
    · rw [componentsPath_cons, cons_append, ih.2]

lemma slash_notMem_pathNames (h : name ∈ pathNames path) : 47 ∉ name := by
  induction path generalizing name with
  | nil =>
    rw [pathNames, mem_singleton] at h
    rw [h]
    exact not_mem_nil
  | cons c path ih =>
    obtain ⟨_, _, hNames⟩ := exists_cons_of_ne_nil (pathNames_ne_nil path)
    rw [pathNames] at h
    split_ifs at h with hSlash
    · rcases mem_cons.mp h with rfl | h
      · exact not_mem_nil
      · exact ih h
    · rw [hNames] at h ih
      rcases mem_cons.mp h with rfl | h
      · refine not_mem_cons_of_ne_of_not_mem (Ne.symm hSlash) (ih mem_cons_self)
      · exact ih (mem_cons_of_mem _ h)

def properNames (path : Bytes) : List Bytes := (pathNames path).filter fun name => stepOf name ≠ .stay

lemma Namespace.lookup_properNames (fs : FsTable) (ns : Namespace) (k : NodeKey) (path : Bytes) :
    ns.lookup fs k (properNames path) = ns.lookup fs k (pathNames path) := by
  have hFilter : ((pathNames path).map stepOf).filter (· ≠ .stay) = (properNames path).map stepOf := by
    rw [List.filter_map]
    rfl
  rw [Namespace.lookup, ← hFilter, Forest.lookup_filter]
  rfl

lemma Namespace.lookupPath_properNames {fs : FsTable} {ns : Namespace} (hPath : path.head? = some 47) :
    ns.lookupPath fs path = ns.lookup fs (ns.rootFs, (fs ns.rootFs).rootNode) (properNames path) := by
  obtain ⟨rest, rfl⟩ := head?_eq_some_iff.mp hPath
  have hFirst : properNames (47 :: rest) = properNames rest := by
    rw [properNames, pathNames, if_pos rfl, filter_cons_of_neg (by simp [stepOf_stay])]
    rfl
  rw [hFirst, Namespace.lookup_properNames]
  rfl

lemma ShortNames.of_subset {p q : Bytes} (h : ShortNames p) (hSub : ∀ name ∈ pathNames q, name ∈ pathNames p) :
    ShortNames q :=
  fun name hName => h name (hSub name hName)

end

def foundNode (c : VfsCache) (r : InodeRef) : Option NodeKey := if r = 0 then none else some (c.key r)

def VfsRun.Holder (s : VfsRun) : VfsAction → Prop
  | .mount _ _ => False
  | .resolve cwd _ => cwd = 0 ∨ cwd ∈ s.held
  | .release r => r ∈ s.held

instance (s : VfsRun) : (a : VfsAction) → Decidable (s.Holder a)
  | .mount .. => isFalse not_false
  | .resolve .. => inferInstanceAs (Decidable (_ ∨ _))
  | .release _ => inferInstanceAs (Decidable (_ ∈ _))

structure VfsRun.Standing (fs : FsTable) (ns : Namespace) (s : VfsRun) : Prop where
  rootFs : s.vfs.rootFs = ns.rootFs
  layout : Layout fs ns s.vfs.cache
  held : ∀ r ∈ s.held, Faithful fs ns s.vfs.cache r

variable {c : VfsCache}

section

variable {fs : FsTable} {ns : Namespace} {s t : VfsRun} {a : VfsAction}

lemma vfsResolve_keeps {c' : VfsCache} {cwd r : InodeRef} (hLegible : ns.Legible fs) (hRoot : ns.rootFs ≠ 0)
    (h : Layout fs ns c) (hCwd : cwd ≠ 0 → Faithful fs ns c cwd)
    (hResolve : vfsResolve fs ns.rootFs c cwd path = some (c', r)) :
    Layout.Keeps fs ns c c' ∧ (r ≠ 0 → Faithful fs ns c' r) := by
  rw [vfsResolve, if_neg hRoot] at hResolve
  split at hResolve
  · obtain ⟨⟨_, current⟩, hGet, hNames⟩ := bind_eq_some_iff.mp hResolve
    obtain ⟨_, hFirst, hCached, _⟩ := getRootNode_keeps hLegible h ns.root_mem hGet
    have hRest := resolveNames_resolves hLegible hFirst.layout (hFirst.layout.faithful current hCached) hNames
    exact ⟨hFirst.trans hRest.keeps, hRest.faithful⟩
  · rename_i hRelative
    have hRest := resolveNames_resolves hLegible h (hCwd fun hNull => hRelative (Or.inr hNull)) hResolve
    exact ⟨hRest.keeps, hRest.faithful⟩

lemma VfsRun.Standing.step (hLegible : ns.Legible fs) (hRoot : ns.rootFs ≠ 0) (hHolder : s.Holder a)
    (h : s.Standing fs ns) (hStep : s.step fs a = some t) : t.Standing fs ns := by
  cases a with
  | mount inst path => exact absurd hHolder id
  | resolve cwd path =>
    obtain ⟨⟨cache, r⟩, hResolve, rfl⟩ := map_eq_some_iff.mp hStep
    rw [h.rootFs] at hResolve
    have hCwd : cwd ≠ 0 → Faithful fs ns s.vfs.cache cwd := fun hNe => h.held cwd (Or.resolve_left hHolder hNe)
    obtain ⟨hKeeps, hFaithful⟩ := vfsResolve_keeps hLegible hRoot h.layout hCwd hResolve
    refine ⟨h.rootFs, hKeeps.layout, fun r' hr' => ?_⟩
    have hOld : ∀ r ∈ s.held, Faithful fs ns cache r := fun r hr => hKeeps.faithful r (h.held r hr)
    dsimp only [refsOf] at hr'
    split_ifs at hr' with hNe
    · exact hOld r' hr'
    · rcases mem_cons.mp hr' with rfl | hr'
      · exact hFaithful hNe
      · exact hOld r' hr'
  | release r =>
    obtain ⟨cache, hRelease, rfl⟩ := map_eq_some_iff.mp hStep
    have hDrop := h.layout.sound.released hRelease
    have hKeeps := h.layout.keeps_dropped hLegible (h.held r hHolder) hDrop
    exact ⟨h.rootFs, hKeeps.layout, fun r' hr' => hKeeps.faithful r' (h.held r' (mem_of_mem_erase hr'))⟩

lemma VfsRun.standing_of_runs (hFs : ∀ inst, (fs inst).Legible) {v : Vfs} (hBoot : v.Booted fs) {as : List VfsAction}
    (hMounts : Run (VfsRun.step fs) (VfsRun.Careful fs) ⟨v, []⟩ as s) :
    s.vfs.Ready fs s.held ∧ ∀ bs t, Run (VfsRun.step fs) VfsRun.Holder s bs t → t.Standing fs s.vfs.nameSpace := by
  have hReady := VfsRun.ready_of_run hFs hBoot hMounts
  refine ⟨hReady, fun bs t hUse => ?_⟩
  exact hUse.invariant (I := fun t => t.Standing fs s.vfs.nameSpace)
    (fun _ _ _ hHolder h hStep => h.step hReady.legible hReady.root hHolder hStep)
    ⟨rfl, hReady.layout, fun r hr => hReady.layout.faithful r (hReady.counted.cached r hr)⟩

end

def SameResult (fs : FsTable) (v v' : Vfs) (p q : Bytes) : Prop :=
  ∀ cwd cwd', ∃ c r c' r', vfsResolve fs v.rootFs v.cache cwd p = some (c, r) ∧
    vfsResolve fs v'.rootFs v'.cache cwd' q = some (c', r') ∧ foundNode c r = foundNode c' r'

section

variable {fs : FsTable} {ns : Namespace} {s s' : VfsRun} {p q : Bytes}

lemma VfsRun.Standing.resolve (hLegible : ns.Legible fs) (hRoot : ns.rootFs ≠ 0) (h : s.Standing fs ns)
    {cwd r : InodeRef} (hPath : p.head? = some 47)
    (hResolve : vfsResolve fs s.vfs.rootFs s.vfs.cache cwd p = some (c, r)) :
    ns.followPath fs p = foundNode c r ∧ (r ≠ 0 → Faithful fs ns c r) := by
  rw [h.rootFs] at hResolve
  obtain ⟨_, hFound, hFaithful⟩ := vfsResolve_resolves hLegible hRoot h.layout hPath hResolve
  exact ⟨hFound, hFaithful⟩

lemma vfsResolve_absolute {rootFs : Nat} (cwd : InodeRef) (hPath : p.head? = some 47) :
    vfsResolve fs rootFs c cwd p = vfsResolve fs rootFs c 0 p := by
  rw [vfsResolve, vfsResolve, if_pos (Or.inl hPath), if_pos (Or.inl hPath)]

lemma VfsRun.Standing.sameResult (hLegible : ns.Legible fs) (hRoot : ns.rootFs ≠ 0) (h : s.Standing fs ns)
    (h' : s'.Standing fs ns) (hp : p.head? = some 47) (hq : q.head? = some 47) (hpShort : ShortNames p)
    (hqShort : ShortNames q) (hpPool : p.length + 2 ≤ s.vfs.cache.inodeAlloc.length)
    (hqPool : q.length + 2 ≤ s'.vfs.cache.inodeAlloc.length)
    (hFollow : ns.followPath fs p = ns.followPath fs q) : SameResult fs s.vfs s'.vfs p q := by
  intro cwd cwd'
  have hNull : ∀ c, (0 : InodeRef) ≠ 0 → Faithful fs ns c 0 := fun _ hNe => absurd rfl hNe
  obtain ⟨c, r, hResolve, _⟩ := vfsResolve_some hLegible hRoot h.layout (hNull _) hpShort hpPool
  obtain ⟨c', r', hResolve', _⟩ := vfsResolve_some hLegible hRoot h'.layout (hNull _) hqShort hqPool
  rw [← h.rootFs] at hResolve
  rw [← h'.rootFs] at hResolve'
  refine ⟨c, r, c', r', (vfsResolve_absolute cwd hp).trans hResolve, (vfsResolve_absolute cwd' hq).trans hResolve', ?_⟩
  rw [← (h.resolve hLegible hRoot hp hResolve).1, ← (h'.resolve hLegible hRoot hq hResolve').1, hFollow]

namespace Namespace

lemma lookup_child_up {k : NodeKey} {x : Bytes} (hProper : ns.Proper fs) (hInst : k.1 ∈ ns.insts)
    (hHanded : (fs k.1).HandsOut k.2) (hDirectory : (fs k.1).isDirectory k.2 = true) (hx : stepOf x = .down x)
    (hChild : (ns.lookup fs k [x]).isSome) (hNames : ∃ name ∈ names, stepOf name ≠ .stay) :
    ns.lookup fs k (x :: [46, 46] :: names) = ns.lookup fs k names := by
  -- the node with the children is `k`, or the root that is mounted on it
  have hReal : (fs.forest.real ns.mounts k).1 ∈ ns.insts ∧
      (fs (fs.forest.real ns.mounts k).1).HandsOut (fs.forest.real ns.mounts k).2 ∧
      (fs (fs.forest.real ns.mounts k).1).isDirectory (fs.forest.real ns.mounts k).2 = true := by
    unfold Forest.real
    split
    · rename_i inst hOn
      exact ⟨mount_inst (Mounts.on_mem hOn), (fs inst).handsOut_rootNode, (fs inst).isDirectory_rootNode⟩
    · exact ⟨hInst, hHanded, hDirectory⟩
  obtain ⟨hRealInst, hRealHanded, hRealDirectory⟩ := hReal
  have hSteps : ((x :: [46, 46] :: names).map stepOf) = .down x :: .up :: names.map stepOf := by
    rw [map_cons, hx]
    rfl
  rw [lookup, hSteps]
  refine hProper.mounts.lookup_down_up ?_ ?_ ?_
  · intro y hy
    exact (hProper.legible _ hRealInst).findSubNode_parentOf hRealHanded hRealDirectory hy
  · obtain ⟨_, hk'⟩ := isSome_iff_exists.mp hChild
    rw [lookup, map_cons, map_nil, hx, Forest.lookup] at hk'
    obtain ⟨_, hWalk, _⟩ := bind_eq_some_iff.mp hk'
    rw [hWalk]
    rfl
  · obtain ⟨name, hName, hStep⟩ := hNames
    exact ⟨stepOf name, mem_map_of_mem hName, hStep⟩

lemma Proper.followPath_eq (h : ns.Proper fs) (path : Bytes) : ns.followPath fs path = ns.lookupPath fs path :=
  h.follow_eq ns.root_mem (fs ns.rootFs).handsOut_rootNode _

lemma lookupPath_append (hp : p.head? = some 47) :
    ns.lookupPath fs (p ++ 47 :: q) = (ns.lookupPath fs p).bind fun k => ns.lookup fs k (pathNames q) := by
  obtain ⟨_, rfl⟩ := head?_eq_some_iff.mp hp
  rw [lookupPath, lookupPath, cons_append, tail_cons, tail_cons, pathNames_append, lookup, map_append, Forest.lookup_append]
  rfl

lemma followPath_append (hp : p.head? = some 47) (hNames : ∀ path, pathNames (path ++ q) = pathNames path ++ names) :
    ns.followPath fs (p ++ q) = (ns.followPath fs p).bind fun k => ns.follow fs k names := by
  obtain ⟨_, rfl⟩ := head?_eq_some_iff.mp hp
  rw [followPath, followPath, cons_append, tail_cons, tail_cons, hNames, follow_append]

end Namespace

end

/-- The path leads to the root or to its mount point, and nothing is mounted inside of the file system. -/
structure Vfs.MountedAt (fs : FsTable) (v : Vfs) (inst : Nat) (path : Bytes) : Prop where
  absolute : path.head? = some 47
  found : ∃ c r, vfsResolve fs v.rootFs v.cache 0 path = some (c, r) ∧ r ≠ 0 ∧
    c.key (if (c.inode r).typeFlags.mountpoint then (c.inode r).typespec else r) = (inst, (fs inst).rootNode)
  bare : ∀ p ∈ v.mounted, (v.cache.key p.2).1 ≠ inst

lemma Vfs.Ready.mountedAt {fs : FsTable} {v : Vfs} {held : List InodeRef} {inst : Nat} (h : v.Ready fs held)
    (hMounted : v.MountedAt fs inst path) :
    (∃ k, v.nameSpace.followPath fs path = some k ∧ fs.forest.real v.nameSpace.mounts k = (inst, (fs inst).rootNode)) ∧
      ∀ p ∈ v.nameSpace.mounts, p.1.1 ≠ inst := by
  obtain ⟨c, r, hResolve, hr, hRoot⟩ := hMounted.found
  have hResolves := vfsResolve_resolves h.legible h.root h.layout hMounted.absolute hResolve
  have hFound := hResolves.found_eq
  rw [if_neg hr] at hFound
  obtain ⟨_, hReal, _, hKey⟩ := (hResolves.faithful hr).real hResolves.keeps.layout
  rw [hReal, hKey] at hRoot
  refine ⟨⟨c.key r, hFound, hRoot⟩, fun p hp => ?_⟩
  obtain ⟨q, hq, rfl⟩ := mem_map.mp (mem_reverse.mp hp)
  exact hMounted.bare q hq

/-- Repeated slashes and dots do not matter, and neither does the way to a child and back, in any two states after the
mounts. -/
theorem resolve_path_laws {fs : FsTable} (hFs : ∀ inst, (fs inst).WellFormed) {v : Vfs} (hBoot : v.Booted fs) {as : List VfsAction} {s : VfsRun}
    (hMounts : Run (VfsRun.step fs) (VfsRun.Careful fs) ⟨v, []⟩ as s) {bs bs' : List VfsAction} {t t' : VfsRun}
    (hUse : Run (VfsRun.step fs) VfsRun.Holder s bs t) (hUse' : Run (VfsRun.step fs) VfsRun.Holder s bs' t') :
    (∀ p q, p.head? = some 47 → q.head? = some 47 → ShortNames p → ShortNames q →
      p.length + 2 ≤ t.vfs.cache.inodeAlloc.length → q.length + 2 ≤ t'.vfs.cache.inodeAlloc.length →
      properNames p = properNames q → SameResult fs t.vfs t'.vfs p q) ∧
    ∀ p x q, p.head? = some 47 → 47 ∉ x → x ≠ [] → x ≠ [46] → x ≠ [46, 46] →
      ShortNames (p ++ 47 :: (x ++ 47 :: (46 :: 46 :: 47 :: q))) →
      (p ++ 47 :: (x ++ 47 :: (46 :: 46 :: 47 :: q))).length + 2 ≤ t.vfs.cache.inodeAlloc.length →
      (p ++ 47 :: q).length + 2 ≤ t'.vfs.cache.inodeAlloc.length →
      (∃ c r, vfsResolve fs t.vfs.rootFs t.vfs.cache 0 p = some (c, r) ∧ r ≠ 0 ∧ (c.inode r).typeFlags.parent) →
      (∃ c r, vfsResolve fs t.vfs.rootFs t.vfs.cache 0 (p ++ 47 :: x) = some (c, r) ∧ r ≠ 0) →
      (∃ name ∈ pathNames q, name ≠ [] ∧ name ≠ [46]) →
      SameResult fs t.vfs t'.vfs (p ++ 47 :: (x ++ 47 :: (46 :: 46 :: 47 :: q))) (p ++ 47 :: q) := by
  obtain ⟨hReady, hStands⟩ := VfsRun.standing_of_runs (fun inst => (hFs inst).legible) hBoot hMounts
  have hProper : s.vfs.nameSpace.Proper fs := ⟨hReady.legible, fun inst _ => hFs inst⟩
  have hStanding := hStands bs t hUse
  have hStanding' := hStands bs' t' hUse'
  refine ⟨fun p q hp hq hpShort hqShort hpPool hqPool hNames => ?_, ?_⟩
  · refine hStanding.sameResult hReady.legible hReady.root hStanding' hp hq hpShort hqShort hpPool hqPool ?_
    rw [hProper.followPath_eq, hProper.followPath_eq, Namespace.lookupPath_properNames hp,
      Namespace.lookupPath_properNames hq, hNames]
  · rintro p x q hp hSlash hEmpty hDot hDots hShort hEnough hEnough' ⟨c, r, hResolve, hr, hFlag⟩ ⟨_, _, hChild, hr₁⟩
      ⟨name, hName, hNotEmpty, hNotDot⟩
    have hAbsolute : ∀ rest, (p ++ 47 :: rest).head? = some 47 := by
      intro rest
      obtain ⟨_, rfl⟩ := head?_eq_some_iff.mp hp
      rfl
    obtain ⟨hFound, hFaithful⟩ := hStanding.resolve hReady.legible hReady.root hp hResolve
    obtain ⟨hFound₁, _⟩ := hStanding.resolve hReady.legible hReady.root (hAbsolute x) hChild
    rw [hProper.followPath_eq, foundNode, if_neg hr] at hFound
    rw [hProper.followPath_eq, foundNode, if_neg hr₁, Namespace.lookupPath_append hp, hFound, bind_some,
      pathNames_name hSlash] at hFound₁
    have hDirectory : (fs (c.key r).1).isDirectory (c.key r).2 = true := (hFaithful hr).directory.symm.trans hFlag
    have hDown : stepOf x = .down x := IsComponent.stepOf ⟨hEmpty, hSlash, hDot, hDots⟩
    have hSplit : pathNames (x ++ 47 :: (46 :: 46 :: 47 :: q)) = x :: [46, 46] :: pathNames q := by
      rw [pathNames_append, pathNames_name hSlash]
      exact congrArg _ (pathNames_append [46, 46] q)
    refine hStanding.sameResult hReady.legible hReady.root hStanding' (hAbsolute _) (hAbsolute q) hShort
      (hShort.of_subset fun name hName => ?_) hEnough hEnough' ?_
    · rw [pathNames_append, mem_append] at hName ⊢
      rw [hSplit]
      exact hName.imp_right fun hName => mem_cons_of_mem _ (mem_cons_of_mem _ hName)
    · rw [hProper.followPath_eq, hProper.followPath_eq, Namespace.lookupPath_append hp, Namespace.lookupPath_append hp,
        hFound, bind_some, bind_some, hSplit]
      refine Namespace.lookup_child_up hProper (hFaithful hr).inst (hFaithful hr).handed hDirectory hDown ?_
        ⟨name, hName, fun hStay => ?_⟩
      · rw [hFound₁]
        rfl
      · exact (stepOf_stay.mp hStay).elim hNotEmpty hNotDot

def smemPath : Bytes := [47, 109, 110, 116, 47, 115, 109, 101, 109]

def ueditName : Bytes := [85, 69, 68, 73, 84]

def cfgName : Bytes := [97, 99, 111, 114, 101, 46, 99, 102, 103]

theorem resolve_path_laws_smem : ∃ v s, vfsMountRoot treeFs treeBoot 0x8800_1000 = some (v, 0) ∧
      Run (VfsRun.step treeFs) (VfsRun.Careful treeFs) ⟨v, []⟩ treeActions s ∧
      SameResult treeFs s.vfs s.vfs [47, 47, 109, 110, 116, 47, 46, 47, 115, 109, 101, 109, 47]
        [47, 109, 110, 116, 47, 115, 109, 101, 109] ∧
      SameResult treeFs s.vfs s.vfs (smemPath ++ 47 :: (ueditName ++ 47 :: (46 :: 46 :: 47 :: (ueditName ++ 47 :: cfgName))))
        (smemPath ++ 47 :: (ueditName ++ 47 :: cfgName)) := by
  have hEval : (treeState.bind fun s => (vfsResolve treeFs s.vfs.rootFs s.vfs.cache 0 smemPath).bind fun found =>
      (vfsResolve treeFs s.vfs.rootFs s.vfs.cache 0 (smemPath ++ 47 :: ueditName)).map fun child =>
        (s.vfs.cache.inodeAlloc.length, decide (found.2 = 0), (found.1.inode found.2).typeFlags.parent,
          decide (child.2 = 0))) =
      some (56, false, true, false) := by
    decide +kernel
  obtain ⟨s, hState, hRest⟩ := bind_eq_some_iff.mp hEval
  obtain ⟨⟨c, r⟩, hResolve, hRest⟩ := bind_eq_some_iff.mp hRest
  obtain ⟨⟨c', r'⟩, hChild, hEq⟩ := map_eq_some_iff.mp hRest
  simp only [Prod.mk.injEq, decide_eq_false_iff_not] at hEq
  obtain ⟨hLength, hr, hFlag, hr'⟩ := hEq
  obtain ⟨v, hBoot, hRun⟩ := treeRun_run (hState : treeRun treeActions = some s)
  obtain ⟨hDots, hUp⟩ := resolve_path_laws treeFs_wellFormed (treeBoot_booted hBoot) hRun (.nil s) (.nil s)
  refine ⟨v, s, hBoot, hRun, ?_, ?_⟩
  · refine hDots _ _ rfl rfl ?_ ?_ ?_ ?_ ?_
    · unfold ShortNames
      decide
    · unfold ShortNames
      decide
    · rw [hLength]
      decide
    · rw [hLength]
      decide
    · decide
  · refine hUp smemPath ueditName (ueditName ++ 47 :: cfgName) rfl ?_ ?_ ?_ ?_ ?_ ?_ ?_ ⟨c, r, hResolve, hr, hFlag⟩
      ⟨c', r', hChild, hr'⟩ ⟨ueditName, ?_, ?_, ?_⟩
    case refine_5 =>
      unfold ShortNames
      decide
    case refine_6 =>
      rw [hLength]
      decide
    case refine_7 =>
      rw [hLength]
      decide
    all_goals decide

end Fixos.Fs
