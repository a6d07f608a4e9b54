import Fixos.Fs.Create

/-! # Runs with creations

After every run of mounts, lookups and creations one more creation adds just the paths over the new name.
-/

namespace Fixos.Fs

open MountTree Transition Option List

structure CreateRun extends VfsRun where
  fs : FsTable

inductive CreateAction where
  | use (a : VfsAction)
  | create (cwd : InodeRef) (path name : Bytes) (typeFlags modeFlags : BitVec 16) (special : Nat)
deriving DecidableEq

def CreateRun.resolve (s : CreateRun) (cwd : InodeRef) (path : Bytes) : Option (VfsCache × InodeRef) :=
  vfsResolve s.fs s.vfs.rootFs s.vfs.cache cwd path

def CreateRun.create (s : CreateRun) (cwd : InodeRef) (path name : Bytes) (typeFlags modeFlags : BitVec 16)
    (special : Nat) : Option (CreateRun × Int) :=
  (vfsCreate s.fs s.vfs cwd path name typeFlags modeFlags special).map fun (fs, vfs, ret) => (⟨⟨vfs, s.held⟩, fs⟩, ret)

/-- A run goes on after a creation that has failed. -/
def CreateRun.step (s : CreateRun) : CreateAction → Option CreateRun
  | .use a => (s.toVfsRun.step s.fs a).map fun run => ⟨run, s.fs⟩
  | .create cwd path name typeFlags modeFlags special =>
    (s.create cwd path name typeFlags modeFlags special).map Prod.fst

def CreateRun.TakesName (s : CreateRun) (cwd : InodeRef) (path name : Bytes) : Prop :=
  (s.resolve cwd path).any fun found => found.2 ≠ 0 && (found.1.inode found.2).takesName s.fs name
deriving Decidable

@[mk_iff] structure CreateRun.Allowed (s : CreateRun) (cwd : InodeRef) (path name : Bytes) (typeFlags : BitVec 16) :
    Prop where
  takesName : s.TakesName cwd path name
  fits : name.length < protofsMaxName
  absolute : path.head? = some 47
  component : IsComponent name
  plain : plainType typeFlags

def CreateRun.Careful (s : CreateRun) : CreateAction → Prop
  | .use a => s.toVfsRun.Careful s.fs a
  | .create cwd path name typeFlags _ _ => Roomy s.held ∧ s.Allowed cwd path name typeFlags

def CreateRun.Holder (s : CreateRun) : CreateAction → Prop
  | .use a => s.toVfsRun.Holder a
  | .create cwd path name typeFlags _ _ => s.Allowed cwd path name typeFlags

instance (s : CreateRun) (cwd : InodeRef) (path name : Bytes) (typeFlags : BitVec 16) :
    Decidable (s.Allowed cwd path name typeFlags) :=
  decidable_of_iff' _ (CreateRun.allowed_iff ..)

instance (s : CreateRun) (a : CreateAction) : Decidable (s.Careful a) := by
  unfold CreateRun.Careful
  split <;> infer_instance

structure VfsInode.IsNew (inode dir : VfsInode) (name : Bytes) (typeFlags modeFlags : BitVec 16) (special : Nat) :
    Prop where
  fsOp : inode.fsOp = dir.fsOp
  type : inode.typeFlags = typeFlagsOf typeFlags
  mode : inode.flags = modeFlags.setWidth 32
  dev : (typeFlagsOf typeFlags).dev → inode.typespec = special
  name : inode.name = name
  parent : inode.parent = dir.node

/-- The same node with the same attributes. A root has no parent, and a mount point no device number. -/
structure VfsInode.Alike (inode inode' : VfsInode) : Prop where
  fsOp : inode.fsOp = inode'.fsOp
  node : inode.node = inode'.node
  type : inode.typeFlags = inode'.typeFlags
  mode : inode.flags = inode'.flags
  dev : inode.typeFlags.dev → inode.typeFlags.mountpoint = false → inode.typespec = inode'.typespec
  name : inode.name = inode'.name
  parent : inode.typeFlags.root = false → inode.parent = inode'.parent

variable {target : InodeRef}

section

variable {fs fs' : FsTable} {ns : Namespace} {c c' : VfsCache} {r r' : InodeRef} {name : Bytes}
  {typeFlags modeFlags : BitVec 16} {special node : Nat}

lemma Faithful.typeFlags_eq (h : Faithful fs ns c r) : (c.inode r).typeFlags =
    ⟨(fs (c.key r).1).isDirectory (c.key r).2, ((fs (c.key r).1).attrs (c.key r).2).device.isSome,
      ((fs (c.key r).1).parentOf (c.key r).2).isNone, (ns.mounts.on (c.key r)).isSome⟩ := by
  have hEta : (c.inode r).typeFlags = ⟨(c.inode r).typeFlags.parent, (c.inode r).typeFlags.dev, (c.inode r).typeFlags.root,
      (c.inode r).typeFlags.mountpoint⟩ := rfl
  rw [hEta, h.directory, h.shown.dev, h.root, h.mountpoint]
  rfl

lemma Faithful.alike (h : Faithful fs ns c r) (h' : Faithful fs' ns c' r') (hExtends : fs.Extends fs')
    (hKey : c'.key r' = c.key r) : (c.inode r).Alike (c'.inode r') := by
  have hFs : (c'.inode r').fsOp = (c.inode r).fsOp := congrArg Prod.fst hKey
  have hNode : (c'.inode r').node = (c.inode r).node := congrArg Prod.snd hKey
  have hAttrs : (fs' (c'.inode r').fsOp).attrs (c'.inode r').node = (fs (c.inode r).fsOp).attrs (c.inode r).node := by
    rw [hFs, hNode]
    exact (hExtends _).attrs h.handed
  have hParent : (fs' (c'.inode r').fsOp).parentOf (c'.inode r').node = (fs (c.inode r).fsOp).parentOf (c.inode r).node := by
    rw [hFs, hNode]
    exact (hExtends _).parentOf h.handed
  have hShown := h'.shown
  rw [hAttrs] at hShown
  have hType : (c.inode r).typeFlags = (c'.inode r').typeFlags := by
    have hHanded : (fs (c.key r).1).HandsOut (c.key r).2 := h.handed
    rw [h.typeFlags_eq, h'.typeFlags_eq, hKey, (hExtends _).isDirectory hHanded, (hExtends _).attrs hHanded,
      (hExtends _).parentOf hHanded]
  constructor
  case fsOp => exact hFs.symm
  case node => exact hNode.symm
  case type => exact hType
  case mode => exact h.shown.flags.trans hShown.flags.symm
  case dev =>
    intro hDev hMount
    rw [h.shown.dev] at hDev
    obtain ⟨dev, hDevice⟩ := isSome_iff_exists.mp hDev
    rw [h.shown.special dev hDevice hMount, hShown.special dev hDevice (hType ▸ hMount)]
  case name => exact h.shown.name.trans hShown.name.symm
  case parent =>
    intro hRoot
    rw [h.root, isNone_eq_false_iff] at hRoot
    obtain ⟨p, hp⟩ := isSome_iff_exists.mp hRoot
    rw [h.parent p hp, h'.parent p (hParent.trans hp)]

lemma Faithful.isNew {ct : VfsCache} (h : Faithful fs' ns c r)
    (hAdds : fs.Adds (ct.key target) name typeFlags modeFlags special node fs') (hSpace : ns.Legible fs)
    (hPlain : plainType typeFlags) (hKey : c.key r = ((ct.key target).1, node)) :
    (c.inode r).IsNew (ct.inode target) name typeFlags modeFlags special := by
  have hFs : (c.inode r).fsOp = (ct.key target).1 := congrArg Prod.fst hKey
  have hNode : (c.inode r).node = node := congrArg Prod.snd hKey
  have hShown := h.shown
  rw [hFs, hNode, hAdds.attrs] at hShown
  simp only [plainType, Bool.and_eq_true, Bool.not_eq_true'] at hPlain
  have hType : (c.inode r).typeFlags = typeFlagsOf typeFlags := by
    rw [h.typeFlags_eq, hKey, hAdds.isDirectory, hAdds.attrs, hAdds.grows.parent, hAdds.grows.not_mounted hSpace]
    have hEta : typeFlagsOf typeFlags = ⟨(typeFlagsOf typeFlags).parent, (typeFlagsOf typeFlags).dev,
      (typeFlagsOf typeFlags).root, (typeFlagsOf typeFlags).mountpoint⟩ := rfl
    rw [hEta, hPlain.1.1, hPlain.1.2]
    cases (typeFlagsOf typeFlags).dev <;> rfl
  refine { hShown with fsOp := ?_, type := ?_, mode := ?_, dev := ?_, parent := ?_ }
  · exact hFs
  · exact hType
  · exact hShown.flags
  · intro hDev
    refine hShown.special special (if_pos hDev) ?_
    rw [hType]
    exact hPlain.1.2
  · refine h.parent _ ?_
    rw [hFs, hNode]
    exact hAdds.grows.parent

end

variable {fs : FsTable} {c c' : VfsCache} {r : InodeRef}

section

variable {ns : Namespace} {s t : CreateRun} {cwd : InodeRef} {path name q : Bytes}
  {typeFlags modeFlags : BitVec 16} {special : Nat} {ret : Int}

lemma CreateRun.TakesName.found (h : s.TakesName cwd path name) :
    ∃ c target, s.resolve cwd path = some (c, target) ∧ target ≠ 0 ∧ (c.inode target).takesName s.fs name := by
  unfold CreateRun.TakesName at h
  cases hResolve : s.resolve cwd path with
  | none =>
    rw [hResolve] at h
    cases h
  | some found =>
    rw [hResolve, any_some, Bool.and_eq_true, decide_eq_true_eq] at h
    exact ⟨found.1, found.2, rfl, h.1, h.2⟩

lemma resolveNames_short {r' : InodeRef} {names : List Bytes} (hr : r' ≠ 0)
    (h : resolveNames fs c r names = some (c', r')) : ∀ name ∈ names, name.length < inodeMaxName := by
  induction names generalizing c r with
  | nil => exact fun _ hMem => absurd hMem not_mem_nil
  | cons name names ih =>
    rw [resolveNames] at h
    split at h
    · cases h
    · rename_i hShort
      have hRest : ∀ name ∈ names, name.length < inodeMaxName := by
        split at h
        · exact ih h
        · obtain ⟨⟨_, _⟩, _, h⟩ := bind_eq_some_iff.mp h
          obtain ⟨_, _, h⟩ := bind_eq_some_iff.mp h
          split at h
          · cases h
            exact absurd rfl hr
          · exact ih h
      exact forall_mem_cons.mpr ⟨Nat.lt_of_not_ge hShort, hRest⟩

lemma vfsResolve_short {rootFs : Nat} (hRoot : rootFs ≠ 0) (hPath : path.head? = some 47) (hr : r ≠ 0)
    (h : vfsResolve fs rootFs c cwd path = some (c', r)) : ShortNames path := by
  rw [vfsResolve, if_neg hRoot, if_pos (Or.inl hPath), if_pos hPath] at h
  obtain ⟨⟨_, _⟩, _, hNames⟩ := bind_eq_some_iff.mp h
  obtain ⟨rest, rfl⟩ := head?_eq_some_iff.mp hPath
  have hSplit : pathNames (47 :: rest) = [] :: pathNames rest := if_pos rfl
  rw [ShortNames, hSplit]
  exact forall_mem_cons.mpr ⟨by decide, resolveNames_short hr hNames⟩

structure CreateRun.Stands (ns : Namespace) (s : CreateRun) : Prop where
  legible : ns.Legible s.fs
  root : ns.rootFs ≠ 0
  standing : s.Standing s.fs ns

structure CreateRun.Created (ns : Namespace) (s : CreateRun) (c : VfsCache) (target : InodeRef) (name : Bytes)
    (typeFlags modeFlags : BitVec 16) (special : Nat) (ret : Int) (t : CreateRun) : Prop where
  standing : t.Standing t.fs ns
  legible : ns.Legible t.fs
  outcome : (ret = -1 ∧ (s.fs (c.inode target).fsOp).hasFreeNode = false ∧ t.fs = s.fs) ∨
    (ret = 0 ∧ (s.fs (c.inode target).fsOp).hasFreeNode = true ∧
      ∃ node, s.fs.Adds (c.key target) name typeFlags modeFlags special node t.fs)

lemma CreateRun.Stands.created (h : s.Stands ns) (hAllowed : s.Allowed cwd path name typeFlags)
    (hResolve : s.resolve cwd path = some (c, target)) (hNe : target ≠ 0) (hTakes : (c.inode target).takesName s.fs name)
    (hCreate : s.create cwd path name typeFlags modeFlags special = some (t, ret)) :
    s.Created ns c target name typeFlags modeFlags special ret t := by
  obtain ⟨⟨fs', _, _⟩, hVfs, ⟨⟩⟩ := map_eq_some_iff.mp hCreate
  obtain ⟨_, _, _, c₃, hNode, hNew, hDrop, rfl, rfl⟩ := vfsCreate_split hResolve hNe hVfs
  rw [CreateRun.resolve, h.standing.rootFs] at hResolve
  obtain ⟨hKeeps, _, hTarget⟩ := vfsResolve_resolves h.legible h.root h.standing.layout hAllowed.absolute hResolve
  obtain ⟨hLayout, hFaithful, hOutcome⟩ :=
    Layout.created h.legible hKeeps.layout (hTarget hNe) hTakes hAllowed.plain hNode hNew hDrop
  have hStanding : VfsRun.Standing fs' ns ⟨{ s.vfs with cache := c₃ }, s.held⟩ :=
    ⟨h.standing.rootFs, hLayout, fun r hr => hFaithful r (hKeeps.faithful r (h.standing.held r hr))⟩
  rcases hOutcome with ⟨rfl, hFull, hSame⟩ | ⟨hNew, hFree, node, hAdds⟩
  · exact ⟨hStanding, hSame ▸ h.legible, Or.inl ⟨if_pos rfl, hFull, hSame⟩⟩
  · exact ⟨hStanding, h.legible.extend hAdds.grows.extend, Or.inr ⟨if_neg hNew, hFree, node, hAdds⟩⟩

lemma CreateRun.Stands.step {a : CreateAction} (h : s.Stands ns) (hHolder : s.Holder a) (hStep : s.step a = some t) :
    t.Stands ns := by
  cases a with
  | use a =>
    obtain ⟨_, hRun, rfl⟩ := map_eq_some_iff.mp hStep
    exact ⟨h.legible, h.root, h.standing.step h.legible h.root hHolder hRun⟩
  | create cwd path name typeFlags modeFlags special =>
    obtain ⟨⟨_, _⟩, hCreate, rfl⟩ := map_eq_some_iff.mp hStep
    obtain ⟨c, _, hResolve, hNe, hTakes⟩ := hHolder.takesName.found
    obtain ⟨hStanding, hLegible, _⟩ := h.created hHolder hResolve hNe hTakes hCreate
    exact ⟨hLegible, h.root, hStanding⟩

lemma CreateRun.careful_step {a : CreateAction} (hCareful : s.Careful a)
    (h : (∀ inst, (s.fs inst).Legible) ∧ s.vfs.Ready s.fs s.held) (hStep : s.step a = some t) :
    (∀ inst, (t.fs inst).Legible) ∧ t.vfs.Ready t.fs t.held := by
  cases a with
  | use a =>
    obtain ⟨_, hRun, rfl⟩ := map_eq_some_iff.mp hStep
    exact ⟨h.1, VfsRun.ready_step h.1 hCareful h.2 hRun⟩
  | create cwd path name typeFlags modeFlags special =>
    obtain ⟨⟨_, _⟩, hCreate, rfl⟩ := map_eq_some_iff.mp hStep
    obtain ⟨hRoomy, hAllowed⟩ := hCareful
    obtain ⟨c, _, hResolve, hNe, hTakes⟩ := hAllowed.takesName.found
    obtain ⟨⟨_, _, _⟩, hVfs, ⟨⟩⟩ := map_eq_some_iff.mp hCreate
    obtain ⟨_, _, _, _, hNode, hNew, hDrop, rfl, rfl⟩ := vfsCreate_split hResolve hNe hVfs
    rw [CreateRun.resolve, vfsResolve_absolute cwd hAllowed.absolute] at hResolve
    obtain ⟨hReady, _⟩ := h.2.resolve hRoomy (Or.inl rfl) (Or.inl hAllowed.absolute) hResolve
    rw [refsOf, if_neg hNe] at hReady
    obtain ⟨hLast, hExtends⟩ := hReady.created hTakes hAllowed.plain hNode hNew hDrop
    exact ⟨fun inst => (hExtends inst).legible (h.1 inst), hLast⟩

end

structure Lookable (s t : CreateRun) (q : Bytes) : Prop where
  absolute : q.head? = some 47
  short : ShortNames q
  before : q.length + 2 ≤ s.vfs.cache.inodeAlloc.length
  after : q.length + 2 ≤ t.vfs.cache.inodeAlloc.length

def CreateRun.LeadsTo (s : CreateRun) (cwd : InodeRef) (q : Bytes) (k : NodeKey) : Prop :=
  ∃ c r, s.resolve cwd q = some (c, r) ∧ r ≠ 0 ∧
    c.key (if (c.inode r).typeFlags.mountpoint then (c.inode r).typespec else r) = k

section

variable {ns : Namespace} {s t : CreateRun} {cwd : InodeRef} {path name q : Bytes}
  {typeFlags modeFlags : BitVec 16} {special node : Nat} {dir : NodeKey}

lemma CreateRun.Stands.found (h : s.Stands ns) (hPath : q.head? = some 47) (hResolve : s.resolve cwd q = some (c, r)) :
    ns.followPath s.fs q = foundNode c r ∧ (r ≠ 0 → Faithful s.fs ns c r) ∧ Layout s.fs ns c := by
  have hFound := h.standing.resolve h.legible h.root hPath hResolve
  rw [CreateRun.resolve, h.standing.rootFs] at hResolve
  exact ⟨hFound.1, hFound.2, (vfsResolve_resolves h.legible h.root h.standing.layout hPath hResolve).keeps.layout⟩

lemma CreateRun.Stands.resolve_node (h : s.Stands ns) (hPath : q.head? = some 47) (hShort : ShortNames q)
    (hPool : q.length + 2 ≤ s.vfs.cache.inodeAlloc.length) {k : NodeKey} (hFollow : ns.followPath s.fs q = some k)
    (cwd : InodeRef) :
    ∃ c r, s.resolve cwd q = some (c, r) ∧ r ≠ 0 ∧ c.key r = k ∧ Faithful s.fs ns c r ∧ Layout s.fs ns c := by
  obtain ⟨c, r, hResolve, _⟩ := vfsResolve_some h.legible h.root h.standing.layout (fun hNe => absurd rfl hNe) hShort hPool
  rw [← h.standing.rootFs, ← vfsResolve_absolute cwd hPath] at hResolve
  obtain ⟨hFound, hFaithful, hLayout⟩ := h.found hPath hResolve
  rw [hFollow, foundNode] at hFound
  split at hFound
  · cases hFound
  · rename_i hr
    exact ⟨c, r, hResolve, hr, (some.inj hFound).symm, hFaithful hr, hLayout⟩

lemma FsTable.Grows.followPath_old {fs' : FsTable} (h : fs.Grows dir name node fs') (hSpace : ns.Legible fs)
    {k : NodeKey} (hFollow : ns.followPath fs q = some k) : ns.followPath fs' q = some k := by
  rw [Namespace.followPath, (h.extend _).rootNode]
  exact h.follow_old hSpace ns.root_mem (fs ns.rootFs).handsOut_rootNode hFollow

namespace CreateRun

lemma resolve_child (hLegible : ns.Legible s.fs) (h : t.Stands ns)
    (hAdds : s.fs.Adds (c.key target) name typeFlags modeFlags special node t.fs) (hPath : path.head? = some 47)
    (hShort : ShortNames path) (hName : IsComponent name) (hFits : name.length < protofsMaxName)
    (hPlain : plainType typeFlags) (hFollow : ns.followPath s.fs path = some (c.key target))
    (hTarget : Faithful s.fs ns c target) (hNotMounted : (c.inode target).typeFlags.mountpoint = false)
    (hPool : (path ++ 47 :: name).length + 2 ≤ t.vfs.cache.inodeAlloc.length) :
    ∃ c' r, t.resolve cwd (path ++ 47 :: name) = some (c', r) ∧ r ≠ 0 ∧
      (c'.inode r).IsNew (c.inode target) name typeFlags modeFlags special := by
  have hSplit : ∀ p, pathNames (p ++ 47 :: name) = pathNames p ++ [name] := fun p => by
    rw [pathNames_append, pathNames_name hName.slash]
  have hHead : (path ++ 47 :: name).head? = some 47 := by
    rw [head?_append, hPath]
    rfl
  have hAllShort : ShortNames (path ++ 47 :: name) := by
    intro part hPart
    rw [hSplit, mem_append, mem_singleton] at hPart
    rcases hPart with hPart | rfl
    · exact hShort part hPart
    · exact hFits.trans (by decide)
  have hReal : s.fs.forest.real ns.mounts (c.key target) = c.key target := by
    have hOn := hTarget.mountpoint
    rw [hNotMounted, eq_comm, isSome_eq_false_iff, isNone_iff_eq_none] at hOn
    rw [Forest.real, hOn]
  have hNode : ns.followPath t.fs (path ++ 47 :: name) = some ((c.key target).1, node) := by
    rw [Namespace.followPath_append hPath hSplit, hAdds.grows.followPath_old hLegible hFollow, bind_some,
      Namespace.follow, hAdds.grows.walk_eq hLegible hTarget.inst hTarget.handed, if_pos ⟨hName.stepOf, hReal⟩]
    rfl
  obtain ⟨c', r, hResolve, hr, hKey, hFaithful, _⟩ := h.resolve_node hHead hAllShort hPool hNode cwd
  exact ⟨c', r, hResolve, hr, hFaithful.isNew hAdds hLegible hPlain hKey⟩

lemma resolve_old (h : s.Stands ns) (h' : t.Stands ns) (hExtends : s.fs.Extends t.fs)
    (hKeep : ∀ k, ns.followPath s.fs q = some k → ns.followPath t.fs q = some k) (hq : Lookable s t q)
    (hResolve : s.resolve cwd q = some (c, r)) (hr : r ≠ 0) :
    ∃ c' r', t.resolve cwd q = some (c', r') ∧ r' ≠ 0 ∧ (c.inode r).Alike (c'.inode r') := by
  obtain ⟨hFound, hFaithful, _⟩ := h.found hq.absolute hResolve
  rw [foundNode, if_neg hr] at hFound
  obtain ⟨c', r', hResolve', hr', hKey, hFaithful', _⟩ := h'.resolve_node hq.absolute hq.short hq.after (hKeep _ hFound) cwd
  exact ⟨c', r', hResolve', hr', (hFaithful hr).alike hFaithful' hExtends hKey⟩

lemma resolve_new (h : s.Stands ns) (h' : t.Stands ns) (hGrows : s.fs.Grows dir name node t.fs) (hName : IsComponent name)
    (hq : Lookable s t q) {r' : InodeRef} (hNone : s.resolve cwd q = some (c, 0))
    (hResolve : t.resolve cwd q = some (c', r')) (hr' : r' ≠ 0) :
    ∃ front back, pathNames q.tail = front ++ name :: back ∧ s.LeadsTo cwd (47 :: componentsPath front) dir ∧
      ([46, 46] ∉ back → c'.key r' = (dir.1, node) ∧ ∀ label ∈ back, label = [] ∨ label = [46]) := by
  obtain ⟨hBefore, _⟩ := h.found hq.absolute hNone
  obtain ⟨hAfter, _⟩ := h'.found hq.absolute hResolve
  rw [foundNode, if_neg hr', Namespace.followPath, (hGrows.extend _).rootNode] at hAfter
  have hHanded := (s.fs ns.rootFs).handsOut_rootNode
  rcases hGrows.follow_new h.legible ns.root_mem hHanded hAfter with hOld | ⟨front, back, kDir, hNames, hFront, hDir, hBack⟩
  · have hSome : ns.followPath s.fs q = some (c'.key r') := hOld
    rw [hBefore, foundNode, if_pos rfl] at hSome
    cases hSome
  refine ⟨front, back, hNames, ?_, fun hDots => ?_⟩
  · obtain ⟨rest, rfl⟩ := head?_eq_some_iff.mp hq.absolute
    rw [tail_cons] at hNames
    have hPart : ∀ label ∈ front, label ∈ pathNames rest := fun label hMem => by
      rw [hNames]
      exact mem_append_left _ hMem
    have hSplit : ∀ p, pathNames (p ++ componentsPath front) = pathNames p ++ front :=
      pathNames_components fun label hMem => slash_notMem_pathNames (hPart label hMem)
    have hLength : (47 :: componentsPath front).length ≤ (47 :: rest).length := by
      have hAll := congrArg length (componentsPath_pathNames rest)
      rw [hNames, componentsPath_append, componentsPath_cons, length_append, length_cons] at hAll
      have hFirst := length_pos_iff.mpr hName.ne_nil
      simp only [length_append, length_cons] at hAll ⊢
      omega
    have hFollow : ns.followPath s.fs (47 :: componentsPath front) = some kDir := by
      have hStay : ns.walk s.fs (ns.rootFs, (s.fs ns.rootFs).rootNode) [] = some (ns.rootFs, (s.fs ns.rootFs).rootNode) :=
        Namespace.walk_stay rfl hHanded
      rw [Namespace.followPath, tail_cons, ← nil_append (componentsPath front), hSplit, Namespace.follow_append]
      rw [show pathNames [] = [[]] from rfl, Namespace.follow, hStay]
      exact hFront
    have hShort : ShortNames (47 :: componentsPath front) := by
      intro label hMem
      have hFirst : pathNames (47 :: componentsPath front) = [] :: pathNames ([] ++ componentsPath front) := if_pos rfl
      rw [hFirst, hSplit, show pathNames [] = [[]] from rfl] at hMem
      simp only [singleton_append, mem_cons] at hMem
      rcases hMem with rfl | rfl | hMem
      · decide
      · decide
      · refine hq.short label ?_
        rw [show pathNames (47 :: rest) = [] :: pathNames rest from if_pos rfl]
        exact mem_cons_of_mem _ (hPart label hMem)
    have hBeforePool := hq.before
    obtain ⟨c₁, r₁, hLead, hr₁, hLeads, hFaithful, hLayout⟩ := h.resolve_node head?_cons hShort (by omega) hFollow cwd
    obtain ⟨_, hReal, _, hKey⟩ := hFaithful.real hLayout
    refine ⟨c₁, r₁, hLead, hr₁, ?_⟩
    rw [hReal, hKey, hLeads, hDir]
  · obtain ⟨hNode, hStays⟩ := hGrows.follow_node h.legible hDots hBack
    exact ⟨hNode, fun label hMem => stepOf_stay.mp (hStays label hMem)⟩

end CreateRun

end

/-- After every run of mounts, lookups and creations: one more creation succeeds just when the file system has a free
node. Then the path with the name leads to the inode asked for, every path that led to an inode still does, and every
other path that leads to one goes over the name in that directory. -/
theorem creates_extend_tree {fs : FsTable} (hFs : ∀ inst, (fs inst).Legible) {v : Vfs} (hBoot : v.Booted fs) {as bs : List CreateAction} {s t : CreateRun}
    (hRun : Run CreateRun.step CreateRun.Careful ⟨⟨v, []⟩, fs⟩ as s) (hUse : Run CreateRun.step CreateRun.Holder s bs t)
    {cwd : InodeRef} {path name : Bytes} {typeFlags : BitVec 16} (hAllowed : t.Allowed cwd path name typeFlags)
    (hEnough : path.length + 3 ≤ t.vfs.cache.inodeAlloc.length) (modeFlags : BitVec 16) (special : Nat) :
    ∃ c target t' ret, t.resolve cwd path = some (c, target) ∧
      t.create cwd path name typeFlags modeFlags special = some (t', ret) ∧
      (ret = if (t.fs (c.inode target).fsOp).hasFreeNode then 0 else -1) ∧
      (ret = 0 → (path ++ 47 :: name).length + 2 ≤ t'.vfs.cache.inodeAlloc.length →
        ∃ c' r, t'.resolve cwd (path ++ 47 :: name) = some (c', r) ∧ r ≠ 0 ∧
          (c'.inode r).IsNew (c.inode target) name typeFlags modeFlags special) ∧
      (∀ q, Lookable t t' q → ∀ c₁ r₁, t.resolve cwd q = some (c₁, r₁) → r₁ ≠ 0 →
        ∃ c₂ r₂, t'.resolve cwd q = some (c₂, r₂) ∧ r₂ ≠ 0 ∧ (c₁.inode r₁).Alike (c₂.inode r₂)) ∧
      ∀ q, Lookable t t' q → ∀ c₁ c₂ r₂, t.resolve cwd q = some (c₁, 0) → t'.resolve cwd q = some (c₂, r₂) → r₂ ≠ 0 →
        ret = 0 ∧ ∃ front back, pathNames q.tail = front ++ name :: back ∧
          t.LeadsTo cwd (47 :: componentsPath front) (c.key target) ∧
          ([46, 46] ∉ back → (c₂.inode r₂).IsNew (c.inode target) name typeFlags modeFlags special ∧
            ∀ label ∈ back, label = [] ∨ label = [46]) := by
  obtain ⟨_, hReady⟩ := hRun.invariant (I := fun s => (∀ inst, (s.fs inst).Legible) ∧ s.vfs.Ready s.fs s.held)
    (fun _ _ _ hCareful hInv hStep => CreateRun.careful_step hCareful hInv hStep) ⟨hFs, hBoot.ready hFs⟩
  have hStands : t.Stands s.vfs.nameSpace := hUse.invariant (fun _ _ _ hHolder hInv hStep => hInv.step hHolder hStep)
    ⟨hReady.legible, hReady.root, rfl, hReady.layout, fun r hr => hReady.layout.faithful r (hReady.counted.cached r hr)⟩
  obtain ⟨c, target, hResolve, hNe, hTakes⟩ := hAllowed.takesName.found
  obtain ⟨hFollow, hFaithful, hLayout⟩ := hStands.found hAllowed.absolute hResolve
  have hTarget := hFaithful hNe
  rw [foundNode, if_neg hNe] at hFollow
  obtain ⟨hLegible, hRoot, hStanding⟩ := id hStands
  have hShort : ShortNames path := vfsResolve_short (hStanding.rootFs ▸ hRoot) hAllowed.absolute hNe hResolve
  have hLeft : c.inodeAlloc ≠ [] := by
    obtain ⟨c', _, hSame, _⟩ := vfsResolve_some hLegible hRoot hStanding.layout (fun hNe => absurd rfl hNe) hShort
      (Nat.le_of_succ_le hEnough)
    rw [← hStanding.rootFs, ← vfsResolve_absolute cwd hAllowed.absolute] at hSame
    cases some.inj (hSame.symm.trans hResolve)
    exact ne_nil_of_length_pos (by omega)
  obtain ⟨fs', v', ret, hVfs⟩ := vfsCreate_some hLegible hLayout hTarget hTakes hAllowed.fits hAllowed.plain hResolve hLeft
    modeFlags special
  have hCreate : t.create cwd path name typeFlags modeFlags special = some (⟨⟨v', t.held⟩, fs'⟩, ret) := by
    rw [CreateRun.create, hVfs]
    rfl
  obtain ⟨hStanding', hLegible', hOutcome⟩ := hStands.created hAllowed hResolve hNe hTakes hCreate
  refine ⟨c, target, _, ret, hResolve, hCreate, ?_⟩
  generalize CreateRun.mk ⟨v', t.held⟩ fs' = t' at hStanding' hLegible' hOutcome ⊢
  have hAfter : t'.Stands _ := ⟨hLegible', hRoot, hStanding'⟩
  simp only [VfsInode.takesName, Bool.and_eq_true, Bool.not_eq_true'] at hTakes
  rcases hOutcome with ⟨rfl, hFull, hSame⟩ | ⟨rfl, hFree, _, hAdds⟩
  · refine ⟨by rw [hFull]; rfl, fun hEq => absurd hEq (by decide), fun q hq c₁ r₁ hOld hr₁ => ?_,
      fun q hq c₁ c₂ r₂ hNone hSome hr₂ => ?_⟩
    · exact CreateRun.resolve_old hStands hAfter (by rw [hSame]; exact fun _ => .refl _) (by rw [hSame]; exact fun _ => id)
        hq hOld hr₁
    · have hFound := (hAfter.found hq.absolute hSome).1
      rw [hSame, (hStands.found hq.absolute hNone).1, foundNode, foundNode, if_pos rfl, if_neg hr₂] at hFound
      cases hFound
  · refine ⟨by rw [hFree]; rfl, fun _ hChild => ?_, fun q hq c₁ r₁ hOld hr₁ => ?_, fun q hq c₁ c₂ r₂ hNone hSome hr₂ => ?_⟩
    · exact CreateRun.resolve_child hLegible hAfter hAdds hAllowed.absolute hShort hAllowed.component hAllowed.fits
        hAllowed.plain hFollow hTarget hTakes.1.2 hChild
    · exact CreateRun.resolve_old hStands hAfter hAdds.grows.extend
        (fun _ => hAdds.grows.followPath_old hLegible) hq hOld hr₁
    · obtain ⟨front, back, hNames, hLeads, hEnds⟩ :=
        CreateRun.resolve_new hStands hAfter hAdds.grows hAllowed.component hq hNone hSome hr₂
      refine ⟨rfl, front, back, hNames, hLeads, fun hDots => ?_⟩
      obtain ⟨hKey, hStays⟩ := hEnds hDots
      have hNew := (hAfter.found hq.absolute hSome).2.1 hr₂
      exact ⟨hNew.isNew hAdds hLegible hAllowed.plain hKey, hStays⟩

def devPath : Bytes := [47, 100, 101, 118]

def tty1Name : Bytes := [116, 116, 121, 49]

def tty2Name : Bytes := [116, 116, 121, 50]

def createActions : List CreateAction :=
  [.use (.mount 0x8800_2000 smemPath), .create 0 devPath tty1Name 2#16 2#16 0x0004_0000]

def createState : Option CreateRun :=
  (vfsMountRoot treeFs treeBoot 0x8800_1000).bind fun (v, ret) =>
    if ret = 0 then exec (guarded CreateRun.step CreateRun.Careful) ⟨⟨v, []⟩, treeFs⟩ createActions else none

lemma createState_run {s : CreateRun} (h : createState = some s) : ∃ v,
    vfsMountRoot treeFs treeBoot 0x8800_1000 = some (v, 0) ∧
      Run CreateRun.step CreateRun.Careful ⟨⟨v, []⟩, treeFs⟩ createActions s := by
  obtain ⟨⟨v, _⟩, hBoot, hRest⟩ := bind_eq_some_iff.mp h
  obtain ⟨rfl, hExec⟩ := ite_none_right_eq_some.mp hRest
  exact ⟨v, hBoot, run_of_exec_guarded hExec⟩

theorem creates_extend_tty2 : ∃ v s c target t', vfsMountRoot treeFs treeBoot 0x8800_1000 = some (v, 0) ∧
      Run CreateRun.step CreateRun.Careful ⟨⟨v, []⟩, treeFs⟩ createActions s ∧
      s.resolve 0 devPath = some (c, target) ∧ s.create 0 devPath tty2Name 2#16 2#16 0x0004_0001 = some (t', 0) ∧
      ∃ c' r, t'.resolve 0 (devPath ++ 47 :: tty2Name) = some (c', r) ∧ r ≠ 0 ∧
        (c'.inode r).IsNew (c.inode target) tty2Name 2#16 2#16 0x0004_0001 := by
  have hEval : (createState.bind fun s => (s.create 0 devPath tty2Name 2#16 2#16 0x0004_0001).map fun (t', ret) =>
      (decide (s.Allowed 0 devPath tty2Name 2#16), s.vfs.cache.inodeAlloc.length, ret, t'.vfs.cache.inodeAlloc.length)) =
      some (true, 57, 0, 57) := by
    decide +kernel
  obtain ⟨s, hState, hRest⟩ := bind_eq_some_iff.mp hEval
  obtain ⟨⟨t', ret⟩, hCreate, hEq⟩ := map_eq_some_iff.mp hRest
  simp only [Prod.mk.injEq, decide_eq_true_eq] at hEq
  obtain ⟨hAllowed, hLength, rfl, hLength'⟩ := hEq
  obtain ⟨v, hBoot, hRun⟩ := createState_run hState
  obtain ⟨c, target, t₁, ret, hResolve, hCreate', _, hChild, _⟩ := creates_extend_tree
    treeFs_legible (treeBoot_booted hBoot) hRun (.nil s) hAllowed
    (by rw [hLength]; decide) 2#16 0x0004_0001
  obtain ⟨rfl, rfl⟩ := Prod.mk.inj (some.inj (hCreate'.symm.trans hCreate))
  exact ⟨v, s, c, target, t₁, hBoot, hRun, hResolve, hCreate, hChild rfl (by rw [hLength']; decide)⟩

/-- A node with the name `..` is created and not found, and so is one whose type is that of a free node. -/
theorem created_not_found : ∃ s t₁ t₂ c₁ c₂, createState = some s ∧
    s.TakesName 0 [47] [46, 46] ∧ s.create 0 [47] [46, 46] 1#16 1#16 0 = some (t₁, 0) ∧
    t₁.resolve 0 ([47] ++ 47 :: [46, 46]) = some (c₁, 0) ∧
    s.TakesName 0 devPath tty2Name ∧ s.create 0 devPath tty2Name 0x4002#16 2#16 0 = some (t₂, 0) ∧
    t₂.resolve 0 (devPath ++ 47 :: tty2Name) = some (c₂, 0) := by
  have hEval : (createState.bind fun s => (s.create 0 [47] [46, 46] 1#16 1#16 0).bind fun first =>
      (first.1.resolve 0 ([47] ++ 47 :: [46, 46])).bind fun found₁ =>
        (s.create 0 devPath tty2Name 0x4002#16 2#16 0).bind fun second =>
          (second.1.resolve 0 (devPath ++ 47 :: tty2Name)).map fun found₂ =>
            (first.2, found₁.2, second.2, found₂.2, decide (s.TakesName 0 [47] [46, 46]),
              decide (s.TakesName 0 devPath tty2Name))) =
      some (0, 0, 0, 0, true, true) := by
    decide +kernel
  obtain ⟨s, hState, hRest⟩ := bind_eq_some_iff.mp hEval
  obtain ⟨⟨t₁, _⟩, hFirst, hRest⟩ := bind_eq_some_iff.mp hRest
  obtain ⟨⟨c₁, _⟩, hLookup₁, hRest⟩ := bind_eq_some_iff.mp hRest
  obtain ⟨⟨t₂, _⟩, hSecond, hRest⟩ := bind_eq_some_iff.mp hRest
  obtain ⟨⟨c₂, _⟩, hLookup₂, hEq⟩ := map_eq_some_iff.mp hRest
  simp only [Prod.mk.injEq, decide_eq_true_eq] at hEq
  obtain ⟨rfl, rfl, rfl, rfl, hTakes₁, hTakes₂⟩ := hEq
  exact ⟨s, t₁, t₂, c₁, c₂, hState, hTakes₁, hFirst, hLookup₁, hTakes₂, hSecond, hLookup₂⟩

end Fixos.Fs
