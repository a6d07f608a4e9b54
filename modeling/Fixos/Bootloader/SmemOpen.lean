import Fixos.Bootloader.SmemCursor
import Fixos.Fs.PathLaws

/-! # Two ways to a file (`bootloader/smem_file.c`, `fs/vfs.c`)

The boot loader goes from header to header in the table, the kernel from inode to inode.
-/

namespace Fixos.Bootloader

open Fs MountTree Transition Option List

/-- The loop of `smem_open`, with the end of the list for the end of the string. -/
def smemOpenPart (table : List SmemEntry) (curParent : Nat) (curPath : Bytes) : Option SmemEntry :=
  let partname := (curPath.take 15).takeWhile (· ≠ 47)
  let rest := curPath.drop partname.length
  match smemfsAtomicEntry table partname curParent with
  | none => none
  | some curHeader =>
    if rest = [] then some curHeader
    else if rest.head? = some 47 then smemOpenPart table curHeader.header.entryId rest.tail
    else none
termination_by curPath.length
decreasing_by
  rename_i hRest _
  have hPos := length_pos_iff.mpr hRest
  rw [length_drop] at hPos
  rw [length_tail, length_drop]
  omega

/-- The entry that `dest->header` points to, and the rest of `dest`. -/
def smemOpen (table : List SmemEntry) (path : Bytes) : Option (SmemEntry × SmemFile) :=
  if path.head? = some 47 then
    (smemOpenPart table smemfsFileRootId path.tail).map fun curHeader => (curHeader, smemFileOf curHeader)
  else none

structure IsPart (name : Bytes) : Prop extends IsComponent name where
  length_le : name.length ≤ 15

def smemFollow (table : List SmemEntry) : Nat → Bytes → List Bytes → Option SmemEntry
  | parent, name, [] => smemfsAtomicEntry table name parent
  | parent, name, next :: names =>
    (smemfsAtomicEntry table name parent).bind fun entry => smemFollow table entry.header.entryId next names

section

variable {table : List SmemEntry} {name : Bytes} {names : List Bytes}

lemma partname_eq (hName : IsPart name) (names : List Bytes) :
    ((name ++ componentsPath names).take 15).takeWhile (· ≠ 47) = name := by
  have hAll : ∀ c ∈ name, decide (c ≠ 47) = true := fun c hc => decide_eq_true fun hEq => hName.slash (hEq ▸ hc)
  rw [take_append, take_of_length_le hName.length_le, takeWhile_append_of_pos hAll]
  cases names with
  | nil =>
    rw [componentsPath, flatMap_nil, take_nil, takeWhile_nil, append_nil]
  | cons next names =>
    rw [componentsPath_cons]
    cases 15 - name.length with
    | zero => rw [take_zero, takeWhile_nil, append_nil]
    | succ n => rw [take_succ_cons, takeWhile_cons_of_neg (by simp), append_nil]

lemma smemOpenPart_eq (hName : IsPart name) (hNames : ∀ name ∈ names, IsPart name) (parent : Nat) :
    smemOpenPart table parent (name ++ componentsPath names) = smemFollow table parent name names := by
  induction names generalizing name parent with
  | nil =>
    rw [smemOpenPart, partname_eq hName, drop_left, smemFollow]
    cases smemfsAtomicEntry table name parent with
    | none => rfl
    | some entry => exact if_pos rfl
  | cons next names ih =>
    rw [smemOpenPart, partname_eq hName, drop_left, componentsPath_cons, smemFollow]
    cases smemfsAtomicEntry table name parent with
    | none => rfl
    | some entry =>
      dsimp only
      rw [if_neg (cons_ne_nil _ _), if_pos head?_cons, tail_cons, bind_some]
      exact ih (hNames next mem_cons_self) (fun name hMem => hNames name (mem_cons_of_mem _ hMem)) _

lemma smemFollow_spec {parent : Nat} {entry : SmemEntry} (h : smemFollow table parent name names = some entry) :
    entry ∈ table ∧ entry.header.deleted = false := by
  induction names generalizing parent name with
  | nil => exact smemfsAtomicEntry_spec h
  | cons next names ih =>
    obtain ⟨_, _, hRest⟩ := bind_eq_some_iff.mp h
    exact ih hRest

lemma smemOpen_eq (hName : IsPart name) (hNames : ∀ name ∈ names, IsPart name) :
    smemOpen table (componentsPath (name :: names)) =
      (smemFollow table smemfsFileRootId name names).map fun entry => (entry, smemFileOf entry) := by
  rw [smemOpen, componentsPath_cons, if_pos head?_cons, tail_cons, smemOpenPart_eq hName hNames]

end

section

variable {fs : FsTable} {ns : Namespace} {inst : Nat} {table : List SmemEntry} {name : Bytes}
  {names : List Bytes}

section

variable (hTable : fs inst = .smemfs (table.map SmemEntry.header))
include hTable

lemma walk_component (hName : IsPart name) {k : NodeKey} {node : Nat} (hReal : fs.forest.real ns.mounts k = (inst, node)) :
    ns.walk fs k name =
      (smemfsAtomicEntry table name (node % 2 ^ 16)).map fun entry => (inst, entry.header.fullNodeId) := by
  have hForest : fs.forest.walk ns.mounts k (stepOf name) =
      (smemfsAtomicEntry table name (node % 2 ^ 16)).map fun entry => (inst, entry.header.fullNodeId) := by
    rw [hName.toIsComponent.stepOf, Forest.walk, hReal]
    have hChild : fs.forest.childOf inst node name = smemfsFindSubNode (table.map SmemEntry.header) node name := by
      have hSame : fs.forest.childOf inst node name = (fs inst).findSubNode ((fs inst).isDirectory node) node name := rfl
      rw [hSame, hTable]
      rfl
    rw [hChild, smemfsFindSubNode, smemfsAtomicEntry_header, Option.map_map, Option.map_map]
    rfl
  cases hFind : smemfsAtomicEntry table name (node % 2 ^ 16) with
  | none =>
    rw [hFind] at hForest
    rw [Namespace.walk, hForest]
    rfl
  | some entry =>
    rw [hFind] at hForest
    obtain ⟨hMem, hExists⟩ := smemfsAtomicEntry_spec hFind
    refine Namespace.walk_eq_some hForest ?_
    rw [hTable]
    exact Or.inr ⟨entry.header, mem_map_of_mem hMem, hExists, rfl⟩

lemma follow_components (hLegible : (fs inst).Legible)
    (hBare : ∀ p ∈ ns.mounts, p.1.1 ≠ inst) (hName : IsPart name) (hNames : ∀ name ∈ names, IsPart name)
    {k : NodeKey} {node : Nat} (hReal : fs.forest.real ns.mounts k = (inst, node)) :
    ns.follow fs k (name :: names) =
      (smemFollow table (node % 2 ^ 16) name names).map fun entry => (inst, entry.header.fullNodeId) := by
  induction names generalizing name k node with
  | nil =>
    rw [Namespace.follow, walk_component hTable hName hReal, smemFollow]
    cases smemfsAtomicEntry table name (node % 2 ^ 16) <;> rfl
  | cons next names ih =>
    rw [Namespace.follow, walk_component hTable hName hReal, smemFollow]
    cases hFind : smemfsAtomicEntry table name (node % 2 ^ 16) with
    | none => rfl
    | some entry =>
      obtain ⟨hMem, hExists⟩ := smemfsAtomicEntry_spec hFind
      have hId : entry.header.entryId < smemfsFileRootId := by
        rw [hTable] at hLegible
        exact hLegible.1.1 entry.header (mem_map_of_mem hMem) hExists
      have hOn : ns.mounts.on (inst, entry.header.fullNodeId) = none :=
        Mounts.on_eq_none.mpr fun p hp hEq => hBare p hp (congrArg Prod.fst hEq)
      have hNext : fs.forest.real ns.mounts (inst, entry.header.fullNodeId) = (inst, entry.header.fullNodeId) := by
        rw [Forest.real, hOn]
      rw [map_some, bind_some, bind_some,
        ih (hNames next mem_cons_self) (fun name hMem => hNames name (mem_cons_of_mem _ hMem)) hNext,
        SmemHeader.fullNodeId_mod hId]

end

lemma faithful_abstract {c : VfsCache} {r : InodeRef} {entry : SmemEntry} (h : Faithful fs ns c r)
    (hTable : fs inst = .smemfs (table.map SmemEntry.header)) (hLegible : (fs inst).Legible) (hMem : entry ∈ table)
    (hExists : entry.header.deleted = false) (hKey : c.key r = (inst, entry.header.fullNodeId)) :
    (c.inode r).abstract = some entry.header := by
  have hFs : (c.inode r).fsOp = inst := congrArg Prod.fst hKey
  have hNode : (c.inode r).node = entry.header.fullNodeId := congrArg Prod.snd hKey
  refine h.shown.abstract entry.header ?_
  rw [hTable] at hLegible
  rw [hFs, hNode, hTable, FsData.attrs, smemfsNodeHeader_self hLegible (mem_map_of_mem hMem) hExists]
  rfl

end

/-- After the mounts, `vfs_resolve` finds the path below the mount just when `smem_open` finds it, with the same header
and size. -/
theorem smem_open_matches_resolve {fs : FsTable} (hFs : ∀ inst, (fs inst).Legible) {v : Vfs} (hBoot : v.Booted fs) {as bs : List VfsAction} {s t : VfsRun}
    (hMounts : Run (VfsRun.step fs) (VfsRun.Careful fs) ⟨v, []⟩ as s) (hUse : Run (VfsRun.step fs) VfsRun.Holder s bs t)
    (inst : Nat) (table : List SmemEntry) (hTable : fs inst = .smemfs (table.map SmemEntry.header))
    (hUnique : UniqueEntries table) {mnt : Bytes} (hMounted : s.vfs.MountedAt fs inst mnt)
    {names : List Bytes} (hSome : names ≠ []) (hNames : ∀ name ∈ names, IsPart name) (hShort : ShortNames mnt)
    (hEnough : (mnt ++ componentsPath names).length + 2 ≤ t.vfs.cache.inodeAlloc.length) (cwd : InodeRef) :
    ∃ c r, vfsResolve fs t.vfs.rootFs t.vfs.cache cwd (mnt ++ componentsPath names) = some (c, r) ∧
      ((smemOpen table (componentsPath names)).isSome ↔ r ≠ 0) ∧
      ∀ entry file, smemOpen table (componentsPath names) = some (entry, file) →
        (c.inode r).abstract = some entry.header ∧ smemfsIstatSize table (c.inode r) = some file.size := by
  obtain ⟨name, names, rfl⟩ := exists_cons_of_ne_nil hSome
  have hName := hNames name mem_cons_self
  obtain ⟨hReady, hStands⟩ := VfsRun.standing_of_runs hFs hBoot hMounts
  have hStanding := hStands bs t hUse
  obtain ⟨⟨k, hFound, hReal⟩, hBare⟩ := hReady.mountedAt hMounted
  have hSplit := pathNames_components fun name hMem => (hNames name hMem).slash
  have hPath : (mnt ++ componentsPath (name :: names)).head? = some 47 := by
    obtain ⟨_, rfl⟩ := head?_eq_some_iff.mp hMounted.absolute
    rfl
  have hAllShort : ShortNames (mnt ++ componentsPath (name :: names)) := by
    intro part hPart
    rw [hSplit, mem_append] at hPart
    rcases hPart with hPart | hPart
    · exact hShort part hPart
    · exact Nat.lt_of_le_of_lt (hNames part hPart).length_le (by decide)
  obtain ⟨c, r, hResolve, _⟩ := vfsResolve_some hReady.legible hReady.root hStanding.layout (fun hNe => absurd rfl hNe)
    hAllShort hEnough
  rw [← hStanding.rootFs] at hResolve
  obtain ⟨hFollow, hFaithful⟩ := hStanding.resolve hReady.legible hReady.root hPath hResolve
  have hRootNode : (fs inst).rootNode % 2 ^ 16 = smemfsFileRootId := by
    rw [hTable]
    rfl
  -- both are the walk in the table
  have hRest := fun name hMem => hNames name (mem_cons_of_mem _ hMem)
  rw [Namespace.followPath_append hMounted.absolute hSplit, hFound, bind_some,
    follow_components hTable (hFs inst) hBare hName hRest hReal, hRootNode] at hFollow
  refine ⟨c, r, (vfsResolve_absolute cwd hPath).trans hResolve, ?_⟩
  rw [smemOpen_eq hName hRest]
  cases hOpen : smemFollow table smemfsFileRootId name names with
  | none =>
    rw [hOpen, foundNode] at hFollow
    have hr : r = 0 := by
      by_contra hNe
      rw [if_neg hNe] at hFollow
      cases hFollow
    refine ⟨?_, fun entry file hEq => ?_⟩
    · simp [hr]
    · cases hEq
  | some found =>
    obtain ⟨hMem, hExists⟩ := smemFollow_spec hOpen
    rw [hOpen, map_some, foundNode] at hFollow
    have hr : r ≠ 0 := by
      intro hNull
      rw [if_pos hNull] at hFollow
      cases hFollow
    rw [if_neg hr] at hFollow
    have hHeader := faithful_abstract (hFaithful hr) hTable (hFs inst) hMem hExists (some.inj hFollow).symm
    refine ⟨?_, fun entry file hEq => ?_⟩
    · simp [hr]
    · cases hEq
      exact ⟨hHeader, smemfsIstatSize_eq hUnique hMem hExists hHeader⟩

def treeTable : List SmemEntry :=
  [⟨⟨false, smemfsFileDir, 5, smemfsFileRootId, [85, 69, 68, 73, 84] ++ replicate 7 0xFF⟩, []⟩,
    ⟨⟨false, smemfsFileFileH, 5, 5, [97, 99, 111, 114, 101, 46, 99, 102, 103] ++ replicate 3 0xFF⟩,
      [⟨⟨7, 0, 299⟩, smemfsFileFileFrag, 1, by decide, by decide⟩]⟩]

theorem smem_open_matches_acore : ∃ v s c r entry file, vfsMountRoot treeFs treeBoot 0x8800_1000 = some (v, 0) ∧
      Run (VfsRun.step treeFs) (VfsRun.Careful treeFs) ⟨v, []⟩ treeActions s ∧ s.vfs.MountedAt treeFs 0x8800_2000 smemPath ∧
      smemOpen treeTable (componentsPath [ueditName, cfgName]) = some (entry, file) ∧ file.size = 300 ∧
      vfsResolve treeFs s.vfs.rootFs s.vfs.cache 0 (smemPath ++ componentsPath [ueditName, cfgName]) = some (c, r) ∧
      r ≠ 0 ∧ (c.inode r).abstract = some entry.header ∧ smemfsIstatSize treeTable (c.inode r) = some file.size := by
  have hEval : (treeState.bind fun s => (vfsResolve treeFs s.vfs.rootFs s.vfs.cache 0 smemPath).map fun found =>
      (s.vfs.cache.inodeAlloc.length, decide (found.2 = 0),
        found.1.key (if (found.1.inode found.2).typeFlags.mountpoint then (found.1.inode found.2).typespec else found.2),
        s.vfs.mounted.map fun p => (s.vfs.cache.key p.2).1)) =
      some (56, false, (0x8800_2000, 0xFFFF), [0x8800_1000]) := by
    decide +kernel
  obtain ⟨s, hState, hRest⟩ := bind_eq_some_iff.mp hEval
  obtain ⟨⟨c, r⟩, hResolve, hEq⟩ := map_eq_some_iff.mp hRest
  simp only [Prod.mk.injEq, decide_eq_false_iff_not] at hEq
  obtain ⟨hLength, hr, hKey, hPoints⟩ := hEq
  obtain ⟨v, hBoot, hRun⟩ := treeRun_run (hState : treeRun treeActions = some s)
  have hMounted : s.vfs.MountedAt treeFs 0x8800_2000 smemPath := by
    refine ⟨rfl, ⟨c, r, hResolve, hr, hKey⟩, fun p hp hInst => ?_⟩
    have hMem := mem_map_of_mem (f := fun p => (s.vfs.cache.key p.2).1) hp
    rw [hPoints, hInst] at hMem
    exact absurd hMem (by decide)
  have hNames : ∀ name ∈ [ueditName, cfgName], IsPart name := by
    intro name hMem
    rcases mem_cons.mp hMem with rfl | hMem
    · exact ⟨⟨by decide, by decide, by decide, by decide⟩, by decide⟩
    · obtain rfl := mem_singleton.mp hMem
      exact ⟨⟨by decide, by decide, by decide, by decide⟩, by decide⟩
  have hShort : ShortNames smemPath := by
    unfold ShortNames
    decide
  obtain ⟨entry, hFollow, hSize⟩ : ∃ entry, smemFollow treeTable smemfsFileRootId ueditName [cfgName] = some entry ∧
      entry.fileSize = 300 := ⟨_, rfl, rfl⟩
  have hOpen : smemOpen treeTable (componentsPath [ueditName, cfgName]) = some (entry, smemFileOf entry) := by
    rw [smemOpen_eq (hNames _ mem_cons_self) fun name hMem => hNames name (mem_cons_of_mem _ hMem), hFollow]
    rfl
  obtain ⟨c', r', hResolve', hIff, hSame⟩ := smem_open_matches_resolve treeFs_legible
    (treeBoot_booted hBoot) hRun (.nil s) 0x8800_2000 treeTable rfl (by decide) hMounted
    (cons_ne_nil _ _) hNames hShort (by rw [hLength]; decide) 0
  obtain ⟨hHeader, hBytes⟩ := hSame entry _ hOpen
  exact ⟨v, s, c', r', entry, _, hBoot, hRun, hMounted, hOpen, hSize, hResolve', hIff.mp (by rw [hOpen]; rfl), hHeader,
    hBytes⟩

end Fixos.Bootloader
