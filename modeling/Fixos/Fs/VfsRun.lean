import Fixos.Fs.Mounts

/-! # Runs of the virtual file system

A run is careful when no lookup starts from a working directory that the lookup will give up, and no count comes near
its largest value. Then all counts stay right.
-/

namespace Fixos.Fs

open MountTree Transition Option List

structure VfsRun where
  vfs : Vfs
  held : List InodeRef

inductive VfsAction where
  | mount (inst : Nat) (path : Bytes)
  | resolve (cwd : InodeRef) (path : Bytes)
  | release (r : InodeRef)
deriving DecidableEq

/-- A run goes on only after a mount that has not failed. -/
def VfsRun.step (fs : FsTable) (s : VfsRun) : VfsAction → Option VfsRun
  | .mount inst path => (vfsMount fs s.vfs 0 inst path).bind fun (vfs, ret) =>
      if ret = 0 then some ⟨vfs, s.held⟩ else none
  | .resolve cwd path => (vfsResolve fs s.vfs.rootFs s.vfs.cache cwd path).map fun (cache, r) =>
      ⟨{ s.vfs with cache }, refsOf r s.held⟩
  | .release r => (vfsReleaseInode s.vfs.cache r).map fun cache => ⟨{ s.vfs with cache }, s.held.erase r⟩

def VfsRun.Careful (fs : FsTable) (s : VfsRun) : VfsAction → Prop
  | .mount _ path => Roomy s.held ∧ path.head? = some 47 ∧
      (s.vfs.nameSpace.lookupPath fs path).all fun k => k.2 ≠ (fs k.1).rootNode
  | .resolve cwd path => Roomy s.held ∧ (cwd = 0 ∨ cwd ∈ s.held) ∧ StartsCounted s.vfs.cache cwd path
  | .release r => r ∈ s.held

instance (held : List InodeRef) : Decidable (Roomy held) := inferInstanceAs (Decidable (∀ r ∈ held, _))

instance (fs : FsTable) (s : VfsRun) (a : VfsAction) : Decidable (s.Careful fs a) := by
  unfold VfsRun.Careful
  split <;> infer_instance

section

variable {fs : FsTable} {s t : VfsRun} {a : VfsAction}

variable {v : Vfs} {held : List InodeRef} {r : InodeRef} {c' : VfsCache}

lemma Vfs.Ready.resolve (h : v.Ready fs held) (hRoomy : Roomy held)
    {cwd : InodeRef} {path : Bytes} (hCwd : cwd = 0 ∨ cwd ∈ held)
    (hStart : StartsCounted v.cache cwd path) (hResolve : vfsResolve fs v.rootFs v.cache cwd path = some (c', r)) :
    ({ v with cache := c' } : Vfs).Ready fs (refsOf r held) ∧
      ({ v with cache := c' } : Vfs).nameSpace = v.nameSpace ∧ Stays v.cache held c' := by
  obtain ⟨hLayout, hCounted, hStays⟩ := vfsResolve_counted h.legible h.root h.layout h.counted hRoomy hCwd hStart hResolve
  obtain ⟨hReady, hSpace⟩ := h.of_stays hStays hLayout hCounted
  exact ⟨hReady, hSpace, hStays⟩

lemma Vfs.Ready.release (h : v.Ready fs held) (hr : r ∈ held) (hRelease : vfsReleaseInode v.cache r = some c') :
    ({ v with cache := c' } : Vfs).Ready fs (held.erase r) ∧ ({ v with cache := c' } : Vfs).nameSpace = v.nameSpace := by
  have hDrop := h.counted.sound.released hRelease
  have hFaithful := h.layout.faithful r (h.counted.cached r hr)
  have hCounted := h.counted.perm (perm_cons_erase hr)
  exact h.of_stays (hDrop.stays hCounted) (h.layout.keeps_dropped h.legible hFaithful hDrop).layout (hCounted.dropped hDrop)

lemma VfsRun.ready_step (hFs : ∀ inst, (fs inst).Legible) (hCareful : s.Careful fs a) (h : s.vfs.Ready fs s.held)
    (hStep : s.step fs a = some t) : t.vfs.Ready fs t.held := by
  cases a with
  | mount inst path =>
    obtain ⟨hRoomy, hPath, hInside⟩ := hCareful
    obtain ⟨⟨_, _⟩, hMount, hRest⟩ := bind_eq_some_iff.mp hStep
    obtain ⟨rfl, ⟨⟩⟩ := ite_none_right_eq_some.mp hRest
    refine h.mount hRoomy (hFs inst) hPath (fun k hk => ?_) hMount
    rw [hk] at hInside
    simpa using hInside
  | resolve cwd path =>
    obtain ⟨hRoomy, hCwd, hStart⟩ := hCareful
    obtain ⟨⟨cache, r⟩, hResolve, rfl⟩ := map_eq_some_iff.mp hStep
    exact (h.resolve hRoomy hCwd hStart hResolve).1
  | release r =>
    obtain ⟨cache, hRelease, rfl⟩ := map_eq_some_iff.mp hStep
    exact (h.release hCareful hRelease).1

def VfsAction.isResolve : VfsAction → Bool
  | .resolve _ _ => true
  | _ => false

lemma VfsRun.held_stays {as : List VfsAction} (hResolves : ∀ a ∈ as, a.isResolve)
    (hRun : Run (VfsRun.step fs) (VfsRun.Careful fs) s as t) (h : s.vfs.Ready fs s.held) (hr : r ∈ s.held) :
    t.vfs.cache.Cached r ∧ t.vfs.cache.key r = s.vfs.cache.key r := by
  induction hRun with
  | nil s => exact ⟨h.counted.cached r hr, rfl⟩
  | @cons s₁ s₂ t a as hCareful hStep hRest ih =>
    cases a with
    | mount inst path => exact absurd (hResolves _ mem_cons_self) Bool.false_ne_true
    | release r' => exact absurd (hResolves _ mem_cons_self) Bool.false_ne_true
    | resolve cwd path =>
      obtain ⟨hRoomy, hCwd, hStart⟩ := hCareful
      obtain ⟨⟨_, r'⟩, hResolve, rfl⟩ := map_eq_some_iff.mp hStep
      obtain ⟨hReady, _, hStays⟩ := h.resolve hRoomy hCwd hStart hResolve
      have hMem : r ∈ refsOf r' s₁.held := by
        unfold refsOf
        split
        · exact hr
        · exact mem_cons_of_mem r' hr
      obtain ⟨hCached, hKey⟩ := ih (fun a ha => hResolves a (mem_cons_of_mem _ ha)) hReady hMem
      exact ⟨hCached, hKey.trans (hStays.key_eq r (h.counted.cached r hr) (Or.inr hr))⟩

end

lemma VfsRun.ready_of_run {fs : FsTable} (hFs : ∀ inst, (fs inst).Legible) {v : Vfs} (hBoot : v.Booted fs)
    {as : List VfsAction} {s : VfsRun} (hRun : Run (VfsRun.step fs) (VfsRun.Careful fs) ⟨v, []⟩ as s) :
    s.vfs.Ready fs s.held :=
  hRun.invariant (I := fun s => s.vfs.Ready fs s.held) (fun _ _ _ hCareful hInv => ready_step hFs hCareful hInv)
    (hBoot.ready hFs)

/-- After every careful run, a lookup adds one reference to what it returns and changes no other count just when it does
not start from a working directory that is neither a root nor a mount point; and no inode that is held is dropped. -/
theorem resolve_counts_exact_iff {fs : FsTable} (hFs : ∀ inst, (fs inst).Legible) {v : Vfs} (hBoot : v.Booted fs) {as : List VfsAction} {s : VfsRun}
    (hRun : Run (VfsRun.step fs) (VfsRun.Careful fs) ⟨v, []⟩ as s) :
    (∀ cwd path, (cwd = 0 ∨ cwd ∈ s.held) → ShortNames path → Roomy s.held →
      path.length + 2 ≤ s.vfs.cache.inodeAlloc.length →
      ∃ c' r, vfsResolve fs s.vfs.rootFs s.vfs.cache cwd path = some (c', r) ∧
        (ExactCounts s.vfs.cache c' r ↔ StartsCounted s.vfs.cache cwd path)) ∧
    ∀ bs t, (∀ b ∈ bs, b.isResolve) → Run (VfsRun.step fs) (VfsRun.Careful fs) s bs t →
      ∀ r ∈ s.held, t.vfs.cache.Cached r ∧ t.vfs.cache.key r = s.vfs.cache.key r := by
  have hReady := VfsRun.ready_of_run hFs hBoot hRun
  refine ⟨fun cwd path hCwd hShort hRoomy hEnough => ?_, fun bs t hResolves hMore r hr => ?_⟩
  · have hFaithful : cwd ≠ 0 → Faithful fs s.vfs.nameSpace s.vfs.cache cwd := fun hNe =>
      hReady.layout.faithful cwd (hReady.counted.cached cwd (hCwd.resolve_left hNe))
    obtain ⟨c', r, hResolve, _⟩ := vfsResolve_some hReady.legible hReady.root hReady.layout hFaithful hShort hEnough
    exact ⟨c', r, hResolve, exactCounts_iff hReady.legible hReady.root hReady.layout hReady.counted hRoomy hCwd hResolve⟩
  · exact VfsRun.held_stays hResolves hMore hReady hr

/-- A protofs with `/mnt`, `/mnt/smem` and `/dev`, and a smemfs with the directory `UEDIT` that has the
file `acore.cfg`. -/
def treeFs : FsTable := fun inst =>
  if inst = 0x8800_1000 then
    .protofs fun i => ⟨if i = 0 then [109, 110, 116] else if i = 1 then [115, 109, 101, 109] else [100, 101, 118],
      if i = 1 then some 0 else none, ⟨true, false, false, false⟩, 3 ≤ i, 7#32, 0⟩
  else .smemfs
    [⟨false, smemfsFileDir, 5, smemfsFileRootId, [85, 69, 68, 73, 84] ++ replicate 7 0xFF⟩,
      ⟨false, smemfsFileFileH, 5, 5, [97, 99, 111, 114, 101, 46, 99, 102, 103] ++ replicate 3 0xFF⟩]

lemma treeFs_wellFormed (inst : Nat) : (treeFs inst).WellFormed := by
  unfold treeFs
  split
  · intro i _ _
    refine ⟨rfl, rfl, fun p hp => ?_⟩
    have hZero : p = 0 := by
      dsimp only at hp
      split at hp <;> simp_all
    rw [hZero]
    exact ⟨by decide, by decide, rfl⟩
  · refine ⟨⟨by decide, by decide⟩, by decide⟩

def treeBoot : Vfs := Vfs.boot (fun _ => blankInode) (fun _ => 0) (range' 1 60)

def treeActions : List VfsAction :=
  [.mount 0x8800_2000 [47, 109, 110, 116, 47, 115, 109, 101, 109], .resolve 0 [47, 100, 101, 118]]

def treeRun (actions : List VfsAction) : Option VfsRun :=
  (vfsMountRoot treeFs treeBoot 0x8800_1000).bind fun (v, ret) =>
    if ret = 0 then exec (guarded (VfsRun.step treeFs) (VfsRun.Careful treeFs)) ⟨v, []⟩ actions else none

def treeState : Option VfsRun := treeRun treeActions

lemma treeRun_run {actions : List VfsAction} {s : VfsRun} (h : treeRun actions = some s) : ∃ v,
    vfsMountRoot treeFs treeBoot 0x8800_1000 = some (v, 0) ∧
      Run (VfsRun.step treeFs) (VfsRun.Careful treeFs) ⟨v, []⟩ actions s := by
  obtain ⟨⟨v, _⟩, hBoot, hRest⟩ := bind_eq_some_iff.mp h
  obtain ⟨rfl, hExec⟩ := ite_none_right_eq_some.mp hRest
  exact ⟨v, hBoot, run_of_exec_guarded hExec⟩

lemma treeFs_legible (inst : Nat) : (treeFs inst).Legible := (treeFs_wellFormed inst).legible

lemma treeBoot_booted {v : Vfs} (h : vfsMountRoot treeFs treeBoot 0x8800_1000 = some (v, 0)) : v.Booted treeFs :=
  ⟨_, _, _, _, ⟨by decide, by decide⟩, h⟩

theorem resolve_counts_exact_mnt : ∃ v s, vfsMountRoot treeFs treeBoot 0x8800_1000 = some (v, 0) ∧
      Run (VfsRun.step treeFs) (VfsRun.Careful treeFs) ⟨v, []⟩ treeActions s ∧ s.held = [4] ∧
      ∃ c' r, vfsResolve treeFs s.vfs.rootFs s.vfs.cache 4 [47, 109, 110, 116] = some (c', r) ∧
        ExactCounts s.vfs.cache c' r := by
  have hEval : treeState.map (fun s => (s.held, s.vfs.cache.inodeAlloc.length)) = some ([4], 56) := by
    decide +kernel
  obtain ⟨s, hState, hEq⟩ := map_eq_some_iff.mp hEval
  obtain ⟨hHeld, hLength⟩ := Prod.mk.inj hEq
  obtain ⟨v, hBoot, hRun⟩ := treeRun_run hState
  have hShort : ShortNames [47, 109, 110, 116] := by
    unfold ShortNames
    decide
  obtain ⟨c', r, hResolve, hIff⟩ := (resolve_counts_exact_iff treeFs_legible (treeBoot_booted hBoot) hRun).1 4 [47, 109, 110, 116] (Or.inr (by rw [hHeld]; decide)) hShort (by rw [hHeld]; decide)
      (by rw [hLength]; decide)
  exact ⟨v, s, hBoot, hRun, hHeld, c', r, hResolve, hIff.mpr (Or.inl rfl)⟩

/-- A process in `/dev` that looks up `..` loses its working directory from the cache. -/
theorem relative_lookup_drops_cwd : ∃ s c' r, treeState = some s ∧ s.held = [4] ∧
    vfsResolve treeFs s.vfs.rootFs s.vfs.cache 4 [46, 46] = some (c', r) ∧
    vfsCacheFind s.vfs.cache 0x8800_1000 2 = some 4 ∧ vfsCacheFind c' 0x8800_1000 2 = some 0 ∧
    ¬ ExactCounts s.vfs.cache c' r := by
  have hEval : (treeState.bind fun s => (vfsResolve treeFs s.vfs.rootFs s.vfs.cache 4 [46, 46]).map fun (c', r) =>
      (s.held, vfsCacheFind s.vfs.cache 0x8800_1000 2, vfsCacheFind c' 0x8800_1000 2,
        s.vfs.cache.useCount (0x8800_1000, 2), c'.useCount (0x8800_1000, 2), c'.pinnedKey (0x8800_1000, 2))) =
      some ([4], some 4, some 0, 1, 0, false) := by
    decide +kernel
  obtain ⟨s, hState, hRest⟩ := bind_eq_some_iff.mp hEval
  obtain ⟨⟨c', r⟩, hResolve, hEq⟩ := map_eq_some_iff.mp hRest
  simp only [Prod.mk.injEq] at hEq
  obtain ⟨hHeld, hBefore, hAfter, hCount, hCount', hPinned⟩ := hEq
  refine ⟨s, c', r, hState, hHeld, hResolve, hBefore, hAfter, fun hExact => ?_⟩
  have hHere := hExact (0x8800_1000, 2) hPinned
  rw [hCount, hCount'] at hHere
  omega

end Fixos.Fs
