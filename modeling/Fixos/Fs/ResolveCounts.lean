import Fixos.Fs.PathLookup

/-! # References that path lookup takes

A lookup from the working directory gives up a reference that it never took.
-/

namespace Fixos.Fs

open MountTree Option List

def refsOf (r : InodeRef) (held : List InodeRef) : List InodeRef := if r = 0 then held else r :: held

def Roomy (held : List InodeRef) : Prop := ∀ r ∈ held, held.count r + 2 < countModulus

structure Stays (c : VfsCache) (held : List InodeRef) (c' : VfsCache) : Prop where
  cached : ∀ s, c.Cached s → ((c.inode s).pinned ∨ s ∈ held) → c'.Cached s
  key_eq : ∀ s, c.Cached s → ((c.inode s).pinned ∨ s ∈ held) → c'.key s = c.key s
  pinned_eq : ∀ s, c.Cached s → ((c.inode s).pinned ∨ s ∈ held) → (c'.inode s).pinned = (c.inode s).pinned

section

variable {fs : FsTable} {ns : Namespace} {c c' c₁ c₂ : VfsCache} {k : NodeKey} {r : InodeRef}
  {held : List InodeRef} {name : Bytes}

lemma Stays.refl (c : VfsCache) (held : List InodeRef) : Stays c held c :=
  ⟨fun _ hs _ => hs, fun _ _ _ => rfl, fun _ _ _ => rfl⟩

lemma Stays.trans (h₁ : Stays c held c₁) (h₂ : Stays c₁ held c₂) : Stays c held c₂ := by
  have hNext : ∀ s, c.Cached s → ((c.inode s).pinned ∨ s ∈ held) → c₁.Cached s ∧ ((c₁.inode s).pinned ∨ s ∈ held) :=
    fun s hs hWhy => ⟨h₁.cached s hs hWhy, by rwa [h₁.pinned_eq s hs hWhy]⟩
  constructor
  · intro s hs hWhy
    exact h₂.cached s (hNext s hs hWhy).1 (hNext s hs hWhy).2
  · intro s hs hWhy
    rw [h₂.key_eq s (hNext s hs hWhy).1 (hNext s hs hWhy).2, h₁.key_eq s hs hWhy]
  · intro s hs hWhy
    rw [h₂.pinned_eq s (hNext s hs hWhy).1 (hNext s hs hWhy).2, h₁.pinned_eq s hs hWhy]

lemma Stays.mono {held' : List InodeRef} (h : Stays c held c')
    (hSub : ∀ s, ((c.inode s).pinned ∨ s ∈ held') → ((c.inode s).pinned ∨ s ∈ held)) : Stays c held' c' :=
  ⟨fun s hs hWhy => h.cached s hs (hSub s hWhy), fun s hs hWhy => h.key_eq s hs (hSub s hWhy),
    fun s hs hWhy => h.pinned_eq s hs (hSub s hWhy)⟩

lemma VfsCache.Got.stays (h : c.Got fs k c' r) (hSound : c.Sound) (held : List InodeRef) : Stays c held c' :=
  ⟨fun s hs _ => (h.cached_iff hSound s).mpr (Or.inr hs), fun _ hs _ => h.key_eq hs, fun _ hs _ => h.pinned_eq hs⟩

lemma VfsCache.Dropped.stays (h : c.Dropped r c') (hCounted : Counted c (r :: held)) : Stays c held c' := by
  refine ⟨fun s hs hWhy => ?_, fun s _ _ => congrFun h.key_eq s, fun s _ _ => h.pinned_eq s⟩
  rcases hWhy with _ | hHeld
  · by_cases hKey : c.key s = c.key r
    · refine h.cached_of_count hCounted.sound hs (Or.inr ?_)
      rwa [← hs.eq_of_key (hCounted.cached r mem_cons_self) hKey]
    · exact h.cached_of_ne hCounted.sound hs hKey
  · exact (hCounted.dropped h).cached s hHeld

lemma Counted.room (h : Counted c (r :: held)) (hRoomy : Roomy held) (k : NodeKey) : c.Room k := by
  intro s hs _ hPinned
  rw [h.count_eq s hs hPinned]
  have hOne : (r :: held).count s ≤ held.count s + 1 := by
    rw [count_cons]
    split <;> omega
  by_cases hMem : s ∈ held
  · have := hRoomy s hMem
    omega
  · rw [count_eq_zero_of_not_mem hMem] at hOne
    simp only [countModulus]
    omega

section

variable (hLegible : ns.Legible fs) (hLayout : Layout fs ns c) (h : Counted c (r :: held)) (hRoomy : Roomy held)
include hLegible hLayout h hRoomy

lemma resolve_turn_counted (hName : name ≠ []) {swap : InodeRef}
    (hWalk : vfsWalkEntry fs c r name = some (c₁, swap)) (hRelease : vfsReleaseInode c₁ r = some c₂) :
    Counted c₂ (refsOf swap held) ∧ Stays c held c₂ := by
  have hr := h.cached r mem_cons_self
  have hDropped : ∀ {held₁}, Counted c₁ (r :: held₁) → Stays c held c₁ → (∀ s ∈ held, s ∈ held₁) →
      Counted c₂ held₁ ∧ Stays c held c₂ := by
    intro held₁ hCounted hStays hSub
    have hDrop := hCounted.sound.released hRelease
    refine ⟨hCounted.dropped hDrop, hStays.trans ((hDrop.stays hCounted).mono fun s hWhy => ?_)⟩
    exact hWhy.imp_right (hSub s)
  have hTaken : ∀ {k}, c.Got fs k c₁ swap → swap ≠ 0 → Counted c₂ (refsOf swap held) ∧ Stays c held c₂ := by
    intro k hGot hSwap
    have hCounted := h.got hGot (h.room hRoomy k) hSwap
    rw [refsOf, if_neg hSwap]
    exact hDropped (hCounted.perm (List.Perm.swap r swap held)) (hGot.stays h.sound held) fun s hs =>
      mem_cons_of_mem swap hs
  by_cases hDot : name = [46]
  · subst hDot
    obtain ⟨rfl, rfl⟩ : c.countUp r = c₁ ∧ r = swap := Prod.mk.inj (some.inj hWalk)
    exact hTaken hr.got_countUp hr.1
  · have hStep : stepOf name ≠ .stay := fun hStay => (stepOf_stay.mp hStay).elim hName hDot
    rcases vfsWalkEntry_walk hLegible hLayout (hLayout.faithful r hr) hStep with
      ⟨_, hNull⟩ | ⟨k, _, hInst, hHanded, hGet⟩
    · obtain ⟨rfl, rfl⟩ : c = c₁ ∧ 0 = swap := Prod.mk.inj (some.inj (hNull.symm.trans hWalk))
      rw [refsOf, if_pos rfl]
      exact hDropped h (.refl c held) fun _ hs => hs
    · have hGot := vfsGetInode_got h.sound (hLegible.legible k.1 hInst).entryIds hHanded (hGet.symm.trans hWalk)
      exact hTaken hGot (hLayout.keeps_got hLegible hInst hHanded hGot).2.1

lemma resolveNames_counted {names : List Bytes} {r' : InodeRef}
    (hResolve : resolveNames fs c r names = some (c', r')) : Counted c' (refsOf r' held) ∧ Stays c held c' := by
  induction names generalizing c r with
  | nil =>
    obtain ⟨rfl, rfl⟩ : c = c' ∧ r = r' := Prod.mk.inj (some.inj hResolve)
    rw [refsOf, if_neg (h.cached r mem_cons_self).1]
    exact ⟨h, .refl c held⟩
  | cons name names ih =>
    rw [resolveNames] at hResolve
    split at hResolve
    · cases hResolve
    · split_ifs at hResolve with hEmpty
      · exact ih hLayout h hResolve
      · obtain ⟨⟨_, _⟩, hWalk, hRest⟩ := bind_eq_some_iff.mp hResolve
        obtain ⟨c₂, hRelease, hRest⟩ := bind_eq_some_iff.mp hRest
        obtain ⟨hCounted, hStays⟩ := resolve_turn_counted hLegible hLayout h hRoomy hEmpty hWalk hRelease
        split_ifs at hRest with hNull
        · obtain ⟨rfl, rfl⟩ : c₂ = c' ∧ 0 = r' := Prod.mk.inj (some.inj hRest)
          rw [hNull] at hCounted
          exact ⟨hCounted, hStays⟩
        · rw [refsOf, if_neg hNull] at hCounted
          have hFaithful := hLayout.faithful r (h.cached r mem_cons_self)
          obtain ⟨hKeeps, _⟩ := resolve_turn hLegible hLayout hFaithful hEmpty hWalk hRelease
          obtain ⟨hLast, hLater⟩ := ih hKeeps.layout hCounted hRest
          exact ⟨hLast, hStays.trans hLater⟩

end

end

variable {fs : FsTable} {ns : Namespace} {c c' : VfsCache} {cwd r : InodeRef} {held : List InodeRef}
  {path : Bytes}

section

variable (hLegible : ns.Legible fs) (hRoot : ns.rootFs ≠ 0) (hLayout : Layout fs ns c)
include hLegible hRoot hLayout

lemma vfsResolve_counted_root (h : Counted c held) (hRoomy : Roomy held) (hStart : path.head? = some 47 ∨ cwd = 0)
    (hResolve : vfsResolve fs ns.rootFs c cwd path = some (c', r)) :
    Layout fs ns c' ∧ Counted c' (refsOf r held) ∧ Stays c held c' := by
  rw [vfsResolve, if_neg hRoot, if_pos hStart] at hResolve
  obtain ⟨⟨_, current⟩, hGet, hNames⟩ := bind_eq_some_iff.mp hResolve
  obtain ⟨hGot, hKeeps, hCached, _⟩ := getRootNode_keeps hLegible hLayout ns.root_mem hGet
  have hRoom : c.Room (ns.rootFs, (fs ns.rootFs).rootNode) := by
    intro s hs _ hPinned
    rw [h.count_eq s hs hPinned]
    exact (Nat.lt_succ_self _).trans (hRoomy s (h.used s hs hPinned))
  have hFirst := h.got hGot hRoom hCached.1
  obtain ⟨hCounted, hStays⟩ := resolveNames_counted hLegible hKeeps.layout hFirst hRoomy hNames
  exact ⟨(resolveNames_resolves hLegible hKeeps.layout (hKeeps.layout.faithful current hCached) hNames).keeps.layout,
    hCounted, (hGot.stays h.sound held).trans hStays⟩

lemma vfsResolve_counted_cwd
    (h : Counted c (cwd :: held)) (hRoomy : Roomy held) (hStart : ¬ (path.head? = some 47 ∨ cwd = 0))
    (hResolve : vfsResolve fs ns.rootFs c cwd path = some (c', r)) :
    Layout fs ns c' ∧ Counted c' (refsOf r held) ∧ Stays c held c' := by
  rw [vfsResolve, if_neg hRoot, if_neg hStart] at hResolve
  have hFaithful := hLayout.faithful cwd (h.cached cwd mem_cons_self)
  obtain ⟨hCounted, hStays⟩ := resolveNames_counted hLegible hLayout h hRoomy hResolve
  exact ⟨(resolveNames_resolves hLegible hLayout hFaithful hResolve).keeps.layout, hCounted, hStays⟩

end

def VfsCache.useCount (c : VfsCache) (k : NodeKey) : Nat :=
  if c.lookup k = 0 then 0 else (c.inode (c.lookup k)).count

def VfsCache.pinnedKey (c : VfsCache) (k : NodeKey) : Bool := c.lookup k ≠ 0 && (c.inode (c.lookup k)).pinned

/-- One reference to the inode returned has been added, and no other count has changed, roots and
mount points aside. -/
def ExactCounts (c c' : VfsCache) (r : InodeRef) : Prop :=
  ∀ k, c'.pinnedKey k = false → c'.useCount k = c.useCount k + if r ≠ 0 ∧ c'.key r = k then 1 else 0

lemma VfsCache.Cached.useCount_eq {k : NodeKey} (h : c.Cached r) (hKey : c.key r = k) :
    c.useCount k = (c.inode r).count ∧ c.pinnedKey k = (c.inode r).pinned := by
  rw [useCount, pinnedKey, h.lookup_eq hKey, if_neg h.1, decide_eq_true h.1]
  exact ⟨rfl, rfl⟩

lemma count_refsOf (r s : InodeRef) (held : List InodeRef) (hs : s ≠ 0) :
    (refsOf r held).count s = held.count s + if r = s then 1 else 0 := by
  unfold refsOf
  split
  · rename_i hNull
    rw [if_neg fun hEq => hs (hEq.symm.trans hNull), Nat.add_zero]
  · rw [count_cons]
    simp

lemma refsOf_cached (h : Counted c (refsOf r held)) (hr : r ≠ 0) : c.Cached r := by
  rw [refsOf, if_neg hr] at h
  exact h.cached r mem_cons_self

lemma exactCounts_of_stays (h : Counted c held) (h' : Counted c' (refsOf r held)) (hStays : Stays c held c') :
    ExactCounts c c' r := by
  intro k hNot
  -- what was in the cache for the node is still there
  have hOld : ∀ s, c.Cached s → c.key s = k → c'.Cached s ∧ c'.key s = k ∧ s ∈ held ∧ (c.inode s).pinned = false := by
    intro s hs hKey
    have hWhy : (c.inode s).pinned = true ∨ s ∈ held := by
      by_cases hPinned : (c.inode s).pinned
      · exact Or.inl hPinned
      · exact Or.inr (h.used s hs (Bool.not_eq_true _ ▸ hPinned))
    have hCached := hStays.cached s hs hWhy
    have hSame : c'.key s = k := (hStays.key_eq s hs hWhy).trans hKey
    have hPinned : (c.inode s).pinned = false := by
      rw [← hStays.pinned_eq s hs hWhy, ← (hCached.useCount_eq hSame).2, hNot]
    exact ⟨hCached, hSame, hWhy.resolve_left (by simp [hPinned]), hPinned⟩
  rcases h'.sound.lookup_cases k with ⟨hNull, hAbsent⟩ | ⟨hCached, hKey⟩
  · have hZero : c.useCount k = 0 := by
      rcases h.sound.lookup_cases k with ⟨hNull, _⟩ | ⟨hs, hsKey⟩
      · exact if_pos hNull
      · exact absurd (hOld _ hs hsKey).2.1 (hAbsent _ (hOld _ hs hsKey).1)
    rw [hZero, if_neg fun hEq => hAbsent r (refsOf_cached h' hEq.1) hEq.2]
    exact if_pos hNull
  · generalize c'.lookup k = s at hCached hKey
    obtain ⟨hCount, hPinned⟩ := hCached.useCount_eq hKey
    rw [hNot] at hPinned
    rw [hCount, h'.count_eq s hCached hPinned.symm, count_refsOf r s held hCached.1]
    have hReturned : (if r = s then 1 else 0) = if r ≠ 0 ∧ c'.key r = k then 1 else 0 := by
      refine if_congr ⟨?_, ?_⟩ rfl rfl
      · rintro rfl
        exact ⟨hCached.1, hKey⟩
      · rintro ⟨hr, hEq⟩
        exact (refsOf_cached h' hr).eq_of_key hCached (hEq.trans hKey.symm)
    rw [hReturned]
    refine congrArg (· + _) ?_
    rcases h.sound.lookup_cases k with ⟨hNull, hAbsent⟩ | ⟨ht, htKey⟩
    · rw [VfsCache.useCount, if_pos hNull]
      refine count_eq_zero_of_not_mem fun hMem => hAbsent s (h.cached s hMem) ?_
      rw [← hStays.key_eq s (h.cached s hMem) (Or.inr hMem), hKey]
    · obtain ⟨htCached, htSame, _, htPinned⟩ := hOld _ ht htKey
      have hEq := htCached.eq_of_key hCached (htSame.trans hKey.symm)
      rw [hEq] at ht htKey htPinned
      rw [(ht.useCount_eq htKey).1, h.count_eq s ht htPinned]

lemma not_exactCounts_cwd (hLegible : ns.Legible fs) (hLayout : Layout fs ns c) (hLayout' : Layout fs ns c')
    (h : Counted c (cwd :: held)) (h' : Counted c' (refsOf r held)) (hStays : Stays c held c')
    (hPinned : (c.inode cwd).pinned = false) : ¬ ExactCounts c c' r := by
  intro hExact
  have hCwd := h.cached cwd mem_cons_self
  have hUse : c.useCount (c.key cwd) = held.count cwd + 1 := by
    rw [(hCwd.useCount_eq rfl).1, h.count_eq cwd hCwd hPinned, count_cons_self]
  have hNot : ¬ ns.Pins fs (c.key cwd) := by
    rw [← (hLayout.faithful cwd hCwd).pinned_iff hLegible, hPinned]
    exact Bool.false_ne_true
  rcases h'.sound.lookup_cases (c.key cwd) with ⟨hNull, _⟩ | ⟨hCached, hKey⟩
  · have hZero := hExact (c.key cwd) (by simp [VfsCache.pinnedKey, hNull])
    rw [hUse, VfsCache.useCount, if_pos hNull] at hZero
    omega
  · generalize c'.lookup (c.key cwd) = s at hCached hKey
    obtain ⟨hCount, hPin⟩ := hCached.useCount_eq hKey
    have hsPinned : (c'.inode s).pinned = false := by
      rw [← Bool.not_eq_true, (hLayout'.faithful s hCached).pinned_iff hLegible, hKey]
      exact hNot
    have hHere := hExact (c.key cwd) (by rw [hPin, hsPinned])
    rw [hUse, hCount, h'.count_eq s hCached hsPinned, count_refsOf r s held hCached.1] at hHere
    have hHeld : held.count s = held.count cwd := by
      by_cases hMem : s ∈ held
      · have hs := h.cached s (mem_cons_of_mem cwd hMem)
        rw [hs.eq_of_key hCwd ((hStays.key_eq s hs (Or.inr hMem)).symm.trans hKey)]
      · rw [count_eq_zero_of_not_mem hMem]
        refine (count_eq_zero_of_not_mem fun hCwdMem => hMem ?_).symm
        have hStill := hStays.cached cwd hCwd (Or.inr hCwdMem)
        rw [← hStill.eq_of_key hCached ((hStays.key_eq cwd hCwd (Or.inr hCwdMem)).trans hKey.symm)]
        exact hCwdMem
    have hReturned : (if r = s then 1 else 0) ≤ if r ≠ 0 ∧ c'.key r = c.key cwd then 1 else 0 := by
      split
      · rename_i hEq
        rw [hEq, if_pos ⟨hCached.1, hKey⟩]
      · exact Nat.zero_le _
    omega

lemma Counted.remember (h : Counted c held) (hr : c.Cached r) (hPinned : (c.inode r).pinned) : Counted c (r :: held) := by
  have hNe : ∀ {s}, (c.inode s).pinned = false → r ≠ s := by
    rintro s hNot rfl
    rw [hPinned] at hNot
    cases hNot
  refine { h with cached := ?_, count_eq := ?_, used := ?_ }
  · intro s hs
    rcases mem_cons.mp hs with rfl | hs
    · exact hr
    · exact h.cached s hs
  · exact fun s hs hNot => by rw [h.count_eq s hs hNot, count_cons_of_ne (hNe hNot)]
  · exact fun s hs hNot => mem_cons_of_mem r (h.used s hs hNot)

/-- Where a lookup may start without using up a reference of an unpinned inode. -/
def StartsCounted (c : VfsCache) (cwd : InodeRef) (path : Bytes) : Prop :=
  path.head? = some 47 ∨ cwd = 0 ∨ (c.inode cwd).pinned
deriving Decidable

lemma Roomy.erase (h : Roomy held) (r : InodeRef) : Roomy (held.erase r) := by
  intro s hs
  have hLe : (held.erase r).count s ≤ held.count s := (erase_sublist).count_le s
  have hRoom := h s (mem_of_mem_erase hs)
  omega

section

variable (hLegible : ns.Legible fs) (hRoot : ns.rootFs ≠ 0) (hLayout : Layout fs ns c) (h : Counted c held)
  (hRoomy : Roomy held) (hCwd : cwd = 0 ∨ cwd ∈ held)
include hLegible hRoot hLayout h hRoomy hCwd

lemma vfsResolve_counted (hStart : StartsCounted c cwd path)
    (hResolve : vfsResolve fs ns.rootFs c cwd path = some (c', r)) :
    Layout fs ns c' ∧ Counted c' (refsOf r held) ∧ Stays c held c' := by
  by_cases hFrom : path.head? = some 47 ∨ cwd = 0
  · exact vfsResolve_counted_root hLegible hRoot hLayout h hRoomy hFrom hResolve
  · have hHeld : cwd ∈ held := hCwd.resolve_left fun hNull => hFrom (Or.inr hNull)
    have hPinned : (c.inode cwd).pinned := by
      rcases hStart with hSlash | hNull | hPinned
      · exact absurd (Or.inl hSlash) hFrom
      · exact absurd (Or.inr hNull) hFrom
      · exact hPinned
    have hPerm := perm_cons_erase hHeld
    have hCached := h.cached cwd hHeld
    obtain ⟨hLast, hCounted, hStays⟩ := vfsResolve_counted_cwd hLegible hRoot hLayout (h.perm hPerm) (hRoomy.erase cwd)
      hFrom hResolve
    -- the working directory is still there, and its count does not matter
    have hAll : ∀ s, ((c.inode s).pinned ∨ s ∈ held) → ((c.inode s).pinned ∨ s ∈ held.erase cwd) := by
      rintro s (hs | hs)
      · exact Or.inl hs
      · rcases mem_cons.mp (hPerm.mem_iff.mp hs) with rfl | hs
        · exact Or.inl hPinned
        · exact Or.inr hs
    refine ⟨hLast, ?_, hStays.mono hAll⟩
    have hStill := hStays.cached cwd hCached (Or.inl hPinned)
    refine (hCounted.remember hStill (by rw [hStays.pinned_eq cwd hCached (Or.inl hPinned), hPinned])).perm ?_
    unfold refsOf
    split
    · exact hPerm.symm
    · exact (List.Perm.swap r cwd _).trans (hPerm.symm.cons r)

lemma exactCounts_iff (hResolve : vfsResolve fs ns.rootFs c cwd path = some (c', r)) :
    ExactCounts c c' r ↔ StartsCounted c cwd path := by
  constructor
  · intro hExact
    by_contra hStart
    simp only [StartsCounted, not_or] at hStart
    obtain ⟨hSlash, hNull, hPinned⟩ := hStart
    have hPerm := perm_cons_erase (hCwd.resolve_left hNull)
    have hHere := h.perm hPerm
    obtain ⟨hLayout', hCounted, hStays⟩ := vfsResolve_counted_cwd hLegible hRoot hLayout hHere (hRoomy.erase cwd)
      (not_or.mpr ⟨hSlash, hNull⟩) hResolve
    exact not_exactCounts_cwd hLegible hLayout hLayout' hHere hCounted hStays (Bool.not_eq_true _ ▸ hPinned) hExact
  · intro hStart
    obtain ⟨_, hCounted, hStays⟩ := vfsResolve_counted hLegible hRoot hLayout h hRoomy hCwd hStart hResolve
    exact exactCounts_of_stays h hCounted hStays

end

end Fixos.Fs
