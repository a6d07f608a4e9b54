import Fixos.Lib.Run
import Fixos.Fs.Vfs

/-! # Counted references to inodes

The holders of references are a list. The count of an inode that is neither a root nor a mount point is the number of
its elements.
-/

namespace Fixos.Fs

open Transition List

section

variable {fs : FsTable} {c c' : VfsCache} {k : NodeKey} {r s : InodeRef}

namespace VfsCache

section

variable (h : c.Dropped r c')
include h

lemma Dropped.inode_eq (s : InodeRef) : c'.inode s = { c.inode s with count := (c'.inode s).count } := by
  cases h with
  | same hCount => rfl
  | less hCount | stale hCount hPinned hAbsent => exact c.setCount_inode r s _
  | last hCount hPinned hCached hKey hRemoved =>
    rw [hRemoved.inode_eq]
    exact c.setCount_inode r s _

lemma Dropped.key_eq : c'.key = c.key := by
  funext s
  rw [key, h.inode_eq s]
  rfl

lemma Dropped.pinned_eq (s : InodeRef) : (c'.inode s).pinned = (c.inode s).pinned := by
  rw [h.inode_eq s]
  rfl

section

variable (hSound : c.Sound)
include hSound

lemma Dropped.sound : c'.Sound := by
  cases h with
  | same hCount => exact hSound
  | less hCount | stale hCount hPinned hAbsent => exact (hSound.kept_setCount r _).sound
  | last hCount hPinned hCached hKey hRemoved => exact hRemoved.sound

lemma Dropped.cached_of (hs : c'.Cached s) : c.Cached s := by
  cases h with
  | same hCount => exact hs
  | less hCount | stale hCount hPinned hAbsent => exact (hSound.kept_setCount r _).cached_iff.mp hs
  | last hCount hPinned hCached hKey hRemoved =>
    exact (hSound.kept_setCount r 0).cached_iff.mp ((hRemoved.cached_iff s).mp hs).1

lemma Dropped.cached_of_ne (hs : c.Cached s) (hNe : c.key s ≠ c.key r) : c'.Cached s := by
  cases h with
  | same hCount => exact hs
  | less hCount | stale hCount hPinned hAbsent => exact (hSound.kept_setCount r _).cached_iff.mpr hs
  | last hCount hPinned hCached hKey hRemoved =>
    refine (hRemoved.cached_iff s).mpr ⟨(hSound.kept_setCount r 0).cached_iff.mpr hs, ?_⟩
    rintro rfl
    exact hNe hKey

lemma Dropped.cached_of_count (hs : c.Cached s) (hCount : 1 < (c.inode r).count ∨ (c.inode r).pinned) : c'.Cached s := by
  cases h with
  | same hSame => exact hs
  | less hMore | stale hOne hPinned hAbsent => exact (hSound.kept_setCount r _).cached_iff.mpr hs
  | last hOne hPinned hCached hKey hRemoved =>
    rw [hOne, hPinned] at hCount
    simp at hCount

end

end

section

variable (h : c.Got fs k c' r)
include h

lemma Got.sound (hSound : c.Sound) : c'.Sound := by
  cases h with
  | none hNone hAbsent => exact hSound
  | cached hCached hKey => exact (hSound.kept_countUp r).sound
  | filled hFill hAbsent hEntered hInode hCount => exact (hEntered.sound.kept_countUp r).sound

lemma Got.cached_iff (hSound : c.Sound) (s : InodeRef) : c'.Cached s ↔ (s = r ∧ r ≠ 0) ∨ c.Cached s := by
  cases h with
  | none hNone hAbsent => simp
  | cached hCached hKey =>
    rw [(hSound.kept_countUp r).cached_iff]
    constructor
    · exact Or.inr
    · rintro (⟨rfl, _⟩ | hs)
      · exact hCached
      · exact hs
  | filled hFill hAbsent hEntered hInode hCount =>
    rw [(hEntered.sound.kept_countUp r).cached_iff, hEntered.cached_iff]
    have hNe : r ≠ 0 := ((hEntered.cached_iff r).mpr (Or.inl rfl)).1
    simp [hNe]

lemma Got.key_self (hSound : c.Sound) (hr : r ≠ 0) : c'.key r = k := by
  cases h with
  | none hNone hAbsent => exact absurd rfl hr
  | cached hCached hKey => rw [(hSound.kept_countUp r).key_eq, hKey]
  | filled hFill hAbsent hEntered hInode hCount => rw [(hEntered.sound.kept_countUp r).key_eq, hEntered.key_self]

lemma Got.inode_eq (hs : c.Cached s) : c'.inode s = { c.inode s with count := (c'.inode s).count } := by
  cases h with
  | none hNone hAbsent => rfl
  | cached hCached hKey => exact c.setCount_inode r s _
  | filled hFill hAbsent hEntered hInode hCount =>
    have hNe : s ≠ r := fun hEq => hEntered.fresh (hEq ▸ hs)
    rw [countUp_inode, if_neg hNe, hEntered.inode_of_ne s hNe]

lemma Got.key_eq (hs : c.Cached s) : c'.key s = c.key s := by
  rw [key, h.inode_eq hs]
  rfl

lemma Got.pinned_eq (hs : c.Cached s) : (c'.inode s).pinned = (c.inode s).pinned := by
  rw [h.inode_eq hs]
  rfl

lemma Got.count_of_ne (hNe : s ≠ r) : (c'.inode s).count = (c.inode s).count := by
  cases h with
  | none hNone hAbsent => rfl
  | cached hCached hKey => rw [countUp_inode, if_neg hNe]
  | filled hFill hAbsent hEntered hInode hCount =>
    rw [countUp_inode, if_neg hNe, hEntered.inode_of_ne s hNe]

lemma Got.count_self (hr : r ≠ 0) :
    (c.Cached r ∧ c.key r = k ∧ (c'.inode r).count = ((c.inode r).count + 1) % countModulus) ∨
      (¬ c.Cached r ∧ (c'.inode r).count = 1) := by
  cases h with
  | none hNone hAbsent => exact absurd rfl hr
  | cached hCached hKey =>
    refine Or.inl ⟨hCached, hKey, ?_⟩
    rw [countUp_inode, if_pos rfl]
  | filled hFill hAbsent hEntered hInode hCount =>
    refine Or.inr ⟨hEntered.fresh, ?_⟩
    rw [countUp_inode, if_pos rfl, hCount]
    rfl

end

end VfsCache

end

/-- The count of a root or of a mount point is not looked at. -/
structure Counted (c : VfsCache) (held : List InodeRef) : Prop where
  sound : c.Sound
  cached : ∀ r ∈ held, c.Cached r
  count_eq : ∀ r, c.Cached r → (c.inode r).pinned = false → (c.inode r).count = held.count r
  used : ∀ r, c.Cached r → (c.inode r).pinned = false → r ∈ held

variable {fs : FsTable} {c c' : VfsCache} {k : NodeKey} {r : InodeRef} {held held' : List InodeRef}

lemma Counted.perm (h : Counted c held) (hPerm : held.Perm held') : Counted c held' where
  sound := h.sound
  cached r hr := h.cached r (hPerm.mem_iff.mpr hr)
  count_eq r hr hPinned := by rw [h.count_eq r hr hPinned, hPerm.count_eq]
  used r hr hPinned := hPerm.mem_iff.mp (h.used r hr hPinned)

def VfsCache.Room (c : VfsCache) (k : NodeKey) : Prop :=
  ∀ r, c.Cached r → c.key r = k → (c.inode r).pinned = false → (c.inode r).count + 1 < countModulus

lemma Counted.got (h : Counted c held) (hGot : c.Got fs k c' r) (hRoom : c.Room k) (hr : r ≠ 0) :
    Counted c' (r :: held) := by
  have hIff := hGot.cached_iff h.sound
  constructor
  case sound => exact hGot.sound h.sound
  case cached =>
    intro s hs
    rw [hIff]
    exact (mem_cons.mp hs).imp (fun hEq => ⟨hEq, hr⟩) (h.cached s)
  case count_eq =>
    intro s hs hPinned
    rcases eq_or_ne s r with rfl | hNe
    · rw [count_cons_self]
      rcases hGot.count_self hr with ⟨hCached, hKey, hCount⟩ | ⟨hFresh, hCount⟩
      · rw [hGot.pinned_eq hCached] at hPinned
        rw [hCount, Nat.mod_eq_of_lt (hRoom s hCached hKey hPinned), h.count_eq s hCached hPinned]
      · rw [hCount, count_eq_zero_of_not_mem fun hMem => hFresh (h.cached s hMem)]
    · have hOld : c.Cached s := ((hIff s).mp hs).resolve_left fun hEq => hNe hEq.1
      rw [hGot.pinned_eq hOld] at hPinned
      rw [hGot.count_of_ne hNe, h.count_eq s hOld hPinned, count_cons_of_ne hNe.symm]
  case used =>
    intro s hs hPinned
    rcases eq_or_ne s r with rfl | hNe
    · exact mem_cons_self
    · have hOld : c.Cached s := ((hIff s).mp hs).resolve_left fun hEq => hNe hEq.1
      rw [hGot.pinned_eq hOld] at hPinned
      exact mem_cons_of_mem r (h.used s hOld hPinned)

lemma VfsCache.Cached.got_countUp (h : c.Cached r) : c.Got fs (c.key r) (c.countUp r) r := .cached h rfl

/-- An unpinned inode that stays has lost one of its references, but not the last one. -/
lemma VfsCache.Dropped.count_self (h : c.Dropped r c') (hr : c.Cached r) (hr' : c'.Cached r)
    (hPinned : (c.inode r).pinned = false) :
    (c'.inode r).count = (c.inode r).count - 1 ∧ (c.inode r).count ≠ 1 := by
  cases h with
  | same hSame =>
    rw [hPinned] at hSame
    simp only [Bool.false_eq_true, and_false, or_false] at hSame
    omega
  | less hMore =>
    rw [setInode_inode, if_pos rfl]
    exact ⟨rfl, hMore.ne'⟩
  | last hOne _ hCached hKey hRemoved => exact absurd (hr.eq_of_key hCached hKey.symm) ((hRemoved.cached_iff r).mp hr').2
  | stale hOne _ hAbsent => exact absurd rfl (hAbsent r hr)

lemma VfsCache.Dropped.count_of_ne (h : c.Dropped r c') {s : InodeRef} (hNe : s ≠ r) :
    (c'.inode s).count = (c.inode s).count := by
  cases h with
  | same hSame => rfl
  | less hMore | stale hOne _ hAbsent => rw [setInode_inode, if_neg hNe]
  | last hOne _ hCached hKey hRemoved => rw [hRemoved.inode_eq, setInode_inode, if_neg hNe]

lemma Counted.dropped (h : Counted c (r :: held)) (hDrop : c.Dropped r c') : Counted c' held := by
  have hr := h.cached r mem_cons_self
  have hOld : ∀ {s}, c'.Cached s → (c'.inode s).pinned = false → c.Cached s ∧ (c.inode s).pinned = false :=
    fun hs hPinned => ⟨hDrop.cached_of h.sound hs, by rwa [hDrop.pinned_eq] at hPinned⟩
  have hPos : (c.inode r).pinned = false → (c.inode r).count = held.count r + 1 := fun hPinned => by
    rw [h.count_eq r hr hPinned, count_cons_self]
  constructor
  case sound => exact hDrop.sound h.sound
  case cached =>
    intro s hs
    have hsCached := h.cached s (mem_cons_of_mem r hs)
    rcases eq_or_ne s r with rfl | hNe
    · refine hDrop.cached_of_count h.sound hsCached ?_
      by_cases hPinned : (c.inode s).pinned
      · exact Or.inr hPinned
      · have hCount := hPos (Bool.not_eq_true _ ▸ hPinned)
        have hHeld := count_pos_iff.mpr hs
        exact Or.inl (by omega)
    · exact hDrop.cached_of_ne h.sound hsCached fun hKey => hNe (hsCached.eq_of_key hr hKey)
  case count_eq =>
    intro s hs hPinned
    obtain ⟨hsOld, hsPinned⟩ := hOld hs hPinned
    rcases eq_or_ne s r with rfl | hNe
    · rw [(hDrop.count_self hr hs hsPinned).1, hPos hsPinned, Nat.add_sub_cancel]
    · rw [hDrop.count_of_ne hNe, h.count_eq s hsOld hsPinned, count_cons_of_ne hNe.symm]
  case used =>
    intro s hs hPinned
    obtain ⟨hsOld, hsPinned⟩ := hOld hs hPinned
    rcases eq_or_ne s r with rfl | hNe
    · have hCount := hPos hsPinned
      have hMore := (hDrop.count_self hr hs hsPinned).2
      exact count_pos_iff.mp (by omega)
    · exact (mem_cons.mp (h.used s hsOld hsPinned)).resolve_left hNe

lemma Counted.setInode (h : Counted c held) {inode : VfsInode} (hKey : (inode.fsOp, inode.node) = c.key r)
    (hCount : inode.count = (c.inode r).count) (hPinned : (c.inode r).pinned → inode.pinned) :
    Counted (c.setInode r inode) held := by
  have hKept := h.sound.kept_setInode hKey
  have hOld : ∀ {s}, (c.setInode r inode).Cached s → ((c.setInode r inode).inode s).pinned = false →
      c.Cached s ∧ (c.inode s).pinned = false ∧ ((c.setInode r inode).inode s).count = (c.inode s).count := by
    intro s hs hNot
    refine ⟨hKept.cached_iff.mp hs, ?_⟩
    rw [VfsCache.setInode_inode] at hNot ⊢
    split_ifs at hNot with hEq
    · rw [if_pos hEq, hEq]
      refine ⟨?_, hCount⟩
      rw [← Bool.not_eq_true]
      intro hWas
      rw [hPinned hWas] at hNot
      cases hNot
    · rw [if_neg hEq]
      exact ⟨hNot, rfl⟩
  refine { hKept with cached := ?_, count_eq := ?_, used := ?_ }
  · exact fun s hs => hKept.cached_iff.mpr (h.cached s hs)
  · intro s hs hNot
    obtain ⟨hsOld, hsPinned, hSame⟩ := hOld hs hNot
    rw [hSame, h.count_eq s hsOld hsPinned]
  · intro s hs hNot
    obtain ⟨hsOld, hsPinned, _⟩ := hOld hs hNot
    exact h.used s hsOld hsPinned

lemma Counted.settle (h : Counted c held) (hLe : ∀ r, held'.count r ≤ held.count r)
    (hSame : ∀ r, (c.inode r).pinned = false → held'.count r = held.count r) : Counted c held' where
  sound := h.sound
  cached r hr := by
    have hPos := (count_pos_iff.mpr hr).trans_le (hLe r)
    exact h.cached r (count_pos_iff.mp hPos)
  count_eq r hr hNot := by rw [h.count_eq r hr hNot, hSame r hNot]
  used r hr hNot := by
    have hPos := count_pos_iff.mpr (h.used r hr hNot)
    rw [← hSame r hNot] at hPos
    exact count_pos_iff.mp hPos

lemma Counted.forget (h : Counted c (r :: held)) (hPinned : (c.inode r).pinned) : Counted c held := by
  refine h.settle (fun s => count_le_count_cons) fun s hNot => ?_
  have hNe : r ≠ s := by
    rintro rfl
    rw [hPinned] at hNot
    cases hNot
  rw [count_cons_of_ne hNe]

end Fixos.Fs
