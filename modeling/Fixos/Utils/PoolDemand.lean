import Mathlib.Algebra.Order.BigOperators.Group.List
import Mathlib.Algebra.Order.Group.Nat
import Fixos.Lib.Budget
import Fixos.Utils.PoolAlloc

/-! # How many pages a pool asks for

The next allocation takes a page exactly when `first_nonfull` is `NULL`, also when earlier pages have room again.
-/

namespace Fixos.Utils

open Arch Budget List Option

universe u

structure PoolShape where
  nonfull : Bool
  room : Nat
deriving DecidableEq

def Pool.room (pool : Pool) : Nat := (pool.pages.map PoolPage.nbempty).sum

def Pool.shape (pool : Pool) : PoolShape := ⟨pool.firstNonfull.isSome, pool.room⟩

def PoolShape.pages (shape : PoolShape) : Nat := if shape.nonfull then 0 else 1

def PoolShape.take (perpage : Nat) (shape : PoolShape) : PoolShape :=
  let room := shape.room + shape.pages * perpage - 1
  ⟨0 < room, room⟩

def PoolShape.demand (perpage : Nat) : PoolShape → Nat → Nat
  | _, 0 => 0
  | shape, n + 1 => shape.pages + (shape.take perpage).demand perpage n

/-- The pages are different ones, none of them is free, and `first_nonfull` is right when it is set. -/
structure Pool.Sound (pool : Pool) (free : List Ppn) : Prop where
  nodup : (pool.pages.map PoolPage.page).Nodup
  apart : ∀ page ∈ pool.pages, page.page ∉ free
  nonfull : ∀ p, pool.firstNonfull = some p → ∃ page ∈ pool.pages, page.page = p ∧ 0 < page.nbempty

section

variable {pages : List PoolPage} {p : Ppn}

lemma map_page_adjust (pool : Pool) (p : Ppn) (f : Nat → Nat) :
    (pool.adjust p f).pages.map PoolPage.page = pool.pages.map PoolPage.page := by
  unfold Pool.adjust
  rw [List.map_map]
  refine map_congr_left fun page _ => ?_
  simp only [Function.comp]
  split <;> rfl

lemma room_adjust {pool : Pool} (hNodup : (pool.pages.map PoolPage.page).Nodup) {page : PoolPage}
    (hMem : page ∈ pool.pages) (f : Nat → Nat) :
    (pool.adjust page.page f).room + page.nbempty = pool.room + f page.nbempty := by
  unfold Pool.adjust Pool.room
  dsimp only
  generalize pool.pages = pages at hNodup hMem
  induction pages with
  | nil => cases hMem
  | cons first rest ih =>
    obtain ⟨hNew, hRest⟩ := nodup_cons.mp hNodup
    simp only [map_cons, sum_cons]
    rcases mem_cons.mp hMem with rfl | hMem
    · -- the other pages are different ones, so they are left alone
      have hOthers : (rest.map fun q => if q.page = page.page then { q with nbempty := f q.nbempty } else q) = rest := by
        refine (map_congr_left fun q hq => if_neg fun hEq => ?_).trans (map_id' rest)
        exact hNew (mem_map.mpr ⟨q, hq, hEq⟩)
      rw [hOthers, if_pos rfl]
      dsimp only
      omega
    · have hNe : first.page ≠ page.page := fun hEq => hNew (mem_map.mpr ⟨page, hMem, hEq.symm⟩)
      have hHere := ih hRest hMem
      rw [if_neg hNe]
      omega

lemma getFirstNonfull_isSome (pages : List PoolPage) :
    (getFirstNonfull pages).isSome = decide (0 < (pages.map PoolPage.nbempty).sum) := by
  rw [getFirstNonfull, isSome_map, Bool.eq_iff_iff, find?_isSome]
  simp [Nat.pos_iff_ne_zero, sum_eq_zero_iff]

lemma getFirstNonfull_room {pages : List PoolPage} (h : getFirstNonfull pages = some p) :
    ∃ page ∈ pages, page.page = p ∧ 0 < page.nbempty := by
  obtain ⟨page, hFind, rfl⟩ := map_eq_some_iff.mp h
  exact ⟨page, mem_of_find?_eq_some hFind, rfl, by simpa using find?_some hFind⟩

lemma Pool.adjust_firstNonfull (pool : Pool) (p : Ppn) (f : Nat → Nat) :
    (pool.adjust p f).firstNonfull = pool.firstNonfull := rfl

lemma Pool.Sound.take {pool : Pool} {free : List Ppn} (h : pool.Sound free) (hFirst : pool.firstNonfull = some p) :
    (pool.take p).Sound free ∧ (pool.take p).shape = ⟨0 < pool.room - 1, pool.room - 1⟩ := by
  have hRoom : (pool.adjust p (· - 1)).room + 1 = pool.room := by
    obtain ⟨page, hMem, rfl, hPos⟩ := h.nonfull p hFirst
    have hAdjust := room_adjust h.nodup hMem (· - 1)
    omega
  have hIds := map_page_adjust pool p (· - 1)
  have hApart : ∀ page ∈ (pool.adjust p (· - 1)).pages, page.page ∉ free := by
    intro page hMem hFree
    have hId : page.page ∈ pool.pages.map PoolPage.page := hIds ▸ mem_map_of_mem hMem
    obtain ⟨old, hOld, hEq⟩ := mem_map.mp hId
    exact h.apart old hOld (hEq ▸ hFree)
  have hSum : (pool.adjust p (· - 1)).room = pool.room - 1 := by omega
  rw [← hSum]
  unfold Pool.take
  dsimp only
  split_ifs with hLeft
  · refine ⟨⟨hIds ▸ h.nodup, hApart, fun q => getFirstNonfull_room⟩, ?_⟩
    exact congrArg (PoolShape.mk · _) (getFirstNonfull_isSome _)
  · -- the page still has room, so the pointer stays right
    obtain ⟨page, hMem, hPage, hPos⟩ : ∃ page ∈ (pool.adjust p (· - 1)).pages, page.page = p ∧ 0 < page.nbempty := by
      obtain ⟨page, hMem, hPage, _⟩ := h.nonfull p hFirst
      have hHere : { page with nbempty := page.nbempty - 1 } ∈ (pool.adjust p (· - 1)).pages :=
        mem_map.mpr ⟨page, hMem, if_pos hPage⟩
      refine ⟨_, hHere, hPage, Nat.pos_of_ne_zero fun hZero => hLeft (any_eq_true.mpr ⟨_, hHere, ?_⟩)⟩
      rw [decide_eq_true hPage, decide_eq_true hZero]
      rfl
    have hLe : page.nbempty ≤ (pool.adjust p (· - 1)).room := le_sum_of_mem (mem_map_of_mem hMem)
    refine ⟨⟨hIds ▸ h.nodup, hApart, fun q hq => ?_⟩, ?_⟩
    · obtain rfl : p = q := some.inj (hFirst.symm.trans hq)
      exact ⟨page, hMem, hPage, hPos⟩
    · rw [Pool.shape, Pool.adjust_firstNonfull, hFirst, decide_eq_true (Nat.lt_of_lt_of_le hPos hLe)]
      rfl

lemma Pool.Sound.mono {pool : Pool} {free free' : List Ppn} (h : pool.Sound free) (hSub : free' ⊆ free) :
    pool.Sound free' :=
  ⟨h.nodup, fun page hMem hFree => h.apart page hMem (hSub hFree), h.nonfull⟩

end

structure PageSource {σ : Type u} (getFreePage : σ → Option (Ppn × σ)) (free : σ → List Ppn) : Prop where
  empty : ∀ s, free s = [] → getFreePage s = none
  next : ∀ s p rest, free s = p :: rest → ∃ t, getFreePage s = some (p, t) ∧ free t = rest

lemma poolAlloc_spends {σ : Type u} {getFreePage : σ → Option (Ppn × σ)} {free : σ → List Ppn}
    (hSource : PageSource getFreePage free) {perpage : Nat} (hPos : 0 < perpage) {s : σ} {pool : Pool}
    (hFree : (free s).Nodup) (h : pool.Sound (free s)) :
    Spends (fun r => (free r.2.1).length) (free s).length pool.shape.pages (poolAlloc getFreePage perpage s pool) ∧
    ∀ r, poolAlloc getFreePage perpage s pool = some r →
      free r.2.1 <:+ free s ∧ r.2.2.Sound (free r.2.1) ∧ r.2.2.shape = pool.shape.take perpage := by
  cases hFirst : pool.firstNonfull with
  | some p =>
    obtain ⟨hSound, hShape⟩ := h.take hFirst
    have hPages : pool.shape.pages = 0 := by
      rw [Pool.shape, hFirst]
      rfl
    have hAlloc : poolAlloc getFreePage perpage s pool = some (p, s, pool.take p) := by
      rw [poolAlloc, hFirst]
    rw [hAlloc, PoolShape.take, hPages]
    refine ⟨Nat.add_zero _, fun r hr => ?_⟩
    cases hr
    refine ⟨suffix_refl _, hSound, hShape.trans ?_⟩
    rw [Nat.zero_mul]
    rfl
  | none =>
    have hPages : pool.shape.pages = 1 := by
      rw [Pool.shape, hFirst]
      rfl
    rw [poolAlloc, hFirst, PoolShape.take, hPages, Nat.one_mul]
    cases hList : free s with
    | nil =>
      rw [hSource.empty s hList]
      exact ⟨Nat.one_pos, fun r hr => absurd hr (by simp)⟩
    | cons p rest =>
      obtain ⟨t, hGet, hRest⟩ := hSource.next s p rest hList
      rw [hGet]
      rw [hList] at hFree h
      -- the new page is the one that the pointer names
      have hNew : Pool.Sound ⟨⟨p, perpage⟩ :: pool.pages, some p⟩ (free t) := by
        rw [hRest]
        refine ⟨nodup_cons.mpr ⟨fun hMem => ?_, h.nodup⟩, fun page hMem hIn => ?_, fun q hq => ?_⟩
        · obtain ⟨page, hPage, hEq⟩ := mem_map.mp hMem
          exact h.apart page hPage (hEq ▸ mem_cons_self)
        · rcases mem_cons.mp hMem with rfl | hMem
          · exact (nodup_cons.mp hFree).1 hIn
          · exact h.apart page hMem (mem_cons_of_mem p hIn)
        · cases hq
          exact ⟨_, mem_cons_self, rfl, hPos⟩
      obtain ⟨hSound, hShape⟩ := hNew.take rfl
      have hLength : (free t).length + 1 = (p :: rest).length := by rw [hRest, length_cons]
      refine ⟨hLength, fun r hr => ?_⟩
      cases hr
      refine ⟨hRest ▸ suffix_cons p rest, hSound, hShape.trans ?_⟩
      rw [Pool.room, map_cons, sum_cons, Nat.add_comm perpage]
      rfl

end Fixos.Utils
