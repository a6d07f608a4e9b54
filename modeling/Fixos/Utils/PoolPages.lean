import Fixos.Lib.Run
import Fixos.Utils.PoolDemand

/-! # When a pool grows (`utils/pool_alloc.c`)

While `first_nonfull` is `NULL`, an object given back is lost for the next allocation, which takes a new page.
-/

namespace Fixos.Utils

open Arch Transition List Option

/-- A pool with the pages of the objects that are in use, and the most objects that were in use at a time. -/
structure PoolUse where
  pool : Pool
  live : List Ppn
  peak : Nat
deriving DecidableEq

inductive PoolCall where
  | alloc (answer : Option Ppn)
  | free (page : Ppn)
deriving DecidableEq

def PoolUse.init : PoolUse := ⟨poolInit, [], 0⟩

/-- `answer` is what the page allocator says if it is asked. -/
def PoolUse.step (perpage : Nat) (s : PoolUse) : PoolCall → Option PoolUse
  | .alloc answer =>
    match poolAlloc (fun _ : Unit => answer.map fun page => (page, ())) perpage () s.pool with
    | none => some s
    | some (page, _, pool) => some ⟨pool, page :: s.live, max s.peak (s.live.length + 1)⟩
  | .free page => some { s with pool := poolFree s.pool page, live := s.live.erase page }

def PoolUse.Allowed (s : PoolUse) : PoolCall → Prop
  | .alloc answer => ∀ page ∈ answer, page ∉ s.pool.pages.map PoolPage.page
  | .free page => page ∈ s.live ∨ page ∉ s.pool.pages.map PoolPage.page

/-- No object of the pool is freed while `first_nonfull` is `NULL`. -/
def PoolUse.Noticed (s : PoolUse) : PoolCall → Prop
  | .alloc _ => True
  | .free page => page ∈ s.live → s.pool.firstNonfull ≠ none

instance PoolUse.decidableAllowed (s : PoolUse) (a : PoolCall) : Decidable (s.Allowed a) := by
  unfold PoolUse.Allowed
  split <;> infer_instance

instance (s : PoolUse) (a : PoolCall) : Decidable (s.Noticed a) := by
  unfold PoolUse.Noticed
  split <;> infer_instance

def Pool.Asks (perpage : Nat) (pool : Pool) : Prop := poolAlloc (fun _ : Unit => none) perpage () pool = none

def pagesFor (perpage objects : Nat) : Nat := (objects + perpage - 1) / perpage

structure PoolUse.Thrifty (perpage : Nat) (s : PoolUse) : Prop where
  null_full : s.pool.firstNonfull = none → ∀ page ∈ s.pool.pages, page.nbempty = 0
  asks_full : s.pool.Asks perpage → s.live.length = s.pool.pages.length * perpage
  pages_le : s.pool.pages.length ≤ pagesFor perpage s.peak

/-- The objects left and those in use make up the pages, and `first_nonfull` tells whether there are any left. -/
structure PoolUse.Inv (perpage : Nat) (s : PoolUse) : Prop where
  sound : s.pool.Sound []
  total : s.pool.room + s.live.length = s.pool.pages.length * perpage
  owned : ∀ page ∈ s.live, page ∈ s.pool.pages.map PoolPage.page
  shown : s.pool.shape.nonfull = decide (0 < s.pool.room)
  peak_le : s.live.length ≤ s.peak
  few : s.pool.pages.length * perpage < s.peak + perpage

section

variable {perpage : Nat} {s t : PoolUse} {page : Ppn}

variable {pool : Pool}

lemma Pool.asks_iff : pool.Asks perpage ↔ pool.firstNonfull = none := by
  unfold Pool.Asks poolAlloc
  cases pool.firstNonfull with
  | none => simp
  | some page => simp

lemma le_pagesFor {pages objects : Nat} (hPos : 0 < perpage) (h : pages * perpage < objects + perpage) :
    pages ≤ pagesFor perpage objects := by
  rw [pagesFor, Nat.le_div_iff_mul_le hPos]
  omega

lemma Pool.room_eq_zero : pool.room = 0 ↔ ∀ page ∈ pool.pages, page.nbempty = 0 := by
  rw [Pool.room, sum_eq_zero_iff]
  simp

lemma PoolUse.Inv.room_of_null (h : s.Inv perpage) (hNull : s.pool.firstNonfull = none) : s.pool.room = 0 := by
  have hShown := h.shown
  rw [Pool.shape, hNull] at hShown
  have hZero : ¬ 0 < s.pool.room := fun hPos => by simp [hPos] at hShown
  omega

lemma PoolUse.Inv.thrifty (hPos : 0 < perpage) (h : s.Inv perpage) : s.Thrifty perpage where
  null_full hNull := Pool.room_eq_zero.mp (h.room_of_null hNull)
  asks_full hAsks := by
    have hRoom := h.room_of_null (Pool.asks_iff.mp hAsks)
    have hTotal := h.total
    omega
  pages_le := le_pagesFor hPos h.few

lemma Pool.length_take (pool : Pool) (page : Ppn) : (pool.take page).pages.length = pool.pages.length := by
  unfold Pool.take
  dsimp only
  split <;> simp [Pool.adjust]

lemma Pool.map_page_take (pool : Pool) (page : Ppn) :
    (pool.take page).pages.map PoolPage.page = pool.pages.map PoolPage.page := by
  unfold Pool.take
  dsimp only
  split <;> exact map_page_adjust pool page (· - 1)

lemma PoolUse.inv_take {live : List Ppn} {peak : Nat} (hSound : pool.Sound [])
    (hFirst : pool.firstNonfull = some page) (hTotal : pool.room + live.length = pool.pages.length * perpage)
    (hOwned : ∀ page ∈ live, page ∈ pool.pages.map PoolPage.page)
    (hFew : pool.pages.length * perpage < max peak (live.length + 1) + perpage) :
    PoolUse.Inv perpage ⟨pool.take page, page :: live, max peak (live.length + 1)⟩ := by
  obtain ⟨hTaken, hShape⟩ := hSound.take hFirst
  obtain ⟨taken, hMem, rfl, _⟩ := hSound.nonfull page hFirst
  have hLe : taken.nbempty ≤ pool.room := le_sum_of_mem (mem_map_of_mem hMem)
  have hRoom : (pool.take taken.page).room = pool.room - 1 := congrArg PoolShape.room hShape
  constructor
  case sound => exact hTaken
  case total =>
    rw [hRoom, Pool.length_take, length_cons]
    omega
  case owned =>
    rw [Pool.map_page_take]
    exact forall_mem_cons.mpr ⟨mem_map_of_mem hMem, hOwned⟩
  case shown =>
    rw [hShape, hRoom]
  case peak_le => exact le_max_right _ _
  case few =>
    rw [Pool.length_take]
    exact hFew

lemma PoolUse.Inv.alloc (hPos : 0 < perpage) (h : s.Inv perpage) {answer : Option Ppn}
    (hAnswer : ∀ page ∈ answer, page ∉ s.pool.pages.map PoolPage.page)
    (hStep : s.step perpage (.alloc answer) = some t) : t.Inv perpage := by
  have hTotal := h.total
  have hFew := h.few
  cases hFirst : s.pool.firstNonfull with
  | some page =>
    simp only [PoolUse.step, poolAlloc, hFirst, some.injEq] at hStep
    rw [← hStep]
    exact PoolUse.inv_take h.sound hFirst hTotal h.owned (by omega)
  | none =>
    simp only [PoolUse.step, poolAlloc, hFirst] at hStep
    cases answer with
    | none =>
      cases hStep
      exact h
    | some page =>
      simp only [map_some, some.injEq] at hStep
      rw [← hStep]
      have hNew := hAnswer page rfl
      have hRoom := h.room_of_null hFirst
      -- all objects of the pages are in use, so the new page is needed
      refine PoolUse.inv_take ⟨?_, fun _ _ => not_mem_nil, ?_⟩ rfl ?_ ?_ ?_
      · exact nodup_cons.mpr ⟨hNew, h.sound.nodup⟩
      · rintro p ⟨⟩
        exact ⟨_, mem_cons_self, rfl, hPos⟩
      · rw [Pool.room, map_cons, sum_cons, length_cons, Nat.succ_mul]
        rw [Pool.room] at hTotal
        dsimp only
        omega
      · exact fun p hp => mem_cons_of_mem _ (h.owned p hp)
      · have hMax : s.live.length + 1 ≤ max s.peak (s.live.length + 1) := le_max_right _ _
        rw [length_cons, Nat.succ_mul]
        omega

lemma poolFree_of_not_mem (h : page ∉ pool.pages.map PoolPage.page) : poolFree pool page = pool := by
  unfold poolFree Pool.adjust
  have hSame : (pool.pages.map fun p => if p.page = page then { p with nbempty := p.nbempty + 1 } else p) = pool.pages :=
    (map_congr_left fun p hp => if_neg fun hEq => h (mem_map.mpr ⟨p, hp, hEq⟩)).trans (map_id' _)
  rw [hSame]

lemma room_poolFree (hNodup : (pool.pages.map PoolPage.page).Nodup)
    (h : page ∈ pool.pages.map PoolPage.page) : (poolFree pool page).room = pool.room + 1 := by
  obtain ⟨_, hMem, rfl⟩ := mem_map.mp h
  have hAdjust := room_adjust hNodup hMem (· + 1)
  unfold poolFree
  omega

lemma PoolUse.Inv.free_other (h : s.Inv perpage) (hOther : page ∉ s.pool.pages.map PoolPage.page) :
    s.step perpage (.free page) = some s := by
  rw [PoolUse.step, poolFree_of_not_mem hOther, erase_of_not_mem fun hLive => hOther (h.owned page hLive)]

lemma Pool.Sound.free (h : pool.Sound []) (page : Ppn) : (poolFree pool page).Sound [] := by
  refine ⟨map_page_adjust pool page _ ▸ h.nodup, fun _ _ => not_mem_nil, fun p hp => ?_⟩
  obtain ⟨_, hMem, rfl, hPos⟩ := h.nonfull p hp
  refine ⟨_, mem_map_of_mem hMem, ?_, ?_⟩
  · split <;> rfl
  · split
    · exact Nat.succ_pos _
    · exact hPos

lemma PoolUse.Inv.free_live (h : s.Inv perpage) (hLive : page ∈ s.live) (hSet : s.pool.firstNonfull ≠ none)
    (hStep : s.step perpage (.free page) = some t) : t.Inv perpage := by
  cases hStep
  have hRoom := room_poolFree h.sound.nodup (h.owned page hLive)
  have hLength := length_erase_of_mem hLive
  have hPos := length_pos_of_mem hLive
  have hTotal := h.total
  have hPeak := h.peak_le
  have hPages : (poolFree s.pool page).pages.length = s.pool.pages.length := length_map _
  constructor
  case sound => exact h.sound.free page
  case total =>
    rw [hRoom, hPages, hLength]
    omega
  case owned =>
    intro p hp
    rw [poolFree, map_page_adjust]
    exact h.owned p (mem_of_mem_erase hp)
  case shown =>
    have hSome : (poolFree s.pool page).firstNonfull.isSome = true := isSome_iff_ne_none.mpr hSet
    rw [Pool.shape, hRoom, hSome]
    simp
  case peak_le =>
    dsimp only
    omega
  case few =>
    rw [hPages]
    exact h.few

variable {a : PoolCall}

lemma PoolUse.Inv.step (hPos : 0 < perpage) (h : s.Inv perpage) (hAllowed : s.Allowed a)
    (hNoticed : s.Noticed a) (hStep : s.step perpage a = some t) : t.Inv perpage := by
  cases a with
  | alloc answer => exact h.alloc hPos hAllowed hStep
  | free page =>
    rcases hAllowed with hLive | hOther
    · exact h.free_live hLive (hNoticed hLive) hStep
    · rw [h.free_other hOther] at hStep
      exact some.inj hStep ▸ h

lemma PoolUse.Inv.spoiled (h : s.Inv perpage) (hNot : ¬ s.Noticed a)
    (hStep : s.step perpage a = some t) : ¬ t.Thrifty perpage := by
  cases a with
  | alloc answer => exact absurd trivial hNot
  | free page =>
    obtain ⟨hLive, hNull⟩ := Classical.not_imp.mp hNot
    cases hStep
    intro hThrifty
    have hRoom := room_poolFree h.sound.nodup (h.owned page hLive)
    have hZero := Pool.room_eq_zero.mpr (hThrifty.null_full (not_not.mp hNull))
    dsimp only at hZero
    omega

lemma PoolUse.init_inv (hPos : 0 < perpage) : PoolUse.init.Inv perpage where
  sound := ⟨nodup_nil, fun _ _ => not_mem_nil, fun _ hp => by cases hp⟩
  total := by simp [PoolUse.init, poolInit, Pool.room]
  owned := fun _ hp => absurd hp not_mem_nil
  shown := rfl
  peak_le := Nat.le_refl 0
  few := by simpa [PoolUse.init, poolInit] using hPos

end

def secondPage : List PoolCall := [.alloc (some 5), .alloc none, .alloc (some 6), .free 5, .alloc none, .alloc none]

end Fixos.Utils
