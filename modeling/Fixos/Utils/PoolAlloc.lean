import Fixos.Arch.PhysicalMemory

/-! # Pools of objects (`utils/pool_alloc.c`)

An object is reduced to the page it lies in, which is all that freeing it uses.
-/

namespace Fixos.Utils

open Arch

universe u

structure PoolPage where
  page : Ppn
  nbempty : Nat
deriving DecidableEq

structure Pool where
  pages : List PoolPage
  firstNonfull : Option Ppn
deriving DecidableEq

def poolInit : Pool := ⟨[], none⟩

def getFirstNonfull (pages : List PoolPage) : Option Ppn :=
  (pages.find? fun page => 0 < page.nbempty).map PoolPage.page

def Pool.adjust (pool : Pool) (page : Ppn) (f : Nat → Nat) : Pool :=
  { pool with
    pages := pool.pages.map fun p => if p.page = page then { p with nbempty := f p.nbempty } else p }

def Pool.take (pool : Pool) (page : Ppn) : Pool :=
  let pool := pool.adjust page (· - 1)
  if (pool.pages.any fun p => p.page = page && p.nbempty = 0) then
    { pool with firstNonfull := getFirstNonfull pool.pages }
  else pool

/-- The page of the object handed out. `getFreePage` is asked for a page when no page of the pool
is known to have room. -/
def poolAlloc {σ : Type u} (getFreePage : σ → Option (Ppn × σ)) (perpage : Nat) (s : σ) (pool : Pool) :
    Option (Ppn × σ × Pool) :=
  match pool.firstNonfull with
  | some page => some (page, s, pool.take page)
  | none => (getFreePage s).map fun (page, s) =>
      (page, s, Pool.take ⟨⟨page, perpage⟩ :: pool.pages, some page⟩ page)

def poolFree (pool : Pool) (page : Ppn) : Pool := pool.adjust page (· + 1)

lemma poolAlloc_cases {σ : Type u} {getFreePage : σ → Option (Ppn × σ)} {perpage : Nat} {s t : σ}
    {pool pool' : Pool} {page : Ppn} (h : poolAlloc getFreePage perpage s pool = some (page, t, pool')) :
    t = s ∨ getFreePage s = some (page, t) := by
  unfold poolAlloc at h
  split at h
  · cases h
    exact Or.inl rfl
  · obtain ⟨⟨_, _⟩, hPage, ⟨⟩⟩ := Option.map_eq_some_iff.mp h
    exact Or.inr hPage

end Fixos.Utils
