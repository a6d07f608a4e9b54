import Mathlib.Algebra.BigOperators.Group.List.Basic
import Mathlib.Algebra.Ring.Nat
import Mathlib.Data.Finset.Basic

/-! # Reference counting

Objects carry a count and are given back when a drop brings it to zero. The references live in
holders; `refs r` is how many of them name `r`.
-/

namespace RefCount

open Function List

universe u v

structure Store (R : Type u) where
  count : R → Int
  inUse : Finset R

structure Balanced {R : Type u} (c : Store R) (refs : R → Nat) : Prop where
  count_eq : ∀ r ∈ c.inUse, c.count r = refs r
  inUse_of_refs : ∀ r, refs r ≠ 0 → r ∈ c.inUse

variable {R : Type u}

lemma Balanced.refs_eq_zero {c : Store R} {refs : R → Nat} (h : Balanced c refs)
    {r : R} (hFree : r ∉ c.inUse) : refs r = 0 := by
  by_contra hRefs
  exact hFree (h.inUse_of_refs r hRefs)

def Referenced {R : Type u} (c : Store R) (refs : R → Nat) : Prop := ∀ r ∈ c.inUse, refs r ≠ 0

lemma Referenced.mono {c : Store R} {refs refs' : R → Nat} (h : Referenced c refs)
    (hLe : ∀ s, refs s ≤ refs' s) : Referenced c refs' := by
  intro s hs
  have hRef := h s hs
  have hMore := hLe s
  omega

section

variable {R : Type u} [DecidableEq R]

def Store.acquire (c : Store R) (r : R) : Store R :=
  { c with count := update c.count r (c.count r + 1) }

def Store.drop (c : Store R) (r : R) : Store R where
  count := update c.count r (c.count r - 1)
  inUse := if c.count r - 1 ≤ 0 then c.inUse.erase r else c.inUse

def Store.take (c : Store R) (r : R) (count : Int) : Store R where
  count := update c.count r count
  inUse := insert r c.inUse

variable {c : Store R} {refs refs' : R → Nat} {r : R}

section

variable (h : Balanced c refs)
include h

lemma Balanced.acquire (hUse : r ∈ c.inUse) (hRefs : ∀ s, refs' s = refs s + if r = s then 1 else 0) :
    Balanced (c.acquire r) refs' := by
  constructor
  · intro s hs
    have hCount := h.count_eq s hs
    rw [hRefs s]
    rcases eq_or_ne s r with rfl | hNe
    · simp only [Store.acquire, update_self, if_true]
      omega
    · simp only [Store.acquire, update_of_ne hNe, if_neg hNe.symm]
      omega
  · intro s hs
    rcases eq_or_ne s r with rfl | hNe
    · exact hUse
    · rw [hRefs s, if_neg hNe.symm] at hs
      exact h.inUse_of_refs s hs

lemma Balanced.drop (hRefs : ∀ s, refs s = refs' s + if r = s then 1 else 0) : Balanced (c.drop r) refs' := by
  have hOne := hRefs r
  rw [if_pos rfl] at hOne
  have hUse := h.inUse_of_refs r (by omega)
  have hCount := h.count_eq r hUse
  constructor
  · intro s hs
    rcases eq_or_ne s r with rfl | hNe
    · simp only [Store.drop, update_self]
      omega
    · have hOther := hRefs s
      rw [if_neg hNe.symm] at hOther
      simp only [Store.drop, update_of_ne hNe]
      rw [h.count_eq s, hOther, Nat.add_zero]
      simp only [Store.drop] at hs
      split at hs
      · exact Finset.mem_of_mem_erase hs
      · exact hs
  · intro s hs
    simp only [Store.drop]
    rcases eq_or_ne s r with rfl | hNe
    · rw [if_neg (by omega)]
      exact hUse
    · have hOther := hRefs s
      rw [if_neg hNe.symm, Nat.add_zero] at hOther
      have hUseOther := h.inUse_of_refs s (hOther ▸ hs)
      split
      · exact Finset.mem_erase.mpr ⟨hNe, hUseOther⟩
      · exact hUseOther

lemma Balanced.take (hFree : r ∉ c.inUse) (hRefs : ∀ s, refs' s = refs s + if r = s then 1 else 0) :
    Balanced (c.take r 1) refs' := by
  constructor
  · intro s hs
    rw [hRefs s]
    rcases eq_or_ne s r with rfl | hNe
    · simp only [Store.take, update_self, h.refs_eq_zero hFree, if_true]
      rfl
    · simp only [Store.take, update_of_ne hNe, if_neg hNe.symm, Nat.add_zero]
      exact h.count_eq s (Finset.mem_of_mem_insert_of_ne hs hNe)
  · intro s hs
    rcases eq_or_ne s r with rfl | hNe
    · exact Finset.mem_insert_self _ _
    · rw [hRefs s, if_neg hNe.symm] at hs
      exact Finset.mem_insert_of_mem (h.inUse_of_refs s hs)

lemma Balanced.acquireAll (rs : List R) (hUse : ∀ r ∈ rs, r ∈ c.inUse) (hRefs : ∀ s, refs' s = refs s + rs.count s) :
    Balanced (rs.foldl Store.acquire c) refs' := by
  induction rs generalizing c refs with
  | nil => exact (funext hRefs : refs' = refs) ▸ h
  | cons r rs ih =>
    refine ih (h.acquire (hUse r mem_cons_self) fun _ => rfl) (fun s hs => hUse s (mem_cons_of_mem r hs)) fun s => ?_
    rw [hRefs s, count_cons]
    simp only [beq_iff_eq]
    omega

end

variable {rs : List R}

lemma refs_cons (h : ∀ s, refs s = refs' s + (r :: rs).count s) (s : R) :
    refs s = (refs' s + rs.count s) + if r = s then 1 else 0 := by
  rw [h s, count_cons]
  simp only [beq_iff_eq]
  omega

lemma Balanced.dropAll (h : Balanced c refs) (rs : List R) (hRefs : ∀ s, refs s = refs' s + rs.count s) :
    Balanced (rs.foldl Store.drop c) refs' := by
  induction rs generalizing c refs with
  | nil => exact (funext hRefs : refs = refs') ▸ h
  | cons r rs ih => exact ih (h.drop (refs_cons hRefs)) fun _ => rfl

section

variable (h : Referenced c refs)
include h

lemma Referenced.take {count : Int}
    (hRefs : ∀ s, refs' s = refs s + if r = s then 1 else 0) : Referenced (c.take r count) refs' := by
  intro s hs
  rw [hRefs s]
  rcases Finset.mem_insert.mp hs with rfl | hOld
  · rw [if_pos rfl]
    exact Nat.succ_ne_zero _
  · have hRef := h s hOld
    omega

lemma Referenced.drop (hBalanced : Balanced c refs)
    (hRefs : ∀ s, refs s = refs' s + if r = s then 1 else 0) : Referenced (c.drop r) refs' := by
  intro s hs
  have hRef := hRefs s
  simp only [Store.drop] at hs
  rcases eq_or_ne s r with rfl | hNe
  · split at hs
    · exact absurd rfl (Finset.mem_erase.mp hs).1
    · have hCount := hBalanced.count_eq s hs
      rw [if_pos rfl] at hRef
      omega
  · rw [if_neg hNe.symm, Nat.add_zero] at hRef
    rw [← hRef]
    split at hs
    · exact h s (Finset.mem_of_mem_erase hs)
    · exact h s hs

lemma Referenced.dropAll (hBalanced : Balanced c refs)
    (rs : List R) (hRefs : ∀ s, refs s = refs' s + rs.count s) : Referenced (rs.foldl Store.drop c) refs' := by
  induction rs generalizing c refs with
  | nil => exact (funext hRefs : refs = refs') ▸ h
  | cons r rs ih => exact ih (h.drop hBalanced (refs_cons hRefs)) (hBalanced.drop (refs_cons hRefs)) fun _ => rfl

end

lemma Store.acquireAll_inUse (c : Store R) (rs : List R) : (rs.foldl Store.acquire c).inUse = c.inUse := by
  induction rs generalizing c with
  | nil => rfl
  | cons r rs ih => exact ih (c.acquire r)

lemma Store.dropAll_inUse_subset (c : Store R) (rs : List R) : (rs.foldl Store.drop c).inUse ⊆ c.inUse := by
  induction rs generalizing c with
  | nil => exact Finset.Subset.refl _
  | cons r rs ih =>
    refine (ih (c.drop r)).trans ?_
    simp only [Store.drop]
    split
    · exact Finset.erase_subset r c.inUse
    · exact Finset.Subset.refl _

lemma Store.dropAll_freed (hUse : r ∈ c.inUse)
    (hFreed : r ∉ (rs.foldl Store.drop c).inUse) : r ∈ rs ∧ c.count r ≤ rs.count r := by
  induction rs generalizing c with
  | nil => exact absurd hUse hFreed
  | cons x rs ih =>
    by_cases hStill : r ∈ (c.drop x).inUse
    · obtain ⟨hMem, hCount⟩ := ih hStill hFreed
      refine ⟨mem_cons_of_mem x hMem, ?_⟩
      rcases eq_or_ne r x with rfl | hNe
      · rw [count_cons_self]
        simp only [Store.drop, update_self] at hCount
        omega
      · rw [count_cons_of_ne hNe.symm]
        simpa only [Store.drop, update_of_ne hNe] using hCount
    · simp only [Store.drop] at hStill
      split_ifs at hStill with hLast
      · have hEq : r = x := by
          by_contra hNe
          exact hStill (Finset.mem_erase.mpr ⟨hNe, hUse⟩)
        subst hEq
        refine ⟨mem_cons_self, ?_⟩
        rw [count_cons_self]
        omega
      · exact absurd hUse hStill

end

variable {H : Type u} {R : Type v} [DecidableEq R]

def total (holders : List H) (held : H → List R) (r : R) : Nat :=
  (holders.map fun h => (held h).count r).sum

lemma total_cons (h : H) (holders : List H) (held : H → List R) (r : R) :
    total (h :: holders) held r = (held h).count r + total holders held r :=
  sum_cons

variable {holders : List H}

lemma total_congr {held held' : H → List R} (hSame : ∀ h ∈ holders, held' h = held h) (r : R) :
    total holders held' r = total holders held r := by
  unfold total
  congr 1
  exact map_congr_left fun h hh => by rw [hSame h hh]

variable [DecidableEq H] {h : H}

lemma total_erase (hMem : h ∈ holders) (held : H → List R) (r : R) :
    total holders held r = total (holders.erase h) held r + (held h).count r := by
  have hPerm := (perm_cons_erase hMem).map fun h => (held h).count r
  unfold total
  rw [hPerm.sum_eq, map_cons, sum_cons, Nat.add_comm]

lemma total_update (hNodup : holders.Nodup) (hMem : h ∈ holders) (held : H → List R) (rs : List R) (r : R) :
    total holders (update held h rs) r + (held h).count r = total holders held r + rs.count r := by
  have hOthers : total (holders.erase h) (update held h rs) r = total (holders.erase h) held r := by
    refine total_congr (fun other hOther => ?_) r
    exact update_of_ne ((List.Nodup.mem_erase_iff hNodup).mp hOther).1 _ _
  rw [total_erase hMem (update held h rs), total_erase hMem held, hOthers, update_self]
  omega

lemma le_total (hMem : h ∈ holders) (held : H → List R) (r : R) : (held h).count r ≤ total holders held r := by
  rw [total_erase hMem held r]
  omega

end RefCount
