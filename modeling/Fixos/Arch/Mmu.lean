import Mathlib.Data.List.Range

/-! # Address space identifiers and the TLB (`arch/sh/mmu.c`)

An address space is reduced to its `asid` field. The `tag` of a TLB entry, which the hardware does not have, remembers
what the entry was loaded for.
-/

namespace Fixos.Arch

open Function List

universe u

def asidMax : Nat := 100

def asidInvalid : Nat := 0xFE

def asidIdle : Nat := 0xFF

inductive AsidUsage where
  | free
  | used
  | dirty
deriving DecidableEq

structure TlbEntry (τ : Type u) where
  asid : Nat
  vpn : Nat
  ppn : Nat
  tag : τ
deriving DecidableEq

/-- `usage` is `_asid_usage`, `asid` is the identifier set in `PTEH`. -/
structure Mmu (τ : Type u) where
  usage : Nat → AsidUsage
  asid : Nat
  tlb : List (TlbEntry τ)

def mmuInit {τ : Type u} : Mmu τ where
  usage := fun _ => .free
  asid := asidIdle
  tlb := []

def Mmu.tlbflush {τ : Type u} (mmu : Mmu τ) : Mmu τ := { mmu with tlb := [] }

def Mmu.setasid {τ : Type u} (mmu : Mmu τ) (asid : Nat) : Mmu τ := { mmu with asid }

def Mmu.tlbFillload {τ : Type u} (mmu : Mmu τ) (vpn ppn : Nat) (tag : τ) : Mmu τ :=
  { mmu with tlb := ⟨mmu.asid, vpn, ppn, tag⟩ :: mmu.tlb }

def archAdrspInit : Nat := asidInvalid

def findFree (usage : Nat → AsidUsage) : Nat :=
  ((range asidMax).find? fun i => usage i = .free).getD asidMax

def recycleOne (st : (Nat → AsidUsage) × Nat) (j : Nat) : (Nat → AsidUsage) × Nat :=
  if st.1 j = .dirty then (update st.1 j .free, j) else st

def recycle (usage : Nat → AsidUsage) : (Nat → AsidUsage) × Nat :=
  (range asidMax).foldl recycleOne (usage, asidMax)

/-- The unit and the `asid` field after the call, and the value returned. -/
def archAdrspSwitchTo {τ : Type u} (mmu : Mmu τ) (asid : Nat) : Mmu τ × Nat × Int :=
  if asid = asidInvalid then
    let i := findFree mmu.usage
    if i ≥ asidMax then
      let (usage, i) := recycle mmu.usage
      if i ≥ asidMax then ({ mmu with usage }, asid, -1)
      else
        let mmu := Mmu.tlbflush { mmu with usage }
        (Mmu.setasid { mmu with usage := update mmu.usage i .used } i, i, 0)
    else (Mmu.setasid { mmu with usage := update mmu.usage i .used } i, i, 0)
  else (mmu.setasid asid, asid, 0)

def archAdrspRelease {τ : Type u} (mmu : Mmu τ) (asid : Nat) : Mmu τ × Nat × Int :=
  if asid ≥ asidMax then (mmu, asidInvalid, -1)
  else ({ mmu with usage := update mmu.usage asid .dirty }, asidInvalid, 0)

variable {usage : Nat → AsidUsage}

lemma findFree_lt (h : findFree usage < asidMax) : usage (findFree usage) = .free := by
  unfold findFree at h ⊢
  cases hFound : (range asidMax).find? fun i => usage i = .free with
  | none =>
    rw [hFound] at h
    exact absurd h (Nat.lt_irrefl _)
  | some i => simpa using find?_some hFound

lemma findFree_ge (h : asidMax ≤ findFree usage) : ∀ i < asidMax, usage i ≠ .free := by
  intro i hi hFree
  unfold findFree at h
  cases hFound : (range asidMax).find? fun i => usage i = .free with
  | none => exact absurd hFree (by simpa using find?_eq_none.mp hFound i (mem_range.mpr hi))
  | some j =>
    rw [hFound] at h
    exact absurd (mem_range.mp (mem_of_find?_eq_some hFound)) (Nat.not_lt.mpr h)

/-- The dirty identifiers below `n` are free, and the index is the last of them, if there was one. -/
lemma recycle_below (usage : Nat → AsidUsage) (start n : Nat) : ((range n).foldl recycleOne (usage, start)).1 =
        (fun k => if k < n ∧ usage k = .dirty then .free else usage k) ∧
      (((∀ k < n, usage k ≠ .dirty) ∧ ((range n).foldl recycleOne (usage, start)).2 = start) ∨
        (((range n).foldl recycleOne (usage, start)).2 < n ∧
          usage ((range n).foldl recycleOne (usage, start)).2 = .dirty)) := by
  induction n with
  | zero => simp
  | succ n ih =>
    rw [range_succ, foldl_append, foldl_cons, foldl_nil]
    obtain ⟨hUsage, hIndex⟩ := ih
    generalize (range n).foldl recycleOne (usage, start) = st at *
    obtain ⟨_, i⟩ := st
    simp only at hUsage hIndex
    subst hUsage
    by_cases hDirty : usage n = .dirty
    · have hMid : (if n < n ∧ usage n = .dirty then AsidUsage.free else usage n) = .dirty := by
        rw [if_neg (by omega), hDirty]
      simp only [recycleOne, hMid, if_true]
      refine ⟨?_, Or.inr ⟨Nat.lt_succ_self n, hDirty⟩⟩
      funext k
      by_cases hk : k = n
      · rw [hk, update_self, if_pos ⟨Nat.lt_succ_self n, hDirty⟩]
      · rw [update_of_ne hk]
        have hIff : k < n ↔ k < n + 1 := by omega
        simp [hIff]
    · have hMid : (if n < n ∧ usage n = .dirty then AsidUsage.free else usage n) ≠ .dirty := by
        rwa [if_neg (by omega)]
      simp only [recycleOne, if_neg hMid]
      constructor
      · funext k
        by_cases hk : k = n
        · rw [hk, if_neg (by tauto), if_neg (by tauto)]
        · have hIff : k < n ↔ k < n + 1 := by omega
          simp [hIff]
      · rcases hIndex with ⟨hNone, hi⟩ | ⟨hi, hLast⟩
        · refine Or.inl ⟨?_, hi⟩
          intro k hk
          rcases Nat.lt_succ_iff_lt_or_eq.mp hk with hk | rfl
          · exact hNone k hk
          · exact hDirty
        · exact Or.inr ⟨by omega, hLast⟩

variable {τ : Type u}

@[simp] lemma archAdrspRelease_field (mmu : Mmu τ) (asid : Nat) : (archAdrspRelease mmu asid).2.1 = asidInvalid := by
  unfold archAdrspRelease
  split <;> rfl

@[simp] lemma archAdrspRelease_tlb (mmu : Mmu τ) (asid : Nat) : (archAdrspRelease mmu asid).1.tlb = mmu.tlb := by
  unfold archAdrspRelease
  split <;> rfl

@[simp] lemma archAdrspRelease_register (mmu : Mmu τ) (asid : Nat) : (archAdrspRelease mmu asid).1.asid = mmu.asid := by
  unfold archAdrspRelease
  split <;> rfl

lemma archAdrspRelease_usage (mmu : Mmu τ) (asid : Nat) {i : Nat} (hi : i < asidMax) :
    (archAdrspRelease mmu asid).1.usage i = if i = asid then .dirty else mmu.usage i := by
  unfold archAdrspRelease
  split
  · rw [if_neg (by omega)]
  · simp only [update_apply]

def cleaned (usage : Nat → AsidUsage) : Nat → AsidUsage :=
  fun k => if k < asidMax ∧ usage k = .dirty then .free else usage k

lemma recycle_fst (usage : Nat → AsidUsage) : (recycle usage).1 = cleaned usage := (recycle_below usage asidMax asidMax).1

lemma recycle_snd (usage : Nat → AsidUsage) : ((∀ k < asidMax, usage k ≠ .dirty) ∧ (recycle usage).2 = asidMax) ∨
      ((recycle usage).2 < asidMax ∧ usage (recycle usage).2 = .dirty) :=
  (recycle_below usage asidMax asidMax).2

lemma cleaned_eq_self (h : ∀ k < asidMax, usage k ≠ .dirty) : cleaned usage = usage := by
  funext k
  exact if_neg fun ⟨hk, hDirty⟩ => h k hk hDirty

lemma cleaned_eq_used {k : Nat} : cleaned usage k = .used ↔ usage k = .used := by
  unfold cleaned
  split_ifs with h
  · simp [h.2]
  · rfl

def Mmu.assign {τ : Type u} (mmu : Mmu τ) (i : Nat) : Mmu τ :=
  { mmu with usage := update mmu.usage i .used, asid := i }

inductive SwitchOutcome {τ : Type u} (mmu : Mmu τ) (asid : Nat) : Mmu τ × Nat × Int → Prop where
  | held (hAsid : asid ≠ asidInvalid) : SwitchOutcome mmu asid (mmu.setasid asid, asid, 0)
  | fresh (hAsid : asid = asidInvalid) (i : Nat) (hi : i < asidMax) (hFree : mmu.usage i = .free) :
      SwitchOutcome mmu asid (mmu.assign i, i, 0)
  | flushed (hAsid : asid = asidInvalid) (hFull : ∀ k < asidMax, mmu.usage k ≠ .free)
      (i : Nat) (hi : i < asidMax) (hDirty : mmu.usage i = .dirty) :
      SwitchOutcome mmu asid
        (Mmu.assign { mmu with usage := cleaned mmu.usage, tlb := [] } i, i, 0)
  | exhausted (hAsid : asid = asidInvalid) (hUsed : ∀ k < asidMax, mmu.usage k = .used) :
      SwitchOutcome mmu asid (mmu, asid, -1)

lemma archAdrspSwitchTo_outcome (mmu : Mmu τ) (asid : Nat) : SwitchOutcome mmu asid (archAdrspSwitchTo mmu asid) := by
  unfold archAdrspSwitchTo
  by_cases hAsid : asid = asidInvalid
  · rw [if_pos hAsid]
    by_cases hFull : findFree mmu.usage ≥ asidMax
    · simp only [if_pos hFull, recycle_fst]
      have hNoFree := findFree_ge hFull
      rcases recycle_snd mmu.usage with ⟨hNoDirty, hIndex⟩ | ⟨hi, hDirty⟩
      · rw [if_pos (by rw [hIndex]), cleaned_eq_self hNoDirty]
        refine .exhausted hAsid fun k hk => ?_
        cases hUsage : mmu.usage k with
        | free => exact absurd hUsage (hNoFree k hk)
        | used => rfl
        | dirty => exact absurd hUsage (hNoDirty k hk)
      · rw [if_neg (Nat.not_le.mpr hi)]
        generalize (recycle mmu.usage).2 = i at hi hDirty
        exact .flushed hAsid hNoFree i hi hDirty
    · simp only [if_neg hFull]
      exact .fresh hAsid _ (Nat.not_le.mp hFull) (findFree_lt (Nat.not_le.mp hFull))
  · rw [if_neg hAsid]
    exact .held hAsid

end Fixos.Arch
