import Mathlib.Logic.Relation
import Mathlib.Data.List.Basic

/-! # Parent pointers

A list grounds the pointers when the parent of each of its nodes stands behind it.
-/

namespace Ancestry

open List

universe u

variable {α : Type u}

def Above (parent : α → Option α) (a b : α) : Prop := parent a = some b

def Grounded (parent : α → Option α) : List α → Prop
  | [] => True
  | a :: rest => (∀ p, parent a = some p → p ∈ rest) ∧ Grounded parent rest

section

variable {parent parent' : α → Option α} {l : List α} {a b : α}

section

variable (h : Grounded parent l)
include h

lemma Grounded.mem (ha : a ∈ l) (hAbove : Above parent a b) : b ∈ l := by
  induction l with
  | nil => cases ha
  | cons c rest ih =>
    rcases mem_cons.mp ha with rfl | ha
    · exact mem_cons_of_mem a (h.1 b hAbove)
    · exact mem_cons_of_mem c (ih h.2 ha)

lemma Grounded.mem_trans (ha : a ∈ l) (hAbove : Relation.TransGen (Above parent) a b) : b ∈ l := by
  induction hAbove with
  | single hStep => exact h.mem ha hStep
  | tail _ hStep ih => exact h.mem ih hStep

lemma Grounded.congr (hSame : ∀ a ∈ l, parent' a = parent a) : Grounded parent' l := by
  induction l with
  | nil => trivial
  | cons c rest ih =>
    refine ⟨fun p hp => h.1 p ?_, ih h.2 fun a ha => hSame a (mem_cons_of_mem c ha)⟩
    rwa [← hSame c mem_cons_self]

lemma Grounded.erase [DecidableEq α] (hNone : ∀ c ∈ l, parent c ≠ some a) : Grounded parent (l.erase a) := by
  induction l with
  | nil => trivial
  | cons c rest ih =>
    have hRest := ih h.2 fun d hd => hNone d (mem_cons_of_mem c hd)
    rcases eq_or_ne c a with rfl | hNe
    · rw [erase_cons_head]
      exact h.2
    · rw [erase_cons_tail (by simpa using hNe)]
      refine ⟨fun p hp => (mem_erase_of_ne ?_).mpr (h.1 p hp), hRest⟩
      rintro rfl
      exact hNone c mem_cons_self hp

lemma Grounded.acyclic (hNodup : l.Nodup) (ha : a ∈ l) : ¬ Relation.TransGen (Above parent) a a := by
  induction l with
  | nil => cases ha
  | cons c rest ih =>
    obtain ⟨hNew, hRestNodup⟩ := nodup_cons.mp hNodup
    rcases mem_cons.mp ha with rfl | ha
    · intro hCycle
      -- the first step leaves the head, and nothing behind leads back to it
      obtain ⟨p, hStep, hBack⟩ := Relation.TransGen.head'_iff.mp hCycle
      have hp := h.1 p hStep
      rcases Relation.reflTransGen_iff_eq_or_transGen.mp hBack with rfl | hTrans
      · exact hNew hp
      · exact hNew (h.2.mem_trans hp hTrans)
    · exact ih h.2 hRestNodup ha

end

end

/-- The first node of the chain whose parent passes the test; `none` inside when the chain ends. -/
def searchUp (parent : α → Option α) (found : Option α → Bool) : Nat → Option α → Option (Option α)
  | 0, _ => none
  | _ + 1, none => some none
  | fuel + 1, some a => if found (parent a) then some (some a) else searchUp parent found fuel (parent a)

variable {parent : α → Option α} {found : Option α → Bool} {l : List α} {a b : α}

lemma Grounded.searchUp_some (found : Option α → Bool) (h : Grounded parent l) (ha : a ∈ l) :
    ∃ result, ∀ fuel, l.length < fuel → searchUp parent found fuel (some a) = some result := by
  induction l generalizing a with
  | nil => cases ha
  | cons c rest ih =>
    rcases mem_cons.mp ha with rfl | ha
    · by_cases hFound : found (parent a) = true
      · refine ⟨some a, fun fuel hFuel => ?_⟩
        obtain ⟨fuel, rfl⟩ := Nat.exists_eq_succ_of_ne_zero (Nat.ne_zero_of_lt hFuel)
        exact if_pos hFound
      · cases hParent : parent a with
        | none =>
          refine ⟨none, fun fuel hFuel => ?_⟩
          obtain ⟨fuel, rfl⟩ := Nat.exists_eq_add_of_lt hFuel
          rw [show (a :: rest).length + fuel + 1 = rest.length + fuel + 1 + 1 by simp; omega, searchUp, if_neg hFound,
            hParent]
          rfl
        | some p =>
          obtain ⟨result, hResult⟩ := ih h.2 (h.1 p hParent)
          refine ⟨result, fun fuel hFuel => ?_⟩
          obtain ⟨fuel, rfl⟩ := Nat.exists_eq_succ_of_ne_zero (Nat.ne_zero_of_lt hFuel)
          rw [searchUp, if_neg hFound, hParent]
          exact hResult fuel (by simpa using hFuel)
    · obtain ⟨result, hResult⟩ := ih h.2 ha
      exact ⟨result, fun fuel hFuel => hResult fuel (Nat.lt_trans (Nat.lt_succ_self _) hFuel)⟩

lemma searchUp_spec {fuel : Nat} {result : Option α} (h : searchUp parent found fuel (some a) = some result) :
    (∀ c, result = some c → Relation.ReflTransGen (Above parent) a c ∧ found (parent c) = true) ∧
      (result = none → ∀ c, Relation.ReflTransGen (Above parent) a c → found (parent c) = false) := by
  induction fuel generalizing a with
  | zero => cases h
  | succ fuel ih =>
    rw [searchUp] at h
    split_ifs at h with hFound
    · cases h
      refine ⟨fun c hc => ?_, fun hNone => by cases hNone⟩
      cases hc
      exact ⟨.refl, hFound⟩
    · cases hParent : parent a with
      | none =>
        have hEnd : result = none := by
          rw [hParent] at h
          cases fuel <;> cases h
          rfl
        subst hEnd
        refine ⟨fun c hc => (by cases hc), fun _ c hc => ?_⟩
        rcases Relation.ReflTransGen.cases_head hc with rfl | ⟨p, hStep, _⟩
        · exact Bool.not_eq_true _ ▸ hFound
        · rw [Above, hParent] at hStep
          cases hStep
      | some p =>
        rw [hParent] at h
        obtain ⟨hSome, hNone⟩ := ih h
        constructor
        · intro c hc
          exact ⟨.head hParent (hSome c hc).1, (hSome c hc).2⟩
        · intro hEnd c hc
          rcases Relation.ReflTransGen.cases_head hc with rfl | ⟨q, hStep, hRest⟩
          · exact Bool.not_eq_true _ ▸ hFound
          · rw [Above, hParent] at hStep
            cases hStep
            exact hNone hEnd c hRest

lemma searchUp_cycle (hCycle : ∀ c, Relation.ReflTransGen (Above parent) a c → ∃ p, parent c = some p)
    (hNone : ∀ c, Relation.ReflTransGen (Above parent) a c → found (parent c) = false) (fuel : Nat) :
    searchUp parent found fuel (some a) = none := by
  induction fuel generalizing a with
  | zero => rfl
  | succ fuel ih =>
    obtain ⟨p, hp⟩ := hCycle a .refl
    rw [searchUp, if_neg (by rw [hNone a .refl]; exact Bool.false_ne_true), hp]
    exact ih (fun c hc => hCycle c (.head hp hc)) fun c hc => hNone c (.head hp hc)

end Ancestry
