import Mathlib.Data.List.Nodup

/-! # Trees joined by mounts

A mount puts the root of one tree in the place of a node of another, its mount point.
-/

namespace MountTree

open Option List

universe u v w

variable {I : Type u} {N : Type v} {L : Type w}

structure Forest (I : Type u) (N : Type v) (L : Type w) where
  rootOf : I → N
  parentOf : I → N → Option N
  childOf : I → N → L → Option N

abbrev Mounts (I : Type u) (N : Type v) := List ((I × N) × I)

inductive Step (L : Type w) where
  | stay
  | up
  | down (label : L)
deriving DecidableEq

variable [DecidableEq I]

def Mounts.pointOf (m : Mounts I N) (i : I) : Option (I × N) := (m.find? fun p => p.2 = i).map Prod.fst

lemma Mounts.pointOf_cons (p : (I × N) × I) (m : Mounts I N) (i : I) :
    Mounts.pointOf (p :: m) i = if p.2 = i then some p.1 else m.pointOf i := by
  by_cases hTree : p.2 = i <;> simp [Mounts.pointOf, hTree]

variable {m : Mounts I N} {k : I × N} {i : I}

lemma Mounts.pointOf_mem (h : m.pointOf i = some k) : (k, i) ∈ m := by
  obtain ⟨p, hFind, rfl⟩ := map_eq_some_iff.mp h
  have hTree := find?_some hFind
  simp only [decide_eq_true_eq] at hTree
  rw [← hTree]
  exact mem_of_find?_eq_some hFind

lemma Mounts.pointOf_of_mem (hOnce : (m.map Prod.snd).Nodup) (h : (k, i) ∈ m) : m.pointOf i = some k := by
  obtain ⟨p, hFind⟩ : ∃ p, m.find? (fun p => p.2 = i) = some p :=
    isSome_iff_exists.mp (find?_isSome.mpr ⟨(k, i), h, by simp⟩)
  have hTree := find?_some hFind
  simp only [decide_eq_true_eq] at hTree
  have hSame := inj_on_of_nodup_map hOnce (mem_of_find?_eq_some hFind) h hTree
  rw [Mounts.pointOf, hFind, hSame]
  rfl

variable [DecidableEq N]

def Mounts.on (m : Mounts I N) (k : I × N) : Option I := (m.find? fun p => p.1 = k).map Prod.snd

lemma Mounts.on_cons (p : (I × N) × I) (m : Mounts I N) (k : I × N) :
    Mounts.on (p :: m) k = if p.1 = k then some p.2 else m.on k := by
  by_cases hKey : p.1 = k <;> simp [Mounts.on, hKey]

/-- The node whose children are those of `k`. -/
def Forest.real (f : Forest I N L) (m : Mounts I N) (k : I × N) : I × N :=
  match m.on k with
  | some i => (i, f.rootOf i)
  | none => k

def Forest.parentKey (f : Forest I N L) (k : I × N) : Option (I × N) := (f.parentOf k.1 k.2).map (Prod.mk k.1)

/-- The node whose parent is the one of `k`; there is none at the root of all. -/
def Forest.below (f : Forest I N L) (m : Mounts I N) (k : I × N) : Option (I × N) :=
  if (f.parentOf k.1 k.2).isSome then some k else m.pointOf k.1

def Forest.walk (f : Forest I N L) (m : Mounts I N) (k : I × N) : Step L → Option (I × N)
  | .stay => some k
  | .up => (f.below m k).bind f.parentKey
  | .down label => (f.childOf (f.real m k).1 (f.real m k).2 label).map (Prod.mk (f.real m k).1)

def Forest.lookup (f : Forest I N L) (m : Mounts I N) : I × N → List (Step L) → Option (I × N)
  | k, [] => some k
  | k, step :: steps => (f.walk m k step).bind fun k => f.lookup m k steps

lemma Mounts.on_mem (h : m.on k = some i) : (k, i) ∈ m := by
  obtain ⟨p, hFind, rfl⟩ := map_eq_some_iff.mp h
  have hKey := find?_some hFind
  simp only [decide_eq_true_eq] at hKey
  rw [← hKey]
  exact mem_of_find?_eq_some hFind

lemma Mounts.on_eq_none : m.on k = none ↔ ∀ p ∈ m, p.1 ≠ k := by
  simp [Mounts.on]

variable {f : Forest I N L} {m : Mounts I N} {k : I × N}

lemma Forest.lookup_append (steps steps' : List (Step L)) :
    f.lookup m k (steps ++ steps') = (f.lookup m k steps).bind fun k => f.lookup m k steps' := by
  induction steps generalizing k with
  | nil => rfl
  | cons step steps ih =>
    rw [cons_append, lookup, lookup, bind_assoc]
    exact congrArg _ (funext fun k => ih)

lemma Forest.lookup_filter [DecidableEq L] (steps : List (Step L)) :
    f.lookup m k (steps.filter (· ≠ .stay)) = f.lookup m k steps := by
  induction steps generalizing k with
  | nil => rfl
  | cons step steps ih =>
    cases step with
    | stay => exact ih
    | up =>
      rw [filter_cons_of_pos (by simp), lookup, lookup]
      exact congrArg _ (funext fun k => ih)
    | down label =>
      rw [filter_cons_of_pos (by simp), lookup, lookup]
      exact congrArg _ (funext fun k => ih)

structure Mounts.Proper (f : Forest I N L) (m : Mounts I N) : Prop where
  once : (m.map Prod.snd).Nodup
  inside : ∀ p ∈ m, (f.parentOf p.1.1 p.1.2).isSome
  root : ∀ p ∈ m, f.parentOf p.2 (f.rootOf p.2) = none

lemma Mounts.Proper.walk_real (h : m.Proper f) {step : Step L} (hStep : step ≠ .stay) :
    f.walk m (f.real m k) step = f.walk m k step := by
  cases hOn : m.on k with
  | none => rw [Forest.real, hOn]
  | some i =>
    have hReal : f.real m k = (i, f.rootOf i) := by rw [Forest.real, hOn]
    have hMem := Mounts.on_mem hOn
    cases step with
    | stay => exact absurd rfl hStep
    | up =>
      have hPoint : f.below m k = some k := if_pos (h.inside _ hMem)
      have hRoot : f.below m (i, f.rootOf i) = some k := by
        rw [Forest.below, h.root _ hMem]
        exact Mounts.pointOf_of_mem h.once hMem
      rw [hReal, Forest.walk, Forest.walk, hPoint, hRoot]
    | down label =>
      have hAgain : f.real m (i, f.rootOf i) = (i, f.rootOf i) := by
        have hNone : m.on (i, f.rootOf i) = none := by
          rw [Mounts.on_eq_none]
          intro p hp hEq
          have hInside := h.inside p hp
          rw [hEq, h.root _ hMem] at hInside
          cases hInside
        rw [Forest.real, hNone]
      rw [Forest.walk, Forest.walk, hReal, hAgain]

variable {steps : List (Step L)}

lemma Mounts.Proper.lookup_real (h : m.Proper f) (hSteps : ∃ step ∈ steps, step ≠ .stay) :
    f.lookup m (f.real m k) steps = f.lookup m k steps := by
  induction steps with
  | nil =>
    obtain ⟨step, hMem, _⟩ := hSteps
    cases hMem
  | cons step steps ih =>
    by_cases hStay : step = .stay
    · subst hStay
      obtain ⟨step, hMem, hNe⟩ := hSteps
      exact ih ⟨step, (mem_cons.mp hMem).resolve_left hNe, hNe⟩
    · rw [Forest.lookup, Forest.lookup, h.walk_real hStay]

lemma Mounts.Proper.lookup_down_up (h : m.Proper f) {label : L}
    (hChild : ∀ x, f.childOf (f.real m k).1 (f.real m k).2 label = some x →
      f.parentOf (f.real m k).1 x = some (f.real m k).2)
    (hDown : (f.walk m k (.down label)).isSome) (hSteps : ∃ step ∈ steps, step ≠ .stay) :
    f.lookup m k (.down label :: .up :: steps) = f.lookup m k steps := by
  obtain ⟨_, hKey⟩ := isSome_iff_exists.mp hDown
  obtain ⟨x, hx, rfl⟩ := map_eq_some_iff.mp hKey
  have hParent := hChild x hx
  have hUp : f.walk m ((f.real m k).1, x) .up = some (f.real m k) := by
    rw [Forest.walk, Forest.below, hParent]
    exact congrArg (Option.map (Prod.mk (f.real m k).1)) hParent
  rw [Forest.lookup, hKey, bind_some, Forest.lookup, hUp, bind_some]
  exact h.lookup_real hSteps

end MountTree
