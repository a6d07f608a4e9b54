import Mathlib.Data.List.Basic

/-! # Computations that live on a budget

Each step takes a part of a budget and fails when too little is left. A computation goes through exactly when the budget
covers the sum of the costs.
-/

namespace Budget

universe u v w x

variable {τ : Type u} {υ : Type v}

/-- The computation goes through exactly when the budget covers the cost, and then the rest is left. -/
def Spends (left : τ → Nat) (budget cost : Nat) : Option τ → Prop
  | none => budget < cost
  | some t => left t + cost = budget

variable {left : τ → Nat} {budget cost : Nat} {o : Option τ}

lemma Spends.isSome_iff (h : Spends left budget cost o) : o.isSome ↔ cost ≤ budget := by
  cases o with
  | none => exact ⟨fun hSome => absurd hSome Bool.false_ne_true, fun hLe => absurd h (Nat.not_lt.mpr hLe)⟩
  | some t => exact ⟨fun _ => h ▸ Nat.le_add_left _ _, fun _ => rfl⟩

variable {left' : υ → Nat}

lemma Spends.map (h : Spends left budget cost o) {f : τ → υ} (hLeft : ∀ t, left' (f t) = left t) :
    Spends left' budget cost (o.map f) := by
  cases o with
  | none => exact h
  | some t => exact (congrArg (· + cost) (hLeft t)).trans h

variable {f : τ → Option υ}

lemma Spends.bind {cost' : Nat} (h : Spends left budget cost o)
    (hNext : ∀ t, o = some t → Spends left' (left t) cost' (f t)) :
    Spends left' budget (cost + cost') (o.bind f) := by
  cases o with
  | none => exact Nat.lt_of_lt_of_le h (Nat.le_add_right cost cost')
  | some t =>
    have hSpent : left t + cost = budget := h
    have hRest := hNext t rfl
    show Spends left' budget (cost + cost') (f t)
    cases hf : f t with
    | none =>
      rw [hf] at hRest
      have hLess : left t < cost' := hRest
      show budget < cost + cost'
      omega
    | some u =>
      rw [hf] at hRest
      have hLeft : left' u + cost' = left t := hRest
      show left' u + (cost + cost') = budget
      omega

lemma Spends.bind_free (h : Spends left budget cost o)
    (hf : ∀ t, o = some t → ∃ u, f t = some u ∧ left' u = left t) : Spends left' budget cost (o.bind f) := by
  cases o with
  | none => exact h
  | some t =>
    obtain ⟨u, hu, hLeft⟩ := hf t rfl
    rw [Option.bind_some, hu]
    exact (congrArg (· + cost) hLeft).trans h

variable {A : Type w} {α : Type x}

def total (cost : A → α → Nat) (next : A → α → A) : A → List α → Nat
  | _, [] => 0
  | a, y :: l => cost a y + total cost next (next a y) l

lemma total_append (cost : A → α → Nat) (next : A → α → A) (a : A) (l l' : List α) :
    total cost next a (l ++ l') = total cost next a l + total cost next (l.foldl next a) l' := by
  induction l generalizing a with
  | nil => exact (Nat.zero_add _).symm
  | cons y l ih => rw [List.cons_append, total, total, ih, Nat.add_assoc, List.foldl_cons]

lemma spends_foldlM {f : τ → α → Option τ} {cost : A → α → Nat} {next : A → α → A} {I : List α → τ → A → Prop}
    (hStep : ∀ y l t a, I (y :: l) t a →
      Spends left (left t) (cost a y) (f t y) ∧ ∀ t', f t y = some t' → I l t' (next a y))
    {l : List α} {t : τ} {a : A} (h : I l t a) :
    Spends left (left t) (total cost next a l) (l.foldlM f t) ∧
      ∀ t', l.foldlM f t = some t' → I [] t' (l.foldl next a) := by
  induction l generalizing t a with
  | nil =>
    refine ⟨Nat.add_zero _, fun t' hEq => ?_⟩
    cases hEq
    exact h
  | cons y l ih =>
    obtain ⟨hSpends, hNext⟩ := hStep y l t a h
    rw [List.foldlM_cons]
    refine ⟨hSpends.bind fun t' hTurn => (ih (hNext t' hTurn)).1, fun t' hEq => ?_⟩
    obtain ⟨t₁, hTurn, hRest⟩ := Option.bind_eq_some_iff.mp hEq
    exact (ih (hNext t₁ hTurn)).2 t' hRest

end Budget
