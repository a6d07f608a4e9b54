import Mathlib.Order.Nat

/-! # Loops that may not end

The body of a loop gives the next state, or the value that the loop ends with. A loop is run for a
number of turns, and it ends if some number is enough.
-/

namespace Loop

universe u v

variable {σ : Type u} {ρ : Type v}

def run (body : σ → σ ⊕ ρ) : Nat → σ → Option ρ
  | 0, _ => none
  | turns + 1, s =>
    match body s with
    | .inl t => run body turns t
    | .inr r => some r

def Ends (body : σ → σ ⊕ ρ) (s : σ) : Prop := ∃ turns r, run body turns s = some r

variable {body : σ → σ ⊕ ρ} {s t : σ} {r : ρ}

lemma run_next (h : body s = .inl t) (turns : Nat) : run body (turns + 1) s = run body turns t := by
  rw [run, h]

lemma run_done (h : body s = .inr r) (turns : Nat) : run body (turns + 1) s = some r := by
  rw [run, h]

lemma ends_of_done (h : body s = .inr r) : Ends body s := ⟨1, r, run_done h 0⟩

lemma ends_next_iff (h : body s = .inl t) : Ends body s ↔ Ends body t := by
  constructor
  · rintro ⟨turns, r, hRun⟩
    cases turns with
    | zero => cases hRun
    | succ turns => exact ⟨turns, r, (run_next h turns).symm.trans hRun⟩
  · rintro ⟨turns, r, hRun⟩
    exact ⟨turns + 1, r, (run_next h turns).trans hRun⟩

variable {I : σ → Prop}

lemma run_of_measure (μ : σ → Nat) (hStep : ∀ s t, I s → body s = .inl t → I t ∧ μ t < μ s) (hInit : I s)
    {turns : Nat} (hTurns : μ s < turns) : ∃ r, run body turns s = some r := by
  induction turns generalizing s with
  | zero => exact absurd hTurns (Nat.not_lt_zero _)
  | succ turns ih =>
    cases hTurn : body s with
    | inl t =>
      obtain ⟨hNext, hLess⟩ := hStep s t hInit hTurn
      rw [run_next hTurn]
      exact ih hNext (hLess.trans_le (Nat.le_of_lt_succ hTurns))
    | inr r => exact ⟨r, run_done hTurn turns⟩

lemma ends_of_measure (μ : σ → Nat) (hStep : ∀ s t, I s → body s = .inl t → I t ∧ μ t < μ s) (hInit : I s) : Ends body s :=
  ⟨μ s + 1, run_of_measure μ hStep hInit (Nat.lt_succ_self _)⟩

lemma not_ends_of_invariant (hStep : ∀ s, I s → ∃ t, body s = .inl t ∧ I t) (hInit : I s) : ¬ Ends body s := by
  rintro ⟨turns, r, hRun⟩
  induction turns generalizing s with
  | zero => cases hRun
  | succ turns ih =>
    obtain ⟨t, hTurn, hNext⟩ := hStep s hInit
    exact ih hNext ((run_next hTurn turns).symm.trans hRun)

/-- What a search for `Q` among the indices below `n` gives: the first one, or none. -/
def Finds (Q : Nat → Prop) (n : Nat) : Option Nat → Prop
  | some i => i < n ∧ Q i ∧ ∀ j < i, ¬ Q j
  | none => ∀ i < n, ¬ Q i

variable {Q R : Nat → Prop} {n : Nat}

lemma none_before (hAgree : ∀ i < n, (∀ j < i, ¬ Q j) → (R i ↔ Q i)) {k : Nat}
    (hk : k ≤ n) (hNone : ∀ i < k, ¬ R i) : ∀ i < k, ¬ Q i := by
  intro i hi
  induction i using Nat.strongRecOn with
  | _ i ih => exact fun hQ => hNone i hi ((hAgree i (by omega) fun j hj => ih j hj (hj.trans hi)).mpr hQ)

lemma Finds.agree_iff {found : Option Nat} (h : Finds R n found) :
    Finds Q n found ↔ ∀ i < n, (∀ j < i, ¬ Q j) → (R i ↔ Q i) := by
  cases found with
  | none => exact ⟨fun hQ i hi _ => iff_of_false (h i hi) (hQ i hi), fun hAgree => none_before hAgree (Nat.le_refl n) h⟩
  | some k =>
    obtain ⟨hk, hR, hBefore⟩ := h
    constructor
    · rintro ⟨_, hQ, hBefore'⟩ i hi hNone
      rcases Nat.lt_trichotomy i k with hLt | rfl | hGt
      · exact iff_of_false (hBefore i hLt) (hBefore' i hLt)
      · exact iff_of_true hR hQ
      · exact absurd hQ (hNone k hGt)
    · intro hAgree
      have hNone := none_before hAgree hk.le hBefore
      exact ⟨hk, (hAgree k hk hNone).mp hR, hNone⟩

end Loop
