import Mathlib.Algebra.BigOperators.Group.List.Basic
import Mathlib.Algebra.Ring.Nat

/-! # Runs of a partial step function

`Run` lists the actions taken, each one under a guard on the state it starts from, and `runOut` is the executable run of
a machine that also answers every action. Invariants and simulations are proved once here.
-/

namespace Transition

open Option List

universe u v w x

/-- The actions of a run, every one allowed by `guard` in the state before it. -/
inductive Run {σ : Type u} {α : Type v} (step : σ → α → Option σ) (guard : σ → α → Prop) :
    σ → List α → σ → Prop
  | nil (s : σ) : Run step guard s [] s
  | cons {s t r : σ} {a : α} {as : List α} (hGuard : guard s a) (hStep : step s a = some t)
      (hRest : Run step guard t as r) : Run step guard s (a :: as) r

def always {σ : Type u} {α : Type v} : σ → α → Prop := fun _ _ => True

variable {σ : Type u} {α : Type v}

variable {step : σ → α → Option σ} {guard : σ → α → Prop} {I : σ → Prop} {s t : σ} {as : List α}

lemma Run.invariant (hStep : ∀ s a t, guard s a → I s → step s a = some t → I t) (h : Run step guard s as t)
    (hInit : I s) : I t := by
  induction h with
  | nil s => exact hInit
  | cons hGuard hTaken _ ih => exact ih (hStep _ _ _ hGuard hInit hTaken)

lemma Run.mono {guard' : σ → α → Prop} (hGuard : ∀ s a, guard s a → guard' s a) (h : Run step guard s as t) :
    Run step guard' s as t := by
  induction h with
  | nil s => exact .nil s
  | cons hHere hTaken _ ih => exact .cons (hGuard _ _ hHere) hTaken ih

lemma Run.lasts_or_ends {P : σ → Prop} {E : σ → α → σ → Prop}
    (hStep : ∀ s a t, guard s a → P s → step s a = some t → P t ∨ E s a t)
    (h : Run step guard s as t) (hInit : P s) :
    P t ∨ ∃ before a after u v, as = before ++ a :: after ∧ Run step guard s before u ∧ P u ∧
      step u a = some v ∧ E u a v ∧ Run step guard v after t := by
  induction h with
  | nil s => exact Or.inl hInit
  | @cons s t r a as hGuard hTaken hRest ih =>
    rcases hStep s a t hGuard hInit hTaken with hNext | hEnd
    · rcases ih hNext with hLast | ⟨before, b, after, u, v, rfl, hBefore, hu, hb, hEnd, hAfter⟩
      · exact Or.inl hLast
      · exact Or.inr ⟨a :: before, b, after, u, v, rfl, .cons hGuard hTaken hBefore, hu, hb, hEnd, hAfter⟩
    · exact Or.inr ⟨[], a, as, s, t, rfl, .nil s, hInit, hTaken, hEnd, hRest⟩

lemma Run.good_throughout_iff {ok : σ → α → Prop} {Good : σ → Prop}
    (hGood : ∀ s, I s → Good s) (hKeep : ∀ s a t, guard s a → ok s a → I s → step s a = some t → I t)
    (hSpoil : ∀ s a t, guard s a → ¬ ok s a → I s → step s a = some t → ¬ Good t)
    (h : Run step guard s as t) (hInit : I s) :
    (∀ before after u, as = before ++ after → Run step guard s before u → Good u) ↔
      Run step (fun s a => guard s a ∧ ok s a) s as t := by
  induction h with
  | nil s =>
    refine ⟨fun _ => .nil s, fun _ before after u hSplit hBefore => ?_⟩
    obtain ⟨rfl, _⟩ := append_eq_nil_iff.mp hSplit.symm
    cases hBefore
    exact hGood s hInit
  | @cons s t r a as hGuard hStep hRest ih =>
    constructor
    · intro hAll
      have hOk : ok s a := by
        by_contra hNot
        exact hSpoil s a t hGuard hNot hInit hStep (hAll [a] as t rfl (.cons hGuard hStep (.nil t)))
      refine .cons ⟨hGuard, hOk⟩ hStep ((ih (hKeep s a t hGuard hOk hInit hStep)).mp ?_)
      rintro before after u rfl hBefore
      exact hAll (a :: before) after u rfl (.cons hGuard hStep hBefore)
    · intro hStrict before after u hSplit hBefore
      obtain ⟨⟨_, hOk⟩, _, hRest'⟩ : (guard s a ∧ ok s a) ∧ step s a = some t ∧
          Run step (fun s a => guard s a ∧ ok s a) t as r := by
        cases hStrict with
        | cons hBoth hTaken hLater =>
          rw [hStep] at hTaken
          cases hTaken
          exact ⟨hBoth, hStep, hLater⟩
      cases hBefore with
      | nil => exact hGood s hInit
      | @cons _ t' _ b before hb hTaken hPrior =>
        obtain ⟨rfl, rfl⟩ := cons.inj hSplit
        rw [hStep] at hTaken
        cases hTaken
        exact (ih (hKeep s a t hGuard hOk hInit hStep)).mpr hRest' before after u rfl hPrior

def exec {σ : Type u} {α : Type v} (step : σ → α → Option σ) : σ → List α → Option σ
  | s, [] => some s
  | s, a :: as => (step s a).bind fun t => exec step t as

lemma run_of_exec (h : exec step s as = some t) : Run step always s as t := by
  induction as generalizing s with
  | nil =>
    cases h
    exact .nil _
  | cons a as ih =>
    obtain ⟨r, hStep, hRest⟩ := bind_eq_some_iff.mp h
    exact .cons trivial hStep (ih hRest)

def guarded {σ : Type u} {α : Type v} (step : σ → α → Option σ) (guard : σ → α → Prop)
    [∀ s a, Decidable (guard s a)] (s : σ) (a : α) : Option σ :=
  if guard s a then step s a else none

lemma run_of_exec_guarded [∀ s a, Decidable (guard s a)]
    (h : exec (guarded step guard) s as = some t) : Run step guard s as t := by
  induction as generalizing s with
  | nil =>
    cases h
    exact .nil _
  | cons a as ih =>
    obtain ⟨r, hStep, hRest⟩ := bind_eq_some_iff.mp h
    obtain ⟨hGuard, hTaken⟩ := ite_none_right_eq_some.mp hStep
    exact .cons hGuard hTaken (ih hRest)

def runOut {σ : Type u} {α : Type v} {β : Type w} (step : σ → α → Option (σ × β)) :
    σ → List α → Option (σ × List β)
  | s, [] => some (s, [])
  | s, a :: as => do
    let (t, b) ← step s a
    let (r, bs) ← runOut step t as
    return (r, b :: bs)

def specOut {τ : Type u} {α : Type v} {β : Type w} (spec : τ → α → τ × β) :
    τ → List α → τ × List β
  | t, [] => (t, [])
  | t, a :: as =>
    let next := spec t a
    let rest := specOut spec next.1 as
    (rest.1, next.2 :: rest.2)

variable {τ : Type v} {β : Type x}

lemma runOut_refines {α : Type w} {step : σ → α → Option (σ × β)} {spec : τ → α → τ × β}
    {R : σ → τ → Prop} (hStep : ∀ s t a, R s t → ∃ s', step s a = some (s', (spec t a).2) ∧ R s' (spec t a).1)
    (as : List α) (s : σ) (t : τ) (h : R s t) :
    ∃ s', runOut step s as = some (s', (specOut spec t as).2) ∧ R s' (specOut spec t as).1 := by
  induction as generalizing s t with
  | nil => exact ⟨s, rfl, h⟩
  | cons a as ih =>
    obtain ⟨s', hTaken, hNext⟩ := hStep s t a h
    obtain ⟨r, hRest, hFinal⟩ := ih s' (spec t a).1 hNext
    refine ⟨r, ?_, hFinal⟩
    simp only [runOut, hTaken, bind_eq_bind, bind_some, hRest]
    rfl

lemma runOut_agree {α : Type w} {stepA : σ → α → Option (σ × β)} {stepB : τ → α → Option (τ × β)} {R : σ → τ → Prop}
    (hStep : ∀ s t a, R s t → ∃ s' t' b, stepA s a = some (s', b) ∧ stepB t a = some (t', b) ∧ R s' t') (as : List α)
    (s : σ) (t : τ) (h : R s t) :
    ∃ s' t' bs, runOut stepA s as = some (s', bs) ∧ runOut stepB t as = some (t', bs) ∧ R s' t' := by
  induction as generalizing s t with
  | nil => exact ⟨s, t, [], rfl, rfl, h⟩
  | cons a as ih =>
    obtain ⟨s₁, t₁, b, hA, hB, hNext⟩ := hStep s t a h
    obtain ⟨s', t', bs, hRestA, hRestB, hFinal⟩ := ih s₁ t₁ hNext
    refine ⟨s', t', b :: bs, ?_, ?_, hFinal⟩
    · simp only [runOut, hA, bind_eq_bind, bind_some, hRestA]
      rfl
    · simp only [runOut, hB, bind_eq_bind, bind_some, hRestB]
      rfl

section

variable {σ : Type u} {α : Type v} {f : σ → α → Option σ}

variable {I : σ → Prop} {l : List α} {s t : σ}

lemma foldlM_invariant (hStep : ∀ x ∈ l, ∀ s t, I s → f s x = some t → I t) (hInit : I s)
    (h : l.foldlM f s = some t) : I t := by
  induction l generalizing s with
  | nil =>
    cases h
    exact hInit
  | cons x l ih =>
    rw [foldlM_cons] at h
    obtain ⟨r, hTurn, hRest⟩ := bind_eq_some_iff.mp h
    exact ih (fun y hy => hStep y (mem_cons_of_mem x hy)) (hStep x mem_cons_self s r hInit hTurn) hRest

lemma foldlM_total (hStep : ∀ x ∈ l, ∀ s, I s → ∃ t, f s x = some t ∧ I t)
    (hInit : I s) : ∃ t, l.foldlM f s = some t ∧ I t := by
  induction l generalizing s with
  | nil => exact ⟨s, rfl, hInit⟩
  | cons x l ih =>
    obtain ⟨r, hTurn, hNext⟩ := hStep x mem_cons_self s hInit
    obtain ⟨t, hRest, hLast⟩ := ih (fun y hy => hStep y (mem_cons_of_mem x hy)) hNext
    refine ⟨t, ?_, hLast⟩
    rw [foldlM_cons, hTurn]
    exact hRest

variable {μ : σ → Nat} {w : α → Nat}

lemma foldlM_measure (hStep : ∀ s x t, f s x = some t → μ t = μ s + w x)
    (h : l.foldlM f s = some t) : μ t = μ s + (l.map w).sum := by
  induction l generalizing s with
  | nil =>
    cases h
    rfl
  | cons x l ih =>
    rw [foldlM_cons] at h
    obtain ⟨r, hTurn, hRest⟩ := bind_eq_some_iff.mp h
    rw [ih hRest, hStep s x r hTurn, map_cons, sum_cons, Nat.add_assoc]

lemma foldlM_measure_le (hStep : ∀ s x t, f s x = some t → μ t ≤ μ s + w x)
    (h : l.foldlM f s = some t) : μ t ≤ μ s + (l.map w).sum := by
  induction l generalizing s with
  | nil =>
    cases h
    exact Nat.le_refl _
  | cons x l ih =>
    rw [foldlM_cons] at h
    obtain ⟨r, hTurn, hRest⟩ := bind_eq_some_iff.mp h
    have hHere := hStep s x r hTurn
    have hThere := ih hRest
    rw [map_cons, sum_cons]
    omega

lemma foldlM_hom {τ : Type w} {g : τ → α → Option τ} {e : σ → τ}
    (hTurn : ∀ s x, g (e s) x = (f s x).map e) (l : List α) (s : σ) :
    l.foldlM g (e s) = (l.foldlM f s).map e := by
  induction l generalizing s with
  | nil => rfl
  | cons x l ih =>
    rw [foldlM_cons, foldlM_cons, hTurn s x]
    cases f s x with
    | none => rfl
    | some t => exact ih t

end

variable {e : σ → σ} {g : α → α}

section

variable (hStep : ∀ s a, step (e s) (g a) = (step s a).map e) (h : Run step guard s as t)
include hStep h

lemma Run.exec_map : exec step (e s) (as.map g) = some (e t) := by
  induction h with
  | nil s => rfl
  | @cons s t r a as _ hTaken _ ih =>
    rw [map_cons, exec, hStep s a, hTaken]
    exact ih

lemma Run.map_eq {guard' : σ → α → Prop} {s' t' : σ} {as' : List α}
    (h' : Run step guard' s' as' t') (hInit : e s = e s') (hActions : as.map g = as'.map g) : e t = e t' := by
  have hFirst := h.exec_map hStep
  rw [hInit, hActions, h'.exec_map hStep] at hFirst
  exact (some.inj hFirst).symm

end

end Transition
