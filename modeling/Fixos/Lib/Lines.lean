import Mathlib.Data.List.Basic

/-! # Reading a file by lines

A reader stops inside a line, and then nothing behind matters, or it takes the line together with its end.
-/

namespace Lines

open List

universe u v w

section

variable {σ : Type u} {α : Type v} {β : Type w} {nl : σ}

inductive Complete (nl : σ) : List σ → Prop
  | nil : Complete nl []
  | line {text rest : List σ} (hText : nl ∉ text) (hRest : Complete nl rest) : Complete nl (text ++ nl :: rest)

lemma Complete.append {l m : List σ} (hl : Complete nl l) (hm : Complete nl m) : Complete nl (l ++ m) := by
  induction hl with
  | nil => exact hm
  | line hText _ ih =>
    rw [append_assoc, cons_append]
    exact .line hText ih

variable {text : List σ}

lemma Complete.single (hText : nl ∉ text) : Complete nl (text ++ [nl]) := .line hText .nil

/-- `P` holds of what is read when the reader stops inside, and `R` relates the end of the line to the end of the file.
-/
inductive LineRead (nl : σ) (P : α → Prop) (R : α → α → Prop) (read : List σ → α × List σ) (text : List σ) : Prop
  | within (a : α) (left : List σ) (hStop : P a) (hRead : ∀ tail, read (text ++ tail) = (a, left ++ tail))
  | whole (a last : α) (hRead : ∀ rest, read (text ++ nl :: rest) = (a, rest)) (hLast : read text = (last, []))
      (hRel : R a last)

def LeavesSuffix (read : List σ → α × List σ) : Prop := ∀ file, (read file).2 <:+ file

variable {P : α → Prop} {R : α → α → Prop} {read : List σ → α × List σ}

lemma LineRead.map {Q : β → Prop} {S : β → β → Prop} {f : α → β}
    (h : LineRead nl P R read text) (hStop : ∀ a, P a → Q (f a))
    (hRel : ∀ a b, R a b → S (f a) (f b)) : LineRead nl Q S (fun file => (f (read file).1, (read file).2)) text := by
  cases h with
  | within a left hP hRead => exact .within (f a) left (hStop a hP) fun tail => by rw [hRead tail]
  | whole a last hRead hLast hR =>
    exact .whole (f a) (f last) (fun rest => by rw [hRead rest]) (by rw [hLast]) (hRel a last hR)

lemma LineRead.cons {next : List σ → α × List σ} {c : σ}
    (h : LineRead nl P R next text) (hRead : ∀ file, read (c :: file) = next file) :
    LineRead nl P R read (c :: text) := by
  cases h with
  | within a left hP hNext => exact .within a left hP fun tail => (hRead _).trans (hNext tail)
  | whole a last hNext hLast hR => exact .whole a last (fun rest => (hRead _).trans (hNext rest)) ((hRead _).trans hLast) hR

lemma LeavesSuffix.left (h : LeavesSuffix read) {left : List σ} {a : α}
    (hRead : ∀ tail, read (text ++ tail) = (a, left ++ tail)) : left <:+ text := by
  have hText := h text
  have hNone := hRead []
  rw [append_nil, append_nil] at hNone
  rwa [hNone] at hText

end

variable {σ : Type u} {ε : Type v} {β : Type w} {act : σ → ε → σ} {view : σ → β}

def Sets (act : σ → ε → σ) (view : σ → β) (e : ε) : Prop := ∃ v, ∀ s, view (act s e) = v

def Keeps (act : σ → ε → σ) (view : σ → β) (e : ε) : Prop := ∀ s, view (act s e) = view s

variable {es : List ε}

lemma foldl_keeps (h : ∀ e ∈ es, Keeps act view e) (s : σ) : view (es.foldl act s) = view s := by
  induction es generalizing s with
  | nil => rfl
  | cons e es ih =>
    rw [foldl_cons, ih (fun x hx => h x (mem_cons_of_mem e hx)), h e mem_cons_self s]

lemma foldl_sets (h : ∀ e ∈ es, Sets act view e ∨ Keeps act view e)
    (hSets : ∃ e ∈ es, Sets act view e) : ∃ v, ∀ s, view (es.foldl act s) = v := by
  induction es with
  | nil =>
    obtain ⟨_, hMem, _⟩ := hSets
    cases hMem
  | cons e es ih =>
    have hLater : ∀ x ∈ es, Sets act view x ∨ Keeps act view x := fun x hx => h x (mem_cons_of_mem e hx)
    by_cases hNext : ∃ x ∈ es, Sets act view x
    · obtain ⟨v, hv⟩ := ih hLater hNext
      exact ⟨v, fun s => hv (act s e)⟩
    · have hKeeps : ∀ x ∈ es, Keeps act view x := fun x hx => (hLater x hx).resolve_left fun hx' => hNext ⟨x, hx, hx'⟩
      obtain ⟨x, hMem, v, hv⟩ := hSets
      -- the last effect that sets it is the first of the list
      have hHead : x = e := (mem_cons.mp hMem).resolve_right fun hx => hNext ⟨x, hx, v, hv⟩
      subst hHead
      refine ⟨v, fun s => ?_⟩
      rw [foldl_cons, foldl_keeps hKeeps, hv s]

end Lines
