import Fixos.Lib.Word

/-! # Bounds-checked copies between buffers

`memcpy` answers only when both ranges lie inside their buffers, so a run that never gets stuck on it has made no access
out of bounds.
-/

namespace Buffer

open Word List

universe u

def splice {α : Type u} (dst : List α) (pos : Nat) (src : List α) : List α :=
  dst.take pos ++ src ++ dst.drop (pos + src.length)

variable {α : Type u} {pos : Nat}

variable {dst src : List α}

lemma length_splice (h : pos + src.length ≤ dst.length) : (splice dst pos src).length = dst.length := by
  simp only [splice, length_append, length_take, length_drop]
  omega

lemma getElem?_splice (h : pos + src.length ≤ dst.length) (i : Nat) : (splice dst pos src)[i]? =
      if pos ≤ i ∧ i < pos + src.length then src[i - pos]? else dst[i]? := by
  have hTake : (dst.take pos).length = pos := by
    rw [length_take]
    omega
  have hFront : (dst.take pos ++ src).length = pos + src.length := by
    rw [length_append, hTake]
  unfold splice
  by_cases hLow : i < pos
  · rw [append_assoc, getElem?_append_left (by omega), getElem?_take_of_lt hLow, if_neg (by omega)]
  · by_cases hHigh : i < pos + src.length
    · rw [getElem?_append_left (by omega), getElem?_append_right (by omega), hTake, if_pos ⟨by omega, hHigh⟩]
    · rw [getElem?_append_right (by omega), hFront, getElem?_drop, if_neg (by omega)]
      congr 1
      omega

def memcpy {α : Type u} (dst : List α) (pos : Nat) (src : List α) (start n : Nat) : Option (List α) :=
  if pos + n ≤ dst.length ∧ start + n ≤ src.length then
    some (splice dst pos ((src.drop start).take n))
  else none

variable {n : Nat}

lemma memcpy_spec {start : Nat} (hDst : pos + n ≤ dst.length) (hSrc : start + n ≤ src.length) :
    ∃ out, memcpy dst pos src start n = some out ∧ out.length = dst.length ∧
      ∀ i, out[i]? = if pos ≤ i ∧ i < pos + n then src[i - pos + start]? else dst[i]? := by
  have hLength : ((src.drop start).take n).length = n := by
    rw [length_take, length_drop]
    omega
  have hFit : pos + ((src.drop start).take n).length ≤ dst.length := by omega
  refine ⟨_, if_pos ⟨hDst, hSrc⟩, length_splice hFit, ?_⟩
  intro i
  rw [getElem?_splice hFit, hLength]
  split
  · rw [getElem?_take_of_lt (by omega), getElem?_drop]
    congr 1
    omega
  · rfl

def store {α : Type u} (dst : List α) (pos : Nat) (x : α) : Option (List α) :=
  if pos < dst.length then some (dst.set pos x) else none

lemma store_next {front : List α} (h : front <+: dst) (hRoom : front.length < dst.length) (x : α) :
    ∃ out, store dst front.length x = some out ∧ front ++ [x] <+: out ∧ out.length = dst.length := by
  refine ⟨_, if_pos hRoom, ?_, length_set⟩
  obtain ⟨behind, rfl⟩ := h
  cases behind with
  | nil =>
    rw [append_nil] at hRoom
    exact absurd hRoom (Nat.lt_irrefl _)
  | cons y behind =>
    refine ⟨behind, ?_⟩
    rw [set_append_right _ _ (Nat.le_refl _), Nat.sub_self, set_cons_zero, append_assoc]
    rfl

lemma store_inside {front : List α} (h : front <+: dst) (hPos : pos < front.length) (x : α) :
    ∃ out, store dst pos x = some out ∧ front.set pos x <+: out ∧ out.length = dst.length := by
  refine ⟨_, if_pos (Nat.lt_of_lt_of_le hPos h.length_le), ?_, length_set⟩
  obtain ⟨behind, rfl⟩ := h
  exact ⟨behind, (set_append_left _ _ hPos).symm⟩

structure RingStore {α : Type u} (dst : List α) (pos : Nat) (src : List α) (n : Nat)
    (out : List α) : Prop where
  length_eq : out.length = dst.length
  stored : ∀ k < n, out[(pos + k) % dst.length]? = src[k]?
  kept : ∀ k, n ≤ k → k < dst.length →
    out[(pos + k) % dst.length]? = dst[(pos + k) % dst.length]?

lemma ringStore_single (hDst : pos + n ≤ dst.length) (hSrc : n ≤ src.length) (hPos : pos < dst.length) :
    ∃ out, memcpy dst pos src 0 n = some out ∧ RingStore dst pos src n out := by
  obtain ⟨out, hOut, hLength, hCells⟩ := memcpy_spec hDst (by omega : 0 + n ≤ src.length)
  refine ⟨out, hOut, hLength, ?_, ?_⟩
  · intro k _
    rw [Nat.mod_eq_of_lt (by omega), hCells, if_pos (by omega)]
    congr 1
    omega
  · intro k _ _
    rw [mod_eq_wrap (by omega), hCells]
    split <;> rw [if_neg (by omega)]

lemma ringStore_split (hDst : n ≤ dst.length) (hSrc : n ≤ src.length) (hPos : pos < dst.length)
    (hWrap : dst.length - pos < n) :
    ∃ mid out, memcpy dst pos src 0 (dst.length - pos) = some mid ∧
      memcpy mid 0 src (dst.length - pos) (n - (dst.length - pos)) = some out ∧
      RingStore dst pos src n out := by
  obtain ⟨mid, hMid, hMidLength, hMidCells⟩ := memcpy_spec (by omega : pos + (dst.length - pos) ≤ dst.length)
      (by omega : 0 + (dst.length - pos) ≤ src.length)
  obtain ⟨out, hOut, hLength, hCells⟩ := memcpy_spec (by omega : 0 + (n - (dst.length - pos)) ≤ mid.length)
      (by omega : (dst.length - pos) + (n - (dst.length - pos)) ≤ src.length)
  refine ⟨mid, out, hMid, hOut, hLength.trans hMidLength, ?_, ?_⟩
  · intro k _
    rw [mod_eq_wrap (by omega), hCells, hMidCells]
    split
    · rw [if_neg (by omega), if_pos (by omega)]
      congr 1
      omega
    · rw [if_pos (by omega)]
      congr 1
      omega
  · intro k _ _
    rw [mod_eq_wrap (by omega), hCells, hMidCells]
    split <;> rw [if_neg (by omega), if_neg (by omega)]

lemma RingStore.unique {out out' : List α} (hPos : pos < dst.length) (h : RingStore dst pos src n out)
    (h' : RingStore dst pos src n out') : out = out' := by
  apply ext_getElem?
  intro i
  by_cases hi : i < dst.length
  · -- the cell is `k` cells after the first one
    obtain ⟨k, hk, hCell⟩ : ∃ k < dst.length, (pos + k) % dst.length = i := by
      refine ⟨(i + dst.length - pos) % dst.length, Nat.mod_lt _ (by omega), ?_⟩
      rw [Nat.add_mod_mod, show pos + (i + dst.length - pos) = i + dst.length by omega, Nat.add_mod_right,
        Nat.mod_eq_of_lt hi]
    by_cases hStored : k < n
    · rw [← hCell, h.stored k hStored, h'.stored k hStored]
    · rw [← hCell, h.kept k (by omega) hk, h'.kept k (by omega) hk]
  · have hLength := h.length_eq
    have hLength' := h'.length_eq
    rw [getElem?_eq_none (by omega), getElem?_eq_none (by omega)]

/-- One cell after the other, going on at the first cell after the last one of `size`. -/
def ringFill {α : Type u} (size : Nat) : List α → Nat → List α → Option (List α)
  | dst, _, [] => some dst
  | dst, pos, item :: items =>
    if pos < dst.length then ringFill size (dst.set pos item) (if pos ≥ size - 1 then 0 else pos + 1) items else none

lemma ringFill_ringStore (src : List α) (hPos : pos < dst.length) (hFits : src.length ≤ dst.length) :
    ∃ out, ringFill dst.length dst pos src = some out ∧ RingStore dst pos src src.length out := by
  induction src generalizing dst pos with
  | nil => exact ⟨dst, rfl, rfl, fun k hk => absurd hk (Nat.not_lt_zero k), fun _ _ _ => rfl⟩
  | cons item items ih =>
    have hNext : (if pos ≥ dst.length - 1 then 0 else pos + 1) = (pos + 1) % dst.length := by
      rw [mod_eq_wrap (by omega)]
      split <;> split <;> omega
    have hLength : (dst.set pos item).length = dst.length := length_set
    have hNextLt : (pos + 1) % dst.length < (dst.set pos item).length := by
      rw [hLength]
      exact Nat.mod_lt _ (by omega)
    rw [length_cons] at hFits
    obtain ⟨out, hFill, hStore⟩ := ih hNextLt (by omega)
    rw [hLength] at hFill
    have hShift : ∀ k, ((pos + 1) % dst.length + k) % dst.length = (pos + (k + 1)) % dst.length := by
      intro k
      rw [Nat.mod_add_mod, Nat.add_assoc, Nat.add_comm 1 k]
    have hKept : ∀ k, items.length ≤ k → k < dst.length →
        out[(pos + (k + 1)) % dst.length]? = (dst.set pos item)[(pos + (k + 1)) % dst.length]? := by
      intro k hLow hHigh
      have hCell := hStore.kept k hLow (hLength.symm ▸ hHigh)
      rwa [hLength, hShift] at hCell
    refine ⟨out, ?_, hStore.length_eq.trans hLength, fun k hk => ?_, fun k hLow hHigh => ?_⟩
    · rw [ringFill, if_pos hPos, hNext, hFill]
    · rw [length_cons] at hk
      cases k with
      | zero =>
        -- the rest of the items does not come back to this cell
        have hCell := hKept (dst.length - 1) (by omega) (by omega)
        rw [show pos + (dst.length - 1 + 1) = pos + dst.length by omega, Nat.add_mod_right, Nat.mod_eq_of_lt hPos,
          getElem?_set_self hPos] at hCell
        rw [Nat.add_zero, Nat.mod_eq_of_lt hPos, hCell]
        rfl
      | succ k =>
        have hCell := hStore.stored k (by omega)
        rw [hLength, hShift] at hCell
        rw [hCell, getElem?_cons_succ]
    · rw [length_cons] at hLow
      obtain ⟨k, rfl⟩ : ∃ j, k = j + 1 := ⟨k - 1, by omega⟩
      rw [hKept k (by omega) (by omega), getElem?_set_ne]
      rw [mod_eq_wrap (by omega)]
      split <;> omega

/-- The first `n` cells of `dst` receive the items of the ring `src` from cell `pos` on. -/
structure RingLoad {α : Type u} (dst src : List α) (pos n : Nat) (out : List α) : Prop where
  length_eq : out.length = dst.length
  loaded : ∀ k < n, out[k]? = src[(pos + k) % src.length]?
  kept : ∀ k, n ≤ k → out[k]? = dst[k]?

lemma ringLoad_single (hDst : n ≤ dst.length) (hSrc : pos + n ≤ src.length) :
    ∃ out, memcpy dst 0 src pos n = some out ∧ RingLoad dst src pos n out := by
  obtain ⟨out, hOut, hLength, hCells⟩ := memcpy_spec (by omega : 0 + n ≤ dst.length) hSrc
  refine ⟨out, hOut, hLength, ?_, ?_⟩
  · intro k hk
    rw [Nat.mod_eq_of_lt (by omega), hCells, if_pos (by omega)]
    congr 1
    omega
  · intro k hk
    rw [hCells, if_neg (by omega)]

lemma ringLoad_split (hDst : n ≤ dst.length) (hSrc : n ≤ src.length) (hPos : pos < src.length)
    (hWrap : src.length - pos < n) :
    ∃ mid out, memcpy dst 0 src pos (src.length - pos) = some mid ∧
      memcpy mid (src.length - pos) src 0 (n - (src.length - pos)) = some out ∧
      RingLoad dst src pos n out := by
  obtain ⟨mid, hMid, hMidLength, hMidCells⟩ := memcpy_spec (by omega : 0 + (src.length - pos) ≤ dst.length)
      (by omega : pos + (src.length - pos) ≤ src.length)
  obtain ⟨out, hOut, hLength, hCells⟩ := memcpy_spec (by omega : (src.length - pos) + (n - (src.length - pos)) ≤ mid.length)
      (by omega : 0 + (n - (src.length - pos)) ≤ src.length)
  refine ⟨mid, out, hMid, hOut, hLength.trans hMidLength, ?_, ?_⟩
  · intro k hk
    rw [mod_eq_wrap (by omega), hCells, hMidCells]
    by_cases hEnd : pos + k < src.length
    · rw [if_neg (by omega), if_pos (by omega), if_pos hEnd]
      congr 1
      omega
    · rw [if_pos (by omega), if_neg hEnd]
      congr 1
      omega
  · intro k hk
    rw [hCells, hMidCells, if_neg (by omega), if_neg (by omega)]

end Buffer

namespace BoundedQueue

universe u

def push {α : Type u} (capacity : Nat) (items data : List α) : List α :=
  items ++ data.take (capacity - items.length)

def pop {α : Type u} (items : List α) (n : Nat) : List α × List α :=
  (items.take n, items.drop n)

end BoundedQueue
