import Fixos.Lib.Word

/-! # Searches around a cycle

A search goes from each position to the next one and wraps around; the distance of a position is the number of steps to
it.
-/

namespace Cyclic

def search (n : Nat) (pass : Nat → Bool) : Nat → Nat → Option Nat
  | 0, _ => none
  | fuel + 1, i => if pass i then search n pass fuel ((i + 1) % n) else some i

def dist (n i j : Nat) : Nat := if i ≤ j then j - i else j + n - i

section

variable {n i j k : Nat}

lemma next_eq (hi : i < n) : (i + 1) % n = if i + 1 < n then i + 1 else i + 1 - n := Word.mod_eq_wrap (by omega)

lemma dist_self : dist n i i = 0 := by simp [dist]

lemma dist_pos (hi : i < n) (hNe : i ≠ j) : 0 < dist n i j := by
  unfold dist
  split <;> omega

section

variable (hi : i < n) (hj : j < n)
include hi hj

lemma dist_lt : dist n i j < n := by
  unfold dist
  split <;> omega

lemma dist_next (hNe : i ≠ j) : dist n i j = dist n ((i + 1) % n) j + 1 := by
  rw [next_eq hi]
  unfold dist
  split <;> split <;> split <;> omega

lemma dist_move {r : Nat} (hk : k < n) (hr : r < n) (hWay : dist n i k < dist n i j)
    (hMove : dist n ((k + 1) % n) r ≤ dist n ((k + 1) % n) j) : r ≠ i ∧ (r = j ∨ dist n i r < dist n i j) := by
  rw [next_eq hk] at hMove
  unfold dist at *
  split at hMove <;> split at hMove <;> split at hMove <;> split at hWay <;> split at hWay <;> split <;> omega

lemma dist_next_lt (hk : k < n) (hNear : dist n i k ≤ dist n i j) (hNe : k ≠ j) : dist n ((k + 1) % n) j < dist n i j := by
  rw [next_eq hk]
  unfold dist at *
  split at hNear <;> split at hNear <;> split <;> split <;> omega

end

end

variable {n fuel i j r : Nat} {pass : Nat → Bool}

lemma search_stops (h : search n pass fuel i = some r) : pass r = false := by
  induction fuel generalizing i with
  | zero => cases h
  | succ fuel ih =>
    rw [search] at h
    split_ifs at h with hStop
    · exact ih h
    · cases h
      exact Bool.not_eq_true _ ▸ hStop

lemma search_lt (hi : i < n) (h : search n pass fuel i = some r) : r < n := by
  induction fuel generalizing i with
  | zero => cases h
  | succ fuel ih =>
    rw [search] at h
    split at h
    · exact ih (Nat.mod_lt _ (by omega)) h
    · cases h
      exact hi

lemma search_reaches (pass : Nat → Bool) (hi : i < n) (hj : j < n) (hStop : pass j = false) (hFuel : dist n i j < fuel) :
    ∃ r, search n pass fuel i = some r ∧ dist n i r ≤ dist n i j := by
  induction fuel generalizing i with
  | zero => omega
  | succ fuel ih =>
    rw [search]
    split_ifs with hPass
    · have hNe : i ≠ j := by
        rintro rfl
        rw [hStop] at hPass
        cases hPass
      have hNext : (i + 1) % n < n := Nat.mod_lt _ (by omega)
      have hStep := dist_next hi hj hNe
      obtain ⟨r, hFound, _⟩ := ih hNext (by omega)
      refine ⟨r, hFound, ?_⟩
      have hr := search_lt hNext hFound
      have hNeR : i ≠ r := by
        rintro rfl
        rw [search_stops hFound] at hPass
        cases hPass
      have hStepR := dist_next hi hr hNeR
      omega
    · exact ⟨i, rfl, by rw [dist_self]; exact Nat.zero_le _⟩

lemma search_eq_none_iff (hi : i < n) : search n pass n i = none ↔ ∀ j < n, pass j = true := by
  constructor
  · intro hNone j hj
    cases hPass : pass j with
    | true => rfl
    | false =>
      obtain ⟨r, hFound, _⟩ := search_reaches pass hi hj hPass (dist_lt hi hj)
      rw [hNone] at hFound
      cases hFound
  · intro hAll
    cases hSearch : search n pass n i with
    | none => rfl
    | some r =>
      have hStop := search_stops hSearch
      rw [hAll r (search_lt hi hSearch)] at hStop
      cases hStop

lemma findSome?_eq_search {β : Type} (f : Nat → Option β) (fuel : Nat) (hi : i < n) :
    (List.range fuel).findSome? (fun d => f ((i + d) % n)) = (search n (fun j => (f j).isNone) fuel i).bind f := by
  induction fuel generalizing i with
  | zero => rfl
  | succ fuel ih =>
    have hNext : ∀ d, (i + (d + 1)) % n = ((i + 1) % n + d) % n := by
      intro d
      rw [Nat.mod_add_mod]
      congr 1
      omega
    have hRest := ih (Nat.mod_lt (i + 1) (Nat.zero_lt_of_lt hi))
    rw [List.range_succ_eq_map, List.findSome?_cons, List.findSome?_map, Nat.add_zero, Nat.mod_eq_of_lt hi, search]
    cases hHere : f i with
    | some b =>
      rw [Option.isNone_some, if_neg Bool.false_ne_true, Option.bind_some, hHere]
    | none =>
      rw [Option.isNone_none, if_pos rfl, ← hRest]
      exact congrArg (List.findSome? · (List.range fuel)) (funext fun d => congrArg f (hNext d))

end Cyclic
