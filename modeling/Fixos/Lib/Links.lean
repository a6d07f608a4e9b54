import Mathlib.Data.List.Nodup

/-! # Linked lists in memory

The links are functions from nodes to nodes. `Walk` follows the forward links over the nodes of a list, and `DList` adds
the backward links and a null node at both ends.
-/

namespace Links

open List Function

universe u

variable {P : Type u}

def Walk (next : P → P) : P → List P → P → Prop
  | p, [], q => p = q
  | p, r :: l, q => p = r ∧ Walk next (next r) l q

section

variable {next next' : P → P} {p q : P} {l l' : List P}

lemma walk_append : Walk next p (l ++ l') q ↔ ∃ mid, Walk next p l mid ∧ Walk next mid l' q := by
  induction l generalizing p with
  | nil => simp [Walk]
  | cons r l ih => simp [Walk, ih, and_assoc]

lemma Walk.congr (h : Walk next p l q) (hSame : ∀ r ∈ l, next' r = next r) : Walk next' p l q := by
  induction l generalizing p with
  | nil => exact h
  | cons r l ih =>
    obtain ⟨rfl, hRest⟩ := h
    refine ⟨rfl, ?_⟩
    rw [hSame p mem_cons_self]
    exact ih hRest fun r hr => hSame r (mem_cons_of_mem p hr)

lemma walk_concat {r : P} : Walk next p (l ++ [r]) q ↔ Walk next p l r ∧ next r = q := by
  rw [walk_append]
  constructor
  · rintro ⟨_, hWalk, rfl, hNext⟩
    exact ⟨hWalk, hNext⟩
  · rintro ⟨hWalk, hNext⟩
    exact ⟨r, hWalk, rfl, hNext⟩

end

def Back (prev : P → P) : P → List P → Prop
  | _, [] => True
  | b, r :: l => prev r = b ∧ Back prev r l

section

variable {prev prev' : P → P} {b : P} {l l' : List P}

lemma back_append : Back prev b (l ++ l') ↔ Back prev b l ∧ Back prev (l.getLastD b) l' := by
  induction l generalizing b with
  | nil => simp [Back]
  | cons r l ih => rw [cons_append, Back, Back, ih, getLastD_cons, and_assoc]

lemma Back.congr (h : Back prev b l) (hSame : ∀ r ∈ l, prev' r = prev r) : Back prev' b l := by
  induction l generalizing b with
  | nil => trivial
  | cons r l ih =>
    obtain ⟨hPrev, hRest⟩ := h
    exact ⟨(hSame r mem_cons_self).trans hPrev, ih hRest fun r hr => hSame r (mem_cons_of_mem _ hr)⟩

end

structure DList (next prev : P → P) (null head : P) (l : List P) : Prop where
  walk : Walk next head l null
  back : Back prev null l
  nodup : l.Nodup
  proper : null ∉ l

section

variable {next prev next' prev' : P → P} {null head cur r : P} {front back l : List P}

lemma dlist_nil (next prev : P → P) (null : P) : DList next prev null null [] := ⟨rfl, trivial, nodup_nil, not_mem_nil⟩

lemma DList.congr (h : DList next prev null head l) (hNext : ∀ p ∈ l, next' p = next p)
    (hPrev : ∀ p ∈ l, prev' p = prev p) : DList next' prev' null head l :=
  ⟨h.walk.congr hNext, h.back.congr hPrev, h.nodup, h.proper⟩

lemma DList.prev_eq (h : DList next prev null head (front ++ cur :: back)) : prev cur = front.getLastD null :=
  (back_append.mp h.back).2.1

lemma DList.singleton (hr : r ≠ null) (hNext : next' r = null) (hPrev : prev' r = null) : DList next' prev' null r [r] where
  walk := ⟨rfl, hNext⟩
  back := ⟨hPrev, trivial⟩
  nodup := nodup_singleton r
  proper := fun hMem => hr (mem_singleton.mp hMem).symm

lemma DList.concat (h : DList next prev null head (front ++ [cur])) (hr : r ≠ null)
    (hNew : r ∉ front ++ [cur]) (hNextSame : ∀ p ∈ front, next' p = next p) (hNextCur : next' cur = r)
    (hNextNew : next' r = null) (hPrevSame : ∀ p ∈ front ++ [cur], prev' p = prev p)
    (hPrevNew : prev' r = cur) : DList next' prev' null head (front ++ [cur, r]) := by
  have hSplit : front ++ [cur, r] = (front ++ [cur]) ++ [r] := by simp
  rw [hSplit]
  constructor
  case walk =>
    have hFront := (walk_concat.mp h.walk).1
    exact walk_concat.mpr ⟨walk_concat.mpr ⟨hFront.congr hNextSame, hNextCur⟩, hNextNew⟩
  case back =>
    refine back_append.mpr ⟨h.back.congr hPrevSame, ?_, trivial⟩
    rw [hPrevNew, getLastD_concat]
  case nodup => exact List.Nodup.append h.nodup (nodup_singleton r) (by simpa using hNew)
  case proper =>
    rw [mem_append, mem_singleton, not_or]
    exact ⟨h.proper, hr.symm⟩

lemma DList.insert_before [DecidableEq P] (h : DList next prev null head (front ++ cur :: back))
    (hr : r ≠ null) (hNew : r ∉ front ++ cur :: back)
    (hNextSame : ∀ p ∈ front ++ cur :: back, next' p = if p = prev cur then r else next p)
    (hNextNew : next' r = cur)
    (hPrevSame : ∀ p ∈ front ++ cur :: back, prev' p = if p = cur then r else prev p)
    (hPrevNew : prev' r = prev cur) :
    DList next' prev' null (if prev cur = null then r else head) (front ++ r :: cur :: back) := by
  have hPrev := h.prev_eq
  obtain ⟨hFrontNodup, hBackNodup, hAcross⟩ := nodup_append.mp h.nodup
  have hCurBack := (nodup_cons.mp hBackNodup).1
  -- the last node of the front is not met again behind it
  have hRest : ∀ p ∈ cur :: back, next' p = next p := by
    intro p hp
    rw [hNextSame p (mem_append_right front hp), if_neg]
    rintro rfl
    rcases eq_nil_or_concat front with rfl | ⟨init, last, rfl⟩
    · rw [hPrev] at hp
      exact h.proper (mem_append_right _ hp)
    · rw [hPrev, concat_eq_append, getLastD_concat] at hp
      exact hAcross last (by simp) last hp rfl
  obtain ⟨mid, hFront, hBack⟩ := walk_append.mp h.walk
  obtain rfl : mid = cur := hBack.1
  constructor
  case walk =>
    rw [walk_append]
    refine ⟨r, ?_, rfl, ?_⟩
    · rcases eq_nil_or_concat front with rfl | ⟨init, last, rfl⟩
      · rw [hPrev]
        exact if_pos rfl
      · rw [concat_eq_append] at *
        rw [getLastD_concat] at hPrev
        obtain ⟨hInit, _⟩ := walk_concat.mp hFront
        have hNotNull : last ≠ null := by
          rintro rfl
          exact h.proper (by simp)
        rw [hPrev, if_neg hNotNull, walk_concat]
        refine ⟨hInit.congr fun p hp => ?_, ?_⟩
        · rw [hNextSame p (by simp [hp]), if_neg]
          rw [hPrev]
          rintro rfl
          exact (nodup_append.mp hFrontNodup).2.2 p hp p (by simp) rfl
        · rw [hNextSame last (by simp), if_pos hPrev.symm]
    · rw [hNextNew]
      exact hBack.congr hRest
  case back =>
    obtain ⟨hFrontBack, _, hBehind⟩ := back_append.mp h.back
    refine back_append.mpr ⟨hFrontBack.congr fun p hp => ?_, ?_, ?_, hBehind.congr fun p hp => ?_⟩
    · rw [hPrevSame p (mem_append_left _ hp), if_neg]
      rintro rfl
      exact hAcross p hp p mem_cons_self rfl
    · rw [hPrevNew, hPrev]
    · rw [hPrevSame mid (by simp), if_pos rfl]
    · rw [hPrevSame p (by simp [hp]), if_neg]
      rintro rfl
      exact hCurBack hp
  case nodup =>
    have hPerm : (front ++ r :: mid :: back).Perm (r :: (front ++ mid :: back)) := perm_middle
    exact hPerm.nodup_iff.mpr (nodup_cons.mpr ⟨hNew, h.nodup⟩)
  case proper =>
    intro hMem
    rcases mem_append.mp hMem with hFrontMem | hMem
    · exact h.proper (mem_append_left _ hFrontMem)
    · rcases mem_cons.mp hMem with rfl | hBackMem
      · exact hr rfl
      · exact h.proper (mem_append_right _ hBackMem)

end

/-- Follows the links to the first node at which `stop` holds, for at most `fuel` nodes. -/
def advance (stop : P → Bool) (next : P → P) : Nat → P → Option P
  | 0, _ => none
  | fuel + 1, p => if stop p then some p else advance stop next fuel (next p)

variable {stop : P → Bool} {next : P → P} {p q : P} {l : List P} {fuel : Nat}

lemma advance_walk (h : Walk next p l q) (hStop : stop q) (hFuel : l.length < fuel) :
    advance stop next fuel p = some ((l.find? stop).getD q) := by
  induction l generalizing p fuel with
  | nil =>
    obtain rfl : p = q := h
    obtain ⟨fuel, rfl⟩ := Nat.exists_eq_add_of_lt hFuel
    rw [advance, if_pos hStop]
    rfl
  | cons r l ih =>
    obtain ⟨rfl, hRest⟩ := h
    obtain ⟨fuel, rfl⟩ : ∃ k, fuel = k + 1 := ⟨fuel - 1, by omega⟩
    rw [advance]
    by_cases hHere : stop p
    · rw [if_pos hHere, find?_cons_of_pos hHere]
      rfl
    · rw [if_neg hHere, find?_cons_of_neg hHere]
      rw [length_cons] at hFuel
      exact ih hRest (by omega)

/-- The same loop, which also keeps the node before. -/
def advancePair (stop : P → Bool) (next : P → P) : Nat → P → P → Option (P × P)
  | 0, _, _ => none
  | fuel + 1, prev, p => if stop p then some (prev, p) else advancePair stop next fuel p (next p)

lemma advancePair_walk {prev cur : P} {front : List P}
    (h : Walk next p front cur) (hFront : ∀ r ∈ front, stop r = false) (hStop : stop cur)
    (hFuel : front.length < fuel) : advancePair stop next fuel prev p = some (front.getLastD prev, cur) := by
  induction front generalizing p prev fuel with
  | nil =>
    obtain rfl : p = cur := h
    obtain ⟨fuel, rfl⟩ := Nat.exists_eq_add_of_lt hFuel
    rw [advancePair, if_pos hStop]
    rfl
  | cons r front ih =>
    obtain ⟨rfl, hRest⟩ := h
    rw [length_cons] at hFuel
    obtain ⟨fuel, rfl⟩ : ∃ k, fuel = k + 1 := ⟨fuel - 1, by omega⟩
    rw [advancePair, hFront p mem_cons_self, if_neg Bool.false_ne_true, getLastD_cons]
    exact ih hRest (fun r hr => hFront r (mem_cons_of_mem p hr)) (by omega)

lemma Walk.unlink [DecidableEq P] {null cur : P} {front back : List P}
    (h : Walk next p (front ++ cur :: back) q) (hNodup : (front ++ cur :: back).Nodup)
    (hProper : null ∉ front ++ cur :: back) :
    Walk (if front.getLastD null = null then next else update next (front.getLastD null) (next cur))
      (if front.getLastD null = null then next cur else p) (front ++ back) q := by
  obtain ⟨mid, hFront, rfl, hBack⟩ := walk_append.mp h
  rcases eq_nil_or_concat front with rfl | ⟨init, last, rfl⟩
  · rw [getLastD_nil, if_pos rfl, if_pos rfl]
    exact hBack
  · rw [concat_eq_append] at *
    rw [getLastD_concat, if_neg fun hNull => hProper (by simp [hNull]), if_neg fun hNull => hProper (by simp [hNull])]
    obtain ⟨hInit, _⟩ := walk_concat.mp hFront
    have hLast : last ∉ init ∧ last ∉ back := by
      rw [append_assoc, nodup_append] at hNodup
      obtain ⟨_, hTail, hAcross⟩ := hNodup
      refine ⟨fun hMem => hAcross last hMem last (by simp) rfl, fun hMem => ?_⟩
      exact (nodup_cons.mp hTail).1 (mem_cons_of_mem mid hMem)
    refine walk_append.mpr ⟨next mid, walk_concat.mpr ⟨?_, update_self _ _ _⟩, ?_⟩
    · exact hInit.congr fun r hr => update_of_ne (ne_of_mem_of_not_mem hr hLast.1) _ _
    · exact hBack.congr fun r hr => update_of_ne (ne_of_mem_of_not_mem hr hLast.2) _ _

def follow (next : P → P) : Nat → P → List P
  | 0, _ => []
  | n + 1, p => p :: follow next n (next p)

lemma follow_walk (h : Walk next p l q) : follow next l.length p = l := by
  induction l generalizing p with
  | nil => rfl
  | cons r l ih =>
    obtain ⟨rfl, hRest⟩ := h
    rw [length_cons, follow, ih hRest]

def collect [DecidableEq P] (next : P → P) (null : P) : Nat → P → List P
  | 0, _ => []
  | fuel + 1, p => if p = null then [] else p :: collect next null fuel (next p)

lemma collect_walk [DecidableEq P] {null : P} (h : Walk next p l null) (hProper : null ∉ l) (hFuel : l.length ≤ fuel) :
    collect next null fuel p = l := by
  induction l generalizing p fuel with
  | nil =>
    obtain rfl : p = null := h
    cases fuel with
    | zero => rfl
    | succ fuel => exact if_pos rfl
  | cons r l ih =>
    obtain ⟨rfl, hRest⟩ := h
    rw [length_cons] at hFuel
    obtain ⟨fuel, rfl⟩ : ∃ k, fuel = k + 1 := ⟨fuel - 1, by omega⟩
    rw [collect, if_neg fun hNull => hProper (by simp [hNull]),
      ih hRest (fun hMem => hProper (mem_cons_of_mem _ hMem)) (by omega)]

end Links
