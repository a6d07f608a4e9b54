import Mathlib.Data.List.Basic

/-! # Records of several slots

A record is a head and the slots that belong to it. The first slot that neither continues the table nor belongs to a
record ends it, and a reader goes from head to head.
-/

namespace Fixos.Records

open Option List

variable {α : Type}

/-- Which slots continue the table, and which ones belong to the record before them. -/
structure Format (α : Type) where
  goesOn : α → Bool
  isTail : α → Bool

/-- The first slot from a place on that does not belong to the record before; `none` behind the last slot. -/
def skipTail (format : Format α) (slots : List α) (place : Nat) : Option Nat :=
  match h : slots[place]? with
  | none => none
  | some slot => if format.isTail slot then skipTail format slots (place + 1) else some place
termination_by slots.length - place
decreasing_by
  have hIn := (List.getElem?_eq_some_iff.mp h).1
  omega

lemma le_of_skipTail {format : Format α} {slots : List α} {place next : Nat} (h : skipTail format slots place = some next) :
    place ≤ next := by
  fun_induction skipTail format slots place with
  | case1 => exact absurd h (by simp)
  | case2 place slot hSlot hTail ih => exact Nat.le_of_succ_le (ih h)
  | case3 => exact Nat.le_of_eq (some.inj h)

/-- The first head from `place` on that is looked for; the one at `place` is left out with `skip`. -/
def walk (format : Format α) (found : Nat → α → Option Bool) (slots : List α) (skip : Bool) (place : Nat) :
    Option (Option Nat) :=
  match _ : slots[place]? with
  | none => none
  | some slot =>
    if format.goesOn slot then
      (if skip then some false else found place slot).bind fun hit =>
        if hit then some (some place)
        else
          match _ : skipTail format slots (place + 1) with
          | none => none
          | some next => walk format found slots false next
    else some none
termination_by slots.length - place
decreasing_by
  have hIn := (List.getElem?_eq_some_iff.mp ‹slots[place]? = some slot›).1
  have hLe := le_of_skipTail ‹skipTail format slots (place + 1) = some next›
  omega

def collect (next : Option Nat → Option (Option Nat)) : Nat → Option Nat → Option (List Nat)
  | 0, _ => none
  | calls + 1, prev => (next prev).bind fun
    | none => some []
    | some place => (collect next calls (some place)).map (place :: ·)

structure Record (format : Format α) where
  head : α
  tail : List α
  goesOn : format.goesOn head = true
  tails : ∀ slot ∈ tail, format.isTail slot = true
  isHead : format.isTail head = false

def Record.slots {format : Format α} (record : Record format) : List α := record.head :: record.tail

/-- The records, the slot that ends the table and whatever is behind it. -/
structure Table (format : Format α) where
  records : List (Record format)
  stop : α
  behind : List α
  ends : format.goesOn stop = false
  isHead : format.isTail stop = false

def Table.slots {format : Format α} (table : Table format) : List α :=
  table.records.flatMap Record.slots ++ table.stop :: table.behind

def headsFrom {format : Format α} : Nat → List (Record format) → List (Nat × α)
  | _, [] => []
  | place, record :: records => (place, record.head) :: headsFrom (place + record.slots.length) records

def Table.heads {format : Format α} (table : Table format) : List (Nat × α) := headsFrom 0 table.records

section

variable {format : Format α} {found : Nat → α → Option Bool} {stop : α} {front behind : List α} {record : Record format}
  {records : List (Record format)} {p : Nat × α → Bool}

variable {slots : List α} {place : Nat} {slot : α}

lemma skipTail_of_slot (h : slots[place]? = some slot) :
    skipTail format slots place = if format.isTail slot then skipTail format slots (place + 1) else some place := by
  rw [skipTail]
  split
  · rename_i hNone
    rw [h] at hNone
    exact absurd hNone (by simp)
  · rename_i slot' hSlot
    rw [h] at hSlot
    rw [some.inj hSlot]

lemma walk_of_slot (skip : Bool) (h : slots[place]? = some slot) : walk format found slots skip place =
      if format.goesOn slot then
        (if skip then some false else found place slot).bind fun hit =>
          if hit then some (some place) else (skipTail format slots (place + 1)).bind (walk format found slots false)
      else some none := by
  rw [walk]
  split
  · rename_i hNone
    rw [h] at hNone
    exact absurd hNone (by simp)
  · rename_i slot' hSlot
    rw [h] at hSlot
    rw [some.inj hSlot]
    congr 2
    funext hit
    congr 1
    split
    · rename_i hSkip
      rw [hSkip, bind_none]
    · rename_i hSkip
      rw [hSkip, bind_some]

lemma getElem?_front (front rest : List α) (slot : α) : (front ++ slot :: rest)[front.length]? = some slot := by
  rw [getElem?_append_right (Nat.le_refl _), Nat.sub_self, getElem?_cons_zero]

lemma skipTail_append {tail : List α} (hTail : ∀ slot ∈ tail, format.isTail slot = true) {next : α}
    (hNext : format.isTail next = false) (front rest : List α) :
    skipTail format (front ++ (tail ++ next :: rest)) front.length = some (front.length + tail.length) := by
  induction tail generalizing front with
  | nil =>
    rw [nil_append, skipTail_of_slot (getElem?_front front rest next), hNext]
    rfl
  | cons slot tail ih =>
    have hHere := hTail slot mem_cons_self
    have hStep := ih (fun s hs => hTail s (mem_cons_of_mem _ hs)) (front ++ [slot])
    rw [append_assoc, length_append, length_singleton] at hStep
    rw [cons_append, skipTail_of_slot (getElem?_front front _ slot), if_pos hHere, ← singleton_append, hStep,
      length_cons, Nat.add_assoc, Nat.add_comm 1]

lemma exists_head (records : List (Record format)) (hStop : format.isTail stop = false) (behind : List α) :
    ∃ next rest, records.flatMap Record.slots ++ stop :: behind = next :: rest ∧ format.isTail next = false := by
  cases records with
  | nil => exact ⟨stop, behind, rfl, hStop⟩
  | cons record records => exact ⟨record.head, _, rfl, record.isHead⟩

variable {rest : List α}

lemma walk_next {next : α} (skip : Bool) (hNot : skip = true ∨ found front.length record.head = some false)
    (hNext : format.isTail next = false) :
    walk format found (front ++ (record.slots ++ next :: rest)) skip front.length =
      walk format found (front ++ (record.slots ++ next :: rest)) false (front ++ record.slots).length := by
  have hTest : (if skip then some false else found front.length record.head) = some false := by
    rcases hNot with rfl | hFound
    · rfl
    · rw [hFound, ite_self]
  have hSkip := skipTail_append record.tails hNext (front ++ [record.head]) rest
  rw [append_assoc, length_append, length_singleton, singleton_append] at hSkip
  have hSlots : record.slots ++ next :: rest = record.head :: (record.tail ++ next :: rest) := rfl
  rw [hSlots, walk_of_slot skip (getElem?_front front _ record.head), if_pos record.goesOn, hTest, bind_some,
    if_neg Bool.false_ne_true, hSkip, bind_some, length_append, Record.slots, length_cons]
  congr 1
  omega

lemma walk_hit (hFound : found front.length record.head = some true) :
    walk format found (front ++ (record.slots ++ rest)) false front.length = some (some front.length) := by
  have hSlots : record.slots ++ rest = record.head :: (record.tail ++ rest) := rfl
  rw [hSlots, walk_of_slot false (getElem?_front front _ record.head), if_pos record.goesOn, if_neg Bool.false_ne_true,
    hFound]
  rfl

lemma walk_stop (hEnds : format.goesOn stop = false) :
    walk format found (front ++ stop :: behind) false front.length = some none := by
  rw [walk_of_slot false (getElem?_front front _ stop), hEnds]
  rfl

section

variable (hEnds : format.goesOn stop = false) (hStop : format.isTail stop = false)
include hEnds hStop

omit hEnds hStop in
lemma headsFrom_cons (front : List α) (record : Record format) (records : List (Record format)) :
    headsFrom front.length (record :: records) =
      (front.length, record.head) :: headsFrom (front ++ record.slots).length records := by
  rw [length_append, headsFrom]

lemma walk_records (front : List α) (hFound : ∀ e ∈ headsFrom front.length records, found e.1 e.2 = some (p e)) :
    walk format found (front ++ (records.flatMap Record.slots ++ stop :: behind)) false front.length =
      some (((headsFrom front.length records).find? p).map Prod.fst) := by
  induction records generalizing front with
  | nil => exact walk_stop hEnds
  | cons record records ih =>
    rw [headsFrom_cons] at hFound ⊢
    have hHere := hFound (front.length, record.head) mem_cons_self
    rw [flatMap_cons, append_assoc]
    cases hp : p (front.length, record.head) with
    | true =>
      rw [hp] at hHere
      rw [walk_hit hHere, find?_cons_of_pos hp]
      rfl
    | false =>
      rw [hp] at hHere
      obtain ⟨_, _, hBehind, hNext⟩ := exists_head records hStop behind
      have hRest := ih (front ++ record.slots) fun e he => hFound e (mem_cons_of_mem _ he)
      rw [append_assoc, hBehind] at hRest
      rw [hBehind, walk_next false (Or.inr hHere) hNext, hRest, find?_cons_of_neg (by simp [hp])]

/-- The induction is on the records from the place on that the next walk starts at, whatever has been found before. -/
lemma collect_records (front : List α) (hFound : ∀ e ∈ headsFrom front.length records, found e.1 e.2 = some (p e))
    {next : Option Nat → Option (Option Nat)} {slots : List α}
    (hSlots : slots = front ++ (records.flatMap Record.slots ++ stop :: behind))
    (hAgain : ∀ place, next (some place) = walk format found slots true place) {prev : Option Nat}
    (hPrev : next prev = walk format found slots false front.length) {calls : Nat}
    (hCalls : ((headsFrom front.length records).filter p).length < calls) :
    collect next calls prev = some (((headsFrom front.length records).filter p).map Prod.fst) := by
  induction records generalizing front prev calls with
  | nil =>
    obtain ⟨calls, rfl⟩ := Nat.exists_eq_add_one_of_ne_zero (Nat.ne_zero_of_lt hCalls)
    rw [collect, hPrev, hSlots]
    rw [flatMap_nil, nil_append, walk_stop hEnds]
    rfl
  | cons record records ih =>
    rw [headsFrom_cons] at hFound hCalls ⊢
    have hHere := hFound (front.length, record.head) mem_cons_self
    have hRest := ih (front ++ record.slots) fun e he => hFound e (mem_cons_of_mem _ he)
    rw [flatMap_cons, append_assoc] at hSlots
    replace hRest := @hRest (by rw [hSlots, append_assoc])
    have hSkip : ∀ skip, skip = true ∨ found front.length record.head = some false →
        walk format found slots skip front.length = walk format found slots false (front ++ record.slots).length := by
      intro skip hNot
      obtain ⟨_, _, hBehind, hAfter⟩ := exists_head records hStop behind
      rw [hSlots, hBehind]
      exact walk_next skip hNot hAfter
    cases hp : p (front.length, record.head) with
    | true =>
      rw [hp] at hHere
      rw [filter_cons_of_pos hp, length_cons] at hCalls
      obtain ⟨calls, rfl⟩ := Nat.exists_eq_add_one_of_ne_zero (Nat.ne_zero_of_lt hCalls)
      have hWalk : walk format found slots false front.length = some (some front.length) := by
        rw [hSlots]
        exact walk_hit hHere
      rw [collect, hPrev, hWalk, bind_some, filter_cons_of_pos hp]
      dsimp only
      rw [hRest ((hAgain _).trans (hSkip true (Or.inl rfl))) (Nat.lt_of_succ_lt_succ hCalls)]
      rfl
    | false =>
      rw [hp] at hHere
      have hSame : ¬ p (front.length, record.head) = true := by simp [hp]
      rw [filter_cons_of_neg hSame] at hCalls ⊢
      exact hRest (hPrev.trans (hSkip false (Or.inr hHere))) hCalls

end

end

variable {format : Format α} {found : Nat → α → Option Bool} {p : Nat × α → Bool} (table : Table format)
  (hFound : ∀ e ∈ table.heads, found e.1 e.2 = some (p e))
include hFound

lemma walk_eq_find : walk format found table.slots false 0 = some ((table.heads.find? p).map Prod.fst) :=
  walk_records table.ends table.isHead [] hFound

lemma collect_eq_filter {next : Option Nat → Option (Option Nat)}
    (hFirst : next none = walk format found table.slots false 0)
    (hAgain : ∀ place, next (some place) = walk format found table.slots true place) {calls : Nat}
    (hCalls : (table.heads.filter p).length < calls) :
    collect next calls none = some ((table.heads.filter p).map Prod.fst) :=
  collect_records table.ends table.isHead [] hFound rfl hAgain hFirst hCalls

omit hFound

lemma headsFrom_at (stop : α) (behind : List α) (records : List (Record format)) (front : List α) :
    ∀ e ∈ headsFrom front.length records, front.length ≤ e.1 ∧
      (front ++ (records.flatMap Record.slots ++ stop :: behind))[e.1]? = some e.2 := by
  induction records generalizing front with
  | nil => exact fun e he => absurd he not_mem_nil
  | cons record records ih =>
    rw [headsFrom_cons, flatMap_cons, append_assoc]
    intro e he
    rcases mem_cons.mp he with rfl | hRest
    · exact ⟨Nat.le_refl _, getElem?_front front _ record.head⟩
    · obtain ⟨hLe, hSlot⟩ := ih (front ++ record.slots) e hRest
      rw [length_append] at hLe
      rw [append_assoc] at hSlot
      exact ⟨by omega, hSlot⟩

lemma headsFrom_pairwise (records : List (Record format)) (front : List α) :
    (headsFrom front.length records).Pairwise (·.1 < ·.1) := by
  induction records generalizing front with
  | nil => exact List.Pairwise.nil
  | cons record records ih =>
    rw [headsFrom_cons]
    refine List.Pairwise.cons (fun e he => ?_) (ih _)
    obtain ⟨_, _⟩ := headsFrom_at record.head [] records _ e he
    have hLength : (front ++ record.slots).length = front.length + (record.tail.length + 1) := length_append
    omega

lemma Table.getElem?_head {e : Nat × α} (he : e ∈ table.heads) : table.slots[e.1]? = some e.2 :=
  (headsFrom_at table.stop table.behind table.records [] e he).2

lemma Table.heads_pairwise : table.heads.Pairwise (·.1 < ·.1) := headsFrom_pairwise table.records []

end Fixos.Records
