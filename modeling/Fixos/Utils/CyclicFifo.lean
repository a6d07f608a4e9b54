import Mathlib.Data.List.Rotate
import Fixos.Lib.Run
import Fixos.Lib.Buffer

/-! # The cyclic fifo of `utils/cyclic_fifo.c`

`cfifoPush` and `cfifoPop` follow the C functions case by case, with the copies checked against the
buffer and against the caller's data.
-/

namespace Fixos.Utils

open Transition Buffer Word List Option

structure CyclicFifo where
  maxSize : Nat
  top : Nat
  size : Nat
  buffer : Bytes
deriving DecidableEq

def cfifoPush (fifo : CyclicFifo) (data : Bytes) (nb : Nat) : Option CyclicFifo :=
  let room := sub fifo.maxSize fifo.size
  let nb := if nb > room then room else nb
  if nb > 0 then
    let bottom := add fifo.top fifo.size % fifo.maxSize
    if bottom ≥ fifo.top then
      let realnb := sub fifo.maxSize bottom
      let realnb := if realnb > nb then nb else realnb
      (memcpy fifo.buffer bottom data 0 realnb).bind fun buffer =>
        (if realnb ≠ nb then memcpy buffer 0 data realnb (sub nb realnb) else some buffer).map
          fun buffer => { fifo with buffer, size := add fifo.size nb }
    else
      (memcpy fifo.buffer bottom data 0 nb).map
        fun buffer => { fifo with buffer, size := add fifo.size nb }
  else some fifo

def cfifoPop (fifo : CyclicFifo) (data : Bytes) (nb : Nat) :
    Option (CyclicFifo × Bytes) :=
  let nb := if nb > fifo.size then fifo.size else nb
  if nb > 0 then
    let endpos := sub (add fifo.top nb) 1 % fifo.maxSize
    let fifo' := { fifo with size := sub fifo.size nb, top := add endpos 1 % fifo.maxSize }
    if endpos < fifo.top then
      let realnb := sub fifo.maxSize fifo.top
      let realnb := if realnb > nb then nb else realnb
      (memcpy data 0 fifo.buffer fifo.top realnb).bind fun data =>
        (if realnb ≠ nb then memcpy data realnb fifo.buffer 0 (sub nb realnb) else some data).map
          fun data => (fifo', data)
    else
      (memcpy data 0 fifo.buffer fifo.top nb).map fun data => (fifo', data)
  else some (fifo, data)

/-- The capacity is positive and small enough that `top + size` does not wrap. -/
structure CyclicFifo.Valid (fifo : CyclicFifo) : Prop where
  pos : 0 < fifo.maxSize
  small : fifo.maxSize ≤ 2 ^ 31
  top_lt : fifo.top < fifo.maxSize
  size_le : fifo.size ≤ fifo.maxSize
  length_buffer : fifo.buffer.length = fifo.maxSize

def CyclicFifo.contents (fifo : CyclicFifo) : Bytes :=
  (fifo.buffer.rotate fifo.top).take fifo.size

variable {fifo : CyclicFifo}

lemma CyclicFifo.length_contents (h : fifo.Valid) : fifo.contents.length = fifo.size := by
  have hSize := h.size_le
  have hLength := h.length_buffer
  rw [contents, length_take, length_rotate]
  omega

lemma CyclicFifo.getElem?_contents (h : fifo.Valid) {i : Nat} (hi : i < fifo.size) :
    fifo.contents[i]? = fifo.buffer[(fifo.top + i) % fifo.maxSize]? := by
  have hLength := h.length_buffer
  have hSize := h.size_le
  rw [contents, getElem?_take_of_lt hi, getElem?_rotate (by omega), hLength, Nat.add_comm i]

lemma CyclicFifo.contents_ext (h : fifo.Valid) {items : Bytes} (hLength : items.length = fifo.size)
    (hItems : ∀ i < fifo.size, fifo.buffer[(fifo.top + i) % fifo.maxSize]? = items[i]?) :
    fifo.contents = items := by
  apply ext_getElem?
  intro i
  by_cases hi : i < fifo.size
  · rw [getElem?_contents h hi, hItems i hi]
  · have hContents := length_contents h
    rw [getElem?_eq_none (by omega), getElem?_eq_none (by omega)]

def CyclicFifo.accepted (fifo : CyclicFifo) (nb : Nat) : Nat := min nb (fifo.maxSize - fifo.size)

variable {data : Bytes} {nb : Nat}

/-- Both copies stay inside the buffer and inside the caller's data. -/
lemma cfifoPush_eq (h : fifo.Valid) (hData : nb ≤ data.length) : ∃ buffer, cfifoPush fifo data nb =
        some { fifo with buffer, size := fifo.size + fifo.accepted nb } ∧
      RingStore fifo.buffer ((fifo.top + fifo.size) % fifo.maxSize) data (fifo.accepted nb) buffer := by
  have hTop := h.top_lt
  have hSize := h.size_le
  have hSmall := h.small
  have hLength := h.length_buffer
  have hRoom : sub fifo.maxSize fifo.size = fifo.maxSize - fifo.size := sub_of_le hSize (by omega)
  have hEnd : add fifo.top fifo.size = fifo.top + fifo.size := add_of_lt (by omega)
  have hAccepted : (if nb > fifo.maxSize - fifo.size then fifo.maxSize - fifo.size else nb) = fifo.accepted nb := by
    unfold CyclicFifo.accepted
    split <;> omega
  have hFits : fifo.accepted nb ≤ fifo.maxSize - fifo.size := Nat.min_le_right _ _
  have hTaken : fifo.accepted nb ≤ data.length := (Nat.min_le_left _ _).trans hData
  have hSum : add fifo.size (fifo.accepted nb) = fifo.size + fifo.accepted nb := add_of_lt (by omega)
  simp only [cfifoPush, hRoom, hEnd, hAccepted, hSum]
  generalize fifo.accepted nb = n at *
  have hBottom := mod_eq_wrap (by omega : fifo.top + fifo.size < 2 * fifo.maxSize)
  generalize (fifo.top + fifo.size) % fifo.maxSize = bottom at *
  have hBottomLt : bottom < fifo.maxSize := by split at hBottom <;> omega
  have hReal : sub fifo.maxSize bottom = fifo.maxSize - bottom := sub_of_le hBottomLt.le (by omega)
  by_cases hn : n > 0
  · rw [if_pos hn]
    by_cases hAfter : bottom ≥ fifo.top
    · rw [if_pos hAfter, hReal]
      by_cases hWrap : fifo.maxSize - bottom < n
      · have hRest : sub n (fifo.maxSize - bottom) = n - (fifo.maxSize - bottom) := sub_of_le (by omega) (by omega)
        obtain ⟨_, out, hMid, hOut, hStore⟩ :=
          ringStore_split (by omega) hTaken (by omega : bottom < fifo.buffer.length) (by omega)
        rw [hLength] at hMid hOut
        refine ⟨out, ?_, hStore⟩
        rw [if_neg (by omega), hMid, bind_some, if_pos (by omega), hRest, hOut]
        rfl
      · have hMin : (if fifo.maxSize - bottom > n then n else fifo.maxSize - bottom) = n := by
          split <;> omega
        obtain ⟨out, hOut, hStore⟩ := ringStore_single (by omega : bottom + n ≤ fifo.buffer.length) hTaken (by omega)
        refine ⟨out, ?_, hStore⟩
        rw [hMin, hOut, bind_some, if_neg (by simp)]
        rfl
    · -- the occupied cells already wrap, so the free ones are contiguous
      have hFree : bottom + n ≤ fifo.buffer.length := by split at hBottom <;> omega
      obtain ⟨out, hOut, hStore⟩ := ringStore_single hFree hTaken (by omega)
      exact ⟨out, by rw [if_neg hAfter, hOut]; rfl, hStore⟩
  · have hZero : n = 0 := by omega
    subst hZero
    exact ⟨fifo.buffer, by rw [if_neg hn]; rfl, rfl, fun k hk => by omega, fun _ _ _ => rfl⟩

lemma cfifoPush_spec (h : fifo.Valid) (hData : nb ≤ data.length) :
    ∃ fifo', cfifoPush fifo data nb = some fifo' ∧ fifo'.Valid ∧ fifo'.maxSize = fifo.maxSize ∧
      fifo'.contents = BoundedQueue.push fifo.maxSize fifo.contents (data.take nb) := by
  obtain ⟨buffer, hPush, hStore⟩ := cfifoPush_eq h hData
  have hTop := h.top_lt
  have hSize := h.size_le
  have hLength := h.length_buffer
  have hFits : fifo.accepted nb ≤ fifo.maxSize - fifo.size := Nat.min_le_right _ _
  have hValid : CyclicFifo.Valid { fifo with buffer, size := fifo.size + fifo.accepted nb } :=
    ⟨h.pos, h.small, hTop, by simp only; omega, hStore.length_eq.trans hLength⟩
  refine ⟨_, hPush, hValid, rfl, ?_⟩
  have hQueued := CyclicFifo.length_contents h
  have hAppended : (data.take nb).take (fifo.maxSize - fifo.size) = data.take (fifo.accepted nb) := by
    rw [take_take, CyclicFifo.accepted, Nat.min_comm]
  rw [BoundedQueue.push, hQueued, hAppended]
  apply CyclicFifo.contents_ext hValid
  · rw [length_append, length_take, hQueued]
    simp only [CyclicFifo.accepted]
    omega
  · intro i hi
    simp only at hi ⊢
    by_cases hOld : i < fifo.size
    · -- cell `top + i` is `maxSize - size + i` cells after the first cell written
      have hCell : (fifo.top + i) % fifo.maxSize =
          ((fifo.top + fifo.size) % fifo.maxSize + (fifo.maxSize - fifo.size + i)) % fifo.maxSize := by
        rw [Nat.mod_add_mod, ← Nat.add_mod_right (fifo.top + i)]
        congr 1
        omega
      have hKept := hStore.kept (fifo.maxSize - fifo.size + i) (by omega) (by omega)
      rw [hLength, ← hCell] at hKept
      rw [hKept, getElem?_append_left (by omega), CyclicFifo.getElem?_contents h hOld]
    · have hStored := hStore.stored (i - fifo.size) (by omega)
      rw [hLength, Nat.mod_add_mod, show fifo.top + fifo.size + (i - fifo.size) = fifo.top + i by omega] at hStored
      rw [hStored, getElem?_append_right (by omega), hQueued, getElem?_take_of_lt (by omega)]

def CyclicFifo.delivered (fifo : CyclicFifo) (nb : Nat) : Nat := min nb fifo.size

lemma cfifoPop_eq (h : fifo.Valid) (hData : nb ≤ data.length) : ∃ out, cfifoPop fifo data nb = some ({ fifo with
          size := fifo.size - fifo.delivered nb
          top := (fifo.top + fifo.delivered nb) % fifo.maxSize }, out) ∧
      RingLoad data fifo.buffer fifo.top (fifo.delivered nb) out := by
  have hTop := h.top_lt
  have hSize := h.size_le
  have hSmall := h.small
  have hLength := h.length_buffer
  have hDelivered : (if nb > fifo.size then fifo.size else nb) = fifo.delivered nb := by
    unfold CyclicFifo.delivered
    split <;> omega
  have hFits : fifo.delivered nb ≤ fifo.size := Nat.min_le_right _ _
  have hTaken : fifo.delivered nb ≤ data.length := (Nat.min_le_left _ _).trans hData
  have hLeft : sub fifo.size (fifo.delivered nb) = fifo.size - fifo.delivered nb := sub_of_le hFits (by omega)
  simp only [cfifoPop, hDelivered, hLeft]
  generalize fifo.delivered nb = n at *
  by_cases hn : n > 0
  · have hLast : sub (add fifo.top n) 1 = fifo.top + n - 1 := by
      rw [add_of_lt (by omega), sub_of_le (by omega) (by omega)]
    have hEnd := mod_eq_wrap (by omega : fifo.top + n - 1 < 2 * fifo.maxSize)
    have hNext : add ((fifo.top + n - 1) % fifo.maxSize) 1 % fifo.maxSize = (fifo.top + n) % fifo.maxSize := by
      have hLt := Nat.mod_lt (fifo.top + n - 1) h.pos
      rw [add_of_lt (by omega), Nat.mod_add_mod, Nat.sub_add_cancel (by omega)]
    rw [if_pos hn, hLast, hNext]
    generalize (fifo.top + n - 1) % fifo.maxSize = endpos at *
    by_cases hWrap : endpos < fifo.top
    · have hCross : fifo.maxSize - fifo.top < n := by split at hEnd <;> omega
      have hReal : sub fifo.maxSize fifo.top = fifo.maxSize - fifo.top := sub_of_le hTop.le (by omega)
      have hRest : sub n (fifo.maxSize - fifo.top) = n - (fifo.maxSize - fifo.top) := sub_of_le (by omega) (by omega)
      obtain ⟨_, out, hMid, hOut, hLoad⟩ :=
        ringLoad_split hTaken (by omega) (by omega : fifo.top < fifo.buffer.length) (by omega)
      rw [hLength] at hMid hOut
      refine ⟨out, ?_, hLoad⟩
      rw [if_pos hWrap, hReal, if_neg (by omega), hMid, bind_some, if_pos (by omega), hRest, hOut]
      rfl
    · have hInside : fifo.top + n ≤ fifo.buffer.length := by split at hEnd <;> omega
      obtain ⟨out, hOut, hLoad⟩ := ringLoad_single hTaken hInside
      exact ⟨out, by rw [if_neg hWrap, hOut]; rfl, hLoad⟩
  · have hZero : n = 0 := by omega
    subst hZero
    refine ⟨data, ?_, rfl, fun k hk => by omega, fun _ _ => rfl⟩
    rw [if_neg hn]
    simp [Nat.mod_eq_of_lt hTop]

lemma cfifoPop_spec (h : fifo.Valid) (hData : nb ≤ data.length) : ∃ fifo', cfifoPop fifo data nb =
        some (fifo', splice data 0 (BoundedQueue.pop fifo.contents nb).1) ∧
      fifo'.Valid ∧ fifo'.maxSize = fifo.maxSize ∧
      fifo'.contents = (BoundedQueue.pop fifo.contents nb).2 := by
  obtain ⟨out, hPop, hLoad⟩ := cfifoPop_eq h hData
  have hSize := h.size_le
  have hLength := h.length_buffer
  have hQueued := CyclicFifo.length_contents h
  have hFits : fifo.delivered nb ≤ fifo.size := Nat.min_le_right _ _
  have hTaken : (fifo.contents.take nb).length = fifo.delivered nb := by
    rw [length_take, hQueued, CyclicFifo.delivered]
  have hRoom : fifo.delivered nb ≤ data.length := (Nat.min_le_left _ _).trans hData
  have hOut : out = splice data 0 (fifo.contents.take nb) := by
    apply ext_getElem?
    intro i
    rw [getElem?_splice (by omega), hTaken]
    by_cases hi : i < fifo.delivered nb
    · have hLow : i < nb := hi.trans_le (Nat.min_le_left _ _)
      rw [hLoad.loaded i hi, hLength, if_pos (by omega), getElem?_take_of_lt (by omega),
        CyclicFifo.getElem?_contents h (by omega), Nat.sub_zero]
    · rw [hLoad.kept i (by omega), if_neg (by omega)]
  have hValid : CyclicFifo.Valid { fifo with
      size := fifo.size - fifo.delivered nb
      top := (fifo.top + fifo.delivered nb) % fifo.maxSize } :=
    ⟨h.pos, h.small, Nat.mod_lt _ h.pos, by simp only; omega, hLength⟩
  refine ⟨_, by rw [hPop, hOut]; rfl, hValid, rfl, ?_⟩
  apply CyclicFifo.contents_ext hValid
  · simp only [BoundedQueue.pop, length_drop, hQueued, CyclicFifo.delivered]
    omega
  · intro i hi
    simp only [CyclicFifo.delivered] at hi ⊢
    simp only [BoundedQueue.pop, getElem?_drop]
    rw [Nat.mod_add_mod, CyclicFifo.getElem?_contents h (by omega)]
    congr 2
    omega

structure CyclicFifo.Carries (fifo : CyclicFifo) (capacity : Nat) (sent received : Bytes) : Prop where
  valid : fifo.Valid
  maxSize_eq : fifo.maxSize = capacity
  sent_eq : sent = received ++ fifo.contents

section

variable {fifo : CyclicFifo} {capacity nb : Nat} {sent received data : Bytes}

lemma CyclicFifo.carries_of_empty (h : fifo.Valid) (hEmpty : fifo.size = 0) : fifo.Carries fifo.maxSize [] [] :=
  ⟨h, rfl, by rw [contents, hEmpty, take_zero]; rfl⟩

section

variable (h : fifo.Carries capacity sent received)
include h

lemma CyclicFifo.Carries.in_order : received <+: sent := ⟨fifo.contents, h.sent_eq.symm⟩

lemma CyclicFifo.Carries.length_sent : sent.length = received.length + fifo.size := by
  rw [h.sent_eq, length_append, length_contents h.valid]

lemma CyclicFifo.Carries.length_sent_le : sent.length ≤ received.length + capacity := by
  have hSize := h.valid.size_le
  rw [h.maxSize_eq] at hSize
  rw [h.length_sent]
  omega

lemma CyclicFifo.Carries.push (hData : nb ≤ data.length) (hRoom : nb ≤ capacity - fifo.size) :
    ∃ fifo', cfifoPush fifo data nb = some fifo' ∧ fifo'.Carries capacity (sent ++ data.take nb) received := by
  obtain ⟨fifo', hPush, hValid, hMax, hContents⟩ := cfifoPush_spec h.valid hData
  refine ⟨fifo', hPush, hValid, hMax.trans h.maxSize_eq, ?_⟩
  have hFits : (data.take nb).length ≤ fifo.maxSize - fifo.contents.length := by
    rw [length_contents h.valid, h.maxSize_eq, length_take]
    omega
  rw [hContents, BoundedQueue.push, take_of_length_le hFits, h.sent_eq, append_assoc]

lemma CyclicFifo.Carries.pop (hData : nb ≤ data.length) (hSize : nb ≤ fifo.size) :
    ∃ fifo' bytes, cfifoPop fifo data nb = some (fifo', splice data 0 bytes) ∧ bytes.length = nb ∧
      fifo'.Carries capacity sent (received ++ bytes) := by
  obtain ⟨fifo', hPop, hValid, hMax, hContents⟩ := cfifoPop_spec h.valid hData
  refine ⟨fifo', _, hPop, ?_, hValid, hMax.trans h.maxSize_eq, ?_⟩
  · rw [BoundedQueue.pop, length_take, length_contents h.valid]
    omega
  · rw [hContents, BoundedQueue.pop, append_assoc, take_append_drop, h.sent_eq]

end

end

inductive FifoCall where
  | push (data : Bytes) (nb : Nat) (hNb : nb < 2 ^ 32) (hData : nb ≤ data.length)
  | pop (data : Bytes) (nb : Nat) (hNb : nb < 2 ^ 32) (hData : nb ≤ data.length)

def CyclicFifo.call (fifo : CyclicFifo) : FifoCall → Option (CyclicFifo × Bytes)
  | .push data nb _ _ => (cfifoPush fifo data nb).map fun fifo => (fifo, data)
  | .pop data nb _ _ => cfifoPop fifo data nb

/-- A push appends the first bytes that fit, a pop writes the first bytes queued over the start of the caller's data. -/
def queueCall (capacity : Nat) (items : Bytes) : FifoCall → Bytes × Bytes
  | .push data nb _ _ => (BoundedQueue.push capacity items (data.take nb), data)
  | .pop data nb _ _ =>
    ((BoundedQueue.pop items nb).2, splice data 0 (BoundedQueue.pop items nb).1)

structure CyclicFifo.Refines (capacity : Nat) (fifo : CyclicFifo) (items : Bytes) : Prop where
  valid : fifo.Valid
  maxSize_eq : fifo.maxSize = capacity
  contents_eq : fifo.contents = items

lemma CyclicFifo.call_refines (capacity : Nat) (fifo : CyclicFifo) (items : Bytes)
    (call : FifoCall) (h : fifo.Refines capacity items) :
    ∃ fifo', fifo.call call = some (fifo', (queueCall capacity items call).2) ∧
      fifo'.Refines capacity (queueCall capacity items call).1 := by
  obtain ⟨hValid, rfl, rfl⟩ := h
  cases call with
  | push data nb _ hData =>
    obtain ⟨fifo', hPush, hValid', hMax, hContents⟩ := cfifoPush_spec hValid hData
    exact ⟨fifo', by simp only [call, hPush, map_some, queueCall], hValid', hMax, hContents⟩
  | pop data nb _ hData =>
    obtain ⟨fifo', hPop, hValid', hMax, hContents⟩ := cfifoPop_spec hValid hData
    exact ⟨fifo', hPop, hValid', hMax, hContents⟩

/-- Every sequence of calls on a fifo that starts empty acts as on a bounded queue, and no copy leaves its buffer. -/
theorem cfifo_calls_refine_queue (fifo : CyclicFifo) (hValid : fifo.Valid) (hEmpty : fifo.size = 0)
    (calls : List FifoCall) :
    ∃ fifo', runOut CyclicFifo.call fifo calls = some (fifo', (specOut (queueCall fifo.maxSize) [] calls).2) ∧
      fifo'.contents = (specOut (queueCall fifo.maxSize) [] calls).1 ∧
      fifo'.maxSize = fifo.maxSize ∧ fifo'.top < fifo'.maxSize ∧ fifo'.size ≤ fifo'.maxSize := by
  have hInit : fifo.Refines fifo.maxSize [] := ⟨hValid, rfl, by rw [CyclicFifo.contents, hEmpty, take_zero]⟩
  obtain ⟨fifo', hRun, hFinal⟩ := runOut_refines (CyclicFifo.call_refines fifo.maxSize) calls fifo [] hInit
  exact ⟨fifo', hRun, hFinal.contents_eq, hFinal.maxSize_eq, hFinal.valid.top_lt, hFinal.valid.size_le⟩

theorem cfifo_calls_refine_queue_four : ∃ fifo', runOut CyclicFifo.call ⟨4, 3, 0, [0, 0, 0, 0]⟩
        [.push [1, 2, 3] 3 (by decide) (by decide), .pop [0, 0] 2 (by decide) (by decide),
          .push [4, 5, 6, 7] 4 (by decide) (by decide)] =
        some (fifo', [[1, 2, 3], [1, 2], [4, 5, 6, 7]]) ∧
      fifo'.contents = [3, 4, 5, 6] ∧
      fifo'.maxSize = 4 ∧ fifo'.top < fifo'.maxSize ∧ fifo'.size ≤ fifo'.maxSize :=
  cfifo_calls_refine_queue ⟨4, 3, 0, [0, 0, 0, 0]⟩ ⟨by decide, by decide, by decide, by decide, rfl⟩ rfl _

end Fixos.Utils
