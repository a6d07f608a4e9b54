import Fixos.Sys.AreaShrink

/-! # The break of a process (`sys_sbrk`)

The call returns the address of the heap where it should return its end.
-/

namespace Fixos.Sys

open Arch Word Transition Option List

def VmProc.heapArea (proc : VmProc) : Option MemArea := proc.makeHeap.heap.map proc.makeHeap.area

structure SbrkAnswer where
  incr : Int
  ret : Nat
  found : MemArea
  left : MemArea
deriving DecidableEq

def sbrkCall (st : Memory × VmProc) (incr : Int32) : Option ((Memory × VmProc) × SbrkAnswer) := do
  let (m, proc, ret) ← sysSbrk st.1 st.2 incr.toInt
  let found ← st.2.heapArea
  let left ← proc.heapArea
  return ((m, proc), ⟨incr.toInt, ret, found, left⟩)

/-- Each call returns the break before it; blocks of growing calls follow each other; and a shrink leaves what is left
of the size, or nothing. -/
structure SbrkSound (answers : List SbrkAnswer) : Prop where
  returns : ∀ a ∈ answers, a.ret = a.found.address + a.found.maxSize
  adjacent : (∀ a ∈ answers, 0 < a.incr) → answers.IsChain fun a b => (b.ret : Int) = a.ret + a.incr
  disjoint : (∀ a ∈ answers, 0 < a.incr) → answers.Pairwise fun a b => (a.ret : Int) + a.incr ≤ b.ret
  shrinks : ∀ a ∈ answers, a.incr < 0 → (a.left.maxSize : Int) = max 0 (a.found.maxSize + a.incr)

variable {proc : VmProc}

lemma makeHeap_heap (h : proc.initialBrk ≠ 0) : ∃ key, proc.makeHeap.heap = some key := by
  unfold VmProc.makeHeap
  cases hHeap : proc.heap with
  | none => rw [if_pos ⟨rfl, h⟩]; exact ⟨_, rfl⟩
  | some key => rw [if_neg (by simp)]; exact ⟨key, hHeap⟩

lemma heapArea_of_heap {key : Nat} (h : proc.heap = some key) : proc.heapArea = some (proc.area key) := by
  have hMade : proc.makeHeap = proc := by
    rw [VmProc.makeHeap, if_neg (by simp [h])]
  rw [VmProc.heapArea, hMade, h]
  rfl

def answerFor (heap : MemArea) (incr : Int32) : SbrkAnswer :=
  ⟨incr.toInt, heap.address, heap, { heap with maxSize := sbrkSize heap.maxSize incr.toInt }⟩

variable {heap : MemArea}

lemma sbrkCall_answer (m : Memory) (hHeap : proc.heapArea = some heap)
    (hNonzero : ∀ vpn, proc.dirs.pageAt vpn ≠ some 0) (incr : Int32) :
    ∃ m' proc', sbrkCall (m, proc) incr = some ((m', proc'), answerFor heap incr) ∧
      proc'.heapArea = some (answerFor heap incr).left ∧ ∀ vpn, proc'.dirs.pageAt vpn ≠ some 0 := by
  obtain ⟨key, hKey, hArea⟩ := map_eq_some_iff.mp hHeap
  rw [← VmProc.makeHeap_dirs proc] at hNonzero
  obtain ⟨m', proc', hResize, hSame, hSize, hFreed⟩ := memAreaResize_freed m hNonzero key (sbrkSize heap.maxSize incr.toInt)
  have hLeft : proc'.heapArea = some (answerFor heap incr).left := by
    rw [heapArea_of_heap (hSame.trans hKey), hSize, hArea]
    rfl
  refine ⟨m', proc', ?_, hLeft, fun vpn => ?_⟩
  · have hSbrk : sysSbrk m proc incr.toInt = some (m', proc', heap.address) := by
      simp [sysSbrk, hKey, hArea, hResize]
    simp only [sbrkCall, hSbrk, hHeap, hLeft, bind_eq_bind, bind_some]
    rfl
  · rw [hFreed.pageAt]
    split
    · exact (some_ne_none 0).symm
    · exact hNonzero vpn

def answersFor : MemArea → List Int32 → List SbrkAnswer
  | _, [] => []
  | heap, incr :: calls => answerFor heap incr :: answersFor (answerFor heap incr).left calls

lemma runOut_sbrkCall (m : Memory) (hHeap : proc.heapArea = some heap)
    (hNonzero : ∀ vpn, proc.dirs.pageAt vpn ≠ some 0) (calls : List Int32) :
    ∃ st, runOut sbrkCall (m, proc) calls = some (st, answersFor heap calls) := by
  induction calls generalizing m proc heap with
  | nil => exact ⟨(m, proc), rfl⟩
  | cons incr calls ih =>
    obtain ⟨m', _, hCall, hLeft, hNonzero'⟩ := sbrkCall_answer m hHeap hNonzero incr
    obtain ⟨st, hRest⟩ := ih m' hLeft hNonzero'
    refine ⟨st, ?_⟩
    simp only [runOut, hCall, hRest, bind_eq_bind, bind_some]
    rfl

lemma sbrkSize_lt (maxSize : Nat) (incr : Int) : sbrkSize maxSize incr < 2 ^ 32 := by
  unfold sbrkSize
  split <;> omega

lemma sbrkSize_shrink {maxSize : Nat} {incr : Int} (hWord : maxSize < 2 ^ 32) (hNeg : incr < 0) :
    (sbrkSize maxSize incr : Int) = max 0 (maxSize + incr) := by
  unfold sbrkSize
  split <;> omega

lemma sbrkSize_zero (incr : Int32) : sbrkSize 0 incr.toInt = 0 ↔ incr ≤ 0 := by
  have hHigh := incr.toInt_lt
  have hZero : (0 : Int32).toInt = 0 := rfl
  rw [Int32.le_iff_toInt_le, hZero]
  unfold sbrkSize
  split <;> omega

lemma answersFor_shrinks (hWord : heap.maxSize < 2 ^ 32) (calls : List Int32) :
    ∀ a ∈ answersFor heap calls, a.incr < 0 → (a.left.maxSize : Int) = max 0 (a.found.maxSize + a.incr) := by
  induction calls generalizing heap with
  | nil => exact fun a ha => absurd ha not_mem_nil
  | cons incr calls ih =>
    rw [answersFor, forall_mem_cons]
    exact ⟨fun hNeg => sbrkSize_shrink hWord hNeg, ih (sbrkSize_lt _ _)⟩

def GrowsLast (heap : MemArea) (calls : List Int32) : Prop :=
  calls = [] ∨ heap.maxSize = 0 ∧ ∀ incr ∈ calls.dropLast, incr ≤ 0

variable {calls : List Int32}

lemma growsLast_cons {incr : Int32} (h : heap.maxSize = 0) :
    GrowsLast heap (incr :: calls) ↔ GrowsLast (answerFor heap incr).left calls := by
  have hLeft : (answerFor heap incr).left.maxSize = 0 ↔ incr ≤ 0 := by
    show sbrkSize heap.maxSize incr.toInt = 0 ↔ _
    rw [h, sbrkSize_zero]
  unfold GrowsLast
  cases calls with
  | nil => simp [h]
  | cons next calls =>
    rw [dropLast_cons_cons, forall_mem_cons, hLeft]
    simp [h]

lemma answersFor_returns_iff (heap : MemArea) (calls : List Int32) :
    (∀ a ∈ answersFor heap calls, a.ret = a.found.address + a.found.maxSize) ↔ GrowsLast heap calls := by
  induction calls generalizing heap with
  | nil => exact iff_of_true (fun a ha => absurd ha not_mem_nil) (Or.inl rfl)
  | cons incr calls ih =>
    have hFirst : (answerFor heap incr).ret = (answerFor heap incr).found.address + (answerFor heap incr).found.maxSize ↔
        heap.maxSize = 0 := by
      show heap.address = heap.address + heap.maxSize ↔ _
      omega
    rw [answersFor, forall_mem_cons, ih, hFirst]
    constructor
    · rintro ⟨hEmpty, hRest⟩
      exact (growsLast_cons hEmpty).mpr hRest
    · intro hGrows
      have hEmpty : heap.maxSize = 0 := (hGrows.resolve_left (cons_ne_nil _ _)).1
      exact ⟨hEmpty, (growsLast_cons hEmpty).mp hGrows⟩

lemma GrowsLast.eq_singleton (h : GrowsLast heap calls) (hGrow : ∀ a ∈ answersFor heap calls, 0 < a.incr) :
    calls = [] ∨ ∃ incr, calls = [incr] := by
  match calls, h, hGrow with
  | [], _, _ => exact Or.inl rfl
  | [incr], _, _ => exact Or.inr ⟨incr, rfl⟩
  | incr :: next :: calls, h, hGrow =>
    have hLow := (h.resolve_left (cons_ne_nil _ _)).2 incr mem_cons_self
    rw [Int32.le_iff_toInt_le] at hLow
    exact absurd (hGrow _ mem_cons_self) (Int.not_lt.mpr hLow)

lemma GrowsLast.sound (h : GrowsLast heap calls) (hWord : heap.maxSize < 2 ^ 32) : SbrkSound (answersFor heap calls) where
  returns := (answersFor_returns_iff heap calls).mpr h
  adjacent hGrow := by
    rcases h.eq_singleton hGrow with rfl | ⟨incr, rfl⟩
    · exact .nil
    · exact .singleton _
  disjoint hGrow := by
    rcases h.eq_singleton hGrow with rfl | ⟨incr, rfl⟩
    · exact .nil
    · exact pairwise_singleton _ _
  shrinks := answersFor_shrinks hWord calls

/-- Every sequence of calls is answered, and as it should be exactly if only the last call grows the heap. -/
theorem sbrk_sound_iff (m : Memory) (proc : VmProc) (hBrk : proc.initialBrk ≠ 0)
    (hNonzero : ∀ vpn, proc.dirs.pageAt vpn ≠ some 0) (hWord : ∀ heap ∈ proc.heapArea, heap.maxSize < 2 ^ 32)
    (calls : List Int32) :
    ∃ heap st answers, proc.heapArea = some heap ∧ runOut sbrkCall (m, proc) calls = some (st, answers) ∧
      (SbrkSound answers ↔ GrowsLast heap calls) := by
  obtain ⟨key, hKey⟩ := makeHeap_heap hBrk
  have hHeap : proc.heapArea = some (proc.makeHeap.area key) := by
    rw [VmProc.heapArea, hKey, map_some]
  obtain ⟨st, hRun⟩ := runOut_sbrkCall m hHeap hNonzero calls
  exact ⟨_, st, _, hHeap, hRun, fun h => (answersFor_returns_iff _ calls).mp h.returns, fun h => h.sound (hWord _ hHeap)⟩

def freshProc : VmProc := { VmProc.blank with initialBrk := 0x100000 }

lemma freshProc_pageAt (vpn : Nat) : freshProc.dirs.pageAt vpn = none := rfl

theorem sbrk_sound_once :
    ∃ st answers, runOut sbrkCall (twoFree, freshProc) [0, 100] = some (st, answers) ∧ SbrkSound answers ∧
      GrowsLast ⟨0x100000, 0, .anon⟩ [0, 100] := by
  have hHeap : freshProc.heapArea = some ⟨0x100000, 0, .anon⟩ := by decide
  obtain ⟨heap, st, answers, hFound, hRun, hIff⟩ := sbrk_sound_iff twoFree freshProc (by decide)
    (fun vpn => by rw [freshProc_pageAt]; exact (some_ne_none 0).symm)
    (fun heap h => by rw [hHeap] at h; cases h; decide) [0, 100]
  rw [hHeap] at hFound
  cases hFound
  have hGrows : GrowsLast ⟨0x100000, 0, .anon⟩ [0, 100] := Or.inr ⟨rfl, forall_mem_singleton.mpr (Int32.le_refl 0)⟩
  exact ⟨st, answers, hRun, hIff.mpr hGrows, hGrows⟩

theorem sbrk_returns_same_block :
    (runOut sbrkCall (twoFree, freshProc) [100, 100, 0]).map (fun r => r.2.map fun a => (a.ret, a.found.maxSize)) =
      some [(0x100000, 0), (0x100000, 100), (0x100000, 200)] := by
  decide

end Fixos.Sys
